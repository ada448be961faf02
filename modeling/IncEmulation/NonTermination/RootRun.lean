import IncEmulation.NonTermination.Log
import IncEmulation.NonTermination.Root

/-!
# Runs of the root switch

The log determines, for every number, the slot that only this number's packets
would have filled.  In every run the sixteen slots agree with these, so what was
logged is what one slot for every number would have sent.
-/

namespace IncEmulation.NonTermination

open Machine SlotRing

/-- The packet took the branch of a first transmission and was the last one. -/
def Handled.broadcasts (entry : Handled) : Bool :=
  !entry.retransmitted && !entry.frames.isEmpty

/-- What the log of a root switch shows. -/
structure RootCorrect (fanIn : Nat) (traffic : Traffic)
    (log : List Handled) : Prop where
  fresh : ∀ before entry after, log = before ++ entry :: after →
    (∀ earlier ∈ before, earlier.number ≠ entry.number) →
      entry.tables.Zero fanIn (idx entry.number)
  retransmitted : ∀ before entry after, log = before ++ entry :: after →
    (entry.retransmitted = true ↔ Arrived before entry.port entry.number)
  broadcastOnce : ∀ number,
    (log.countP fun entry => entry.number = number && entry.broadcasts) =
      if ∀ port < fanIn, Arrived log port number then 1 else 0
  broadcastToAll : ∀ entry ∈ log, entry.broadcasts = true →
    entry.frames.map Emission.port = List.range fanIn
  replyToSender : ∀ entry ∈ log, entry.retransmitted = true →
    ∀ frame ∈ entry.frames, frame.port = entry.port
  result : ∀ entry ∈ log, ∀ frame ∈ entry.frames,
    frame.psn = entry.number % 2 ^ 24 ∧
      frame.data = traffic.result fanIn entry.number
  reth : ∀ entry ∈ log, ∀ frame ∈ entry.frames,
    traffic.transfer entry.number = .write →
      frame.reth = some (traffic.reth entry.number frame.port)

/-- The slots that the logged packets would have filled, one per number. -/
def ledger (fanIn : Nat) (traffic : Traffic) (log : List Handled) :
    Nat → Slot :=
  log.foldl (fun slots entry =>
    ((upwardCell fanIn).spread slots entry.number
      ⟨entry.port, traffic.transfer entry.number, entry.packet⟩).1)
    fun _ => .blank

/-- What holds of the channels of the children. -/
structure Channels (fanIn : Nat) (traffic : Traffic) (system : System) :
    Prop where
  childrenOnly : ∀ port, system.up port ≠ [] → port < fanIn
  fits : ∀ port, ∀ sent ∈ system.up port,
    traffic.Fits sent.number port sent.packet
  seen : ∀ port, ∀ sent ∈ system.up port, ∀ earlier,
    earlier + windowSize ≤ sent.number → (port, earlier) ∈ system.received
  seenLogged : ∀ entry ∈ system.log, ∀ earlier,
    earlier + windowSize ≤ entry.number →
      (entry.port, earlier) ∈ system.received
  ordered : ∀ port, (system.up port).Pairwise fun first second =>
    first.number < second.number + windowSize
  behind : ∀ entry ∈ system.log, ∀ sent ∈ system.up entry.port,
    entry.number < sent.number + windowSize

/-- What holds of the tables and the log. -/
structure Recorded (fanIn : Nat) (traffic : Traffic) (system : System) :
    Prop where
  agrees : (upwardCell fanIn).Agrees windowSize (system.tables.slot fanIn)
    (ledger fanIn traffic system.log)
  sound : ∀ number,
    (ledger fanIn traffic system.log number).Sound fanIn traffic number
  arrived : ∀ number, ∀ port < fanIn,
    ((ledger fanIn traffic system.log number).arrived port = true ↔
      Arrived system.log port number)
  children : ∀ entry ∈ system.log, entry.port < fanIn
  answered : ∀ entry ∈ system.log, ∀ frame ∈ entry.frames,
    (ledger fanIn traffic system.log entry.number).complete fanIn = true
  complete : ∀ port number, (port, number) ∈ system.received →
    (ledger fanIn traffic system.log number).complete fanIn = true
  correct : RootCorrect fanIn traffic system.log

section Channels

variable {fanIn : Nat} {traffic : Traffic} {system : System}

theorem Channels.init : Channels fanIn traffic .init := by
  refine ⟨fun _ used => absurd rfl used, ?_, ?_, ?_, fun _ => .nil, ?_⟩ <;>
    simp [System.init]

theorem Channels.shrink (channels : Channels fanIn traffic system)
    {up : Nat → List Sent}
    (sublist : ∀ port, (up port).Sublist (system.up port)) :
    Channels fanIn traffic { system with up := up } where
  childrenOnly port used := by
    refine channels.childrenOnly port fun empty => used ?_
    have sub := sublist port
    rw [empty] at sub
    exact List.sublist_nil.mp sub
  fits port sent member := channels.fits port sent ((sublist port).subset member)
  seen port sent member :=
    channels.seen port sent ((sublist port).subset member)
  seenLogged := channels.seenLogged
  ordered port := (channels.ordered port).sublist (sublist port)
  behind entry logged sent member :=
    channels.behind entry logged sent ((sublist entry.port).subset member)

theorem Channels.send (channels : Channels fanIn traffic system)
    {port number : Nat} {packet : Packet} (isChild : port < fanIn)
    (seen : system.SeenBefore port number)
    (unseen : (port, number) ∉ system.received)
    (fits : traffic.Fits number port packet) :
    Channels fanIn traffic
      { system with
        up := Function.update system.up port
          (system.up port ++ [⟨number, packet⟩]) } := by
  have cases : ∀ other, ∀ sent ∈ Function.update system.up port
      (system.up port ++ [⟨number, packet⟩]) other,
      sent ∈ system.up other ∨ other = port ∧ sent = ⟨number, packet⟩ :=
    fun other sent member => mem_update_append member
  -- A packet far ahead of the new one would have seen its result.
  have notAhead : ∀ ahead, (∀ earlier, earlier + windowSize ≤ ahead →
      (port, earlier) ∈ system.received) → ahead < number + windowSize :=
    fun ahead saw => Nat.lt_of_not_le fun far => unseen (saw number far)
  refine ⟨fun other used => ?_, fun other sent member => ?_,
    fun other sent member => ?_, channels.seenLogged, fun other => ?_,
    fun entry logged sent member => ?_⟩
  · by_cases same : other = port
    · exact same ▸ isChild
    · refine channels.childrenOnly other ?_
      dsimp only at used
      rwa [Function.update_of_ne same] at used
  · rcases cases other sent member with old | ⟨rfl, rfl⟩
    · exact channels.fits other sent old
    · exact fits
  · rcases cases other sent member with old | ⟨rfl, rfl⟩
    · exact channels.seen other sent old
    · exact fun _ before => seen_of_seenBefore seen before
  · by_cases same : other = port
    · subst same
      dsimp only
      rw [Function.update_self]
      refine List.pairwise_append.mpr
        ⟨channels.ordered other, List.pairwise_singleton .., ?_⟩
      intro first old second new
      rw [List.mem_singleton.mp new]
      exact notAhead _ (channels.seen other first old)
    · dsimp only
      rw [Function.update_of_ne same]
      exact channels.ordered other
  · rcases cases entry.port sent member with old | ⟨same, rfl⟩
    · exact channels.behind entry logged sent old
    · refine notAhead _ ?_
      rw [← same]
      exact channels.seenLogged entry logged

theorem Channels.receive (channels : Channels fanIn traffic system)
    (port number : Nat) :
    Channels fanIn traffic
      { system with received := (port, number) :: system.received } where
  childrenOnly := channels.childrenOnly
  fits := channels.fits
  seen other sent member earlier before :=
    List.mem_cons_of_mem _ (channels.seen other sent member earlier before)
  seenLogged entry logged earlier before :=
    List.mem_cons_of_mem _ (channels.seenLogged entry logged earlier before)
  ordered := channels.ordered
  behind := channels.behind

theorem Channels.arrive (channels : Channels fanIn traffic system)
    {port : Nat} {sent : Sent} {rest : List Sent}
    (head : system.up port = sent :: rest) (tables : Tables) (entry : Handled)
    (samePort : entry.port = port) (sameNumber : entry.number = sent.number) :
    Channels fanIn traffic
      { system with
        up := Function.update system.up port rest
        tables := tables
        log := system.log ++ [entry] } := by
  have member : sent ∈ system.up port := by
    rw [head]
    exact List.mem_cons_self
  have shorter : rest.Sublist (system.up port) := by
    rw [head]
    exact List.sublist_cons_self ..
  have shrunk := channels.shrink (update_sublist shorter)
  refine ⟨shrunk.childrenOnly, shrunk.fits, shrunk.seen, ?_, shrunk.ordered, ?_⟩
  · intro logged inLog
    rcases List.mem_append.mp inLog with old | new
    · exact channels.seenLogged logged old
    · rw [List.mem_singleton.mp new, samePort, sameNumber]
      exact channels.seen port sent member
  · intro logged inLog
    rcases List.mem_append.mp inLog with old | new
    · exact shrunk.behind logged old
    · rw [List.mem_singleton.mp new, samePort, sameNumber]
      have ordered := channels.ordered port
      rw [head, List.pairwise_cons] at ordered
      intro later inRest
      refine ordered.1 later ?_
      dsimp only at inRest
      rwa [Function.update_self] at inRest

end Channels

section Ledger

variable {fanIn : Nat} {traffic : Traffic} {log : List Handled}
  {entry : Handled}

theorem ledger_append :
    ledger fanIn traffic (log ++ [entry]) =
      ((upwardCell fanIn).spread (ledger fanIn traffic log) entry.number
        ⟨entry.port, traffic.transfer entry.number, entry.packet⟩).1 := by
  rw [ledger, List.foldl_append]
  rfl

theorem ledger_append_self :
    ledger fanIn traffic (log ++ [entry]) entry.number =
      ((ledger fanIn traffic log entry.number).handleUpRoot fanIn
        (traffic.transfer entry.number) entry.port entry.packet).1 := by
  rw [ledger_append]
  exact Function.update_self ..

theorem ledger_append_of_ne {number : Nat} (other : number ≠ entry.number) :
    ledger fanIn traffic (log ++ [entry]) number =
      ledger fanIn traffic log number := by
  rw [ledger_append]
  exact Function.update_of_ne other ..

theorem ledger_eq_blank {number : Nat}
    (none : ∀ entry ∈ log, entry.number ≠ number) :
    ledger fanIn traffic log number = .blank := by
  induction log using List.reverseRecOn with
  | nil => rfl
  | append_singleton log entry induction =>
      have other : number ≠ entry.number :=
        (none entry (List.mem_append_right _ List.mem_cons_self)).symm
      rw [ledger_append_of_ne other]
      exact induction fun earlier inLog =>
        none earlier (List.mem_append_left _ inLog)

end Ledger

section Recorded

variable {fanIn : Nat} {traffic : Traffic} {system : System}

/-- An entry of the pipeline that found the slot the log determines. -/
structure Handled.Follows (fanIn : Nat) (traffic : Traffic)
    (log : List Handled) (entry : Handled) : Prop where
  isChild : entry.port < fanIn
  fits : traffic.Fits entry.number entry.port entry.packet
  slot : entry.tables.slot fanIn (idx entry.number) =
    ledger fanIn traffic log entry.number
  frames : entry.frames =
    ((ledger fanIn traffic log entry.number).handleUpRoot fanIn
      (traffic.transfer entry.number) entry.port entry.packet).2

theorem idx_psn_ahead {number : Nat} {packet : Packet} {payload : Nat → Word}
    (carries : Carries packet number payload) :
    idx (packet.psn + windowSize) = idx (number + windowSize) := by
  rw [carries.1, idx, idx, slotCount, windowSize]
  omega

theorem Handled.Follows.retransmitted {log : List Handled} {entry : Handled}
    (follows : entry.Follows fanIn traffic log) (valid : ValidFanIn fanIn) :
    entry.retransmitted =
      (ledger fanIn traffic log entry.number).arrived entry.port := by
  rw [Handled.retransmitted,
    recvFromPort_eq fanIn _ _ (follows.isChild.trans valid.bound),
    idx_psn follows.fits.1, follows.slot]

theorem Handled.Follows.broadcasts {log : List Handled} {entry : Handled}
    (follows : entry.Follows fanIn traffic log) (valid : ValidFanIn fanIn) :
    entry.broadcasts =
      (!(ledger fanIn traffic log entry.number).full fanIn &&
        (ledger fanIn traffic (log ++ [entry]) entry.number).full fanIn) := by
  rw [Handled.broadcasts, follows.retransmitted valid, follows.frames,
    handleUpRoot_broadcasts valid follows.isChild, ledger_append_self]

theorem full_ledger {log : List Handled} {number : Nat}
    (arrived : ∀ port < fanIn,
      ((ledger fanIn traffic log number).arrived port = true ↔
        Arrived log port number)) :
    (if ∀ port < fanIn, Arrived log port number then 1 else 0) =
      if (ledger fanIn traffic log number).full fanIn = true then 1 else 0 := by
  refine if_congr ?_ rfl rfl
  rw [full_iff]
  exact forall₂_congr fun port isChild => (arrived port isChild).symm

theorem full_append {log : List Handled} {entry : Handled}
    (full : (ledger fanIn traffic log entry.number).full fanIn = true) :
    (ledger fanIn traffic (log ++ [entry]) entry.number).full fanIn =
      true := by
  rw [ledger_append_self]
  exact full_iff.mpr fun port isChild =>
    (handleUpRoot_arrived isChild).mpr
      (Or.inl (full_iff.mp full port isChild))

theorem ledger_arrived_append {log : List Handled} (entry : Handled)
    (number : Nat) {child : Nat} (isChild : child < fanIn)
    (arrived : (ledger fanIn traffic log number).arrived child = true ↔
      Arrived log child number) :
    (ledger fanIn traffic (log ++ [entry]) number).arrived child = true ↔
      Arrived (log ++ [entry]) child number := by
  rw [arrived_append, ← arrived]
  by_cases here : number = entry.number
  · subst here
    rw [ledger_append_self, handleUpRoot_arrived isChild]
    exact or_congr Iff.rfl
      ⟨fun same => ⟨same.symm, rfl⟩, fun same => same.1.symm⟩
  · rw [ledger_append_of_ne here]
    simp [Ne.symm here]

theorem Handled.Follows.broadcastOnce {log : List Handled} {entry : Handled}
    (follows : entry.Follows fanIn traffic log) (valid : ValidFanIn fanIn)
    (number : Nat)
    (once : (log.countP fun each =>
        each.number = number && each.broadcasts) =
      if (ledger fanIn traffic log number).full fanIn = true then 1 else 0) :
    ((log ++ [entry]).countP fun each =>
        each.number = number && each.broadcasts) =
      if (ledger fanIn traffic (log ++ [entry]) number).full fanIn = true then 1
      else 0 := by
  rw [List.countP_append, once, List.countP_singleton]
  by_cases same : entry.number = number
  · subst same
    rw [follows.broadcasts valid]
    cases full : (ledger fanIn traffic log entry.number).full fanIn with
    | true => simp [full_append full]
    | false => simp
  · rw [ledger_append_of_ne (Ne.symm same)]
    simp [same]

/-- The log stays correct when such an entry is appended. -/
theorem RootCorrect.append {log : List Handled} {entry : Handled}
    (correct : RootCorrect fanIn traffic log) (valid : ValidFanIn fanIn)
    (root : traffic.root = true)
    (sound : ∀ number,
      (ledger fanIn traffic log number).Sound fanIn traffic number)
    (arrived : ∀ number, ∀ port < fanIn,
      ((ledger fanIn traffic log number).arrived port = true ↔
        Arrived log port number))
    (arrivedNext : ∀ number, ∀ port < fanIn,
      ((ledger fanIn traffic (log ++ [entry]) number).arrived port = true ↔
        Arrived (log ++ [entry]) port number))
    (follows : entry.Follows fanIn traffic log) :
    RootCorrect fanIn traffic (log ++ [entry]) := by
  have again := follows.retransmitted valid
  refine ⟨?_, ?_, ?_, ?_, ?_, ?_, ?_⟩
  · intro before each after split none
    rcases split_append split with ⟨rfl, rfl⟩ | ⟨shorter, earlier⟩
    · refine Tables.zero_of_slot ?_
      rw [follows.slot]
      exact ledger_eq_blank none
    · exact correct.fresh before each shorter earlier none
  · intro before each after split
    rcases split_append split with ⟨rfl, rfl⟩ | ⟨shorter, earlier⟩
    · rw [again]
      exact arrived _ _ follows.isChild
    · exact correct.retransmitted before each shorter earlier
  · intro number
    rw [full_ledger (arrivedNext number)]
    refine follows.broadcastOnce valid number ?_
    rw [← full_ledger (arrived number)]
    exact correct.broadcastOnce number
  · intro each member broadcasts
    rcases List.mem_append.mp member with old | new
    · exact correct.broadcastToAll each old broadcasts
    · rw [List.mem_singleton.mp new] at broadcasts ⊢
      obtain ⟨first, answered⟩ := Bool.and_eq_true_iff.mp broadcasts
      rw [again, Bool.not_eq_true'] at first
      rw [follows.frames, Bool.not_eq_true'] at answered
      rw [follows.frames]
      exact handleUpRoot_toAll first answered
  · intro each member repeated frame sent
    rcases List.mem_append.mp member with old | new
    · exact correct.replyToSender each old repeated frame sent
    · rw [List.mem_singleton.mp new] at repeated sent ⊢
      rw [again] at repeated
      rw [follows.frames] at sent
      exact handleUpRoot_toSender repeated sent
  · intro each member frame sent
    rcases List.mem_append.mp member with old | new
    · exact correct.result each old frame sent
    · rw [List.mem_singleton.mp new] at sent ⊢
      rw [follows.frames] at sent
      obtain ⟨psn, data, -⟩ :=
        (sound entry.number).frames follows.isChild follows.fits root sent
      exact ⟨psn.trans follows.fits.1.1, data⟩
  · intro each member frame sent
    rcases List.mem_append.mp member with old | new
    · exact correct.reth each old frame sent
    · rw [List.mem_singleton.mp new] at sent ⊢
      rw [follows.frames] at sent
      exact ((sound entry.number).frames follows.isChild follows.fits root
        sent).2.2

theorem Recorded.init (valid : ValidFanIn fanIn) :
    Recorded fanIn traffic .init := by
  refine ⟨?_, fun _ => .blank valid, fun number port _ => ?_, ?_, ?_, ?_, ?_⟩
  · have blank : System.init.tables.slot fanIn = fun _ => Slot.blank :=
      slot_init fanIn
    rw [blank]
    exact Cell.Agrees.blank windowSize
  · simp [System.init, ledger, Slot.blank, Arrived]
  · simp [System.init]
  · simp [System.init]
  · simp [System.init]
  · have noChild : ∀ number, ¬∀ port < fanIn, Arrived [] port number :=
      fun number all => by
        obtain ⟨entry, logged, -⟩ := all 0 valid.positive
        cases logged
    refine ⟨?_, ?_, fun number => ?_, ?_, ?_, ?_, ?_⟩ <;>
      simp [System.init, noChild]

/-- Every number a window before an arriving packet is complete, none a window
after it. -/
theorem Recorded.inWindow (recorded : Recorded fanIn traffic system)
    (channels : Channels fanIn traffic system) {port : Nat} {sent : Sent}
    (isChild : port < fanIn) (member : sent ∈ system.up port) :
    (upwardCell fanIn).InWindow windowSize (ledger fanIn traffic system.log)
      sent.number := by
  refine ⟨fun other before => ?_, fun other after => ?_⟩
  · exact recorded.complete port other
      (channels.seen port sent member other before)
  · refine Bool.eq_false_iff.mpr fun complete => ?_
    obtain ⟨-, full⟩ := Bool.and_eq_true_iff.mp complete
    obtain ⟨entry, logged, rfl, rfl⟩ :=
      (recorded.arrived other port isChild).mp (full_iff.mp full port isChild)
    have near := channels.behind entry logged sent member
    omega

/-- What the pipeline does with an upward packet of a root. -/
theorem handle_root (valid : ValidFanIn fanIn) (root : traffic.root = true)
    {port : Nat} (isChild : port < fanIn) {previous : MetaType} {sent : Sent}
    (fits : traffic.Fits sent.number port sent.packet) {next : System}
    (handled : system.handle fanIn true port previous sent = some next) :
    ∃ (tables : Tables) (frames : List Emission),
      next = { system with
        tables := tables
        log := system.log ++
          [⟨port, sent.number, sent.packet, system.tables, frames⟩] } ∧
      tables.slot fanIn =
        ((upwardCell fanIn).ring windowSize (system.tables.slot fanIn)
          sent.number ⟨port, traffic.transfer sent.number, sent.packet⟩).1 ∧
      frames =
        ((upwardCell fanIn).ring windowSize (system.tables.slot fanIn)
          sent.number ⟨port, traffic.transfer sent.number, sent.packet⟩).2 := by
  obtain ⟨opcode, length, -, -⟩ := fits.atRoot root
  obtain ⟨data, piped⟩ := pipeline_up true system.tables
    (System.metadataAt port previous) isChild opcode
  have stepped := handleUpRoot_slot system.tables sent.packet
    (traffic.transfer sent.number) valid isChild
  rw [System.handle, piped, Transfer.handleUp, if_pos length, Option.map_some,
    Option.map_some, Option.some.injEq] at handled
  rw [idx_psn fits.1, idx_psn_ahead fits.1] at stepped
  exact ⟨_, _, handled.symm, stepped.1, stepped.2⟩

theorem Recorded.arrive (recorded : Recorded fanIn traffic system)
    (channels : Channels fanIn traffic system) (valid : ValidFanIn fanIn)
    (root : traffic.root = true) {port : Nat} {sent : Sent} {rest : List Sent}
    (head : system.up port = sent :: rest) {previous : MetaType}
    {next : System}
    (handled : ({ system with
      up := Function.update system.up port rest } : System).handle fanIn true
        port previous sent = some next) :
    Channels fanIn traffic next ∧ Recorded fanIn traffic next := by
  have member : sent ∈ system.up port := by
    rw [head]
    exact List.mem_cons_self
  have isChild : port < fanIn :=
    channels.childrenOnly port fun empty => by simp [empty] at head
  have fits := channels.fits port sent member
  have window := recorded.inWindow channels isChild member
  obtain ⟨tables, frames, rfl, slots, outputs⟩ :=
    handle_root valid root isChild fits handled
  obtain ⟨agrees, same⟩ := recorded.agrees.step (by decide) window
    ⟨port, traffic.transfer sent.number, sent.packet⟩
  have follows : Handled.Follows fanIn traffic system.log
      ⟨port, sent.number, sent.packet, system.tables, frames⟩ :=
    ⟨isChild, fits, recorded.agrees.owned _ window.owned, outputs.trans same⟩
  have arrivedNext := fun number child (isAlso : child < fanIn) =>
    ledger_arrived_append
      ⟨port, sent.number, sent.packet, system.tables, frames⟩ number isAlso
      (recorded.arrived number child isAlso)
  refine ⟨channels.arrive head tables _ rfl rfl, ?_⟩
  have kept : ∀ number,
      (ledger fanIn traffic system.log number).complete fanIn = true →
      (ledger fanIn traffic (system.log ++
        [⟨port, sent.number, sent.packet, system.tables, frames⟩])
          number).complete fanIn = true := fun number complete => by
    rw [ledger_append]
    exact Cell.complete_mono
      (show (upwardCell fanIn).complete _ = true from complete)
  refine ⟨?_, fun number => ?_, arrivedNext, ?_, ?_,
    fun child number seen => kept number (recorded.complete child number seen),
    recorded.correct.append valid root recorded.sound recorded.arrived
      arrivedNext follows⟩
  · dsimp only
    rw [slots, ledger_append]
    exact agrees
  · by_cases here : number = sent.number
    · subst here
      dsimp only
      rw [ledger_append_self]
      exact (recorded.sound sent.number).handle isChild fits root
    · dsimp only
      rw [ledger_append_of_ne here]
      exact recorded.sound number
  · intro entry logged
    rcases List.mem_append.mp logged with old | new
    · exact recorded.children entry old
    · exact List.mem_singleton.mp new ▸ isChild
  · intro entry logged frame sentFrame
    rcases List.mem_append.mp logged with old | new
    · exact kept entry.number (recorded.answered entry old frame sentFrame)
    · rw [List.mem_singleton.mp new] at sentFrame ⊢
      have produced : frames = _ := follows.frames
      dsimp only at sentFrame ⊢
      rw [produced] at sentFrame
      rw [ledger_append_self]
      exact ((recorded.sound sent.number).toSums.frame isChild sentFrame).1

end Recorded

/-- The invariant of a root switch. -/
structure RootInvariant (fanIn : Nat) (traffic : Traffic)
    (system : System) : Prop where
  channels : Channels fanIn traffic system
  recorded : Recorded fanIn traffic system
  noParent : system.down = []

variable {fanIn : Nat} {traffic : Traffic} {system next : System}

theorem RootInvariant.init (valid : ValidFanIn fanIn) :
    RootInvariant fanIn traffic .init :=
  ⟨.init, .init valid, rfl⟩

/-- The result of a number is only received once the number is complete. -/
theorem Recorded.receive (recorded : Recorded fanIn traffic system)
    {port number : Nat}
    (sent : system.framesTo port number ≠ []) :
    Recorded fanIn traffic
      { system with received := (port, number) :: system.received } where
  agrees := recorded.agrees
  sound := recorded.sound
  arrived := recorded.arrived
  children := recorded.children
  answered := recorded.answered
  complete child other seen := by
    rcases List.mem_cons.mp seen with new | old
    · obtain ⟨rfl, rfl⟩ := Prod.mk.inj new
      obtain ⟨frame, member⟩ := List.exists_mem_of_ne_nil _ sent
      obtain ⟨inLog, -⟩ := List.mem_filter.mp member
      obtain ⟨entry, logged, inFrames⟩ := List.mem_flatMap.mp inLog
      obtain ⟨inSystem, sameNumber⟩ := List.mem_filter.mp logged
      rw [← of_decide_eq_true sameNumber]
      exact recorded.answered entry inSystem frame inFrames
    · exact recorded.complete child other old
  correct := recorded.correct

theorem RootInvariant.step (invariant : RootInvariant fanIn traffic system)
    (valid : ValidFanIn fanIn) (root : traffic.root = true) {action : Action}
    (stepped : system.step fanIn traffic action = some next) :
    RootInvariant fanIn traffic next := by
  obtain ⟨channels, recorded, noParent⟩ := invariant
  cases action with
  | send port number packet =>
      simp only [System.step, Option.ite_none_right_eq_some,
        Option.some.injEq] at stepped
      obtain ⟨⟨isChild, seen, unseen, fits⟩, rfl⟩ := stepped
      exact ⟨channels.send isChild seen (unseen root) fits,
        ⟨recorded.agrees, recorded.sound, recorded.arrived, recorded.children,
          recorded.answered, recorded.complete, recorded.correct⟩, noParent⟩
  | lose port position =>
      simp only [System.step, Option.some.injEq] at stepped
      subst stepped
      have shorter : ((system.up port).eraseIdx position).Sublist
          (system.up port) := List.eraseIdx_sublist ..
      exact ⟨channels.shrink (update_sublist shorter),
        ⟨recorded.agrees, recorded.sound, recorded.arrived, recorded.children,
          recorded.answered, recorded.complete, recorded.correct⟩, noParent⟩
  | arrive port previous =>
      simp only [System.step] at stepped
      split at stepped
      · cases stepped
      · rename_i sent rest head
        rw [root] at stepped
        obtain ⟨nextChannels, nextRecorded⟩ :=
          recorded.arrive channels valid root head stepped
        refine ⟨nextChannels, nextRecorded, ?_⟩
        obtain ⟨outcome, -, rfl⟩ := Option.map_eq_some_iff.mp stepped
        exact noParent
  | receive port number =>
      simp only [System.step, Option.ite_none_right_eq_some,
        Option.some.injEq] at stepped
      obtain ⟨⟨-, sent⟩, rfl⟩ := stepped
      exact ⟨channels.receive port number, recorded.receive sent, noParent⟩
  | answer number packet =>
      simp [System.step, root] at stepped
  | loseAnswer position =>
      simp only [System.step, Option.some.injEq] at stepped
      subst stepped
      refine ⟨⟨channels.childrenOnly, channels.fits, channels.seen,
        channels.seenLogged, channels.ordered, channels.behind⟩,
        ⟨recorded.agrees, recorded.sound, recorded.arrived, recorded.children,
          recorded.answered, recorded.complete, recorded.correct⟩, ?_⟩
      simp [noParent]
  | answerArrives previous =>
      simp [System.step, noParent] at stepped

/-- Every run of a root switch whose children keep their windows. -/
theorem rootCorrect (valid : ValidFanIn fanIn) (root : traffic.root = true)
    (reached : Reachable (System.step fanIn traffic) .init system) :
    RootCorrect fanIn traffic system.log :=
  (reached.invariant (RootInvariant fanIn traffic)
    (fun _ _ _ invariant stepped => invariant.step valid root stepped)
    (.init valid)).recorded.correct

/-- Two children that write the number of the packet and of the port. -/
def twoWriters : Traffic where
  root := true
  payload := fun number port _ => htonl (BitVec.ofNat 32 (number + port))
  transfer := fun _ => .write
  reth := fun number port =>
    ⟨BitVec.ofNat 32 number, 0, BitVec.ofNat 32 port, 0⟩
  answer := fun _ _ => 0

/-- Their packets. -/
def writePacket (number port : Nat) : Packet where
  srcIp := 0
  dstIp := 0
  udpLength := 1064
  opcode := opcodeWriteOnly
  apsn := htonl (BitVec.ofNat 32 number)
  body := [BitVec.ofNat 32 number, 0, BitVec.ofNat 32 port, 0] ++
    List.replicate payloadCount (htonl (BitVec.ofNat 32 (number + port)))

/-- A round in which the first packet is lost once and sent again after the
result. -/
def lossyRound : List Action :=
  [.send 0 0 (writePacket 0 0), .lose 0 0, .send 0 0 (writePacket 0 0),
    .send 1 0 (writePacket 0 1), .arrive 0 .upAck, .arrive 1 .upAck,
    .send 0 0 (writePacket 0 0), .arrive 0 .upAck, .receive 0 0]

theorem rootCorrect_lossyRound :
    ∃ system, Reachable (System.step 2 twoWriters) .init system ∧
      system.log.length = 3 ∧ RootCorrect 2 twoWriters system.log := by
  have ran : (run (System.step 2 twoWriters) .init lossyRound).map
      (fun system => system.log.length) = some 3 := by
    decide +kernel
  obtain ⟨system, reached, length⟩ := Option.map_eq_some_iff.mp ran
  exact ⟨system, ⟨lossyRound, reached⟩, length,
    rootCorrect ⟨by decide, by decide⟩ rfl ⟨lossyRound, reached⟩⟩

end IncEmulation.NonTermination
