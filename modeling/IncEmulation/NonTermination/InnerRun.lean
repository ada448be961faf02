import IncEmulation.NonTermination.Inner
import IncEmulation.NonTermination.Log

/-!
# Runs of an inner switch

No branch of an inner switch clears a slot, so a slot serves one number only.
As long as no child gets past the sixteenth packet every slot is the slot of its
number, and the first packet that goes round the ring finds the parent's bit set.
-/

namespace IncEmulation.NonTermination

open Machine

/-- The payload of the parent's result of a number. -/
def Traffic.answerData (traffic : Traffic) (number : Nat) : List Word :=
  (List.range payloadCount).map (traffic.answer number)

/-- What the log of an inner switch should show. -/
structure InnerCorrect (fanIn : Nat) (traffic : Traffic)
    (log : List Handled) : Prop where
  fresh : ∀ before entry after, log = before ++ entry :: after →
    entry.port < fanIn →
    (∀ earlier ∈ before, earlier.port < fanIn →
      earlier.number ≠ entry.number) →
      entry.tables.Zero fanIn (idx entry.number)
  added : ∀ before entry after, log = before ++ entry :: after →
    entry.port < fanIn → ¬Arrived before entry.port entry.number →
      entry.retransmitted = false
  uploaded : ∀ entry ∈ log, ∀ frame ∈ entry.frames, frame.port = fanIn →
    frame.psn = entry.number % 2 ^ 24 ∧
      frame.data = traffic.result fanIn entry.number
  answered : ∀ entry ∈ log, ∀ frame ∈ entry.frames, frame.port < fanIn →
    frame.psn = entry.number % 2 ^ 24 ∧
      frame.data = traffic.answerData entry.number

/-- No packet of a child is numbered beyond the slots. -/
def WithinRing (fanIn : Nat) (log : List Handled) : Prop :=
  ∀ entry ∈ log, entry.port < fanIn → entry.number < slotCount

/-- A frame for the number has been sent to the port. -/
def SentTo (log : List Handled) (port number : Nat) : Prop :=
  ∃ entry ∈ log, entry.number = number ∧
    ∃ frame ∈ entry.frames, frame.port = port

section Log

variable {fanIn : Nat} {log : List Handled} {entry : Handled}

theorem sentTo_append {port number : Nat} :
    SentTo (log ++ [entry]) port number ↔ SentTo log port number ∨
      entry.number = number ∧ ∃ frame ∈ entry.frames, frame.port = port := by
  simp only [SentTo, List.mem_append, List.mem_singleton, or_and_right,
    exists_or, exists_eq_left]

theorem sentTo_of_framesTo {system : System} {port number : Nat}
    (sent : system.framesTo port number ≠ []) :
    SentTo system.log port number := by
  obtain ⟨frame, member⟩ := List.exists_mem_of_ne_nil _ sent
  obtain ⟨inLog, samePort⟩ := List.mem_filter.mp member
  obtain ⟨entry, logged, inFrames⟩ := List.mem_flatMap.mp inLog
  obtain ⟨inSystem, sameNumber⟩ := List.mem_filter.mp logged
  exact ⟨entry, inSystem, of_decide_eq_true sameNumber, frame, inFrames,
    of_decide_eq_true samePort⟩

theorem WithinRing.before (within : WithinRing fanIn (log ++ [entry])) :
    WithinRing fanIn log :=
  fun earlier logged => within earlier (List.mem_append_left _ logged)

theorem WithinRing.last (within : WithinRing fanIn (log ++ [entry]))
    (isChild : entry.port < fanIn) : entry.number < slotCount :=
  within entry (List.mem_append_right _ List.mem_cons_self) isChild

end Log

/-- What holds of the log of an inner switch, whatever the numbers are. -/
structure InnerLog (fanIn : Nat) (tables : Tables) (log : List Handled) :
    Prop where
  uploader : ∀ entry ∈ log, ∀ frame ∈ entry.frames, frame.port = fanIn →
    entry.port < fanIn
  closed : ∀ port < fanIn, ∀ number, SentTo log port number →
    (tables.slot fanIn (idx number)).arrived fanIn = true
  closedBefore : ∀ before entry after, log = before ++ entry :: after →
    ∀ port < fanIn, ∀ number, SentTo before port number →
      (entry.tables.slot fanIn (idx number)).arrived fanIn = true
  seenBefore : ∀ before entry after, log = before ++ entry :: after →
    entry.port < fanIn → ∀ earlier, earlier + windowSize ≤ entry.number →
      SentTo before entry.port earlier

/-- What the slots hold as long as the ring has not gone round. -/
structure Tracked (fanIn : Nat) (traffic : Traffic) (tables : Tables)
    (log : List Handled) : Prop where
  holds : ∀ number < slotCount,
    (tables.slot fanIn number).Holds fanIn (traffic.payload number)
      (traffic.answer number)
  arrived : ∀ number < slotCount, ∀ port < fanIn,
    ((tables.slot fanIn number).arrived port = true ↔ Arrived log port number)
  untouched : ∀ number < slotCount,
    (∀ entry ∈ log, entry.port < fanIn → entry.number ≠ number) →
      tables.slot fanIn number = .blank
  correct : InnerCorrect fanIn traffic log

section Append

variable {fanIn : Nat} {traffic : Traffic} {tables next : Tables}
  {log : List Handled} {entry : Handled}

theorem InnerLog.append (logged : InnerLog fanIn tables log)
    (found : entry.tables = tables)
    (kept : ∀ index, (tables.slot fanIn index).arrived fanIn = true →
      (next.slot fanIn index).arrived fanIn = true)
    (uploader : ∀ frame ∈ entry.frames, frame.port = fanIn →
      entry.port < fanIn)
    (closed : ∀ frame ∈ entry.frames, frame.port < fanIn →
      (next.slot fanIn (idx entry.number)).arrived fanIn = true)
    (seen : entry.port < fanIn →
      ∀ earlier, earlier + windowSize ≤ entry.number →
        SentTo log entry.port earlier) :
    InnerLog fanIn next (log ++ [entry]) := by
  refine ⟨fun each member => ?_, fun port isChild number sent => ?_,
    fun before each after split => ?_, fun before each after split => ?_⟩
  · rcases List.mem_append.mp member with old | new
    · exact logged.uploader each old
    · exact List.mem_singleton.mp new ▸ uploader
  · rcases sentTo_append.mp sent with old | ⟨rfl, frame, inFrames, rfl⟩
    · exact kept _ (logged.closed port isChild number old)
    · exact closed frame inFrames isChild
  · rcases split_append split with ⟨rfl, rfl⟩ | ⟨shorter, earlier⟩
    · rw [found]
      exact logged.closed
    · exact logged.closedBefore before each shorter earlier
  · rcases split_append split with ⟨rfl, rfl⟩ | ⟨shorter, earlier⟩
    · exact seen
    · exact logged.seenBefore before each shorter earlier

/-- A packet that goes round the ring finds the result of an earlier one. -/
theorem InnerLog.withinRing (logged : InnerLog fanIn tables log)
    (correct : InnerCorrect fanIn traffic log) : WithinRing fanIn log := by
  intro entry member isChild
  refine Nat.lt_of_not_le fun late => ?_
  -- The first packet of this number, from any child.
  obtain ⟨before, first, after, split, ofKind, none⟩ :=
    exists_first
      (fun each => decide (each.port < fanIn ∧ each.number = entry.number))
      member (decide_eq_true ⟨isChild, rfl⟩)
  obtain ⟨firstChild, sameNumber⟩ := of_decide_eq_true ofKind
  have zero := correct.fresh before first after split firstChild
    fun earlier inBefore earlierChild same =>
      of_decide_eq_false (none earlier inBefore)
        ⟨earlierChild, same.trans sameNumber⟩
  have round : idx (first.number - slotCount) = idx first.number := by
    rw [idx, idx, ← Nat.mod_eq_sub_mod (sameNumber ▸ late)]
  have closed := logged.closedBefore before first after split first.port
    firstChild (first.number - slotCount)
    (logged.seenBefore before first after split firstChild _ (by
      rw [sameNumber, slotCount, windowSize] at *
      omega))
  rw [round] at closed
  simp [Tables.slot, zero.arrivalState] at closed

/-- What a packet of a number within the ring does. -/
structure Handled.Serves (fanIn : Nat) (traffic : Traffic)
    (tables next : Tables) (after : Slot) (entry : Handled) : Prop where
  found : entry.tables = tables
  small : entry.number < slotCount
  slots : next.slot fanIn =
    Function.update (tables.slot fanIn) entry.number after
  holds : after.Holds fanIn (traffic.payload entry.number)
    (traffic.answer entry.number)
  arrived : ∀ port < fanIn, (after.arrived port = true ↔
    (tables.slot fanIn entry.number).arrived port = true ∨ entry.port = port)
  untouched : entry.port < fanIn ∨
    (tables.slot fanIn entry.number = .blank → after = .blank)
  first : entry.port < fanIn → entry.retransmitted =
    (tables.slot fanIn entry.number).arrived entry.port
  uploaded : ∀ frame ∈ entry.frames, frame.port = fanIn →
    frame.psn = entry.number % 2 ^ 24 ∧
      frame.data = traffic.result fanIn entry.number
  answered : ∀ frame ∈ entry.frames, frame.port < fanIn →
    frame.psn = entry.number % 2 ^ 24 ∧
      frame.data = traffic.answerData entry.number

theorem idx_of_small {number : Nat} (small : number < slotCount) :
    idx number = number := Nat.mod_eq_of_lt small

/-- The log stays correct when such an entry is appended. -/
theorem Tracked.correct_append {after : Slot}
    (tracked : Tracked fanIn traffic tables log)
    (serves : entry.Serves fanIn traffic tables next after) :
    InnerCorrect fanIn traffic (log ++ [entry]) := by
  obtain ⟨fresh, added, uploaded, answered⟩ := tracked.correct
  refine ⟨fun before each rest split isChild none => ?_,
    fun before each rest split isChild none => ?_, fun each member => ?_,
    fun each member => ?_⟩
  · rcases split_append split with ⟨rfl, rfl⟩ | ⟨shorter, earlier⟩
    · refine Tables.zero_of_slot ?_
      rw [serves.found, idx_of_small serves.small]
      exact tracked.untouched _ serves.small none
    · exact fresh before each shorter earlier isChild none
  · rcases split_append split with ⟨rfl, rfl⟩ | ⟨shorter, earlier⟩
    · rw [serves.first isChild]
      refine Bool.eq_false_iff.mpr fun again => none ?_
      exact (tracked.arrived _ serves.small _ isChild).mp again
    · exact added before each shorter earlier isChild none
  · rcases List.mem_append.mp member with old | new
    · exact uploaded each old
    · exact List.mem_singleton.mp new ▸ serves.uploaded
  · rcases List.mem_append.mp member with old | new
    · exact answered each old
    · exact List.mem_singleton.mp new ▸ serves.answered

theorem Tracked.append {after : Slot}
    (tracked : Tracked fanIn traffic tables log)
    (serves : entry.Serves fanIn traffic tables next after) :
    Tracked fanIn traffic next (log ++ [entry]) := by
  refine ⟨fun number small => ?_, fun number small port isChild => ?_,
    fun number small none => ?_, tracked.correct_append serves⟩
  · rw [serves.slots]
    by_cases here : number = entry.number
    · rw [here, Function.update_self]
      exact serves.holds
    · rw [Function.update_of_ne here]
      exact tracked.holds number small
  · rw [serves.slots, arrived_append]
    by_cases here : number = entry.number
    · subst here
      rw [Function.update_self, serves.arrived port isChild,
        tracked.arrived _ small port isChild]
      simp
    · rw [Function.update_of_ne here, tracked.arrived number small port isChild]
      simp [Ne.symm here]
  · have untouched := tracked.untouched number small fun earlier logged =>
      none earlier (List.mem_append_left _ logged)
    rw [serves.slots]
    by_cases here : number = entry.number
    · subst here
      rw [Function.update_self]
      refine serves.untouched.elim (fun isChild => ?_) fun kept => kept untouched
      exact absurd rfl
        (none entry (List.mem_append_right _ List.mem_cons_self) isChild)
    · rw [Function.update_of_ne here]
      exact untouched

end Append

section Step

variable {fanIn : Nat} {traffic : Traffic} {system next : System} {port : Nat}
  {previous : MetaType} {sent : Sent}

/-- What the pipeline of an inner switch does with a packet of a child. -/
theorem handle_inner_up (valid : ValidFanIn fanIn) (isChild : port < fanIn)
    (carries : Carries sent.packet sent.number
      (traffic.payload sent.number port))
    (handled : system.handle fanIn false port previous sent = some next) :
    ∃ (transfer : Transfer) (tables : Tables) (frames : List Emission),
      (∀ word < payloadCount, transfer.payload sent.packet word =
        traffic.payload sent.number port word) ∧
      next = { system with
        tables := tables
        log := system.log ++
          [⟨port, sent.number, sent.packet, system.tables, frames⟩] } ∧
      let slot := (system.tables.slot fanIn (idx sent.number)).handleUpInner
        fanIn transfer port sent.packet
      tables.slot fanIn = Function.update (system.tables.slot fanIn)
          (idx sent.number) slot.1 ∧
        frames = slot.2 := by
  obtain ⟨-, transfer, opcode, length, payload⟩ := id carries
  obtain ⟨data, piped⟩ := pipeline_up false system.tables
    (System.metadataAt port previous) isChild opcode
  have stepped :=
    handleUpInner_slot system.tables sent.packet transfer valid isChild
  rw [System.handle, piped, Transfer.handleUp, if_pos length, Option.map_some,
    Option.map_some, Option.some.injEq] at handled
  rw [idx_psn carries] at stepped
  exact ⟨transfer, _, _, payload, handled.symm, stepped.1, stepped.2⟩

/-- And with a packet of the parent. -/
theorem handle_inner_down (valid : ValidFanIn fanIn)
    (carries : Carries sent.packet sent.number (traffic.answer sent.number))
    (handled : system.handle fanIn false fanIn previous sent = some next) :
    ∃ (transfer : Transfer) (tables : Tables) (frames : List Emission),
      (∀ word < payloadCount, transfer.payload sent.packet word =
        traffic.answer sent.number word) ∧
      next = { system with
        tables := tables
        log := system.log ++
          [⟨fanIn, sent.number, sent.packet, system.tables, frames⟩] } ∧
      let slot := (system.tables.slot fanIn (idx sent.number)).handleDown fanIn
        transfer sent.packet
      tables.slot fanIn = Function.update (system.tables.slot fanIn)
          (idx sent.number) slot.1 ∧
        frames = slot.2 := by
  obtain ⟨-, transfer, opcode, length, payload⟩ := id carries
  obtain ⟨data, piped⟩ := pipeline_down false system.tables
    (System.metadataAt fanIn previous)
    (Nat.lt_irrefl fanIn) opcode
  obtain ⟨outcome, taken, stepped⟩ :=
    handleDown_slot system.tables sent.packet transfer valid length
  rw [System.handle, piped, taken, Option.map_some, Option.map_some,
    Option.some.injEq] at handled
  rw [idx_psn carries] at stepped
  exact ⟨transfer, _, _, payload, handled.symm, stepped.1, stepped.2⟩

end Step

/-- What is on the channels of an inner switch. -/
structure InnerChannels (fanIn : Nat) (traffic : Traffic) (system : System) :
    Prop where
  childrenOnly : ∀ port, system.up port ≠ [] → port < fanIn
  carries : ∀ port, ∀ sent ∈ system.up port,
    Carries sent.packet sent.number (traffic.payload sent.number port)
  seen : ∀ port, ∀ sent ∈ system.up port, ∀ earlier,
    earlier + windowSize ≤ sent.number → SentTo system.log port earlier
  received : ∀ port number, (port, number) ∈ system.received →
    SentTo system.log port number
  answers : ∀ sent ∈ system.down,
    Carries sent.packet sent.number (traffic.answer sent.number) ∧
      SentTo system.log fanIn sent.number

section Channels

variable {fanIn : Nat} {traffic : Traffic} {system : System}

theorem InnerChannels.shrink (channels : InnerChannels fanIn traffic system)
    {next : System} (up : ∀ port, (next.up port).Sublist (system.up port))
    (down : next.down.Sublist system.down)
    (received : next.received = system.received)
    (log : ∀ port number, SentTo system.log port number →
      SentTo next.log port number) :
    InnerChannels fanIn traffic next where
  childrenOnly port used := by
    refine channels.childrenOnly port fun empty => used ?_
    have sub := up port
    rw [empty] at sub
    exact List.sublist_nil.mp sub
  carries port sent member := channels.carries port sent ((up port).subset member)
  seen port sent member earlier before :=
    log _ _ (channels.seen port sent ((up port).subset member) earlier before)
  received port number seen :=
    log _ _ (channels.received port number (received ▸ seen))
  answers sent member :=
    ⟨(channels.answers sent (down.subset member)).1,
      log _ _ (channels.answers sent (down.subset member)).2⟩

theorem InnerChannels.send (channels : InnerChannels fanIn traffic system)
    {port number : Nat} {packet : Packet} (isChild : port < fanIn)
    (seen : system.SeenBefore port number)
    (carries : Carries packet number (traffic.payload number port)) :
    InnerChannels fanIn traffic
      { system with
        up := Function.update system.up port
          (system.up port ++ [⟨number, packet⟩]) } := by
  have cases : ∀ other, ∀ sent ∈ Function.update system.up port
      (system.up port ++ [⟨number, packet⟩]) other,
      sent ∈ system.up other ∨ other = port ∧ sent = ⟨number, packet⟩ :=
    fun other sent member => mem_update_append member
  refine ⟨fun other used => ?_, fun other sent member => ?_,
    fun other sent member => ?_, channels.received, channels.answers⟩
  · by_cases same : other = port
    · exact same ▸ isChild
    · refine channels.childrenOnly other ?_
      dsimp only at used
      rwa [Function.update_of_ne same] at used
  · rcases cases other sent member with old | ⟨rfl, rfl⟩
    · exact channels.carries other sent old
    · exact carries
  · rcases cases other sent member with old | ⟨rfl, rfl⟩
    · exact channels.seen other sent old
    · exact fun earlier before =>
        channels.received other earlier (seen_of_seenBefore seen before)

end Channels

/-- The invariant of an inner switch. -/
structure InnerInvariant (fanIn : Nat) (traffic : Traffic)
    (system : System) : Prop where
  channels : InnerChannels fanIn traffic system
  logged : InnerLog fanIn system.tables system.log
  tracked : WithinRing fanIn system.log →
    Tracked fanIn traffic system.tables system.log

section Invariant

variable {fanIn : Nat} {traffic : Traffic} {system next : System}

theorem Tracked.init : Tracked fanIn traffic .init [] := by
  have blank : ∀ number, Tables.init.slot fanIn number = .blank :=
    congrFun (slot_init fanIn)
  refine ⟨fun number _ => ?_, fun number _ port _ => ?_,
    fun number _ _ => blank number, ?_⟩
  · rw [blank]
    exact .blank
  · rw [blank]
    simp [Slot.blank, Arrived]
  · constructor <;> simp

theorem InnerInvariant.init : InnerInvariant fanIn traffic .init := by
  refine ⟨?_, ?_, fun _ => .init⟩
  · constructor <;> simp [System.init]
  · constructor <;> simp [System.init, SentTo]

theorem InnerInvariant.arrive (invariant : InnerInvariant fanIn traffic system)
    (valid : ValidFanIn fanIn) {port : Nat} {sent : Sent} {rest : List Sent}
    (head : system.up port = sent :: rest) {previous : MetaType}
    (handled : ({ system with
      up := Function.update system.up port rest } : System).handle fanIn false
        port previous sent = some next) :
    InnerInvariant fanIn traffic next := by
  obtain ⟨channels, logged, tracked⟩ := invariant
  have member : sent ∈ system.up port := by
    rw [head]
    exact List.mem_cons_self
  have isChild : port < fanIn :=
    channels.childrenOnly port fun empty => by simp [empty] at head
  have carries := channels.carries port sent member
  have shorter : rest.Sublist (system.up port) := by
    rw [head]
    exact List.sublist_cons_self ..
  obtain ⟨transfer, tables, frames, carried, rfl, slots, rfl⟩ :=
    handle_inner_up valid isChild carries handled
  dsimp only at slots ⊢
  refine ⟨?_, ?_, fun within => ?_⟩
  · exact channels.shrink (update_sublist shorter) (List.Sublist.refl _) rfl
      fun _ _ earlier => sentTo_append.mpr (Or.inl earlier)
  · refine logged.append rfl (fun index closed => ?_) (fun _ _ _ => isChild)
      (fun frame inFrames toChild => ?_)
      fun _ => channels.seen port sent member
    · rw [slots]
      by_cases here : index = idx sent.number
      · rw [here, Function.update_self, handleUpInner_parent isChild, ← here]
        exact closed
      · rw [Function.update_of_ne here]
        exact closed
    · rw [slots, Function.update_self, handleUpInner_parent isChild]
      rcases handleUpInner_frame inFrames with ⟨-, closed, -⟩ | ⟨-, -, rfl⟩
      · exact closed
      · rw [upload_port] at toChild
        omega
  · have small : sent.number < slotCount := within.last isChild
    have before := tracked within.before
    have holds := before.holds sent.number small
    rw [idx_of_small small] at slots ⊢
    refine before.append ⟨rfl, small, slots,
      holds.handleUp isChild fun _ => carried,
      fun child _ => ?_, Or.inl isChild, fun _ => ?_,
      fun frame inFrames toParent => ?_, fun frame inFrames toChild => ?_⟩
    · rw [handleUpInner_arrived, eq_comm (a := child)]
    · rw [Handled.retransmitted,
        recvFromPort_eq fanIn _ _ (isChild.trans valid.bound), idx_psn carries,
        idx_of_small small]
    · obtain ⟨psn, ⟨toChild, -, -⟩ | ⟨-, data⟩⟩ :=
        holds.frames_up isChild (fun _ => carried) inFrames
      · omega
      · exact ⟨psn.trans carries.1, data⟩
    · obtain ⟨psn, ⟨-, -, data⟩ | ⟨toParent, -⟩⟩ :=
        holds.frames_up isChild (fun _ => carried) inFrames
      · exact ⟨psn.trans carries.1, data⟩
      · omega

theorem InnerInvariant.answerArrives
    (invariant : InnerInvariant fanIn traffic system) (valid : ValidFanIn fanIn)
    {sent : Sent} {rest : List Sent} (head : system.down = sent :: rest)
    {previous : MetaType}
    (handled : ({ system with down := rest } : System).handle fanIn false fanIn
      previous sent = some next) :
    InnerInvariant fanIn traffic next := by
  obtain ⟨channels, logged, tracked⟩ := invariant
  have member : sent ∈ system.down := by
    rw [head]
    exact List.mem_cons_self
  obtain ⟨carries, uploaded⟩ := channels.answers sent member
  have shorter : rest.Sublist system.down := by
    rw [head]
    exact List.sublist_cons_self ..
  obtain ⟨transfer, tables, frames, carried, rfl, slots, rfl⟩ :=
    handle_inner_down valid carries handled
  dsimp only at slots ⊢
  have toChildren : ∀ frame ∈ ((system.tables.slot fanIn
      (idx sent.number)).handleDown fanIn transfer sent.packet).2,
      frame.port < fanIn ∧ ((system.tables.slot fanIn
        (idx sent.number)).handleDown fanIn transfer sent.packet).1.arrived
          fanIn = true := by
    intro frame inFrames
    rcases handleDown_cases fanIn (system.tables.slot fanIn (idx sent.number))
      transfer sent.packet with ⟨-, -, same⟩ | ⟨-, same⟩
    · rw [same] at inFrames ⊢
      obtain ⟨child, inside, rfl⟩ := List.mem_map.mp inFrames
      rw [result_port]
      exact ⟨List.mem_range.mp inside, Function.update_self ..⟩
    · rw [same] at inFrames
      cases inFrames
  refine ⟨?_, ?_, fun within => ?_⟩
  · exact channels.shrink (fun _ => List.Sublist.refl _) shorter rfl
      fun _ _ earlier => sentTo_append.mpr (Or.inl earlier)
  · refine logged.append rfl (fun index closed => ?_)
      (fun frame inFrames toParent => ?_) (fun frame inFrames _ => ?_)
      fun isChild => absurd isChild (Nat.lt_irrefl fanIn)
    · rw [slots]
      by_cases here : index = idx sent.number
      · rw [here, Function.update_self]
        rw [here] at closed
        rcases handleDown_cases fanIn
          (system.tables.slot fanIn (idx sent.number)) transfer sent.packet
          with ⟨-, -, same⟩ | ⟨-, same⟩
        · rw [same]
          exact Function.update_self ..
        · rw [same]
          exact closed
      · rw [Function.update_of_ne here]
        exact closed
    · have toChild := (toChildren frame inFrames).1
      omega
    · rw [slots, Function.update_self]
      exact (toChildren frame inFrames).2
  · -- The number was uploaded, so a child has sent a packet of it.
    have small : sent.number < slotCount := by
      obtain ⟨entry, inLog, same, frame, inFrames, toParent⟩ := uploaded
      rw [← same]
      exact within.before entry inLog
        (logged.uploader entry inLog frame inFrames toParent)
    have before := tracked within.before
    have holds := before.holds sent.number small
    rw [idx_of_small small] at slots toChildren ⊢
    refine before.append ⟨rfl, small, slots, holds.handleDown carried,
      fun child isChild => ?_, Or.inr fun blank => ?_,
      fun isChild => absurd isChild (Nat.lt_irrefl fanIn),
      fun frame inFrames toParent => ?_, fun frame inFrames _ => ?_⟩
    · rw [handleDown_arrived isChild]
      exact (or_iff_left (by dsimp only; omega)).symm
    · rw [blank]
      have unfilled : Slot.blank.full fanIn = false :=
        unfilled_of_first valid.positive rfl
      rcases handleDown_cases fanIn .blank transfer sent.packet with
        ⟨-, full, -⟩ | ⟨-, same⟩
      · rw [unfilled] at full
        cases full
      · rw [same]
    · have toChild := (toChildren frame inFrames).1
      omega
    · obtain ⟨psn, -, -, data⟩ := holds.frames_down carried inFrames
      exact ⟨psn.trans carries.1, data⟩

theorem InnerInvariant.step (invariant : InnerInvariant fanIn traffic system)
    (valid : ValidFanIn fanIn) (inner : traffic.root = false) {action : Action}
    (stepped : system.step fanIn traffic action = some next) :
    InnerInvariant fanIn traffic next := by
  cases action with
  | send port number packet =>
      simp only [System.step, Option.ite_none_right_eq_some,
        Option.some.injEq] at stepped
      obtain ⟨⟨isChild, seen, -, carries, -⟩, rfl⟩ := stepped
      exact ⟨invariant.channels.send isChild seen carries, invariant.logged,
        invariant.tracked⟩
  | lose port position =>
      simp only [System.step, Option.some.injEq] at stepped
      subst stepped
      have shorter : ((system.up port).eraseIdx position).Sublist
          (system.up port) := List.eraseIdx_sublist ..
      exact ⟨invariant.channels.shrink (update_sublist shorter)
        (List.Sublist.refl _) rfl fun _ _ => id, invariant.logged,
        invariant.tracked⟩
  | arrive port previous =>
      simp only [System.step] at stepped
      split at stepped
      · cases stepped
      · rename_i sent rest head
        rw [inner] at stepped
        exact invariant.arrive valid head stepped
  | receive port number =>
      simp only [System.step, Option.ite_none_right_eq_some,
        Option.some.injEq] at stepped
      obtain ⟨⟨-, sent⟩, rfl⟩ := stepped
      obtain ⟨children, carries, seen, received, answers⟩ := invariant.channels
      refine ⟨⟨children, carries, seen, fun child other member => ?_, answers⟩,
        invariant.logged, invariant.tracked⟩
      rcases List.mem_cons.mp member with new | old
      · obtain ⟨rfl, rfl⟩ := Prod.mk.inj new
        exact sentTo_of_framesTo sent
      · exact received child other old
  | answer number packet =>
      simp only [System.step, Option.ite_none_right_eq_some,
        Option.some.injEq] at stepped
      obtain ⟨⟨-, fewer, newCarries⟩, rfl⟩ := stepped
      have uploaded : system.framesTo fanIn number ≠ [] := by
        intro empty
        simp [empty] at fewer
      obtain ⟨children, carries, seen, received, answers⟩ := invariant.channels
      refine ⟨⟨children, carries, seen, received, fun sent member => ?_⟩,
        invariant.logged, invariant.tracked⟩
      rcases List.mem_append.mp member with old | new
      · exact answers sent old
      · rw [List.mem_singleton.mp new]
        exact ⟨newCarries, sentTo_of_framesTo uploaded⟩
  | loseAnswer position =>
      simp only [System.step, Option.some.injEq] at stepped
      subst stepped
      exact ⟨invariant.channels.shrink (fun _ => List.Sublist.refl _)
        (List.eraseIdx_sublist ..) rfl fun _ _ => id, invariant.logged,
        invariant.tracked⟩
  | answerArrives previous =>
      simp only [System.step] at stepped
      split at stepped
      · cases stepped
      · rename_i sent rest head
        rw [inner] at stepped
        exact invariant.answerArrives valid head stepped

theorem InnerInvariant.reachable (valid : ValidFanIn fanIn)
    (inner : traffic.root = false)
    (reached : Reachable (System.step fanIn traffic) .init system) :
    InnerInvariant fanIn traffic system :=
  reached.invariant (InnerInvariant fanIn traffic)
    (fun _ _ _ invariant stepped => invariant.step valid inner stepped) .init

/-- The log is right exactly until a packet goes round the ring. -/
theorem innerCorrect_iff (valid : ValidFanIn fanIn)
    (inner : traffic.root = false)
    (reached : Reachable (System.step fanIn traffic) .init system) :
    InnerCorrect fanIn traffic system.log ↔ WithinRing fanIn system.log := by
  have invariant := InnerInvariant.reachable valid inner reached
  exact ⟨invariant.logged.withinRing,
    fun within => (invariant.tracked within).correct⟩

end Invariant

section Ring

/-- The packets of an action are what their senders may send. -/
def Action.Fitting (traffic : Traffic) : Action → Prop
  | .send port number packet => traffic.Fits number port packet
  | .answer number packet => Carries packet number (traffic.answer number)
  | _ => True

/-- A step that does not look at the payload of what is sent. -/
def System.stepFitting (fanIn : Nat) (traffic : Traffic) (system : System) :
    Action → Option System
  | .send port number packet =>
      if port < fanIn ∧ system.SeenBefore port number ∧
          (traffic.root = true → (port, number) ∉ system.received) then
        some { system with
          up := Function.update system.up port
            (system.up port ++ [⟨number, packet⟩]) }
      else none
  | .answer number packet =>
      if traffic.root = false ∧
          system.answered.count number <
            (system.framesTo fanIn number).length then
        some { system with
          down := system.down ++ [⟨number, packet⟩]
          answered := number :: system.answered }
      else none
  | action => system.step fanIn traffic action

theorem step_of_fitting {fanIn : Nat} {traffic : Traffic} {action : Action}
    (system : System) (fitting : action.Fitting traffic) :
    system.step fanIn traffic action =
      system.stepFitting fanIn traffic action := by
  cases action with
  | send port number packet =>
      have fits : traffic.Fits number port packet := fitting
      simp only [System.step, System.stepFitting, fits, and_true]
  | answer number packet =>
      have carries : Carries packet number (traffic.answer number) := fitting
      simp only [System.step, System.stepFitting, carries, and_true]
  | _ => rfl

/-- Two children that send the number of the packet and of the port, and a
parent that answers with the number. -/
def numbered : Traffic where
  root := false
  payload := fun number port _ => htonl (BitVec.ofNat 32 (number + port))
  transfer := fun _ => .send
  reth := fun _ _ => .zero
  answer := fun number _ => htonl (BitVec.ofNat 32 number)

def sendPacket (number : Nat) (word : Word) : Packet where
  srcIp := 0
  dstIp := 0
  udpLength := 1048
  opcode := rdmaOpcodeSendOnly
  apsn := htonl (BitVec.ofNat 32 number)
  body := List.replicate payloadCount word

/-- The packet of a child. -/
def upPacket (number port : Nat) : Packet :=
  sendPacket number (htonl (BitVec.ofNat 32 (number + port)))

/-- The packet of the parent. -/
def downPacket (number : Nat) : Packet :=
  sendPacket number (htonl (BitVec.ofNat 32 number))

theorem sendPacket_carries (number : Nat) (word : Word) :
    Carries (sendPacket number word) number fun _ => word := by
  refine ⟨Packet.psn_of_apsn rfl, .send, rfl, rfl, fun index inRange => ?_⟩
  simp [Transfer.payload, Transfer.headerWords, sendPacket, Packet.bodyWord,
    inRange]

/-- Everything that happens for one number. -/
def exchange (number : Nat) : List Action :=
  [.send 0 number (upPacket number 0), .send 1 number (upPacket number 1),
    .arrive 0 .upAck, .arrive 1 .upAck, .answer number (downPacket number),
    .answerArrives .upAck, .receive 0 number, .receive 1 number]

/-- Sixteen numbers, and the first packet of the next one. -/
def aroundTheRing : List Action :=
  (List.range slotCount).flatMap exchange ++
    [.send 0 slotCount (upPacket slotCount 0), .arrive 0 .upAck]

theorem exchange_fitting (number : Nat) :
    ∀ action ∈ exchange number, action.Fitting numbered := by
  have up : ∀ port, numbered.Fits number port (upPacket number port) :=
    fun port => ⟨sendPacket_carries _ _, nofun⟩
  have down : Carries (downPacket number) number (numbered.answer number) :=
    sendPacket_carries _ _
  simp [exchange, Action.Fitting, up, down]

theorem aroundTheRing_fitting :
    ∀ action ∈ aroundTheRing, action.Fitting numbered := by
  intro action member
  rcases List.mem_append.mp member with early | late
  · obtain ⟨number, -, inExchange⟩ := List.mem_flatMap.mp early
    exact exchange_fitting number action inExchange
  · rcases List.mem_cons.mp late with rfl | arrival
    · exact ⟨sendPacket_carries _ _, nofun⟩
    · exact List.mem_singleton.mp arrival ▸ trivial

/-- Both sides hold after the exchange of one number. -/
theorem innerCorrect_exchange :
    ∃ system, Reachable (System.step 2 numbered) .init system ∧
      system.log.length = 3 ∧ InnerCorrect 2 numbered system.log := by
  have ran : (run (System.stepFitting 2 numbered) .init (exchange 0)).map
      (fun system => system.log.map fun entry => (entry.port, entry.number)) =
        some [(0, 0), (1, 0), (2, 0)] := by
    decide +kernel
  obtain ⟨system, reached, log⟩ := Option.map_eq_some_iff.mp ran
  rw [← run_congr fun state action member =>
    step_of_fitting state (exchange_fitting 0 action member)] at reached
  refine ⟨system, ⟨_, reached⟩, ?_, (innerCorrect_iff ⟨by decide, by decide⟩ rfl
    ⟨_, reached⟩).mpr fun entry logged _ => ?_⟩
  · simpa using congrArg List.length log
  · have member := List.mem_map_of_mem (f := fun entry : Handled =>
      (entry.port, entry.number)) logged
    rw [log] at member
    simp only [List.mem_cons, Prod.mk.injEq, List.not_mem_nil,
      or_false] at member
    have zero : entry.number = 0 := by omega
    rw [zero]
    decide

/-- The first packet that goes round the ring is taken for a retransmission of
the first one, and answered with its result. -/
theorem aroundTheRing_incorrect :
    ∃ system, Reachable (System.step 2 numbered) .init system ∧
      (∃ entry ∈ system.log, entry.port = 0 ∧ entry.number = slotCount ∧
        entry.frames.map Emission.data = [numbered.answerData 0]) ∧
      ¬InnerCorrect 2 numbered system.log := by
  have ran : (run (System.stepFitting 2 numbered) .init aroundTheRing).map
      (fun system => system.log.any fun entry =>
        decide (entry.port = 0 ∧ entry.number = slotCount ∧
          entry.frames.map Emission.data = [numbered.answerData 0])) =
        some true := by
    decide +kernel
  obtain ⟨system, reached, late⟩ := Option.map_eq_some_iff.mp ran
  rw [← run_congr fun state action member =>
    step_of_fitting state (aroundTheRing_fitting action member)] at reached
  obtain ⟨entry, logged, found⟩ := List.any_eq_true.mp late
  have reply := of_decide_eq_true found
  refine ⟨system, ⟨_, reached⟩, ⟨entry, logged, reply⟩, fun correct => ?_⟩
  have invariant := InnerInvariant.reachable
    (show ValidFanIn 2 from ⟨by decide, by decide⟩)
    (show numbered.root = false from rfl) ⟨_, reached⟩
  have within := invariant.logged.withinRing correct entry logged
    (by rw [reply.1]; decide)
  rw [reply.2.1] at within
  exact Nat.lt_irrefl _ within

end Ring

end IncEmulation.NonTermination
