import IncEmulation.Delivery
import IncEmulation.Exchange
import IncEmulation.Ledger

/-!
# The receives of a rank and what is sent to it

The switch sends packet `k` of a call to a rank when the last sender of the call
passes it.  As long as the rank has posted the receive by then, its NIC takes
everything in turn and its calls end with the last of their packets.
-/

namespace IncEmulation

open Gather Machine

namespace Host

/-- A rank is in a call and has posted the receive for one of its messages. -/
structure Expects (host : Host) (number message : Nat) : Prop where
  calls : host.calls = number
  running : host.stages.isSome = true
  posted : message < host.locals.posted

instance (host : Host) (number message : Nat) :
    Decidable (host.Expects number message) :=
  decidable_of_iff (host.calls = number ∧ host.stages.isSome = true ∧
      message < host.locals.posted)
    ⟨fun parts => ⟨parts.1, parts.2.1, parts.2.2⟩,
      fun expects => ⟨expects.calls, expects.running, expects.posted⟩⟩

/-- A rank has returned from a call or expects one of its messages. -/
def Welcomes (host : Host) (number message : Nat) : Prop :=
  number < host.calls ∨ host.Expects number message

/-- The next step of the program posts message `send_num` of the call. -/
def Posts (host : Host) (job : Job) : Prop :=
  ∃ next ∈ host.step job, host.locals.sendNum < next.locals.sendNum

instance (host : Host) (job : Job) : Decidable (host.Posts job) :=
  inferInstanceAs (Decidable (∃ next ∈ host.step job, _))

end Host

namespace System

/-- All ranks that send in a call are past packet `k` of its data. -/
def Passed (cluster : Cluster) (system : System) (number : Nat) (call : Call)
    (k : Nat) : Prop :=
  ∀ rank < cluster.hosts, call.collective.sends rank = true →
    (cluster.job rank).base number + 1 + k < system.switch.aggEpsn rank

end System

/-- What the switch has sent to a rank, against the calls of the rank: all data
of the calls that have returned, and of the running call what all its senders
have passed. -/
structure System.Awaited (cluster : Cluster) (system : System) (rank : Nat) :
    Prop extends system.Taking rank where
  numbered : ∀ position frame,
    (dataFrames (system.down rank))[position]? = some frame →
      frame.psn = position ∧ (frame.endsMessage = true ↔ position % 4 = 3)
  count : (dataFrames (system.down rank)).length = system.switch.sendPsn rank
  past : ∀ number call, number < (system.hosts rank).calls →
    cluster.program[number]? = some call →
    call.collective.receives rank = true → ∀ k < 4 * call.messageNum,
      system.Passed cluster number call k
  current : ∀ stages call, (system.hosts rank).stages = some stages →
    cluster.program[(system.hosts rank).calls]? = some call →
    call.collective.receives rank = true →
      ∃ count ≤ 4 * call.messageNum,
        system.switch.sendPsn rank = 4 * ((cluster.job rank).receivesBefore
          (system.hosts rank).calls).length + count ∧
        ∀ k < 4 * call.messageNum,
          (system.Passed cluster (system.hosts rank).calls call k ↔ k < count)
  resting : ((system.hosts rank).stages = none ∨
      ∀ call ∈ cluster.program[(system.hosts rank).calls]?,
        call.collective.receives rank = false) →
    system.switch.sendPsn rank = 4 * ((cluster.job rank).receivesBefore
      (system.hosts rank).calls).length
  ready : ∀ number call, cluster.program[number]? = some call →
    call.collective.receives rank = true → ∀ k < 4 * call.messageNum,
      system.Passed cluster number call k →
        (system.hosts rank).Welcomes number (k / 4)

section Positions

variable {cluster : Cluster} {system next : System} {rank other number k : Nat}
  {call : Call}

theorem Cluster.position_ne {first : Nat} {firstCall : Call} {position : Nat}
    (current : cluster.program[number]? = some call)
    (sends : call.collective.sends rank = true)
    (inCall : k < 4 * call.messageNum)
    (firstCurrent : cluster.program[first]? = some firstCall)
    (firstSends : firstCall.collective.sends rank = true)
    (inFirst : (cluster.job rank).base first ≤ position ∧
      position < (cluster.job rank).base first + 1 + 4 * firstCall.messageNum)
    (different : number = first →
      (cluster.job rank).base number + 1 + k ≠ position) :
    (cluster.job rank).base number + 1 + k ≠ position := by
  intro same
  apply different _ same
  exact (cluster.job rank).number_eq position current sends firstCurrent
    firstSends ⟨by omega, by omega⟩ inFirst

namespace System

theorem passed_congr (same : next.switch.aggEpsn = system.switch.aggEpsn) :
    next.Passed cluster number call k ↔ system.Passed cluster number call k := by
  simp only [Passed, same]

theorem Passed.mono {earlier : Nat}
    (passed : system.Passed cluster number call k) (le : earlier ≤ k) :
    system.Passed cluster number call earlier := by
  intro rank bound sends
  have reached := passed rank bound sends
  omega

theorem passed_advance_of_ne
    (moved : next.switch.aggEpsn = advance system.switch.aggEpsn rank)
    (different : call.collective.sends rank = true →
      (cluster.job rank).base number + 1 + k ≠ system.switch.aggEpsn rank) :
    next.Passed cluster number call k ↔ system.Passed cluster number call k := by
  simp only [Passed, moved]
  constructor
  all_goals
    intro passed other bound sends
    have reached := passed other bound sends
    by_cases own : other = rank
    · subst own
      have apart := different sends
      rw [advance_self] at *
      omega
    · rw [advance_of_ne own] at *
      exact reached

end System

end Positions

theorem Host.Expects.receive {host : Host} {job : Job} {number message : Nat}
    {call : Call} (expects : host.Expects number message)
    (invariant : host.Invariant job)
    (current : job.program[number]? = some call)
    (receives : call.collective.receives job.rank = true) :
    message < call.messageNum ∧
      host.qp.receives[(job.receivesBefore number).length + message]? =
        some ⟨message, message * payloadCount, payloadCount, number⟩ := by
  obtain ⟨rfl, running, posted⟩ := expects
  obtain ⟨stages, left⟩ := Option.isSome_iff_exists.mp running
  have inside := invariant.inside_of_current left current
  have length := inside.length_receives receives
  obtain ⟨wr, present⟩ : ∃ wr, host.qp.receives[
      (job.receivesBefore host.calls).length + message]? = some wr :=
    ⟨_, List.getElem?_eq_getElem (by omega)⟩
  obtain ⟨rfl, inCall⟩ := inside.receive_eq present
  exact ⟨inCall, present⟩

/-- A rank takes its receives back only by returning. -/
theorem Host.round_posted (host : Host) (job : Job) (call : Call) (stage : Stage)
    (rest : List Stage) :
    host.locals.posted ≤ (host.round job call stage rest).locals.posted := by
  cases stage with
  | postControl operation => exact le_rfl
  | awaitControl =>
      rw [round, awaitRound]
      split <;> exact le_rfl
  | postReceives =>
      rw [round]
      split_ifs
      · exact Nat.le_succ _
      · exact le_rfl
  | prepare =>
      rw [round]
      split_ifs <;> exact le_rfl
  | window =>
      rw [round]
      split_ifs <;> exact le_rfl
  | poll loop =>
      rw [round, pollRound]
      split
      · unfold handleWc refill count
        split_ifs <;> (try split) <;> exact le_rfl
      · split_ifs
        · split <;> exact le_rfl
        · exact le_rfl

theorem Host.Welcomes.congr {host next : Host} {number message : Nat}
    (welcomes : host.Welcomes number message) (calls : next.calls = host.calls)
    (stages : next.stages = host.stages)
    (posted : next.locals.posted = host.locals.posted) :
    next.Welcomes number message := by
  rcases welcomes with before | expects
  · exact .inl (calls ▸ before)
  · exact .inr ⟨calls.trans expects.calls,
      (congrArg Option.isSome stages).trans expects.running,
      posted ▸ expects.posted⟩

theorem Host.Welcomes.step {host next : Host} {job : Job} {number message : Nat}
    (welcomes : host.Welcomes number message) (moved : host.Moved job next) :
    next.Welcomes number message := by
  cases moved with
  | enter idle current =>
      refine welcomes.imp id fun expects => ?_
      have running := expects.running
      rw [idle] at running
      cases running
  | leave ended current inside =>
      left
      rcases welcomes with before | expects
      · exact Nat.lt_succ_of_lt before
      · exact expects.calls ▸ Nat.lt_succ_self _
  | @round call stage rest running current inside =>
      have continues := inside.round running
      obtain ⟨later, left, -⟩ := continues.inside
      have posted := round_posted host job call stage rest
      rcases welcomes with before | expects
      · exact .inl (continues.calls.symm ▸ before)
      · exact .inr ⟨continues.calls.trans expects.calls, by rw [left]; rfl,
          expects.posted.trans_le posted⟩

namespace System

variable {cluster : Cluster} {system next : System} {rank other number k : Nat}
  {call : Call}

theorem Awaited.sendPsn_eq (awaited : system.Awaited cluster rank)
    (current : cluster.program[number]? = some call)
    (receives : call.collective.receives rank = true)
    (inCall : k < 4 * call.messageNum) {message : Nat}
    (expects : (system.hosts rank).Expects number message)
    (missing : ¬system.Passed cluster number call k)
    (before : ∀ earlier < k, system.Passed cluster number call earlier) :
    system.switch.sendPsn rank =
      4 * ((cluster.job rank).receivesBefore number).length + k := by
  obtain ⟨rfl, running, posted⟩ := expects
  obtain ⟨stages, left⟩ := Option.isSome_iff_exists.mp running
  obtain ⟨count, most, sent, counted⟩ :=
    awaited.current stages call left current receives
  have few : count ≤ k := by
    by_contra more
    exact missing ((counted k inCall).mpr (by omega))
  have many : k ≤ count := by
    by_contra less
    have passed := before count (by omega)
    exact Nat.lt_irrefl count ((counted count (by omega)).mp passed)
  omega

theorem Awaited.congr (awaited : system.Awaited cluster rank)
    (hosts : (next.hosts rank).calls = (system.hosts rank).calls ∧
      (next.hosts rank).stages = (system.hosts rank).stages ∧
      (next.hosts rank).locals.posted = (system.hosts rank).locals.posted)
    (taking : next.Taking rank)
    (frames : dataFrames (next.down rank) = dataFrames (system.down rank))
    (sendPsn : next.switch.sendPsn rank = system.switch.sendPsn rank)
    (passed : ∀ number call k, cluster.program[number]? = some call →
      call.collective.receives rank = true → k < 4 * call.messageNum →
        (next.Passed cluster number call k ↔
          system.Passed cluster number call k)) :
    next.Awaited cluster rank where
  toTaking := taking
  numbered := by
    rw [frames]
    exact awaited.numbered
  count := by
    rw [frames, sendPsn]
    exact awaited.count
  past := by
    intro number call before current receives k inCall
    rw [hosts.1] at before
    exact (passed number call k current receives inCall).mpr
      (awaited.past number call before current receives k inCall)
  current := by
    intro stages call left current receives
    rw [hosts.2.1] at left
    rw [hosts.1] at current ⊢
    rw [sendPsn]
    obtain ⟨count, most, sent, counted⟩ :=
      awaited.current stages call left current receives
    exact ⟨count, most, sent, fun k inCall =>
      (passed _ call k current receives inCall).trans (counted k inCall)⟩
  resting := by
    rw [hosts.1, hosts.2.1, sendPsn]
    exact awaited.resting
  ready := by
    intro number call current receives k inCall reached
    exact (awaited.ready number call current receives k inCall
      ((passed number call k current receives inCall).mp reached)).congr
        hosts.1 hosts.2.1 hosts.2.2

/-- A call that returns has got everything its senders had for it. -/
theorem Awaited.all_passed (awaited : system.Awaited cluster rank)
    (current : cluster.program[(system.hosts rank).calls]? = some call)
    (receives : call.collective.receives rank = true)
    (left : (system.hosts rank).stages = some [])
    (inside : (system.hosts rank).Inside (cluster.job rank) call []) :
    system.switch.sendPsn rank = 4 * (((cluster.job rank).receivesBefore
        (system.hosts rank).calls).length + call.messageNum) ∧
      ∀ k < 4 * call.messageNum,
        system.Passed cluster (system.hosts rank).calls call k := by
  obtain ⟨count, most, sent, counted⟩ :=
    awaited.current [] call left current receives
  have all := inside.counters.received receives (by decide)
  have arrived := inside.delivered.receives.le
  have done := awaited.receivesDone
  have received := awaited.received_le
  rw [awaited.count] at received
  exact ⟨by omega, fun k inCall => (counted k inCall).mpr (by omega)⟩

theorem Awaited.enter (awaited : system.Awaited cluster rank)
    (idle : (system.hosts rank).stages = none) (stages : List Stage)
    (moved : (system.hosts rank).Moved (cluster.job rank)
      ((system.hosts rank).enter stages))
    (taking : (system.setHost rank ((system.hosts rank).enter stages)).Taking
      rank) :
    (system.setHost rank ((system.hosts rank).enter stages)).Awaited cluster
      rank := by
  refine ⟨taking, awaited.numbered, awaited.count, ?_, ?_, ?_, ?_⟩
  all_goals rw [setHost_self]
  · exact awaited.past
  · intro stages own _ ownCurrent receives
    refine ⟨0, Nat.zero_le _, awaited.resting (.inl idle),
      fun k inCall => iff_of_false ?_ (Nat.not_lt_zero k)⟩
    intro passed
    rcases awaited.ready _ own ownCurrent receives k inCall passed with
      before | expects
    · exact Nat.lt_irrefl _ before
    · have running := expects.running
      rw [idle] at running
      cases running
  · exact fun _ => awaited.resting (.inl idle)
  · intro number own ownCurrent receives k inCall passed
    exact (awaited.ready number own ownCurrent receives k inCall passed).step
      moved

theorem Awaited.leave (awaited : system.Awaited cluster rank)
    (ended : (system.hosts rank).stages = some [])
    (current : cluster.program[(system.hosts rank).calls]? = some call)
    (inside : (system.hosts rank).Inside (cluster.job rank) call [])
    (moved : (system.hosts rank).Moved (cluster.job rank)
      ((system.hosts rank).leave true))
    (taking : (system.setHost rank ((system.hosts rank).leave true)).Taking
      rank) :
    (system.setHost rank ((system.hosts rank).leave true)).Awaited cluster
      rank := by
  refine ⟨taking, awaited.numbered, awaited.count, ?_, ?_, ?_, ?_⟩
  all_goals rw [setHost_self]
  · intro number own before ownCurrent receives
    rcases Nat.lt_succ_iff_lt_or_eq.mp before with earlier | rfl
    · exact awaited.past number own earlier ownCurrent receives
    · obtain rfl := Option.some.inj (current.symm.trans ownCurrent)
      exact (awaited.all_passed current receives ended inside).2
  · intro stages own left
    cases left
  · intro _
    rw [Host.leave, Job.receivesBefore_succ, Job.recvWrs_of_call current,
      List.length_append, Job.length_recvWrsOf]
    cases receives : call.collective.receives rank with
    | true =>
        have sent := (awaited.all_passed current receives ended inside).1
        have own : call.collective.receives (cluster.job rank).rank = true :=
          receives
        rw [own]
        exact sent
    | false =>
        have own : call.collective.receives (cluster.job rank).rank =
            false := receives
        rw [own]
        apply awaited.resting
        right
        intro each same
        obtain rfl := Option.some.inj (current.symm.trans same)
        exact receives
  · intro number own ownCurrent receives k inCall passed
    exact (awaited.ready number own ownCurrent receives k inCall passed).step
      moved

theorem Awaited.round {stage : Stage} {rest : List Stage}
    (awaited : system.Awaited cluster rank)
    (running : (system.hosts rank).stages = some (stage :: rest))
    (inside : (system.hosts rank).Inside (cluster.job rank) call
      (stage :: rest))
    (moved : (system.hosts rank).Moved (cluster.job rank)
      ((system.hosts rank).round (cluster.job rank) call stage rest))
    (taking : (system.setHost rank ((system.hosts rank).round
      (cluster.job rank) call stage rest)).Taking rank) :
    (system.setHost rank ((system.hosts rank).round (cluster.job rank) call
      stage rest)).Awaited cluster rank := by
  have continues := inside.round running
  obtain ⟨later, left, -⟩ := continues.inside
  refine ⟨taking, awaited.numbered, awaited.count, ?_, ?_, ?_, ?_⟩
  all_goals rw [setHost_self]
  · rw [continues.calls]
    exact awaited.past
  · intro stages each _ eachCurrent receives
    rw [continues.calls] at eachCurrent ⊢
    exact awaited.current _ each running eachCurrent receives
  · rw [left, continues.calls]
    intro quiet
    apply awaited.resting
    rcases quiet with none | quiet
    · cases none
    · exact .inr quiet
  · intro number each eachCurrent receives k inCall passed
    exact (awaited.ready number each eachCurrent receives k inCall passed).step
      moved

theorem Awaited.host {host : Host} (awaited : system.Awaited cluster rank)
    (invariant : (system.hosts rank).Invariant (cluster.job rank))
    (stepped : (system.hosts rank).step (cluster.job rank) = some host) :
    (system.setHost rank host).Awaited cluster rank := by
  have taking : (system.setHost rank host).Taking rank :=
    awaited.toTaking.congr
      (by rw [setHost_self, (invariant.step_receives stepped).2.1])
      List.prefix_rfl rfl rfl
  have moved := invariant.moved_of_step stepped
  cases moved with
  | @enter _ idle current =>
      exact awaited.enter idle _ (.enter idle current) taking
  | @leave _ ended current inside =>
      exact awaited.leave ended current inside (.leave ended current inside)
        taking
  | @round _ _ _ running current inside =>
      exact awaited.round running inside (.round running current inside) taking

theorem Awaited.sendPsn_le (awaited : system.Awaited cluster rank)
    (invariant : (system.hosts rank).Invariant (cluster.job rank)) :
    system.switch.sendPsn rank ≤
      4 * (system.hosts rank).qp.receives.length := by
  cases running : (system.hosts rank).stages with
  | none =>
      rw [(invariant.between running).receives,
        awaited.resting (.inl running)]
  | some stages =>
      obtain ⟨call, current, inside⟩ := invariant.inside stages running
      cases receives : call.collective.receives rank with
      | false =>
          have rests := awaited.resting (.inr fun each same => by
            obtain rfl := Option.some.inj (current.symm.trans same)
            exact receives)
          have length := congrArg List.length inside.receives
          rw [List.length_append] at length
          omega
      | true =>
          obtain ⟨count, most, sent, counted⟩ :=
            awaited.current stages call running current receives
          have length := inside.length_receives receives
          rcases Nat.eq_zero_or_pos count with none | some
          · omega
          · have passed := (counted (count - 1) (by omega)).mpr (by omega)
            rcases awaited.ready _ call current receives (count - 1) (by omega)
              passed with before | expects
            · exact absurd before (Nat.lt_irrefl _)
            · have posted := expects.posted
              omega

/-- A data packet in turn with which the switch has it from all senders, while
all receivers expect its message. -/
structure Emits (cluster : Cluster) (system : System) (rank number k : Nat)
    (call : Call) (packet : Packet) : Prop
    extends system.InTurn cluster rank number k call packet where
  last : ∀ other < cluster.hosts, call.collective.sends other = true →
    other ≠ rank →
      (cluster.job other).base number + 1 + k < system.switch.aggEpsn other
  expects : ∀ other < cluster.hosts, call.collective.receives other = true →
    (system.hosts other).Expects number (k / 4)

section Emission

variable {packet : Packet}

/-- A data packet in turn moves the account of no other one. -/
theorem InTurn.passed_iff
    (inTurn : system.InTurn cluster rank number k call packet)
    (moved : next.switch.aggEpsn = advance system.switch.aggEpsn rank)
    {own j : Nat} {ownCall : Call}
    (ownCurrent : cluster.program[own]? = some ownCall)
    (inOwn : j < 4 * ownCall.messageNum)
    (different : own = number → j ≠ k) :
    next.Passed cluster own ownCall j ↔ system.Passed cluster own ownCall j := by
  have place := inTurn.place
  have inCall := inTurn.inCall
  apply passed_advance_of_ne moved
  intro sends
  apply cluster.position_ne ownCurrent sends inOwn inTurn.current inTurn.sends
    ⟨by omega, by omega⟩
  rintro rfl
  have apart := different rfl
  omega

theorem InTurn.not_passed
    (inTurn : system.InTurn cluster rank number k call packet) :
    ¬system.Passed cluster number call k := by
  intro passed
  have reached := passed rank inTurn.bound inTurn.sends
  rw [inTurn.place] at reached
  exact Nat.lt_irrefl _ reached

theorem Emits.passed_before
    (emits : system.Emits cluster rank number k call packet) :
    ∀ earlier < k, system.Passed cluster number call earlier := by
  intro earlier before other bound sends
  by_cases own : other = rank
  · subst own
    rw [emits.place]
    omega
  · have reached := emits.last other bound sends own
    omega

theorem Emits.passed_after
    (emits : system.Emits cluster rank number k call packet)
    (moved : next.switch.aggEpsn = advance system.switch.aggEpsn rank) :
    next.Passed cluster number call k := by
  intro other bound sends
  rw [moved]
  by_cases own : other = rank
  · subst own
    rw [advance_self, emits.place]
    exact Nat.lt_succ_self _
  · rw [advance_of_ne own]
    exact emits.last other bound sends own

theorem Emits.sendPsn_eq
    (emits : system.Emits cluster rank number k call packet)
    (awaited : system.Awaited cluster other) (bound : other < cluster.hosts)
    (receives : call.collective.receives other = true) :
    system.switch.sendPsn other =
      4 * ((cluster.job other).receivesBefore number).length + k :=
  awaited.sendPsn_eq emits.current receives emits.inCall
    (emits.expects other bound receives) emits.not_passed emits.passed_before

/-- A receiver of the call gets the packet. -/
theorem Awaited.emit {frame : Frame} (awaited : system.Awaited cluster other)
    (emits : system.Emits cluster rank number k call packet)
    (bound : other < cluster.hosts)
    (receives : call.collective.receives other = true)
    (moved : next.switch.aggEpsn = advance system.switch.aggEpsn rank)
    (hosts : next.hosts other = system.hosts other)
    (taking : next.Taking other)
    (frames : dataFrames (next.down other) =
      dataFrames (system.down other) ++ [frame])
    (psn : frame.psn = system.switch.sendPsn other)
    (ends : frame.endsMessage = true ↔ k % 4 = 3)
    (sendPsn : next.switch.sendPsn other = system.switch.sendPsn other + 1) :
    next.Awaited cluster other := by
  have place := emits.sendPsn_eq awaited bound receives
  have expects := emits.expects other bound receives
  have passed := emits.passed_after moved
  have others {own j : Nat} {ownCall : Call}
      (ownCurrent : cluster.program[own]? = some ownCall)
      (inOwn : j < 4 * ownCall.messageNum)
      (different : own = number → j ≠ k) :
      next.Passed cluster own ownCall j ↔
        system.Passed cluster own ownCall j :=
    emits.passed_iff moved ownCurrent inOwn different
  refine ⟨taking, ?_, ?_, ?_, ?_, ?_, ?_⟩
  · intro position each found
    rw [frames] at found
    rcases Nat.lt_or_ge position (dataFrames (system.down other)).length with
      old | new
    · rw [List.getElem?_append_left old] at found
      exact awaited.numbered position each found
    · rw [List.getElem?_append_right new] at found
      obtain ⟨zero, here⟩ := List.getElem?_eq_some_iff.mp found
      have count := awaited.count
      have same : position = system.switch.sendPsn other := by
        rw [List.length_singleton] at zero
        omega
      simp only [List.getElem_singleton] at here
      rw [← here, psn, ends, same]
      exact ⟨rfl, by omega⟩
  · rw [frames, List.length_append, awaited.count, sendPsn]
    rfl
  · intro own ownCall before ownCurrent ownReceives j inOwn
    rw [hosts, expects.calls] at before
    refine (others ownCurrent inOwn (fun same => by omega)).mpr ?_
    apply awaited.past own ownCall _ ownCurrent ownReceives j inOwn
    rwa [expects.calls]
  · rw [hosts, sendPsn, expects.calls]
    intro stages ownCall left ownCurrent ownReceives
    obtain rfl := Option.some.inj (emits.current.symm.trans ownCurrent)
    refine ⟨k + 1, emits.inCall, by omega, fun j inOwn => ?_⟩
    rcases Nat.lt_trichotomy j k with before | rfl | behind
    · refine iff_of_true ?_ (by omega)
      exact (others emits.current inOwn (fun _ => by omega)).mpr
        (emits.passed_before j before)
    · exact iff_of_true passed (by omega)
    · refine iff_of_false (fun more => ?_) (by omega)
      apply emits.not_passed
      exact ((others emits.current inOwn (fun _ => by omega)).mp more).mono
        behind.le
  · rw [hosts, expects.calls]
    rintro (idle | quiet)
    · have running := expects.running
      rw [idle] at running
      cases running
    · have none := quiet call emits.current
      rw [none] at receives
      cases receives
  · rw [hosts]
    intro own ownCall ownCurrent ownReceives j inOwn reached
    by_cases same : own = number ∧ j = k
    · obtain ⟨rfl, rfl⟩ := same
      exact .inr expects
    · apply awaited.ready own ownCall ownCurrent ownReceives j inOwn
      exact (others ownCurrent inOwn
        (fun here there => same ⟨here, there⟩)).mp reached

end Emission

/-- The next frame is taken, as its receive is posted. -/
theorem Awaited.deliver {frame : Frame} (awaited : system.Awaited cluster rank)
    (invariant : (system.hosts rank).Invariant (cluster.job rank))
    (present : (system.down rank)[system.delivered rank]? = some frame)
    (received : Received cluster system rank frame next) :
    Awaited cluster
      { next with
        delivered := Function.update system.delivered rank
          (system.delivered rank + 1) } rank := by
  by_cases data : frame.type = .data
  · have inTurn := awaited.inTurn present data
    obtain ⟨psn, ends⟩ := awaited.numbered _ frame inTurn
    have sent := (List.getElem?_eq_some_iff.mp inTurn).1
    have done := awaited.receivesDone
    have posted := awaited.sendPsn_le invariant
    rw [awaited.count] at sent
    obtain ⟨wr, outstanding⟩ : ∃ wr, (system.hosts rank).qp.receives[
        (system.hosts rank).qp.receivesDone]? = some wr :=
      ⟨_, List.getElem?_eq_getElem (by omega)⟩
    obtain ⟨host, rfl, stored, counted⟩ := received.taken outstanding data psn
    have complete := awaited.toTaking.counted ends counted
    apply awaited.congr
    · dsimp only
      rw [accept_self, stored.locals]
      exact ⟨stored.calls, stored.stages, rfl⟩
    · exact awaited.toTaking.take present data complete
    · rfl
    · rfl
    · exact fun _ _ _ _ _ _ => Iff.rfl
  · obtain rfl := received.eq_of_ne_data data
    exact awaited.congr ⟨rfl, rfl, rfl⟩ (awaited.toTaking.pass present data) rfl
      rfl fun _ _ _ _ _ _ => Iff.rfl

end System

end IncEmulation
