import IncEmulation.Effort
import IncEmulation.Capacity
import IncEmulation.Collectives
import IncEmulation.EndToEnd
import IncEmulation.Lib.Crowd

/-!
# All AllReduces return

Every step but a poll that finds nothing and an acknowledgement takes from what
is left to do, so a program of AllReduces comes to rest.  It does not rest in the
middle of a call: all that has been posted has been accepted then, so the slowest
rank has all its results and its window is open.
-/

namespace IncEmulation

open Gather Machine Crowd

namespace System

/-- A poll that finds nothing, or an acknowledgement. -/
def Idles (cluster : Cluster) (system : System) : Event → Prop
  | .host rank => (system.hosts rank).FindsNothing (cluster.job rank)
  | .acknowledge _ _ => True
  | _ => False

instance (cluster : Cluster) (system : System) :
    DecidablePred (Idles cluster system)
  | .host rank =>
      inferInstanceAs (Decidable
        ((system.hosts rank).FindsNothing (cluster.job rank)))
  | .acknowledge _ _ => .isTrue trivial
  | .transmit _ => .isFalse id
  | .handle _ => .isFalse id
  | .sendCompletes _ => .isFalse id
  | .deliver _ => .isFalse id

/-- Nothing is left to happen but polls that find nothing and
acknowledgements. -/
def Rests (cluster : Cluster) (system : System) : Prop :=
  ∀ event, step cluster system event ≠ none → system.Idles cluster event

/-- What is left to do for a rank and on its links.  A packet brings each rank
at most one frame besides its own acknowledgement. -/
def leftOf (cluster : Cluster) (system : System) (rank : Nat) : Nat :=
  (system.hosts rank).effort (cluster.job rank) +
    3 * (((cluster.job rank).sendsBefore cluster.program.length).length -
      (system.hosts rank).qp.sendsDone) +
    ((cluster.job rank).stream.length - (system.up rank).length) +
    (3 * cluster.hosts + 4) *
      ((cluster.job rank).stream.length - system.accepted rank) +
    3 * ((system.down rank).length - system.delivered rank)

def left (cluster : Cluster) (system : System) : Nat :=
  weigh cluster.hosts (system.leftOf cluster) id

end System

/-- All there is to do. -/
def Cluster.work (cluster : Cluster) : Nat :=
  weigh cluster.hosts (fun rank =>
    roundsOfProgram rank cluster.program +
      3 * ((cluster.job rank).sendsBefore cluster.program.length).length +
      (3 * cluster.hosts + 5) * (cluster.job rank).stream.length) id

/-- The last stage before a call waits for its control message: the message is
on its way or complete. -/
def Host.Awaits (host : Host) : Prop :=
  ∀ rest, host.stages = some (.awaitControl :: rest) →
    host.qp.sendsDone < host.qp.sends.length ∨ host.qp.cq ≠ []

section Awaiting

variable {host next : Host} {job : Job} {call : Call} {rank : Nat}
  {stage : Stage} {rest : List Stage}

theorem Call.rest_ne_awaitControl (suffix : stage :: rest <:+ call.stages rank)
    (posts : ∀ operation, stage ≠ .postControl operation)
    (later : List Stage) : rest ≠ .awaitControl :: later := by
  rintro rfl
  obtain ⟨-, stages⟩ := Call.stage_cases suffix
  have here : Stage.reached (.awaitControl :: later) = 1 := rfl
  rw [here] at stages
  rcases stages with ⟨same, -⟩ | ⟨-, -, reached⟩ | ⟨-, -, reached⟩ |
    ⟨-, -, reached⟩ | ⟨-, -, reached⟩ | ⟨-, last⟩
  · exact posts _ same
  · split_ifs at reached <;> cases reached
  · split_ifs at reached <;> cases reached
  · cases reached
  · cases reached
  · cases last

namespace Host

theorem init_awaits : Host.init.Awaits := fun _ running => nomatch running

theorem round_awaits (inside : host.Inside job call (stage :: rest))
    (running : host.stages = some (stage :: rest))
    (current : job.program[host.calls]? = some call)
    (finds : ¬host.FindsNothing job) :
    (host.round job call stage rest).Awaits := by
  intro later waiting
  by_cases posts : ∃ operation, stage = .postControl operation
  · obtain ⟨operation, rfl⟩ := posts
    have done := inside.delivered.sendsDone_le
    left
    simp only [round, postControl, QueuePair.postSend, List.length_append,
      List.length_singleton]
    omega
  · obtain ⟨after, shape, advances⟩ :=
      round_advances inside running current finds
    rw [advances.stages, Option.some.injEq] at waiting
    subst waiting
    rcases shape with same | ⟨other, same⟩
    · exact absurd same.symm (Call.rest_ne_awaitControl inside.suffix
        (fun operation equal => posts ⟨operation, equal⟩) later)
    · exact absurd (List.cons.inj same).1.symm other

theorem Invariant.step_awaits (invariant : host.Invariant job)
    (awaits : host.Awaits) (stepped : host.step job = some next) :
    next.Awaits := by
  by_cases finds : host.FindsNothing job
  · rw [step_of_findsNothing invariant finds stepped]
    exact awaits
  · cases invariant.moved_of_step stepped with
    | @enter call _ _ =>
        intro later waiting
        have reached := call.reached_stages job.rank
        rw [show call.stages job.rank = .awaitControl :: later from
          Option.some.inj waiting] at reached
        split_ifs at reached <;> cases reached
    | leave => exact fun _ running => nomatch running
    | @round _ _ _ running current inside =>
        exact round_awaits inside running current finds

theorem Invariant.step_calls (invariant : host.Invariant job)
    (within : host.calls ≤ job.program.length)
    (stepped : host.step job = some next) :
    next.calls ≤ job.program.length := by
  cases invariant.moved_of_step stepped with
  | enter => exact within
  | @leave _ _ current _ => exact (List.getElem?_eq_some_iff.mp current).1
  | @round _ _ _ running _ inside =>
      rw [(inside.round running).calls]
      exact within

/-- What a rank keeps in every run. -/
structure Lively (job : Job) (host : Host) : Prop where
  awaits : host.Awaits
  calls : host.calls ≤ job.program.length

theorem Lively.act {action : Action} (lively : host.Lively job)
    (invariant : host.Invariant job)
    (acted : host.act job action = some next) : next.Lively job := by
  cases action with
  | step =>
      exact ⟨invariant.step_awaits lively.awaits acted,
        invariant.step_calls lively.calls acted⟩
  | sendCompletes =>
      obtain ⟨qp, completes, rfl⟩ := Option.map_eq_some_iff.mp acted
      obtain ⟨wr, -, rfl⟩ := Option.map_eq_some_iff.mp completes
      exact ⟨fun _ _ => .inr (List.concat_ne_nil _ _), lively.calls⟩
  | receiveCompletes =>
      obtain ⟨qp, completes, rfl⟩ := Option.map_eq_some_iff.mp acted
      obtain ⟨wr, -, rfl⟩ := Option.map_eq_some_iff.mp completes
      exact ⟨fun _ _ => .inr (List.concat_ne_nil _ _), lively.calls⟩
  | store address words =>
      obtain rfl := Option.some.inj acted
      exact ⟨lively.awaits, lively.calls⟩

end Host

end Awaiting

namespace System

variable {cluster : Cluster} {system next : System} {rank : Nat}

theorem left_init (cluster : Cluster) (ctx : SwitchContext) :
    left cluster (.init ctx) = cluster.work := by
  unfold left Cluster.work weigh
  refine Finset.sum_congr rfl fun rank _ => ?_
  have effort : Host.init.effort (cluster.job rank) =
      roundsOfProgram rank cluster.program := rfl
  simp only [leftOf, init, effort, id_eq, List.length_nil, Nat.sub_zero]
  have distribute : (3 * cluster.hosts + 5) *
      (cluster.job rank).stream.length =
        (3 * cluster.hosts + 4) * (cluster.job rank).stream.length +
          (cluster.job rank).stream.length := Nat.succ_mul _ _
  have none : Host.init.qp.sendsDone = 0 := rfl
  rw [distribute, none]
  omega

theorem left_add_le {given : Nat} (bound : rank < cluster.hosts)
    (others : ∀ other < cluster.hosts, other ≠ rank →
      next.leftOf cluster other ≤ system.leftOf cluster other)
    (own : next.leftOf cluster rank + given ≤ system.leftOf cluster rank) :
    next.left cluster + given ≤ system.left cluster := by
  have shared : next.left cluster + given ≤
      system.left cluster + weigh cluster.hosts (fun _ => 0) id :=
    weigh_add_le bound others own
  have nothing : weigh cluster.hosts (fun _ => 0) id = 0 :=
    weigh_eq_zero_iff.mpr fun _ _ => rfl
  rw [nothing] at shared
  exact shared

theorem leftOf_congr (other : Nat)
    (hosts : next.hosts other = system.hosts other)
    (up : next.up other = system.up other)
    (accepted : next.accepted other = system.accepted other)
    (down : next.down other = system.down other)
    (delivered : next.delivered other = system.delivered other) :
    next.leftOf cluster other = system.leftOf cluster other := by
  rw [leftOf, leftOf, hosts, up, accepted, down, delivered]

theorem left_setHost {host : Host} {given : Nat}
    (bound : rank < cluster.hosts)
    (less : host.effort (cluster.job rank) +
        3 * (((cluster.job rank).sendsBefore cluster.program.length).length -
          host.qp.sendsDone) + given ≤
      (system.hosts rank).effort (cluster.job rank) +
        3 * (((cluster.job rank).sendsBefore cluster.program.length).length -
          (system.hosts rank).qp.sendsDone)) :
    (system.setHost rank host).left cluster + given ≤ system.left cluster := by
  refine left_add_le bound (fun other _ different => ?_) ?_
  · exact Nat.le_of_eq (leftOf_congr other
      (Function.update_of_ne different ..) rfl rfl rfl rfl)
  · have up : (system.setHost rank host).up = system.up := rfl
    have accepted : (system.setHost rank host).accepted = system.accepted := rfl
    have down : (system.setHost rank host).down = system.down := rfl
    have delivered : (system.setHost rank host).delivered =
        system.delivered := rfl
    rw [leftOf, leftOf, System.setHost_self, up, accepted, down, delivered]
    omega

/-- A packet that is accepted brings each rank at most one frame, and its own
rank an acknowledgement. -/
theorem frames_le {segment : Segment} {packet : Packet}
    (wired : Wired cluster system) (bound : rank < cluster.hosts)
    (present : (system.up rank)[system.accepted rank]? =
      some (segment, packet))
    (moves : (packetHandler system.switch rank packet).1.aggEpsn rank ≠
      system.switch.aggEpsn rank) :
    (packetHandler system.switch rank packet).2.length ≤ cluster.hosts + 1 := by
  have outcome := wired.outcome bound (wired.arriving bound present)
  have targets (operation : Collective) :
      (operation.targets cluster.hosts).length ≤ cluster.hosts := by
    cases operation with
    | allreduce => exact (List.length_range ..).le
    | reduce root => exact Nat.zero_lt_of_lt bound
    | broadcast root =>
        exact (List.length_filter_le _ _).trans (List.length_range ..).le
  generalize (packetHandler system.switch rank packet).1 = after at outcome moves
  generalize (packetHandler system.switch rank packet).2 = frames at outcome ⊢
  cases outcome with
  | control => exact Nat.succ_le_succ (Nat.zero_le _)
  | unmoved => exact absurd rfl moves
  | broadcast =>
      rw [List.length_cons, SwitchContext.resultFrames, List.length_map]
      exact Nat.succ_le_succ (targets _)
  | incomplete => exact Nat.succ_le_succ (Nat.zero_le _)
  | complete =>
      rw [List.length_cons, SwitchContext.resultFrames, List.length_map]
      exact Nat.succ_le_succ (targets _)

theorem left_handled {segment : Segment} {packet : Packet}
    (wired : Wired cluster system) (bound : rank < cluster.hosts)
    (present : (system.up rank)[system.accepted rank]? =
      some (segment, packet))
    (moves : (packetHandler system.switch rank packet).1.aggEpsn rank ≠
      system.switch.aggEpsn rank) :
    left cluster
        { system.feedSwitch rank packet with
          accepted := Function.update system.accepted rank
            (system.accepted rank + 1) } + 1 ≤ system.left cluster := by
  have few := frames_le wired bound present moves
  have inStream :=
    (List.getElem?_eq_some_iff.mp (wired.up_stream present)).1
  have shares : weigh cluster.hosts (fun conn =>
        3 * ((packetHandler system.switch rank packet).2.filter
          fun frame => frame.conn = conn).length) id ≤
      3 * (packetHandler system.switch rank packet).2.length :=
    weigh_filter_le 3 Frame.conn _
  have shared : left cluster
        { system.feedSwitch rank packet with
          accepted := Function.update system.accepted rank
            (system.accepted rank + 1) } + (3 * cluster.hosts + 4) ≤
      system.left cluster + weigh cluster.hosts (fun conn =>
        3 * ((packetHandler system.switch rank packet).2.filter
          fun frame => frame.conn = conn).length) id := by
    refine weigh_add_le bound (fun other _ different => ?_) ?_
    · simp only [leftOf, feedSwitch, Function.update_of_ne different,
        List.length_append]
      omega
    · have split : (3 * cluster.hosts + 4) *
          ((cluster.job rank).stream.length - system.accepted rank) =
            (3 * cluster.hosts + 4) * ((cluster.job rank).stream.length -
              (system.accepted rank + 1)) + (3 * cluster.hosts + 4) := by
        rw [← Nat.mul_succ]
        congr 1
        omega
      simp only [leftOf, feedSwitch, Function.update_self, List.length_append,
        split]
      omega
  omega

end System

/-! ## Steps and runs -/

theorem Host.Invariant.sends_le_program {job : Job} {host : Host}
    (invariant : host.Invariant job) :
    host.qp.sends.length ≤ (job.sendsBefore job.program.length).length := by
  cases stages : host.stages with
  | none =>
      rw [(invariant.between stages).sends]
      exact (job.sendsBefore_le _).length_le
  | some left =>
      obtain ⟨call, current, inside⟩ := invariant.inside left stages
      have succ := (job.sendsBefore_le (host.calls + 1)).length_le
      rw [Job.sendsBefore_succ, Job.sendWrs_of_call current,
        List.length_append] at succ
      rw [inside.sends, List.length_append]
      have taken := List.length_take_le'
        (if Stage.reached left = 0 then 0 else host.locals.sendNum + 1)
        (job.sendWrsOf host.calls call)
      omega

theorem Host.Invariant.step_sendsDone {job : Job} {host next : Host}
    (invariant : host.Invariant job) (stepped : host.step job = some next) :
    next.qp.sendsDone = host.qp.sendsDone := by
  cases invariant.moved_of_step stepped with
  | enter => rfl
  | leave => rfl
  | @round call _ _ _ _ _ => exact (round_keeps host job call _ _).sendsDone

/-- What every run of AllReduces keeps. -/
structure Lively (cluster : Cluster) (system : System) : Prop where
  summing : ∃ frontier, Summing cluster frontier system
  hosts : ∀ rank, (system.hosts rank).Lively (cluster.job rank)

namespace Lively

variable {cluster : Cluster} {system next : System} {rank : Nat}

theorem wired (lively : Lively cluster system) : Wired cluster system :=
  lively.summing.elim fun _ summing => summing.wired

theorem init {ctx : SwitchContext} (fresh : cluster.Fresh ctx)
    (nonempty : 0 < cluster.hosts) : Lively cluster (.init ctx) where
  summing := ⟨0, .init fresh nonempty⟩
  hosts := fun _ => ⟨Host.init_awaits, Nat.zero_le _⟩

theorem step {event : System.Event} (allReduces : cluster.AllReduces)
    (short : ∀ call ∈ cluster.program, call.len.toNat < 2 ^ 31)
    (fits : cluster.stream.length < 2 ^ 24) (lively : Lively cluster system)
    (stepped : System.step cluster system event = some next) :
    Lively cluster next where
  summing := lively.summing.elim fun _ summing =>
    summing.step allReduces short fits stepped
  hosts := by
    intro rank
    have kept (host after : Host) (action : Host.Action)
        (held : host.Invariant (cluster.job rank) ∧
          host.Lively (cluster.job rank))
        (acted : host.act (cluster.job rank) action = some after) :
        after.Invariant (cluster.job rank) ∧ after.Lively (cluster.job rank) :=
      ⟨held.1.act acted, held.2.act held.1 acted⟩
    have moved := System.moved_of_step stepped
    exact (moved.keeps kept ⟨lively.wired.hosts rank, lively.hosts rank⟩).2

/-- In a program of AllReduces the switch accepts what comes next. -/
theorem moves (allReduces : cluster.AllReduces)
    (fits : cluster.stream.length < 2 ^ 24) (lively : Lively cluster system)
    (bound : rank < cluster.hosts) {segment : Segment} {packet : Packet}
    (present : (system.up rank)[system.accepted rank]? =
      some (segment, packet)) :
    (packetHandler system.switch rank packet).1.aggEpsn rank ≠
      system.switch.aggEpsn rank := by
  obtain ⟨frontier, summing⟩ := lively.summing
  have inStream :=
    (List.getElem?_eq_some_iff.mp (summing.wired.up_stream present)).1
  rw [allReduces.stream_eq, summing.wired.accepted rank bound] at inStream
  rcases summing.inForce with nothing | inForce
  · have zero := nothing rank bound
    cases summing.wired.arriving bound present with
    | control current sends place =>
        have admissible := Cluster.admissible_of_call current sends
        rw [packetHandler_control summing.wired.deployed.toRouted bound
          Addressing.controlPacket_from admissible
          (Addressing.controlPacket_announces summing.wired.deployed.fits bound
            admissible)]
        exact fun same => Nat.succ_ne_self _
          ((advance_self system.switch.aggEpsn rank).symm.trans same)
    | data current sends inCall place => omega
  · exact summing.wired.advances bound present (inStream.trans fits) inForce
      rfl

theorem left_deliver {frame : Frame} (bound : rank < cluster.hosts)
    (present : (system.down rank)[system.delivered rank]? = some frame)
    (received : System.Received cluster system rank frame next) :
    System.left cluster
        { next with
          delivered := Function.update system.delivered rank
            (system.delivered rank + 1) } + 1 ≤ system.left cluster := by
  obtain ⟨-, up, down, others⟩ := received.apart
  have arrived := (List.getElem?_eq_some_iff.mp present).1
  have accepted (other : Nat) : next.accepted other = system.accepted other :=
    (received.requests other).2
  have host : (next.hosts rank).effort (cluster.job rank) ≤
      (system.hosts rank).effort (cluster.job rank) + 2 := by
    cases received with
    | dropped => exact Nat.le_add_right _ _
    | stored =>
        simp only [System.accept, System.setHost_hosts, Function.update_self]
        exact Nat.le_add_right _ _
    | completed posted data expected last acted =>
        obtain ⟨qp, completes, rfl⟩ := Option.map_eq_some_iff.mp acted
        obtain ⟨wr, -, rfl⟩ := Option.map_eq_some_iff.mp completes
        simp only [System.accept, System.setHost_hosts, Function.update_self,
          Host.effort, List.length_append, List.length_singleton]
        have same : ∀ queue receivePayload,
            Host.roundsLeft (cluster.job rank)
              { system.hosts rank with
                qp := queue, receivePayload := receivePayload } =
              (system.hosts rank).roundsLeft (cluster.job rank) :=
          fun _ _ => rfl
        simp only [Host.store, same]
        omega
  have sendsDone := (received.requests rank).1.sendsDone
  refine System.left_add_le bound (fun other _ different => ?_) ?_
  · exact Nat.le_of_eq (System.leftOf_congr other (others other different).1
      (congrFun up other) (accepted other) (congrFun down other)
      (Function.update_of_ne different ..))
  · simp only [System.leftOf, Function.update_self, up, down, accepted rank,
      sendsDone]
    omega

theorem left_transmit {segment : Segment} (wired : Wired cluster system)
    (bound : rank < cluster.hosts)
    (present : (segments (system.hosts rank).qp.sends)[
      (system.up rank).length]? = some segment) (packet : Packet) :
    System.left cluster
        { system with
          up := Function.update system.up rank
            (system.up rank ++ [(segment, packet)]) } + 1 ≤
      system.left cluster := by
  have streamed := getElem?_of_prefix
    (wired.hosts rank).segments_le_stream present
  have inStream := (List.getElem?_eq_some_iff.mp streamed).1
  refine System.left_add_le bound (fun other _ different => ?_) ?_
  · exact Nat.le_of_eq (System.leftOf_congr other rfl
      (Function.update_of_ne different ..) rfl rfl rfl)
  · simp only [System.leftOf, Function.update_self, List.length_append,
      List.length_singleton]
    omega

theorem left_sendCompletes {host : Host} (wired : Wired cluster system)
    (bound : rank < cluster.hosts)
    (acted : (system.hosts rank).act (cluster.job rank) .sendCompletes =
      some host) :
    (system.setHost rank host).left cluster + 1 ≤ system.left cluster := by
  obtain ⟨qp, completes, rfl⟩ := Option.map_eq_some_iff.mp acted
  obtain ⟨wr, posted, rfl⟩ := Option.map_eq_some_iff.mp completes
  have outstanding := (List.getElem?_eq_some_iff.mp posted).1
  have all := (wired.hosts rank).sends_le_program
  have program : (cluster.job rank).program = cluster.program := rfl
  rw [program] at all
  have same : ∀ queue,
      Host.roundsLeft (cluster.job rank)
        { system.hosts rank with qp := queue } =
        (system.hosts rank).roundsLeft (cluster.job rank) :=
    fun _ => rfl
  apply System.left_setHost bound
  simp only [Host.effort, same, List.length_append, List.length_singleton]
  omega

/-- Every step that is not idle takes from what is left. -/
theorem left_le {event : System.Event} (allReduces : cluster.AllReduces)
    (fits : cluster.stream.length < 2 ^ 24) (lively : Lively cluster system)
    (stepped : System.step cluster system event = some next) :
    next.left cluster + (if ¬system.Idles cluster event then 1 else 0) ≤
      system.left cluster := by
  have wired := lively.wired
  cases System.moved_of_step stepped with
  | @host rank host bound acted =>
      have done := (wired.hosts rank).step_sendsDone acted
      apply System.left_setHost bound
      rw [done]
      split_ifs with finds
      · rw [Host.step_of_findsNothing (wired.hosts rank) finds acted]
        exact le_rfl
      · have less := Host.step_effort (wired.hosts rank) finds acted
        omega
  | @transmit rank segment bound present =>
      rw [if_pos (show ¬System.Idles cluster system (.transmit rank) from id)]
      exact left_transmit wired bound present _
  | refused bound present stays =>
      exact absurd stays (lively.moves allReduces fits bound present)
  | @handled rank segment packet bound present moves =>
      rw [if_pos (show ¬System.Idles cluster system (.handle rank) from id)]
      exact System.left_handled wired bound present moves
  | @sendCompletes rank host bound accepted acted =>
      rw [if_pos (show ¬System.Idles cluster system (.sendCompletes rank)
        from id)]
      exact left_sendCompletes wired bound acted
  | @acknowledge rank packet bound origin opcode =>
      have silent := (wired.acknowledge bound origin opcode).2
      have down (other : Nat) :
          (system.feedSwitch rank packet).down other = system.down other := by
        simp only [System.feedSwitch, silent, List.filter_nil,
          List.append_nil]
      have idles : system.Idles cluster (.acknowledge rank packet) := trivial
      rw [if_neg (not_not.mpr idles)]
      refine System.left_add_le bound (fun other _ _ => ?_) ?_
      · exact Nat.le_of_eq
          (System.leftOf_congr other rfl rfl rfl (down other) rfl)
      · exact Nat.le_of_eq
          (System.leftOf_congr rank rfl rfl rfl (down rank) rfl)
  | deliver bound present received =>
      rw [if_pos (show ¬System.Idles cluster system (.deliver _) from id)]
      exact left_deliver bound present received

/-! ## At rest -/

section AtRest

variable {frontier : Nat} {call : Call}

theorem not_stepped (rests : system.Rests cluster) (event : System.Event)
    (idles : ¬system.Idles cluster event) :
    System.step cluster system event = none := by
  by_contra stepped
  exact idles (rests event stepped)

theorem accepted_eq (allReduces : cluster.AllReduces)
    (fits : cluster.stream.length < 2 ^ 24) (lively : Lively cluster system)
    (rests : system.Rests cluster) (bound : rank < cluster.hosts) :
    system.accepted rank = (segments (system.hosts rank).qp.sends).length := by
  have sent := lively.wired.sent_le rank
  have taken := lively.wired.accepted_le rank
  have nothing : (segments (system.hosts rank).qp.sends)[
      (system.up rank).length]? = none := by
    by_contra present
    obtain ⟨segment, present⟩ := Option.ne_none_iff_exists'.mp present
    have stepped := not_stepped rests (.transmit rank) id
    rw [System.step_transmit bound present] at stepped
    cases stepped
  have unhandled : (system.up rank)[system.accepted rank]? = none := by
    by_contra present
    obtain ⟨sent, present⟩ := Option.ne_none_iff_exists'.mp present
    have stepped := not_stepped rests (.handle rank) id
    rw [System.step_handle bound present
      (lively.moves allReduces fits bound present)] at stepped
    cases stepped
  have whole := List.getElem?_eq_none_iff.mp nothing
  have all := List.getElem?_eq_none_iff.mp unhandled
  omega

theorem sendsDone_eq (allReduces : cluster.AllReduces)
    (fits : cluster.stream.length < 2 ^ 24) (lively : Lively cluster system)
    (rests : system.Rests cluster) (bound : rank < cluster.hosts) :
    ¬(system.hosts rank).qp.sendsDone < (system.hosts rank).qp.sends.length := by
  intro outstanding
  have accepted : system.SendAccepted rank := by
    have taken := (segments_mono (List.take_prefix
      ((system.hosts rank).qp.sendsDone + 1)
      (system.hosts rank).qp.sends)).length_le
    rw [System.SendAccepted, accepted_eq allReduces fits lively rests bound]
    exact taken
  have acted : (system.hosts rank).act (cluster.job rank) .sendCompletes ≠
      none := by
    simp [Host.act, QueuePair.completeSend, outstanding]
  obtain ⟨host, acted⟩ := Option.ne_none_iff_exists'.mp acted
  have stepped := not_stepped rests (.sendCompletes rank) id
  rw [System.step_sendCompletes bound accepted acted] at stepped
  cases stepped

/-- At rest every rank has received the results of what all have sent. -/
theorem receivesDone_eq (summing : Summing cluster frontier system)
    (rests : system.Rests cluster) (bound : rank < cluster.hosts) :
    (system.hosts rank).qp.receivesDone = cluster.dataBefore frontier / 4 := by
  have taking := (summing.receiving rank bound).toTaking
  have nothing : (system.down rank)[system.delivered rank]? = none := by
    by_contra present
    obtain ⟨frame, present⟩ := Option.ne_none_iff_exists'.mp present
    have stepped := not_stepped rests (.deliver rank) id
    simp only [System.step, if_pos bound, System.deliver, present,
      Option.map_some] at stepped
    cases stepped
  rw [taking.receivesDone, taking.received,
    List.take_of_length_le (List.getElem?_eq_none_iff.mp nothing),
    summing.frames rank bound, Cluster.length_resultsTo bound]

/-- A rank that waits for its results. -/
structure Waits (cluster : Cluster) (host : Host) (rank : Nat) (call : Call) :
    Prop where
  current : cluster.program[host.calls]? = some call
  inside : host.Inside (cluster.job rank) call [.poll .allreduce]
  arrived : host.qp.receivesDone =
    cluster.messagesBefore host.calls + host.locals.receiveNum
  more : host.locals.receiveNum < call.messageNum

/-- At rest a rank has returned from all calls or waits for its results. -/
theorem returned_or_waits (allReduces : cluster.AllReduces)
    (fits : cluster.stream.length < 2 ^ 24) (lively : Lively cluster system)
    (rests : system.Rests cluster) (bound : rank < cluster.hosts) :
    ((system.hosts rank).stages = none ∧
        (system.hosts rank).calls = cluster.program.length) ∨
      ∃ call, Waits cluster (system.hosts rank) rank call := by
  have invariant := lively.wired.hosts rank
  have within := (lively.hosts rank).calls
  have program : (cluster.job rank).program = cluster.program := rfl
  rw [program] at within
  by_cases nothing : (system.hosts rank).FindsNothing (cluster.job rank)
  · right
    unfold Host.FindsNothing at nothing
    split at nothing
    · rename_i rest running
      rcases (lively.hosts rank).awaits rest running with outstanding | found
      · exact absurd outstanding
          (sendsDone_eq allReduces fits lively rests bound)
      · exact absurd nothing found
    · rename_i loop rest running
      obtain ⟨used, empty, call, current, continues⟩ := nothing
      have inside := invariant.inside_of_current running current
      obtain ⟨isLoop, rfl⟩ := Call.poll_cases inside.suffix
      rw [allReduces.collective current] at isLoop
      obtain rfl : loop = .allreduce := isLoop
      have most := inside.delivered.receivesDone_le
      have posted := inside.counters.posted_le
      rw [inside.receives, List.length_append, List.length_take,
        allReduces.length_receivesBefore] at most
      have arrived := inside.delivered.receives.count
      rw [used, empty, allReduces.length_receivesBefore] at arrived
      simp only [PollLoop.continues, decide_eq_true_eq] at continues
      refine ⟨call, current, inside, arrived.symm, ?_⟩
      simp only [List.append_nil, List.countP_nil] at arrived
      omega
    · cases nothing
  · left
    have stepped := not_stepped rests (.host rank) nothing
    simp only [System.step, if_pos bound, Option.map_eq_none_iff, Host.act,
      Host.step] at stepped
    split at stepped
    · rename_i idle
      have ended := List.getElem?_eq_none_iff.mp
        (Option.map_eq_none_iff.mp stepped)
      rw [program] at ended
      exact ⟨idle, Nat.le_antisymm within ended⟩
    · cases stepped
    · rename_i stage rest running
      obtain ⟨call, current, -⟩ := invariant.inside _ running
      rw [current] at stepped
      cases stepped

theorem Waits.sendNum (allReduces : cluster.AllReduces)
    (waits : Waits cluster (system.hosts rank) rank call) :
    (system.hosts rank).locals.receiveNum <
      (system.hosts rank).locals.sendNum := by
  have opened := waits.inside.counters.sendNum_after
    (allReduces.sends waits.current _) (by decide)
  rw [if_pos (allReduces.receives waits.current _), windowMessages] at opened
  have more := waits.more
  omega

/-- A program of AllReduces rests only when it is over. -/
theorem returned_of_rests (allReduces : cluster.AllReduces)
    (fits : cluster.stream.length < 2 ^ 24) (lively : Lively cluster system)
    (rests : system.Rests cluster) (bound : rank < cluster.hosts) :
    (system.hosts rank).stages = none ∧
      (system.hosts rank).calls = cluster.program.length := by
  obtain ⟨frontier, summing⟩ := lively.summing
  obtain ⟨slowest, slowestBound, attained⟩ := summing.aggregating.reached.attained
  have accepted := accepted_eq allReduces fits lively rests slowestBound
  rw [summing.wired.accepted slowest slowestBound, attained] at accepted
  have slowestDone := receivesDone_eq summing rests slowestBound
  rcases returned_or_waits allReduces fits lively rests slowestBound with
    ⟨idle, calls⟩ | ⟨call, waits⟩
  · rw [allReduces.length_segments_between
      ((summing.wired.hosts slowest).between idle), calls] at accepted
    rcases returned_or_waits allReduces fits lively rests bound with
      returned | ⟨call, waits⟩
    · exact returned
    · -- The slowest rank is through, so all results have come.
      have done := receivesDone_eq summing rests bound
      rw [waits.arrived, accepted, allReduces.dataBefore_start] at done
      have within := (List.getElem?_eq_some_iff.mp waits.current).1
      have passed := cluster.messagesBefore_mono (Nat.succ_le_of_lt within)
      rw [Nat.succ_eq_add_one, allReduces.messagesBefore_succ waits.current]
        at passed
      have more := waits.more
      omega
  · -- The slowest rank waits for what it has itself sent last.
    have opened := waits.sendNum allReduces
    have few := (allReduces.sendNum_le waits.current waits.inside).1
    have length :=
      allReduces.length_segments_inside waits.current waits.inside
    rw [if_neg (by decide), ← Nat.add_assoc] at length
    rw [waits.arrived, accepted, length,
      allReduces.dataBefore_data waits.current (by omega)] at slowestDone
    omega

end AtRest

end Lively

/-- The bound on the steps and the rest, for queues without bound. -/
theorem Lively.returns {cluster : Cluster} {ctx : SwitchContext}
    {events : List System.Event} {system : System}
    (fresh : cluster.Fresh ctx) (allReduces : cluster.AllReduces)
    (short : ∀ call ∈ cluster.program, call.len.toNat < 2 ^ 31)
    (fits : cluster.stream.length < 2 ^ 24)
    (taken : run (System.step cluster) (.init ctx) events = some system) :
    count (System.step cluster)
        (fun state event => ¬state.Idles cluster event) (.init ctx) events ≤
      cluster.work ∧
    (system.Rests cluster → ∀ rank < cluster.hosts,
      (system.hosts rank).stages = none ∧
        (system.hosts rank).calls = cluster.program.length) := by
  rcases Nat.eq_zero_or_pos cluster.hosts with none | some
  · have stuck (state : System) (event : System.Event) :
        System.step cluster state event = Option.none := by
      cases event <;> simp [System.step, none]
    cases events with
    | nil =>
        exact ⟨Nat.zero_le _, fun _ rank bound => by
          rw [none] at bound
          exact absurd bound (Nat.not_lt_zero rank)⟩
    | cons event events =>
        rw [run_cons, stuck] at taken
        cases taken
  · have paid : count (System.step cluster)
          (fun state event => ¬state.Idles cluster event) (.init ctx) events +
        system.left cluster ≤ System.left cluster (.init ctx) :=
      count_add_measure_le (System.left cluster) (Lively cluster)
      (fun _ _ _ lively stepped => lively.step allReduces short fits stepped)
      (fun _ _ _ lively stepped => lively.left_le allReduces fits stepped)
      (.init fresh some) taken
    rw [System.left_init] at paid
    have lively : Lively cluster system :=
      Reachable.invariant (Lively cluster)
        (fun _ _ _ lively stepped => lively.step allReduces short fits stepped)
        (.init fresh some) ⟨events, taken⟩
    exact ⟨by omega, fun rests rank bound =>
      lively.returned_of_rests allReduces fits rests bound⟩

/-- A program of AllReduces whose messages fit the buffers and the queues comes
to an end: in every run in which nothing finds its queue full, only so many steps
are more than polls that find nothing and acknowledgements, every rank keeps to
its buffers, and when no other step is left every rank has returned from all its
calls. -/
theorem allreduces_return (cluster : Cluster) (ctx : SwitchContext)
    (fresh : cluster.Fresh ctx) (allReduces : cluster.AllReduces)
    (short : ∀ call ∈ cluster.program, call.len.toNat < 2 ^ 31)
    (fits : cluster.stream.length < 2 ^ 24) (room : cluster.MessagesFit)
    (small : ∀ call ∈ cluster.program, call.messageNum ≤ cluster.segmentNum)
    (events : List System.Event) (system : System)
    (taken : run (System.stepLimited cluster) (.init ctx) events = some system)
    (hasRoom : Meets (System.stepLimited cluster)
      (fun state event => state.HasRoom cluster event) (.init ctx) events) :
    system.Confined cluster ∧
    count (System.stepLimited cluster)
        (fun state event => ¬state.Idles cluster event) (.init ctx) events ≤
      cluster.work ∧
    (system.Rests cluster → ∀ rank < cluster.hosts,
      (system.hosts rank).stages = none ∧
        (system.hosts rank).calls = cluster.program.length) := by
  have preserved (state : System) (event : System.Event) (next : System)
      (wired : Wired cluster state)
      (stepped : System.step cluster state event = some next) :
      Wired cluster next :=
    wired.move (System.moved_of_step stepped)
  have agree (state : System) (event : System.Event)
      (wired : Wired cluster state) (room : state.HasRoom cluster event) :
      System.stepLimited cluster state event =
        System.step cluster state event :=
    System.stepLimited_eq wired small room
  rw [run_congr_of_meets (Wired cluster) preserved agree (.init fresh) hasRoom]
    at taken
  rw [count_congr_of_meets (Wired cluster) preserved agree (.init fresh)
    hasRoom]
  exact ⟨System.confined_of_reachable room ⟨events, taken⟩,
    Lively.returns fresh allReduces short fits taken⟩

/-- Two ranks add up one word and return. -/
def wholeSumRun : List System.Event :=
  List.flatten
    [messageOf 0, messageOf 1, [.sendCompletes 0, .sendCompletes 1],
      List.replicate 9 (.deliver 0), List.replicate 9 (.deliver 1),
      List.replicate 6 (.host 0), List.replicate 6 (.host 1)]

/-- Nothing is left for a rank and its links. -/
def System.Still (cluster : Cluster) (system : System) (rank : Nat) : Prop :=
  (step cluster system (.host rank)).isNone ∧
    (step cluster system (.transmit rank)).isNone ∧
    (step cluster system (.handle rank)).isNone ∧
    (step cluster system (.sendCompletes rank)).isNone ∧
    (step cluster system (.deliver rank)).isNone

instance (cluster : Cluster) (system : System) (rank : Nat) :
    Decidable (System.Still cluster system rank) :=
  inferInstanceAs (Decidable (_ ∧ _))

theorem System.rests_of_still {cluster : Cluster} {system : System}
    (still : ∀ rank < cluster.hosts, system.Still cluster rank) :
    system.Rests cluster := by
  have within {rank : Nat} {after : Option System}
      (stepped : (if rank < cluster.hosts then after else none) ≠ none) :
      rank < cluster.hosts := by
    by_contra outside
    exact stepped (if_neg outside)
  intro event stepped
  by_contra idles
  cases event with
  | host rank =>
      have nothing := (still rank (within stepped)).1
      exact stepped (Option.isNone_iff_eq_none.mp nothing)
  | transmit rank =>
      have nothing := (still rank (within stepped)).2.1
      exact stepped (Option.isNone_iff_eq_none.mp nothing)
  | handle rank =>
      have nothing := (still rank (within stepped)).2.2.1
      exact stepped (Option.isNone_iff_eq_none.mp nothing)
  | sendCompletes rank =>
      have bound : rank < cluster.hosts := by
        by_contra outside
        exact stepped (if_neg fun both => outside both.1)
      have nothing := (still rank bound).2.2.2.1
      exact stepped (Option.isNone_iff_eq_none.mp nothing)
  | acknowledge rank packet => exact idles trivial
  | deliver rank =>
      have nothing := (still rank (within stepped)).2.2.2.2
      exact stepped (Option.isNone_iff_eq_none.mp nothing)

theorem allreduces_return_wholeSumRun :
    ∃ system, run (System.stepLimited oneSum) (.init twoHosts.context)
        wholeSumRun = some system ∧ system.Confined oneSum ∧
      count (System.stepLimited oneSum)
          (fun state event => ¬state.Idles oneSum event)
          (.init twoHosts.context) wholeSumRun ≤ oneSum.work ∧
      ∀ rank < 2, (system.hosts rank).stages = none ∧
        (system.hosts rank).calls = 1 := by
  have shape : (run (System.stepLimited oneSum) (.init twoHosts.context)
      wholeSumRun).map (fun system =>
        decide (system.Still oneSum 0 ∧ system.Still oneSum 1)) =
        some true := by
    decide +kernel
  obtain ⟨system, ran, decided⟩ := Option.map_eq_some_iff.mp shape
  have both := of_decide_eq_true decided
  have still : ∀ rank < 2, system.Still oneSum rank := by
    intro rank bound
    obtain rfl | rfl : rank = 0 ∨ rank = 1 := by omega
    · exact both.1
    · exact both.2
  obtain ⟨confined, few, returned⟩ := allreduces_return oneSum
    twoHosts.context Cluster.pair_fresh
    (fun call member => by rw [List.mem_singleton.mp member])
    (by decide) (by decide) (by decide) (by decide) wholeSumRun system ran
    (by decide +kernel)
  exact ⟨system, ran, confined, few,
    returned (System.rests_of_still still)⟩

end IncEmulation
