import IncEmulation.Summation

/-!
# What a program of AllReduces computes, and how far connections drift apart

A call without elements sends a control message and waits for nothing, so any
number of them can pass before another rank begins.  Between them every rank
waits for all others, which bounds the receive PSNs of the switch.
-/

namespace IncEmulation

open Gather Machine

namespace Cluster

/-- No 291 calls in a row are without elements: with one control message and
two messages of data they fill the ring. -/
def FewEmpty (cluster : Cluster) : Prop :=
  ∀ number, number + 291 ≤ cluster.program.length →
    ∃ later call, number ≤ later ∧ later < number + 291 ∧
      cluster.program[later]? = some call ∧ call.len ≠ 0

variable {cluster : Cluster} {number : Nat}

theorem messageNum_pos {call : Call} (nonempty : call.len ≠ 0) :
    0 < call.messageNum := by
  have positive : call.len.toNat ≠ 0 := fun none =>
    nonempty (BitVec.eq_of_toNat_eq none)
  have messages := call.messageNum_spec
  rcases Nat.eq_zero_or_pos call.messageNum with none | some
  · rw [none] at messages
    omega
  · exact some

/-- The calls without elements before a call, back to the last one with some. -/
theorem AllReduces.exists_nonempty (allReduces : cluster.AllReduces)
    (within : number ≤ cluster.program.length) :
    ∃ first ≤ number, cluster.start number + first =
        cluster.start first + number ∧
      (∀ between call, first ≤ between → between < number →
        cluster.program[between]? = some call → call.len = 0) ∧
      (first = 0 ∨ ∃ last call, first = last + 1 ∧
        cluster.program[last]? = some call ∧ call.len ≠ 0) := by
  induction number with
  | zero => exact ⟨0, le_rfl, rfl, fun _ _ _ before => by omega, .inl rfl⟩
  | succ number induction =>
      have current := List.getElem?_eq_getElem (Nat.lt_of_succ_le within)
      by_cases empty : cluster.program[number].len = 0
      · obtain ⟨first, le, same, between, last⟩ :=
          induction (Nat.le_of_succ_le within)
        refine ⟨first, Nat.le_succ_of_le le, ?_, ?_, last⟩
        · have none : cluster.program[number].messageNum = 0 := by
            rw [Call.messageNum, empty]
            rfl
          rw [allReduces.start_succ current, none]
          omega
        · intro each call after before found
          by_cases here : each = number
          · subst here
            rw [current] at found
            obtain rfl := Option.some.inj found
            exact empty
          · exact between each call after (by omega) found
      · exact ⟨number + 1, le_rfl, rfl, fun _ _ _ before => by omega,
          .inr ⟨number, _, rfl, current, empty⟩⟩

/-- The calls whose predecessors have come back begin shortly behind what all
connections have passed. -/
theorem AllReduces.start_le (allReduces : cluster.AllReduces)
    (fewEmpty : cluster.FewEmpty)
    (within : number ≤ cluster.program.length) (frontier : Nat)
    (counted : 4 * cluster.messagesBefore number ≤
      cluster.dataBefore frontier) :
    cluster.start number ≤ frontier + 290 := by
  obtain ⟨first, le, same, between, last⟩ := allReduces.exists_nonempty within
  have few : number < first + 291 := by
    by_contra many
    obtain ⟨later, call, after, before, current, nonempty⟩ :=
      fewEmpty (number - 291) (by omega)
    exact nonempty (between later call (by omega) (by omega) current)
  rcases last with rfl | ⟨last, call, rfl, current, nonempty⟩
  · rw [start_zero] at same
    omega
  · have positive := messageNum_pos nonempty
    have earlier := cluster.messagesBefore_mono le
    have next := allReduces.start_succ current
    rw [allReduces.messagesBefore_succ current] at earlier
    have passed := allReduces.lt_of_lt_dataBefore
      (k := 4 * call.messageNum - 1) current (by omega) frontier (by omega)
    omega

theorem start_of_le (finished : cluster.program.length ≤ number) :
    cluster.start number = cluster.start cluster.program.length := by
  rw [start, start, Job.base, Job.base, Job.sendsBefore_of_le finished]
  rfl

end Cluster

namespace Summing

variable {cluster : Cluster} {system : System} {rank frontier : Nat}

/-- What a rank has posted reaches at most two messages beyond what all
connections have passed, apart from calls without elements. -/
theorem posted_le (allReduces : cluster.AllReduces)
    (fewEmpty : cluster.FewEmpty) (summing : Summing cluster frontier system)
    (bound : rank < cluster.hosts) :
    (segments (system.hosts rank).qp.sends).length < frontier + 300 := by
  have invariant := summing.wired.hosts rank
  have passed := allReduces.received_of_invariant invariant
  have received := summing.received_le bound
  have done := (summing.receiving rank bound).receivesDone
  cases running : (system.hosts rank).stages with
  | none =>
      rw [allReduces.length_segments_between (invariant.between running)]
      rcases Nat.le_total (system.hosts rank).calls cluster.program.length
        with within | finished
      · have near := allReduces.start_le fewEmpty within frontier
          (by omega)
        omega
      · have fewer := cluster.messagesBefore_mono finished
        have near := allReduces.start_le fewEmpty le_rfl frontier
          (by omega)
        rw [Cluster.start_of_le finished]
        omega
  | some stages =>
      obtain ⟨call, current, inside⟩ := invariant.inside stages running
      have within := (List.getElem?_eq_some_iff.mp current).1
      have ownCurrent : cluster.program[(system.hosts rank).calls]? =
          some call := current
      have length := allReduces.length_segments_inside ownCurrent inside
      obtain ⟨all, -, window, -⟩ := allReduces.sendNum_le ownCurrent inside
      have arrived := inside.delivered.receives.le
      rw [allReduces.length_receivesBefore] at arrived
      rw [windowMessages] at window
      have near := allReduces.start_le fewEmpty within.le frontier
        (by omega)
      rcases Nat.eq_zero_or_pos (system.hosts rank).locals.receiveNum with
        none | some
      · split_ifs at length <;> omega
      · have most : (system.hosts rank).locals.receiveNum ≤ call.messageNum := by
          have posted := inside.delivered.receivesDone_le
          rw [inside.receives, List.length_append, List.length_take,
            allReduces.length_receivesBefore, Job.length_recvWrsOf,
            if_pos (allReduces.receives ownCurrent _)] at posted
          omega
        have counted := allReduces.lt_of_lt_dataBefore
          (k := 4 * (system.hosts rank).locals.receiveNum - 1) ownCurrent
          (by omega) frontier (by omega)
        split_ifs at length <;> omega

theorem within (allReduces : cluster.AllReduces) (fewEmpty : cluster.FewEmpty)
    (summing : Summing cluster frontier system) :
    Within cluster.hosts system.switch.aggEpsn switchArrayLength := by
  intro first firstBound second secondBound
  have ahead := summing.wired.aggEpsn_le_posted firstBound
  have posted := summing.posted_le allReduces fewEmpty firstBound
  have behind := summing.aggregating.reached.le second secondBound
  rw [switchArrayLength]
  omega

theorem init {ctx : SwitchContext} (fresh : cluster.Fresh ctx)
    (nonempty : 0 < cluster.hosts) : Summing cluster 0 (.init ctx) := by
  have aggEpsn := fresh.ready.aggEpsn
  have nothing : ∀ psn, ¬Pending cluster.hosts ctx.aggEpsn psn := by
    rintro psn ⟨⟨fast, fastBound, passed⟩, -⟩
    rw [aggEpsn fast fastBound] at passed
    omega
  refine ⟨.init fresh, .inl aggEpsn, ?_, ⟨fresh.deployed, ⟨?_, ?_⟩, ?_,
    ⟨fun _ _ => Nat.zero_le _, 0, nonempty, aggEpsn 0 nonempty⟩, ?_⟩, ?_, ?_, ?_⟩
  · intro rank bound psn sent present
    cases present
  · exact fun psn _ pending => absurd pending (nothing psn)
  · exact fun index _ => fresh.ready.idle index
  · exact fun psn _ pending => absurd pending (nothing psn)
  · exact fun conn => fresh.sendPsn conn
  · exact fun rank bound => rfl
  · intro rank bound
    refine ⟨⟨le_rfl, rfl, (Nat.zero_div 4).symm⟩, (Nat.zero_mul _).symm, ?_⟩
    intro position before
    exact absurd before (Nat.not_lt_zero _)
  · intro rank bound
    refine ⟨?_, ?_⟩
    · intro stages call running
      cases running
    · intro number call idle more
      cases more

end Summing

/-- Whatever the order of steps, a call that has returned has left the sums
over all ranks, and while empty calls are few the receive PSNs stay within the
ring. -/
theorem allreduces_sum (cluster : Cluster) (ctx : SwitchContext)
    (fresh : cluster.Fresh ctx) (allReduces : cluster.AllReduces)
    (short : ∀ call ∈ cluster.program, call.len.toNat < 2 ^ 31)
    (fits : cluster.stream.length < 2 ^ 24) (system : System)
    (reachable : Reachable (System.step cluster) (.init ctx) system) :
    (cluster.FewEmpty →
      Within cluster.hosts system.switch.aggEpsn switchArrayLength) ∧
    ∀ rank < cluster.hosts, ∀ number call,
      (system.hosts rank).stages = none →
      (system.hosts rank).calls = number + 1 →
      cluster.program[number]? = some call →
        ∀ index < call.len.toNat,
          (system.hosts rank).dstData index =
            ∑ conn ∈ Finset.range cluster.hosts,
              cluster.srcData conn number index := by
  rcases Nat.eq_zero_or_pos cluster.hosts with none | some
  · rw [none]
    exact ⟨fun _ first bound => absurd bound (Nat.not_lt_zero first),
      fun rank bound => absurd bound (Nat.not_lt_zero rank)⟩
  · obtain ⟨frontier, summing⟩ := reachable.invariant
      (fun system => ∃ frontier, Summing cluster frontier system)
      (fun _ _ _ summing stepped =>
        summing.elim fun _ each => each.step allReduces short fits stepped)
      ⟨0, .init fresh some⟩
    exact ⟨fun fewEmpty => summing.within allReduces fewEmpty,
      fun rank bound => (summing.computing rank bound).returned⟩

/-- Two ranks add up one word. -/
def oneSum : Cluster := .pair [⟨.allreduce, 1⟩] (by decide)

/-- A rank announces the call and sends its message. -/
def messageOf (rank : Nat) : List System.Event :=
  List.flatten
    [List.replicate 2 (.host rank),
      [.transmit rank, .handle rank, .sendCompletes rank],
      List.replicate 7 (.host rank), List.replicate 4 (.transmit rank),
      List.replicate 4 (.handle rank)]

/-- Both messages are added up and the call of rank 0 returns. -/
def oneSumRun : List System.Event :=
  messageOf 0 ++ messageOf 1 ++ List.replicate 9 (.deliver 0) ++
    List.replicate 4 (.host 0)

theorem allreduces_sum_oneSum :
    ∃ system, run (System.step oneSum) (.init twoHosts.context) oneSumRun =
        some system ∧
      (system.hosts 0).dstData 0 = 14 ∧
      Within 2 system.switch.aggEpsn switchArrayLength := by
  have shape : ((run (System.step oneSum) (.init twoHosts.context)
      oneSumRun).map fun system =>
        ((system.hosts 0).stages.isNone, (system.hosts 0).calls)) =
      some (true, 1) := by decide +kernel
  obtain ⟨system, ran, fields⟩ := Option.map_eq_some_iff.mp shape
  obtain ⟨idle, calls⟩ := Prod.mk.inj fields
  obtain ⟨within, sums⟩ := allreduces_sum oneSum twoHosts.context
    Cluster.pair_fresh (fun call member => by rw [List.mem_singleton.mp member])
    (by decide) (by decide) system ⟨_, ran⟩
  refine ⟨system, ran, ?_, within ?_⟩
  · exact sums 0 (by decide) 0 ⟨.allreduce, 1⟩
      (Option.isNone_iff_eq_none.mp idle) calls rfl 0 (by decide)
  · intro number many
    exact absurd many (by simp [oneSum, Cluster.pair])

section EmptyCalls

/-- An AllReduce of no elements. -/
def emptyCall : Call := ⟨.allreduce, 0⟩

/-- Two ranks with 300 calls without elements. -/
def emptyCalls : Cluster :=
  .pair (List.replicate 300 emptyCall) fun call member => by
    rw [List.eq_of_mem_replicate member]
    trivial

theorem emptyCalls_program {number : Nat} (within : number < 300) :
    emptyCalls.program[number]? = some emptyCall :=
  List.getElem?_replicate_of_lt within

/-- Rank 0 makes its calls before rank 1 has begun. -/
structure Alone (calls sent up accepted done : Nat)
    (stages : Option (List Stage)) (system : System) : Prop where
  reachable : Reachable (System.step emptyCalls) (.init twoHosts.context)
    system
  stages : (system.hosts 0).stages = stages
  locals : (system.hosts 0).locals = .init
  calls : (system.hosts 0).calls = calls
  cq : (system.hosts 0).qp.cq = []
  sends : (system.hosts 0).qp.sends.length = sent
  packets : (segments (system.hosts 0).qp.sends).length = sent
  sendsDone : (system.hosts 0).qp.sendsDone = done
  up : (system.up 0).length = up
  accepted : system.accepted 0 = accepted
  other : system.switch.aggEpsn 1 = 0

variable {cluster : Cluster} {system : System} {rank number : Nat}

/-- The program of a rank runs while everything else rests. -/
theorem System.reachable_program {host : Host} (bound : rank < cluster.hosts)
    (runs : Reachable
      (fun (host : Host) (_ : Unit) => host.step (cluster.job rank))
      (system.hosts rank) host) :
    Reachable (System.step cluster) system (system.setHost rank host) := by
  obtain ⟨actions, ran⟩ := runs
  induction actions generalizing system with
  | nil =>
      obtain rfl := Option.some.inj ran
      refine ⟨[], ?_⟩
      rw [run_nil, setHost, Function.update_eq_self]
  | cons action actions induction =>
      rw [run_cons] at ran
      obtain ⟨next, stepped, rest⟩ := Option.bind_eq_some_iff.mp ran
      have taken : System.step cluster system (.host rank) =
          some (system.setHost rank next) := by
        simp only [System.step, if_pos bound, Host.act, stepped,
          Option.map_some]
      have twice : (system.setHost rank next).setHost rank host =
          system.setHost rank host := by
        simp [System.setHost]
      rw [← twice]
      refine (Reachable.single _ taken).trans (induction ?_)
      rw [System.setHost_hosts, Function.update_self]
      exact rest

theorem Host.step_enter {host : Host} {job : Job} {call : Call}
    (idle : host.stages = none) (current : job.program[host.calls]? = some call) :
    host.step job = some (host.enter (call.stages job.rank)) := by
  simp only [Host.step, idle, current, Option.map_some]

theorem Host.step_round {host : Host} {job : Job} {call : Call} {stage : Stage}
    {rest : List Stage} (running : host.stages = some (stage :: rest))
    (current : job.program[host.calls]? = some call) :
    host.step job = some (host.round job call stage rest) := by
  simp only [Host.step, running, current, Option.map_some]

/-- The stages that have nothing to do in a call without elements. -/
def quietStages : List Stage :=
  [.postReceives, .prepare, .window, .poll .allreduce]

theorem Host.round_quiet {host : Host} (job : Job) {stage : Stage}
    (quiet : stage ∈ quietStages) (rest : List Stage)
    (locals : host.locals = .init) :
    host.round job emptyCall stage rest = { host with stages := some rest } := by
  have none : emptyCall.messageNum = 0 := rfl
  simp only [quietStages, List.mem_cons, List.not_mem_nil, or_false] at quiet
  rcases quiet with rfl | rfl | rfl | rfl
  · rw [Host.round, locals, none, if_neg (Nat.not_lt_zero _)]
  · rw [Host.round, locals, none, if_neg (Nat.not_lt_zero _)]
  · rw [Host.round, none, if_neg fun both => Nat.not_lt_zero _ both.2]
  · rw [Host.round, Host.pollRound, locals, none]
    rfl

theorem Host.returns_quiet {job : Job} {stages : List Stage} {host : Host}
    (quiet : ∀ stage ∈ stages, stage ∈ quietStages)
    (running : host.stages = some stages) (locals : host.locals = .init)
    (current : job.program[host.calls]? = some emptyCall) :
    Reachable (fun (host : Host) (_ : Unit) => host.step job) host
      (host.leave true) := by
  induction stages generalizing host with
  | nil =>
      refine .single () ?_
      simp only [Host.step, running]
  | cons stage rest induction =>
      have taken := Host.step_round running current
      rw [Host.round_quiet job (quiet stage List.mem_cons_self) rest locals]
        at taken
      have left : Reachable (fun (host : Host) (_ : Unit) => host.step job)
          { host with stages := some rest }
          ({ host with stages := some rest }.leave true) :=
        induction
          (fun each member => quiet each (List.mem_cons_of_mem _ member)) rfl
          locals current
      exact (Reachable.single () taken).trans left

/-- A call without elements is over once its control message is complete. -/
theorem Host.returns_emptyCall {host : Host} {job : Job} {wc : Wc}
    {qp : QueuePair} (polled : host.qp.pollCq 1 = some ([wc], qp))
    (running : host.stages = some (.awaitControl :: quietStages))
    (locals : host.locals = .init)
    (current : job.program[host.calls]? = some emptyCall) :
    Reachable (fun (host : Host) (_ : Unit) => host.step job) host
      ({ host with qp := qp, taken := host.taken ++ [wc] }.leave true) := by
  have first := Host.step_round running current
  rw [Host.round, Host.awaitRound, polled] at first
  have left : Reachable (fun (host : Host) (_ : Unit) => host.step job)
      { host with
        qp := qp
        taken := host.taken ++ [wc]
        stages := some quietStages }
      ({ host with
        qp := qp
        taken := host.taken ++ [wc]
        stages := some quietStages }.leave true) :=
    Host.returns_quiet (fun _ member => member) rfl locals current
  exact (Reachable.single () first).trans left

theorem System.step_transmit {segment : Segment} (bound : rank < cluster.hosts)
    (present : (segments (system.hosts rank).qp.sends)[
      (system.up rank).length]? = some segment) :
    System.step cluster system (.transmit rank) =
      some { system with
        up := Function.update system.up rank
          (system.up rank ++
            [(segment, segment.packet cluster.addressing rank
              (system.up rank).length (system.hosts rank).sendPayload)]) } := by
  simp only [System.step, if_pos bound, System.transmit, present,
    Option.map_some]

theorem System.step_handle {sent : Segment × Packet}
    (bound : rank < cluster.hosts)
    (present : (system.up rank)[system.accepted rank]? = some sent)
    (moves : (packetHandler system.switch rank sent.2).1.aggEpsn rank ≠
      system.switch.aggEpsn rank) :
    System.step cluster system (.handle rank) =
      some { system.feedSwitch rank sent.2 with
        accepted := Function.update system.accepted rank
          (system.accepted rank + 1) } := by
  have stays : ¬(system.feedSwitch rank sent.2).switch.aggEpsn rank =
      system.switch.aggEpsn rank := moves
  simp only [System.step, if_pos bound, System.handle, present,
    Option.map_some, if_neg stays]

theorem System.step_sendCompletes {host : Host} (bound : rank < cluster.hosts)
    (accepted : system.SendAccepted rank)
    (acted : (system.hosts rank).act (cluster.job rank) .sendCompletes =
      some host) :
    System.step cluster system (.sendCompletes rank) =
      some (system.setHost rank host) := by
  simp only [System.step, if_pos (And.intro bound accepted), acted,
    Option.map_some]

namespace Alone

theorem wired {calls sent up accepted done : Nat}
    {stages : Option (List Stage)}
    (alone : Alone calls sent up accepted done stages system) :
    Wired emptyCalls system :=
  System.reachable_wired Cluster.pair_fresh alone.reachable

theorem announce
    (alone : Alone number number number number number none system)
    (within : number < 300) :
    ∃ next, Alone number (number + 1) number number number
      (some (.awaitControl :: quietStages)) next := by
  have bound : 0 < emptyCalls.hosts := by decide
  have current : (emptyCalls.job 0).program[(system.hosts 0).calls]? =
      some emptyCall := by
    rw [alone.calls]
    exact emptyCalls_program within
  have entered := Host.step_enter alone.stages current
  have announced : ((system.hosts 0).enter (emptyCall.stages 0)).step
      (emptyCalls.job 0) = some _ := Host.step_round rfl current
  have begun := System.reachable_program bound
    ((Reachable.single () entered).tail () announced)
  refine ⟨_, alone.reachable.trans begun, ?_, ?_, ?_, ?_, ?_, ?_, ?_, alone.up,
    alone.accepted, alone.other⟩
  all_goals rw [System.setHost_hosts, Function.update_self]
  · rfl
  · rfl
  · exact alone.calls
  · exact alone.cq
  · exact (List.length_append ..).trans (congrArg (· + 1) alone.sends)
  · have control : segments [(emptyCalls.job 0).controlWr
        (system.hosts 0).calls emptyCall] =
        [(emptyCalls.job 0).controlSegment (system.hosts 0).calls emptyCall] := by
      rw [segments, List.flatMap_singleton, Job.segments_controlWr]
    refine (congrArg List.length (segments_append _ _)).trans ?_
    rw [List.length_append, Host.enter, alone.packets]
    exact congrArg (fun packets => number + packets.length) control
  · exact alone.sendsDone

theorem transmit
    (alone : Alone number (number + 1) number number number
      (some (.awaitControl :: quietStages)) system) :
    ∃ next, Alone number (number + 1) (number + 1) number number
      (some (.awaitControl :: quietStages)) next := by
  have bound : 0 < emptyCalls.hosts := by decide
  obtain ⟨segment, present⟩ : ∃ segment,
      (segments (system.hosts 0).qp.sends)[(system.up 0).length]? =
        some segment :=
    ⟨_, List.getElem?_eq_getElem (by rw [alone.up, alone.packets]; omega)⟩
  refine ⟨_, alone.reachable.tail _ (System.step_transmit bound present),
    alone.stages, alone.locals, alone.calls, alone.cq, alone.sends,
    alone.packets, alone.sendsDone, ?_, alone.accepted, alone.other⟩
  dsimp only
  rw [Function.update_self, List.length_append, alone.up]
  rfl

theorem handle
    (alone : Alone number (number + 1) (number + 1) number number
      (some (.awaitControl :: quietStages)) system) :
    ∃ next, Alone number (number + 1) (number + 1) (number + 1) number
      (some (.awaitControl :: quietStages)) next := by
  have bound : 0 < emptyCalls.hosts := by decide
  obtain ⟨⟨segment, packet⟩, present⟩ : ∃ sent,
      (system.up 0)[system.accepted 0]? = some sent :=
    ⟨_, List.getElem?_eq_getElem (by rw [alone.up, alone.accepted]; omega)⟩
  have moves : (packetHandler system.switch 0 packet).1.aggEpsn 0 ≠
      system.switch.aggEpsn 0 := by
    cases alone.wired.arriving bound present with
    | control current sends place =>
        have admissible := Cluster.admissible_of_call current sends
        rw [packetHandler_control alone.wired.deployed.toRouted bound
          Addressing.controlPacket_from admissible
          (Addressing.controlPacket_announces alone.wired.deployed.fits bound
            admissible)]
        exact fun same =>
          Nat.succ_ne_self _ ((advance_self system.switch.aggEpsn 0).symm.trans
            same)
    | data current sends inCall place =>
        have empty := List.eq_of_mem_replicate (List.mem_of_getElem? current)
        rw [empty] at inCall
        exact absurd inCall (Nat.not_lt_zero _)
  refine ⟨_, alone.reachable.tail _ (System.step_handle bound present moves),
    alone.stages, alone.locals, alone.calls, alone.cq, alone.sends,
    alone.packets, alone.sendsDone, alone.up, ?_, ?_⟩
  · dsimp only
    rw [Function.update_self, alone.accepted]
  · exact (packetHandler_aggEpsn_of_ne packet (by decide)).trans alone.other

/-- The control message completes and the call returns. -/
theorem complete
    (alone : Alone number (number + 1) (number + 1) (number + 1) number
      (some (.awaitControl :: quietStages)) system) (within : number < 300) :
    ∃ next, Alone (number + 1) (number + 1) (number + 1) (number + 1)
      (number + 1) none next := by
  have bound : 0 < emptyCalls.hosts := by decide
  obtain ⟨call, -, inside⟩ := (alone.wired.hosts 0).inside _ alone.stages
  have current : (emptyCalls.job 0).program[(system.hosts 0).calls]? =
      some emptyCall := by
    rw [alone.calls]
    exact emptyCalls_program within
  have accepted : system.SendAccepted 0 := by
    have taken := (segments_mono (List.take_prefix
      ((system.hosts 0).qp.sendsDone + 1) (system.hosts 0).qp.sends)).length_le
    rw [alone.packets] at taken
    rw [System.SendAccepted, alone.accepted]
    exact taken
  obtain ⟨wr, posted⟩ : ∃ wr,
      (system.hosts 0).qp.sends[(system.hosts 0).qp.sendsDone]? = some wr :=
    ⟨_, List.getElem?_eq_getElem (by rw [alone.sends, alone.sendsDone]; omega)⟩
  obtain ⟨host, acted, stages, locals, calls, wc, polled⟩ : ∃ host : Host,
      (system.hosts 0).act (emptyCalls.job 0) .sendCompletes = some host ∧
        host.stages = (system.hosts 0).stages ∧
        host.locals = (system.hosts 0).locals ∧
        host.calls = (system.hosts 0).calls ∧ ∃ wc, host.qp.pollCq 1 =
          some ([wc], { (system.hosts 0).qp with
            sendsDone := (system.hosts 0).qp.sendsDone + 1
            cq := [] }) := by
    simp only [Host.act, QueuePair.completeSend, posted, Option.map_some,
      alone.cq, List.nil_append]
    refine ⟨_, rfl, rfl, rfl, rfl,
      ⟨true, .send, wr.wrId, (system.hosts 0).qp.sendsDone⟩, ?_⟩
    simp only [QueuePair.pollCq, inside.delivered.intact, Bool.false_eq_true,
      if_false]
    rfl
  have completed := System.step_sendCompletes bound accepted acted
  have returned := Host.returns_emptyCall polled (stages.trans alone.stages)
    (locals.trans alone.locals) (calls ▸ current)
  have self : (system.setHost 0 host).hosts 0 = host := by
    rw [System.setHost_hosts, Function.update_self]
  rw [← self] at returned
  refine ⟨_, (alone.reachable.tail _ completed).trans
    (System.reachable_program bound returned), ?_, ?_, ?_, ?_, ?_, ?_, ?_,
    alone.up, alone.accepted, alone.other⟩
  all_goals rw [System.setHost_hosts, Function.update_self, self]
  · rfl
  · exact locals.trans alone.locals
  · exact congrArg (· + 1) (calls.trans alone.calls)
  · rfl
  · exact alone.sends
  · exact alone.packets
  · exact congrArg (· + 1) alone.sendsDone

theorem next (alone : Alone number number number number number none system)
    (within : number < 300) :
    ∃ next, Alone (number + 1) (number + 1) (number + 1) (number + 1)
      (number + 1) none next := by
  obtain ⟨_, announced⟩ := alone.announce within
  obtain ⟨_, transmitted⟩ := announced.transmit
  obtain ⟨_, handled⟩ := transmitted.handle
  exact handled.complete within

theorem exists_of_le (within : number ≤ 300) :
    ∃ system, Alone number number number number number none system := by
  induction number with
  | zero =>
      exact ⟨_, .refl _, rfl, rfl, rfl, rfl, rfl, rfl, rfl, rfl, rfl, rfl⟩
  | succ number induction =>
      obtain ⟨_, alone⟩ := induction (Nat.le_of_succ_le within)
      exact alone.next within

end Alone

/-- After 300 calls without elements one connection is a ring ahead. -/
theorem not_within_emptyCalls :
    ¬∀ (cluster : Cluster) (ctx : SwitchContext), cluster.Fresh ctx →
      cluster.AllReduces →
      (∀ call ∈ cluster.program, call.len.toNat < 2 ^ 31) →
      cluster.stream.length < 2 ^ 24 → ∀ system,
        Reachable (System.step cluster) (.init ctx) system →
          Within cluster.hosts system.switch.aggEpsn switchArrayLength := by
  intro always
  obtain ⟨system, alone⟩ := Alone.exists_of_le (le_refl 300)
  have only : ∀ call ∈ emptyCalls.program, call = emptyCall :=
    fun call member => List.eq_of_mem_replicate member
  have within := always emptyCalls twoHosts.context Cluster.pair_fresh
    (fun call member => by rw [only call member]; rfl)
    (fun call member => by rw [only call member]; decide) (by decide +kernel)
    system alone.reachable
  have apart := within 0 (by decide) 1 (by decide)
  rw [← alone.wired.accepted 0 (by decide), alone.accepted, alone.other,
    switchArrayLength] at apart
  omega

end EmptyCalls

end IncEmulation
