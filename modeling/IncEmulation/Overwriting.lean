import IncEmulation.Alignment
import IncEmulation.Ledger

/-!
# Metadata and the packets it is applied to

The switch keeps one operation for all connections, and every control message
overwrites it.  A packet is aggregated under what its own rank announced as long
as no rank announces another operation while somebody still owes data of its
call.
-/

namespace IncEmulation

open Gather Machine

namespace Cluster

/-- Every call of the program is an AllReduce or a Reduce. -/
def AllAggregate (cluster : Cluster) : Prop :=
  ∀ call ∈ cluster.program, call.collective.aggregates = true

instance : DecidablePred AllAggregate :=
  fun cluster => inferInstanceAs (Decidable (∀ call ∈ cluster.program, _))

def collectiveOf (cluster : Cluster) (number : Nat) : Option Collective :=
  cluster.program[number]?.map Call.collective

variable {cluster : Cluster}

theorem AllAggregate.broadcastPackets (aggregates : cluster.AllAggregate)
    (rank number : Nat) : cluster.broadcastPackets rank number = 0 := by
  have none : ∀ call ∈ cluster.program.take number,
      call.collective ≠ .broadcast rank := by
    intro call member same
    have aggregated := aggregates call (List.mem_of_mem_take member)
    rw [same] at aggregated
    cases aggregated
  rw [Cluster.broadcastPackets, packetsOf, List.sum_eq_zero]
  intro count member
  obtain ⟨call, inTake, rfl⟩ := List.mem_map.mp member
  rw [decide_eq_false (none call inTake)]
  rfl

theorem AllAggregate.base_eq (aggregates : cluster.AllAggregate)
    {number : Nat} {call : Call}
    (current : cluster.program[number]? = some call) (left right : Nat) :
    (cluster.job left).base number = (cluster.job right).base number := by
  have within := (List.getElem?_eq_some_iff.mp current).1
  rw [Cluster.base_eq within.le, Cluster.base_eq within.le,
    aggregates.broadcastPackets, aggregates.broadcastPackets]

end Cluster

namespace System

/-- The packet the switch expects next from a rank. -/
def expected (system : System) (cluster : Cluster) (rank : Nat) :
    Option Segment :=
  (cluster.job rank).stream[system.switch.aggEpsn rank]?

/-- A control message is handled only when no other rank owes data of a call of
another operation. -/
def Orderly (cluster : Cluster) (system : System) : Event → Prop
  | .handle rank =>
      ∀ control ∈ system.expected cluster rank,
        control.request.immData.isSome = true →
        ∀ other < cluster.hosts, ∀ data ∈ system.expected cluster other,
          data.request.immData = none →
          cluster.collectiveOf data.request.call =
            cluster.collectiveOf control.request.call
  | _ => True

instance (cluster : Cluster) (system : System) :
    DecidablePred (Orderly cluster system)
  | .handle rank => by unfold Orderly; infer_instance
  | .host _ => .isTrue trivial
  | .transmit _ => .isTrue trivial
  | .sendCompletes _ => .isTrue trivial
  | .acknowledge _ _ => .isTrue trivial
  | .deliver _ => .isTrue trivial

end System

/-- Every packet is aggregated, and the result of its PSN dispatched, under what
its connection announced last. -/
structure Observed.MetadataKept (cluster : Cluster) (observed : Observed) :
    Prop where
  aggregated : ∀ each ∈ observed.accepted,
    each.announced = some each.inForce
  dispatched : ∀ result ∈ observed.results, ∀ each ∈ observed.accepted,
    each.packet.psn = result.psn →
      ∃ operation : Collective,
        each.announced = some operation.metadata ∧
        result.inForce = operation.metadata ∧
        result.frames.map Frame.conn = operation.targets cluster.hosts

section Invariant

variable {cluster : Cluster} {observed next : Observed} {system : System}
  {rank number k : Nat} {call : Call}

theorem System.expected_control
    (current : cluster.program[number]? = some call)
    (sends : call.collective.sends rank = true)
    (place : system.switch.aggEpsn rank = (cluster.job rank).base number) :
    system.expected cluster rank =
      some ((cluster.job rank).controlSegment number call) := by
  rw [expected, place]
  exact Job.stream_control current sends

theorem System.expected_data
    (current : cluster.program[number]? = some call)
    (sends : call.collective.sends rank = true)
    (inCall : k < 4 * call.messageNum)
    (place : system.switch.aggEpsn rank =
      (cluster.job rank).base number + 1 + k) :
    system.expected cluster rank = some (Job.dataSegment number k) := by
  rw [expected, place]
  exact Job.stream_data current sends inCall

/-- Contributions under one PSN belong to one call. -/
theorem Contribution.Logged.announced_eq {left right : Contribution}
    {leftEpsn rightEpsn : Nat → Nat} (aggregates : cluster.AllAggregate)
    (leftLogged : left.Logged cluster leftEpsn)
    (rightLogged : right.Logged cluster rightEpsn)
    (same : left.packet.psn = right.packet.psn) :
    left.announced = right.announced := by
  obtain ⟨leftNumber, leftCall, leftK, leftCurrent, leftSends, leftIn,
    leftPsn, leftAnnounced⟩ := leftLogged.packet
  obtain ⟨rightNumber, rightCall, rightK, rightCurrent, rightSends, rightIn,
    rightPsn, rightAnnounced⟩ := rightLogged.packet
  have base := aggregates.base_eq rightCurrent right.conn left.conn
  have sends : rightCall.collective.sends left.conn = true :=
    Collective.sends_of_aggregates
      (aggregates rightCall (List.mem_of_getElem? rightCurrent)) _
  obtain rfl := (cluster.job left.conn).number_eq
    left.packet.psn leftCurrent leftSends rightCurrent sends
    ⟨by omega, by omega⟩ ⟨by omega, by omega⟩
  obtain rfl := Option.some.inj (leftCurrent.symm.trans rightCurrent)
  rw [leftAnnounced, rightAnnounced]

/-- The invariant of an orderly run. -/
structure Observed.Kept (cluster : Cluster) (observed : Observed) : Prop where
  recorded : observed.Recorded cluster
  /-- Whoever owes data finds the metadata of its call in force. -/
  owed : ∀ rank < cluster.hosts, ∀ number call k,
    cluster.program[number]? = some call →
    call.collective.sends rank = true → k < 4 * call.messageNum →
    observed.system.switch.aggEpsn rank =
      (cluster.job rank).base number + 1 + k →
    observed.system.switch.metadata = call.collective.metadata
  aggregated : ∀ each ∈ observed.accepted,
    each.announced = some each.inForce

namespace Observed.Kept

theorem contribution {packet : Packet} (kept : Kept cluster observed)
    (inTurn : observed.system.InTurn cluster rank number k call packet) :
    ∀ each ∈ observed.accepted ++ [observed.contribution rank packet],
      each.announced = some each.inForce := by
  intro each member
  rcases List.mem_append.mp member with old | new
  · exact kept.aggregated each old
  · obtain rfl := List.mem_singleton.mp new
    exact (kept.recorded.announced_inTurn inTurn).trans (congrArg some
      (kept.owed rank inTurn.bound number call k inTurn.current inTurn.sends
        inTurn.inCall inTurn.place).symm)

theorem owed_advance {packet : Packet} {after : SwitchContext}
    (kept : Kept cluster observed)
    (inTurn : observed.system.InTurn cluster rank number k call packet)
    (aggEpsn : after.aggEpsn = advance observed.system.switch.aggEpsn rank)
    (metadata : after.metadata = observed.system.switch.metadata) :
    ∀ other < cluster.hosts, ∀ own ownCall ownK,
      cluster.program[own]? = some ownCall →
      ownCall.collective.sends other = true →
      ownK < 4 * ownCall.messageNum →
      after.aggEpsn other = (cluster.job other).base own + 1 + ownK →
      after.metadata = ownCall.collective.metadata := by
  intro other bound own ownCall ownK current sends inCall place
  rw [metadata]
  rw [aggEpsn] at place
  by_cases mine : other = rank
  · subst mine
    have before := inTurn.place
    have inCallBefore := inTurn.inCall
    rw [advance_self] at place
    obtain rfl := (cluster.job other).number_eq
      (observed.system.switch.aggEpsn other) current sends
      inTurn.current inTurn.sends ⟨by omega, by omega⟩ ⟨by omega, by omega⟩
    obtain rfl := Option.some.inj (current.symm.trans inTurn.current)
    exact kept.owed other bound own ownCall k current sends inCallBefore before
  · rw [advance_of_ne mine] at place
    exact kept.owed other bound own ownCall ownK current sends inCall place

theorem step {event : System.Event} (kept : Kept cluster observed)
    (orderly : observed.system.Orderly cluster event)
    (stepped : Observed.step cluster observed event = some next) :
    Kept cluster next := by
  have recorded := kept.recorded.step stepped
  cases noted_of_step kept.recorded.wired stepped with
  | quiet same =>
      refine ⟨recorded, ?_, kept.aggregated⟩
      have metadata : SwitchContext.metadata _ =
          observed.system.switch.metadata :=
        Prod.ext same.operationType same.rootRank
      simp only [same.aggEpsn, metadata]
      exact kept.owed
  | @control system rank number psn call bound current sends place after =>
      refine ⟨recorded, ?_, kept.aggregated⟩
      intro other otherBound own ownCall ownK ownCurrent ownSends ownIn
        ownPlace
      have metadata : system.switch.metadata = call.collective.metadata := by
        rw [after]
        rfl
      have aggEpsn : system.switch.aggEpsn =
          advance observed.system.switch.aggEpsn rank := by
        rw [after]
        rfl
      simp only [announce, metadata, aggEpsn] at ownPlace ⊢
      by_cases mine : other = rank
      · subst mine
        rw [advance_self] at ownPlace
        obtain rfl := (cluster.job other).number_eq
          (observed.system.switch.aggEpsn other) current sends
          ownCurrent ownSends ⟨by omega, by omega⟩ ⟨by omega, by omega⟩
        obtain rfl := Option.some.inj (current.symm.trans ownCurrent)
        rfl
      · rw [advance_of_ne mine] at ownPlace
        have same := orderly _ (System.expected_control current sends place)
          rfl other otherBound _
          (System.expected_data ownCurrent ownSends ownIn ownPlace) rfl
        have left : cluster.collectiveOf own = some ownCall.collective := by
          rw [Cluster.collectiveOf, ownCurrent]
          rfl
        have right : cluster.collectiveOf number = some call.collective := by
          rw [Cluster.collectiveOf, current]
          rfl
        have collective := left.symm.trans (same.trans right)
        rw [Option.some.inj collective]
  | @broadcast system _ _ _ _ _ inTurn inForce after =>
      have aggEpsn := congrArg SwitchContext.aggEpsn after
      have metadata := congrArg SwitchContext.metadata after
      exact ⟨recorded, kept.owed_advance inTurn aggEpsn metadata,
        kept.aggregated⟩
  | incomplete inTurn inForce aggregates notFull after =>
      have aggEpsn := congrArg SwitchContext.aggEpsn after
      have metadata := congrArg SwitchContext.metadata after
      exact ⟨recorded, kept.owed_advance inTurn aggEpsn metadata,
        kept.contribution inTurn⟩
  | complete inTurn inForce aggregates full completed =>
      exact ⟨recorded, kept.owed_advance inTurn completed.aggEpsn
        (Prod.ext completed.operationType completed.rootRank),
        kept.contribution inTurn⟩

theorem metadataKept (kept : Kept cluster observed)
    (aggregates : cluster.AllAggregate) : observed.MetadataKept cluster where
  aggregated := kept.aggregated
  dispatched := by
    intro result member each accepted same
    have formed := kept.recorded.results result member
    obtain ⟨last, inResult, lastPsn, lastInForce⟩ := formed.last
    have lastAccepted := formed.members last inResult
    obtain ⟨operation, metadata, targets⟩ := formed.targets
    refine ⟨operation, ?_, metadata.symm, targets⟩
    rw [Contribution.Logged.announced_eq aggregates
      (kept.recorded.logged each accepted)
      (kept.recorded.logged last lastAccepted) (same.trans lastPsn.symm),
      kept.aggregated last lastAccepted, lastInForce, metadata]

theorem init {ctx : SwitchContext} (fresh : cluster.Fresh ctx) :
    Kept cluster (.init ctx) where
  recorded := .init fresh
  owed := by
    intro rank bound number call k current sends inCall place
    have zero := fresh.ready.aggEpsn rank bound
    simp only [Observed.init, System.init, zero] at place
    omega
  aggregated := nofun

end Observed.Kept

end Invariant

/-- While the control messages are orderly every packet is aggregated under what
its connection announced. -/
theorem metadataKept_of_orderly (cluster : Cluster) (ctx : SwitchContext)
    (fresh : cluster.Fresh ctx) (aggregates : cluster.AllAggregate)
    (events : List System.Event) (observed : Observed)
    (taken : run (Observed.step cluster) (.init ctx) events = some observed)
    (orderly : Meets (Observed.step cluster)
      (fun state event => state.system.Orderly cluster event) (.init ctx)
      events) :
    observed.MetadataKept cluster := by
  have kept := run_invariant (Observed.Kept cluster)
    (fun _ _ _ kept orderly stepped => kept.step orderly stepped)
    (Observed.Kept.init fresh) orderly taken
  exact kept.metadataKept aggregates

/-- A Reduce to rank 0 and then an AllReduce. -/
def reduceAndAllreduce : Cluster :=
  .pair [⟨.reduce 0, 1⟩, ⟨.allreduce, 1⟩] (by decide)

/-- Rank 1 announces the Reduce and sends its data, then rank 0 announces it. -/
def orderlyRun : List System.Event :=
  List.flatten
    [List.replicate 2 (.host 1), [.transmit 1, .handle 1, .sendCompletes 1],
      List.replicate 5 (.host 1), List.replicate 4 (.transmit 1),
      List.replicate 4 (.handle 1), [.sendCompletes 1],
      [.host 0, .host 0, .transmit 0, .handle 0, .sendCompletes 0]]

theorem metadataKept_of_orderly_orderlyRun :
    ∃ observed, run (Observed.step reduceAndAllreduce)
        (.init twoHosts.context) orderlyRun = some observed ∧
      observed.MetadataKept reduceAndAllreduce := by
  have taken : (run (Observed.step reduceAndAllreduce)
      (.init twoHosts.context) orderlyRun).isSome = true := by
    decide +kernel
  obtain ⟨observed, ran⟩ := Option.isSome_iff_exists.mp taken
  exact ⟨observed, ran, metadataKept_of_orderly reduceAndAllreduce
    twoHosts.context Cluster.pair_fresh (by decide) orderlyRun observed ran
    (by decide +kernel)⟩

/-- Rank 1 leaves the Reduce and announces the AllReduce before the switch has
the data of rank 0. -/
def overtakingRun : List System.Event :=
  List.flatten
    [orderlyRun, List.replicate 6 (.host 1), [.transmit 1],
      List.replicate 6 (.host 0), [.transmit 0, .handle 1, .handle 0]]

/-- A packet of the Reduce is aggregated as one of the AllReduce. -/
theorem not_metadataKept_overtakingRun :
    ¬∀ (cluster : Cluster) (ctx : SwitchContext) (events : List System.Event)
      (observed : Observed), cluster.Fresh ctx → cluster.AllAggregate →
      run (Observed.step cluster) (.init ctx) events = some observed →
        observed.MetadataKept cluster := by
  intro always
  have shape : ((run (Observed.step reduceAndAllreduce)
      (.init twoHosts.context) overtakingRun).map fun observed =>
        observed.accepted[4]?.map fun each =>
          (each.announced, each.inForce)) =
      some (some (some (.reduce, 0), (.allreduce, -1))) := by
    decide +kernel
  obtain ⟨observed, ran, fields⟩ := Option.map_eq_some_iff.mp shape
  obtain ⟨each, found, pair⟩ := Option.map_eq_some_iff.mp fields
  obtain ⟨announced, inForce⟩ := Prod.mk.inj pair
  have kept := always reduceAndAllreduce twoHosts.context overtakingRun
    observed Cluster.pair_fresh (by decide) ran
  have same := kept.aggregated each (List.mem_of_getElem? found)
  rw [announced, inForce] at same
  cases same

end IncEmulation
