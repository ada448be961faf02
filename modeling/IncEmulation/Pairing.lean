import IncEmulation.Gathering
import IncEmulation.Posting

/-!
# Packets of one number

The switch adds up what has the same PSN, whatever call it belongs to.  It adds
up packet `k` of every rank, and completes every slot, as long as the Broadcasts
before are balanced, no packet is handled under an operation of the other kind,
and none finds its slot taken.
-/

namespace IncEmulation

open Gather Machine

namespace System

/-- A data packet of an AllReduce or a Reduce is not handled under a Broadcast,
nor one of a Broadcast under an AllReduce or a Reduce, unless the switch drops
it; and a slot that it is added to is empty or has its PSN. -/
def Undisturbed (cluster : Cluster) (system : System) : Event → Prop
  | .handle rank =>
      ∀ data ∈ system.expected cluster rank, data.request.immData = none →
        ∀ call ∈ cluster.program[data.request.call]?,
          system.Drops rank ∨
            ((system.switch.operationType = .broadcast ↔
                call.collective.aggregates = false) ∧
              (call.collective.aggregates = true →
                (system.switch.psnStates
                    (idx (system.switch.aggEpsn rank))).degree = 0 ∨
                  (system.switch.psnStates
                      (idx (system.switch.aggEpsn rank))).aggBuffer.psn =
                    system.switch.aggEpsn rank))
  | _ => True

instance (cluster : Cluster) (system : System) :
    DecidablePred (Undisturbed cluster system)
  | .handle rank => by unfold Undisturbed; infer_instance
  | .host _ => .isTrue trivial
  | .transmit _ => .isTrue trivial
  | .sendCompletes _ => .isTrue trivial
  | .acknowledge _ _ => .isTrue trivial
  | .deliver _ => .isTrue trivial

theorem Moved.up_le {cluster : Cluster} {system next : System} {event : Event}
    (moved : Moved cluster system event next) (rank : Nat) :
    system.up rank <+: next.up rank := by
  cases moved with
  | @transmit mover =>
      by_cases own : rank = mover
      · subst own
        simp only [Function.update_self]
        exact List.prefix_append _ _
      · simp only [Function.update_of_ne own]
        exact List.prefix_rfl
  | deliver bound present received =>
      cases received <;> exact List.prefix_rfl
  | host => exact List.prefix_rfl
  | refused => exact List.prefix_rfl
  | handled => exact List.prefix_rfl
  | sendCompletes => exact List.prefix_rfl
  | acknowledge => exact List.prefix_rfl

end System

/-- A packet of every rank under the PSN of the result. -/
structure Result.OneOfEach (cluster : Cluster) (result : Result) : Prop where
  aggregated : cluster.Aggregated result.psn
  conns : (result.contributions.map Contribution.conn).Perm
    (List.range cluster.hosts)
  psn : ∀ each ∈ result.contributions, each.packet.psn = result.psn
  inForce : ∃ operation : Collective, operation.aggregates = true ∧
    operation.metadata = result.inForce

/-- What an undisturbed run keeps. -/
structure Observed.Matched (cluster : Cluster) (observed : Observed) : Prop where
  gathered : observed.Gathered cluster cluster.Aggregated
  genuine : ∀ each ∈ observed.accepted, ∃ segment,
    (observed.system.up each.conn)[each.packet.psn]? =
      some (segment, each.packet)
  results : ∀ result ∈ observed.results, result.OneOfEach cluster
  completed : ∀ psn, cluster.Aggregated psn →
    (∀ rank < cluster.hosts, psn < observed.system.switch.aggEpsn rank) →
      ∃ result ∈ observed.results, result.psn = psn
  once : (observed.results.map Result.psn).Nodup

namespace Observed.Matched

variable {cluster : Cluster} {observed next : Observed} {system : System}
  {rank number k : Nat} {call : Call} {packet : Packet}

/-- Whoever is past a PSN that is not aggregated is past no other one. -/
theorem completed_of_advance {after : Nat → Nat} {results : List Result}
    (matched : Matched cluster observed)
    (aggEpsn : after = advance observed.system.switch.aggEpsn rank)
    (kept : observed.results ⊆ results)
    (here : cluster.Aggregated (observed.system.switch.aggEpsn rank) →
      (∀ other < cluster.hosts,
        observed.system.switch.aggEpsn rank < after other) →
        ∃ result ∈ results,
          result.psn = observed.system.switch.aggEpsn rank) :
    ∀ psn, cluster.Aggregated psn →
      (∀ other < cluster.hosts, psn < after other) →
        ∃ result ∈ results, result.psn = psn := by
  intro psn aggregated passed
  by_cases own : psn = observed.system.switch.aggEpsn rank
  · subst own
    exact here aggregated passed
  · obtain ⟨result, member, same⟩ := matched.completed psn aggregated
      fun other bound => by
        have ahead := passed other bound
        rwa [aggEpsn, lt_advance_iff own] at ahead
    exact ⟨result, kept member, same⟩

theorem genuine_step {event : System.Event} (matched : Matched cluster observed)
    (stepped : Observed.step cluster observed event = some next)
    (new : ∀ each ∈ next.accepted, each ∉ observed.accepted → ∃ segment,
      (observed.system.up each.conn)[each.packet.psn]? =
        some (segment, each.packet)) :
    ∀ each ∈ next.accepted, ∃ segment,
      (next.system.up each.conn)[each.packet.psn]? =
        some (segment, each.packet) := by
  intro each member
  have moved := System.moved_of_step (step_system stepped)
  have before : ∃ segment, (observed.system.up each.conn)[each.packet.psn]? =
      some (segment, each.packet) := by
    by_cases old : each ∈ observed.accepted
    · exact matched.genuine each old
    · exact new each member old
  obtain ⟨segment, present⟩ := before
  exact ⟨segment, getElem?_of_prefix (moved.up_le each.conn) present⟩

theorem genuine_inTurn (matched : Matched cluster observed)
    (inTurn : observed.system.InTurn cluster rank number k call packet) :
    ∀ each ∈ observed.accepted ++ [observed.contribution rank packet],
      each ∉ observed.accepted → ∃ segment,
        (observed.system.up each.conn)[each.packet.psn]? =
          some (segment, each.packet) := by
  intro each member fresh
  obtain rfl := List.mem_singleton.mp
    ((List.mem_append.mp member).resolve_left fresh)
  obtain ⟨segment, present⟩ := inTurn.present
  rw [matched.gathered.recorded.wired.accepted rank inTurn.bound,
    ← inTurn.expected] at present
  exact ⟨segment, present⟩

theorem passed_result (matched : Matched cluster observed) {result : Result}
    (member : result ∈ observed.results) (bound : rank < cluster.hosts) :
    result.psn < observed.system.switch.aggEpsn rank := by
  have each := matched.results result member
  have formed := matched.gathered.recorded.results result member
  have inConns := each.conns.mem_iff.mpr (List.mem_range.mpr bound)
  obtain ⟨contribution, inResult, rfl⟩ := List.mem_map.mp inConns
  rw [← each.psn contribution inResult]
  exact (matched.gathered.recorded.logged contribution
    (formed.members contribution inResult)).passed

/-- A packet that is added up finds its slot free. -/
theorem slotFree (matched : Matched cluster observed)
    {operation : Collective} (balanced : cluster.Balanced)
    (undisturbed : observed.system.Undisturbed cluster (.handle rank))
    (inTurn : observed.system.InTurn cluster rank number k call packet)
    (inForce : observed.system.switch.InForce operation)
    (aggregates : operation.aggregates = true) :
    cluster.Aggregated (observed.system.switch.aggEpsn rank) ∧
      SlotFree cluster.hosts cluster.Aggregated observed.system.switch
        (observed.system.switch.aggEpsn rank) := by
  obtain ⟨kind, slot⟩ := (undisturbed _ (System.expected_data inTurn.current
    inTurn.sends inTurn.inCall inTurn.place) rfl call inTurn.current
    ).resolve_left (System.not_drops inForce (.inl aggregates))
  have adds : call.collective.aggregates = true := by
    rw [← Bool.not_eq_false, ← kind]
    exact inForce_not_broadcast inForce aggregates
  exact ⟨inTurn.aggregated adds fun other bound =>
      balanced.base_eq inTurn.current adds bound inTurn.bound,
    slotFree_of_slot matched.gathered.slots (slot adds)⟩

theorem incomplete {operation : Collective} (matched : Matched cluster observed)
    (balanced : cluster.Balanced)
    (undisturbed : observed.system.Undisturbed cluster (.handle rank))
    (stepped : Observed.step cluster observed (.handle rank) =
      some (observed.gather rank packet system))
    (inTurn : observed.system.InTurn cluster rank number k call packet)
    (inForce : observed.system.switch.InForce operation)
    (aggregates : operation.aggregates = true)
    (notFull : (observed.system.switch.psnStates
      (idx packet.psn)).degree + 1 ≠ cluster.hosts)
    (after : system.switch =
      observed.system.switch.afterContribution operation rank packet) :
    Matched cluster (observed.gather rank packet system) := by
  obtain ⟨carries, free⟩ :=
    matched.slotFree balanced undisturbed inTurn inForce aggregates
  have aggEpsn : system.switch.aggEpsn =
      advance observed.system.switch.aggEpsn rank :=
    congrArg SwitchContext.aggEpsn after
  refine ⟨matched.gathered.gather (matched.gathered.recorded.step stepped)
      inTurn carries free notFull after,
    matched.genuine_step stepped (matched.genuine_inTurn inTurn),
    matched.results,
    matched.completed_of_advance aggEpsn (List.Subset.refl _) ?_,
    matched.once⟩
  intro _ passed
  rw [inTurn.expected] at notFull
  obtain ⟨-, slow, bound, owed⟩ := matched.gathered.slots.pending_of_incomplete
    inTurn.bound carries free notFull
  have ahead := passed slow bound
  rw [← aggEpsn] at owed
  exact absurd ahead (Nat.not_lt.mpr owed)

/-- The result of a full slot is the one that its PSN was short of. -/
theorem complete {operation : Collective} {frames : List Frame}
    (matched : Matched cluster observed) (balanced : cluster.Balanced)
    (undisturbed : observed.system.Undisturbed cluster (.handle rank))
    (stepped : Observed.step cluster observed (.handle rank) =
      some (observed.dispatch rank packet frames system))
    (inTurn : observed.system.InTurn cluster rank number k call packet)
    (inForce : observed.system.switch.InForce operation)
    (aggregates : operation.aggregates = true)
    (full : (observed.system.switch.psnStates
      (idx packet.psn)).degree + 1 = cluster.hosts)
    (completed : observed.system.switch.Completed system.switch rank
      (idx packet.psn) (operation.targets cluster.hosts)) :
    Matched cluster (observed.dispatch rank packet frames system) := by
  obtain ⟨carries, free⟩ :=
    matched.slotFree balanced undisturbed inTurn inForce aggregates
  refine ⟨matched.gathered.dispatch (matched.gathered.recorded.step stepped)
      inTurn carries free full completed,
    matched.genuine_step stepped (matched.genuine_inTurn inTurn), ?_,
    matched.completed_of_advance completed.aggEpsn
      (List.subset_append_left _ _) fun _ _ =>
        ⟨_, List.mem_append_right _ (List.mem_singleton_self _),
          inTurn.expected⟩, ?_⟩
  · intro result member
    rcases List.mem_append.mp member with old | new
    · exact matched.results result old
    · obtain rfl := List.mem_singleton.mp new
      exact ⟨by rw [inTurn.expected]; exact carries,
        matched.gathered.conns_perm inTurn carries free full,
        matched.gathered.psn_eq inTurn free,
        operation, aggregates, inForce.symm⟩
  · simp only [dispatch, List.map_append, List.map_cons, List.map_nil]
    refine matched.once.append (List.nodup_singleton _) ?_
    intro psn old new
    obtain ⟨result, member, rfl⟩ := List.mem_map.mp old
    have passed := matched.passed_result member inTurn.bound
    have same := List.mem_singleton.mp new
    rw [same, inTurn.expected] at passed
    exact absurd passed (lt_irrefl _)

/-- A step that records no packet. -/
theorem unrecorded {event : System.Event} (matched : Matched cluster observed)
    (stepped : Observed.step cluster observed event = some next)
    (accepted : next.accepted = observed.accepted) :
    ∀ each ∈ next.accepted, ∃ segment,
      (next.system.up each.conn)[each.packet.psn]? =
        some (segment, each.packet) :=
  matched.genuine_step stepped fun _ member absent =>
    (absent (accepted ▸ member)).elim

theorem skip {event : System.Event} (matched : Matched cluster observed)
    (stepped : Observed.step cluster observed event = some next)
    (notAggregated :
      ¬cluster.Aggregated (observed.system.switch.aggEpsn rank))
    (aggEpsn : next.system.switch.aggEpsn =
      advance observed.system.switch.aggEpsn rank)
    (psnStates : next.system.switch.psnStates =
      observed.system.switch.psnStates)
    (slots : next.slots = observed.slots)
    (accepted : next.accepted = observed.accepted)
    (results : next.results = observed.results) : Matched cluster next where
  gathered := matched.gathered.skip (matched.gathered.recorded.step stepped)
    notAggregated aggEpsn psnStates slots
  genuine := matched.unrecorded stepped accepted
  results := results ▸ matched.results
  completed := matched.completed_of_advance aggEpsn
    (results ▸ List.Subset.refl _) fun aggregated =>
      (notAggregated aggregated).elim
  once := results ▸ matched.once

theorem step {event : System.Event} (matched : Matched cluster observed)
    (balanced : cluster.Balanced)
    (undisturbed : observed.system.Undisturbed cluster event)
    (stepped : Observed.step cluster observed event = some next) :
    Matched cluster next := by
  cases noted_of_step matched.gathered.recorded.wired stepped with
  | quiet same =>
      refine ⟨matched.gathered.quiet
          (matched.gathered.recorded.step stepped) same,
        matched.unrecorded stepped rfl, matched.results, ?_, matched.once⟩
      simp only [same.aggEpsn]
      exact matched.completed
  | @control system rank number psn call bound current sends place after =>
      refine matched.skip stepped (fun aggregated => ?_)
        (congrArg SwitchContext.aggEpsn after)
        ((congrArg SwitchContext.psnStates after).trans rfl) rfl rfl rfl
      rw [place] at aggregated
      exact Cluster.not_aggregated_control bound current sends aggregated
  | @broadcast system rank number k call packet inTurn inForce after =>
      have kind := ((undisturbed _ (System.expected_data inTurn.current
        inTurn.sends inTurn.inCall inTurn.place) rfl call inTurn.current
        ).resolve_left (System.not_drops inForce (.inr rfl))).1
      refine matched.skip stepped (fun aggregated => ?_)
        (congrArg SwitchContext.aggEpsn after)
        ((congrArg SwitchContext.psnStates after).trans rfl) rfl rfl rfl
      rw [inTurn.place] at aggregated
      exact Cluster.not_aggregated_broadcast inTurn.bound inTurn.current
        inTurn.sends inTurn.inCall (kind.mp (congrArg Prod.fst inForce))
        aggregated
  | incomplete inTurn inForce aggregates notFull after =>
      exact matched.incomplete balanced undisturbed stepped inTurn inForce
        aggregates notFull after
  | complete inTurn inForce aggregates full completed =>
      exact matched.complete balanced undisturbed stepped inTurn inForce
        aggregates full completed

theorem init {ctx : SwitchContext} (fresh : cluster.Fresh ctx)
    (hosts : 0 < cluster.hosts) : Matched cluster (.init ctx) where
  gathered := .init fresh
  genuine := nofun
  results := nofun
  completed := by
    intro psn _ passed
    have ahead := passed 0 hosts
    have zero := fresh.ready.aggEpsn 0 hosts
    simp only [Observed.init, System.init, zero] at ahead
    cases ahead
  once := List.nodup_nil

/-- Contributions under one aggregated PSN are the same packet of their ranks. -/
theorem packets (matched : Matched cluster observed) {psn : Nat}
    {contributions : List Contribution}
    (current : cluster.program[number]? = some call)
    (aggregates : call.collective.aggregates = true)
    (inCall : k < 4 * call.messageNum)
    (place : ∀ rank < cluster.hosts,
      psn = (cluster.job rank).base number + 1 + k)
    (accepted : ∀ each ∈ contributions, each ∈ observed.accepted)
    (same : ∀ each ∈ contributions, each.packet.psn = psn) :
    ∀ each ∈ contributions,
      (observed.system.dataPackets each.conn number)[k]? =
        some each.packet := by
  intro each member
  have logged := matched.gathered.recorded.logged each (accepted each member)
  obtain ⟨segment, present⟩ := matched.genuine each (accepted each member)
  rw [matched.gathered.recorded.wired.getElem?_dataPackets current
    (Collective.sends_of_aggregates aggregates _) inCall,
    ← place each.conn logged.bound, ← same each member, present]
  rfl

end Observed.Matched

/-- A rank posts its receive, the other one sends and the data comes down after
`acks` acknowledgements. -/
def broadcastFrom (root other acks : Nat) : List System.Event :=
  List.flatten
    [List.replicate 3 (.host other), controlOf root,
      List.replicate 5 (.host root), uploadOf root,
      List.replicate 4 (.host root), List.replicate (acks + 4) (.deliver other),
      List.replicate 4 (.host other)]

def twoBroadcastsRun : List System.Event :=
  broadcastFrom 0 1 0 ++ broadcastFrom 1 0 5

end IncEmulation
