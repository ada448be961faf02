import IncEmulation.Wiring

/-!
# The PSNs of one call on different connections

Every rank numbers its packets on its own.  In an AllReduce or a Reduce all
ranks send equally many packets, in a Broadcast only the root does, so the ranks
stay aligned exactly as long as every rank has sent equally many packets as the
root of a Broadcast.
-/

namespace IncEmulation

open Machine

/-- The data packets of a call that a rank has sent, in order. -/
def System.dataPackets (system : System) (rank number : Nat) : List Packet :=
  ((system.up rank).filter fun sent =>
    sent.1.request.call = number ∧ sent.1.request.immData = none).map Prod.snd

/-- A rank has returned from its first `number` calls and the switch has
accepted everything it posted. -/
structure System.HasCompleted (system : System) (rank number : Nat) : Prop where
  calls : (system.hosts rank).calls = number
  idle : (system.hosts rank).stages = none
  accepted : system.accepted rank =
    (segments (system.hosts rank).qp.sends).length

/-- At every AllReduce and Reduce the ranks are aligned. -/
structure System.Aligned (cluster : Cluster) (system : System) : Prop where
  psn : ∀ number call, cluster.program[number]? = some call →
    call.collective.aggregates = true →
    ∀ i < cluster.hosts, ∀ j < cluster.hosts, ∀ (k : Nat)
      (left right : Packet),
      (system.dataPackets i number)[k]? = some left →
      (system.dataPackets j number)[k]? = some right → left.psn = right.psn
  aggEpsn : ∀ number call, cluster.program[number]? = some call →
    call.collective.aggregates = true →
    (∀ rank < cluster.hosts, system.HasCompleted rank number) →
    ∀ i < cluster.hosts, ∀ j < cluster.hosts,
      system.switch.aggEpsn i = system.switch.aggEpsn j

namespace Cluster

variable (cluster : Cluster)

/-- The packets of a call that satisfy `counted`. -/
def packetsOf (counted : Collective → Bool) (number : Nat) : Nat :=
  ((cluster.program.take number).map fun call =>
    if counted call.collective then 1 + 4 * call.messageNum else 0).sum

/-- The packets a rank sends as the root of a Broadcast before a call. -/
def broadcastPackets (rank number : Nat) : Nat :=
  cluster.packetsOf (fun collective => collective = .broadcast rank) number

/-- At every AllReduce and Reduce all ranks have sent equally many packets as
roots of the Broadcasts before it. -/
def Balanced : Prop :=
  ∀ number call, cluster.program[number]? = some call →
    call.collective.aggregates = true →
    ∀ i < cluster.hosts, ∀ j < cluster.hosts,
      cluster.broadcastPackets i number = cluster.broadcastPackets j number

variable {cluster} {number rank : Nat} {call : Call}

theorem packetsOf_succ (counted : Collective → Bool)
    (current : cluster.program[number]? = some call) :
    cluster.packetsOf counted (number + 1) =
      cluster.packetsOf counted number +
        if counted call.collective then 1 + 4 * call.messageNum else 0 := by
  rw [packetsOf, List.take_add_one, current]
  simp [packetsOf]

/-- Where a call starts on the connection of a rank. -/
theorem base_eq (within : number ≤ cluster.program.length) :
    (cluster.job rank).base number =
      cluster.packetsOf Collective.aggregates number +
        cluster.broadcastPackets rank number := by
  induction number with
  | zero => rfl
  | succ number induction =>
      have current := List.getElem?_eq_getElem (Nat.lt_of_succ_le within)
      have before := induction (by omega)
      have step := Job.base_succ
        (show (cluster.job rank).program[number]? = some _ from current)
      have self : (cluster.job rank).rank = rank := rfl
      have aggregated :=
        packetsOf_succ Collective.aggregates current
      have broadcast := packetsOf_succ
        (fun collective => collective = .broadcast rank) current
      rw [broadcastPackets] at before ⊢
      cases collective : (cluster.program[number]).collective with
      | allreduce =>
          simp only [collective, Collective.sends, Collective.aggregates,
            if_true, reduceCtorEq, decide_false, Bool.false_eq_true, if_false]
            at step aggregated broadcast
          omega
      | reduce root =>
          simp only [collective, Collective.sends, Collective.aggregates,
            if_true, reduceCtorEq, decide_false, Bool.false_eq_true, if_false]
            at step aggregated broadcast
          omega
      | broadcast root =>
          simp only [collective, Collective.sends, Collective.aggregates,
            Collective.broadcast.injEq, Bool.false_eq_true, if_false,
            decide_eq_true_eq, self] at step aggregated broadcast
          by_cases own : rank = root
          · rw [if_pos own] at step
            rw [if_pos own.symm] at broadcast
            omega
          · rw [if_neg own] at step
            rw [if_neg (Ne.symm own)] at broadcast
            omega

theorem Balanced.base_eq (balanced : cluster.Balanced)
    (current : cluster.program[number]? = some call)
    (aggregates : call.collective.aggregates = true) {i j : Nat}
    (iBound : i < cluster.hosts) (jBound : j < cluster.hosts) :
    (cluster.job i).base number = (cluster.job j).base number := by
  have within := (List.getElem?_eq_some_iff.mp current).1
  rw [Cluster.base_eq within.le, Cluster.base_eq within.le,
    balanced number call current aggregates i iBound j jBound]

end Cluster

namespace Wired

variable {cluster : Cluster} {system : System} {rank number k : Nat}
  {call : Call} {packet : Packet}

/-- Where the data packets of a call stand on the link of a rank. -/
theorem dataPackets_eq (wired : Wired cluster system)
    (current : cluster.program[number]? = some call)
    (sends : call.collective.sends rank = true) :
    system.dataPackets rank number =
      (((system.up rank).take ((cluster.job rank).base number + 1 +
        4 * call.messageNum)).drop
          ((cluster.job rank).base number + 1)).map Prod.snd := by
  have inside (position : Nat) (sent : Segment × Packet)
      (found : (system.up rank)[position]? = some sent) :
      (decide (sent.1.request.call = number ∧
        sent.1.request.immData = none) = true ↔
        (cluster.job rank).base number + 1 ≤ position ∧ position <
          (cluster.job rank).base number + 1 + 4 * call.messageNum) := by
    rw [decide_eq_true_eq]
    exact Job.data_of_call_iff current sends
      (wired.up_stream found)
  rw [System.dataPackets, filter_eq_drop_take inside]

theorem getElem?_dataPackets (wired : Wired cluster system)
    (current : cluster.program[number]? = some call)
    (sends : call.collective.sends rank = true)
    (inCall : k < 4 * call.messageNum) :
    (system.dataPackets rank number)[k]? =
      (system.up rank)[(cluster.job rank).base number + 1 + k]?.map
        Prod.snd := by
  rw [wired.dataPackets_eq current sends, List.getElem?_map,
    List.getElem?_drop, List.getElem?_take_of_lt (by omega)]

theorem dataPackets_psn (wired : Wired cluster system)
    (current : cluster.program[number]? = some call)
    (sends : call.collective.sends rank = true)
    (present : (system.dataPackets rank number)[k]? = some packet) :
    packet.psn = ((cluster.job rank).base number + 1 + k) % 2 ^ 24 := by
  have inCall : k < 4 * call.messageNum := by
    have inList := (List.getElem?_eq_some_iff.mp present).1
    rw [wired.dataPackets_eq current sends, List.length_map,
      List.length_drop, List.length_take] at inList
    omega
  rw [wired.getElem?_dataPackets current sends inCall] at present
  obtain ⟨⟨segment, packet'⟩, found, rfl⟩ :=
    Option.map_eq_some_iff.mp present
  obtain ⟨memory, rfl⟩ := wired.packets rank _ _ _ found
  exact Segment.packet_psn segment cluster.addressing rank _ memory

theorem aggEpsn_of_completed (wired : Wired cluster system)
    (bound : rank < cluster.hosts)
    (completed : system.HasCompleted rank number) :
    system.switch.aggEpsn rank = (cluster.job rank).base number := by
  have between := (wired.hosts rank).between completed.idle
  rw [← wired.accepted rank bound, completed.accepted, between.sends,
    completed.calls]
  rfl

theorem aligned (wired : Wired cluster system) (balanced : cluster.Balanced) :
    system.Aligned cluster where
  psn := by
    intro number call current aggregates i iBound j jBound k left right
      leftAt rightAt
    have sends := Collective.sends_of_aggregates aggregates
    rw [wired.dataPackets_psn current (sends i) leftAt,
      wired.dataPackets_psn current (sends j) rightAt,
      balanced.base_eq current aggregates iBound jBound]
  aggEpsn := by
    intro number call current aggregates completed i iBound j jBound
    rw [wired.aggEpsn_of_completed iBound (completed i iBound),
      wired.aggEpsn_of_completed jBound (completed j jBound),
      balanced.base_eq current aggregates iBound jBound]

end Wired

end IncEmulation
