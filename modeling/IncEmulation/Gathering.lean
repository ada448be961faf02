import IncEmulation.Ledger

/-!
# Contributions and the PSN of their slot

`SlotsHold` says which contributions a slot of the switch has, `Recorded` which
packets they were.  As long as every packet finds its slot free the two go
together: the history of a slot is about one PSN, and a full slot has a packet of
every rank.
-/

namespace IncEmulation

open Gather

theorem perm_range_of_subset {conns : List Nat} {count : Nat}
    (length : conns.length = count) (all : ∀ conn < count, conn ∈ conns) :
    conns.Perm (List.range count) := by
  have within : List.range count ⊆ conns :=
    fun conn member => all conn (List.mem_range.mp member)
  exact ((List.nodup_range.subperm within).perm_of_length_le
    (by rw [length, List.length_range])).symm

/-- The history of a slot belongs to the pending PSN that the slot holds. -/
structure Observed.Gathered (cluster : Cluster) (aggregated : Nat → Prop)
    (observed : Observed) : Prop where
  recorded : observed.Recorded cluster
  slots : SlotsHold cluster.hosts aggregated observed.system.switch
  pending : ∀ index, ∀ each ∈ observed.slots index,
    aggregated each.packet.psn ∧
      Pending cluster.hosts observed.system.switch.aggEpsn each.packet.psn

namespace Observed.Gathered

variable {cluster : Cluster} {aggregated : Nat → Prop}
  {observed after : Observed} {next : System} {rank number k : Nat}
  {call : Call} {packet : Packet}

theorem psn_of_mem (gathered : Gathered cluster aggregated observed)
    {index : Nat} {each : Contribution}
    (member : each ∈ observed.slots index) :
    each.packet.psn = (observed.system.switch.psnStates index).aggBuffer.psn := by
  obtain ⟨carries, pending⟩ := gathered.pending index each member
  have sameSlot := (gathered.recorded.members index each member).2
  have holds := gathered.slots.pending each.packet.psn carries pending
  rw [sameSlot] at holds
  exact holds.psn_eq.symm

theorem psn_eq (gathered : Gathered cluster aggregated observed)
    (inTurn : observed.system.InTurn cluster rank number k call packet)
    (free : SlotFree cluster.hosts aggregated observed.system.switch
      (observed.system.switch.aggEpsn rank)) :
    ∀ each ∈ observed.slots (idx packet.psn) ++
        [observed.contribution rank packet],
      each.packet.psn = packet.psn := by
  intro each member
  rcases List.mem_append.mp member with old | new
  · obtain ⟨carries, pending⟩ := gathered.pending _ each old
    have sameSlot := (gathered.recorded.members _ each old).2
    rw [inTurn.expected] at sameSlot ⊢
    exact free each.packet.psn carries pending sameSlot
  · obtain rfl := List.mem_singleton.mp new
    rfl

/-- Every connection has one contribution in a full slot. -/
theorem conns_perm (gathered : Gathered cluster aggregated observed)
    (inTurn : observed.system.InTurn cluster rank number k call packet)
    (carries : aggregated (observed.system.switch.aggEpsn rank))
    (free : SlotFree cluster.hosts aggregated observed.system.switch
      (observed.system.switch.aggEpsn rank))
    (full : (observed.system.switch.psnStates (idx packet.psn)).degree + 1 =
      cluster.hosts) :
    ((observed.slots (idx packet.psn) ++
      [observed.contribution rank packet]).map Contribution.conn).Perm
        (List.range cluster.hosts) := by
  have gathers := gathered.recorded.slots (idx packet.psn)
  have holds := gathered.slots.holds_next inTurn.bound carries free
  have others := (gathered.slots.complete_iff inTurn.bound carries
    free).mp (by rw [← inTurn.expected]; exact full)
  apply perm_range_of_subset
  · rw [List.length_map, List.length_append, ← gathers.degree]
    exact full
  · intro conn bound
    rw [List.map_append, List.mem_append]
    by_cases own : conn = rank
    · subst own
      exact .inr (List.mem_singleton_self _)
    · left
      have flagged := (holds.2 conn).mpr
        (mem_contributors.mpr ⟨bound, others conn bound own⟩)
      rw [← inTurn.expected] at flagged
      obtain ⟨each, member, same⟩ := (gathers.arrival conn).mp flagged
      exact List.mem_map.mpr ⟨each, member, same⟩

theorem pending_of_ne (gathered : Gathered cluster aggregated observed)
    (expected : packet.psn = observed.system.switch.aggEpsn rank)
    {index : Nat} (other : index ≠ idx packet.psn) :
    ∀ each ∈ observed.slots index, aggregated each.packet.psn ∧
      Pending cluster.hosts (advance observed.system.switch.aggEpsn rank)
        each.packet.psn := by
  intro each member
  obtain ⟨carries, pending⟩ := gathered.pending index each member
  have sameSlot := (gathered.recorded.members index each member).2
  have different : each.packet.psn ≠
      observed.system.switch.aggEpsn rank := by
    intro same
    rw [same, ← expected] at sameSlot
    exact other sameSlot.symm
  exact ⟨carries, (pending_advance_of_ne different).mpr pending⟩

theorem quiet (gathered : Gathered cluster aggregated observed)
    (recorded : Recorded cluster { observed with system := next })
    (same : observed.system.switch.Acknowledged next.switch) :
    Gathered cluster aggregated { observed with system := next } where
  recorded := recorded
  slots := gathered.slots.congr same.aggEpsn same.degree same.arrival
    same.aggBuffer
  pending := by
    simp only [same.aggEpsn]
    exact gathered.pending

theorem skip (gathered : Gathered cluster aggregated observed)
    (recorded : Recorded cluster after)
    (notAggregated : ¬aggregated (observed.system.switch.aggEpsn rank))
    (aggEpsn : after.system.switch.aggEpsn =
      advance observed.system.switch.aggEpsn rank)
    (psnStates : after.system.switch.psnStates =
      observed.system.switch.psnStates)
    (slots : after.slots = observed.slots) :
    Gathered cluster aggregated after where
  recorded := recorded
  slots := gathered.slots.skip notAggregated aggEpsn psnStates
  pending := by
    intro index each member
    rw [slots] at member
    obtain ⟨carries, pending⟩ := gathered.pending index each member
    have different : each.packet.psn ≠
        observed.system.switch.aggEpsn rank :=
      fun same => notAggregated (same ▸ carries)
    rw [aggEpsn]
    exact ⟨carries, (pending_advance_of_ne different).mpr pending⟩

/-- A slot that is not full waits for the remaining ranks. -/
theorem gather {operation : Collective}
    (gathered : Gathered cluster aggregated observed)
    (recorded : Recorded cluster (observed.gather rank packet next))
    (inTurn : observed.system.InTurn cluster rank number k call packet)
    (carries : aggregated (observed.system.switch.aggEpsn rank))
    (free : SlotFree cluster.hosts aggregated observed.system.switch
      (observed.system.switch.aggEpsn rank))
    (notFull : (observed.system.switch.psnStates
      (idx packet.psn)).degree + 1 ≠ cluster.hosts)
    (after : next.switch =
      observed.system.switch.afterContribution operation rank packet) :
    Gathered cluster aggregated (observed.gather rank packet next) := by
  have aggEpsn : next.switch.aggEpsn =
      advance observed.system.switch.aggEpsn rank :=
    congrArg SwitchContext.aggEpsn after
  have incomplete := notFull
  rw [inTurn.expected] at incomplete
  have slots : SlotsHold cluster.hosts aggregated
      (observed.system.switch.afterContribution operation rank packet) :=
    gathered.slots.contribute inTurn.bound inTurn.expected carries free
      incomplete
  rw [← after] at slots
  refine ⟨recorded, slots, ?_⟩
  intro index each member
  simp only [Observed.gather, aggEpsn] at member ⊢
  by_cases own : index = idx packet.psn
  · subst own
    rw [Function.update_self] at member
    rw [gathered.psn_eq inTurn free each member, inTurn.expected]
    exact ⟨carries, gathered.slots.pending_of_incomplete inTurn.bound carries
      free incomplete⟩
  · rw [Function.update_of_ne own] at member
    exact gathered.pending_of_ne inTurn.expected own each member

theorem dispatch {frames : List Frame} {targets : List Nat}
    (gathered : Gathered cluster aggregated observed)
    (recorded : Recorded cluster (observed.dispatch rank packet frames next))
    (inTurn : observed.system.InTurn cluster rank number k call packet)
    (carries : aggregated (observed.system.switch.aggEpsn rank))
    (free : SlotFree cluster.hosts aggregated observed.system.switch
      (observed.system.switch.aggEpsn rank))
    (full : (observed.system.switch.psnStates
      (idx packet.psn)).degree + 1 = cluster.hosts)
    (completed : observed.system.switch.Completed next.switch rank
      (idx packet.psn) targets) :
    Gathered cluster aggregated
      (observed.dispatch rank packet frames next) where
  recorded := recorded
  slots := gathered.slots.complete inTurn.bound carries free
    (inTurn.expected ▸ full) (inTurn.expected ▸ completed)
  pending := by
    intro index each member
    simp only [Observed.dispatch] at member ⊢
    by_cases own : index = idx packet.psn
    · subst own
      rw [Function.update_self] at member
      cases member
    · rw [Function.update_of_ne own] at member
      rw [completed.aggEpsn]
      exact gathered.pending_of_ne inTurn.expected own each member

theorem init {ctx : SwitchContext} (fresh : cluster.Fresh ctx) :
    Gathered cluster aggregated (.init ctx) where
  recorded := .init fresh
  slots := by
    constructor
    · rintro psn - ⟨⟨fast, bound, passed⟩, -⟩
      have zero := fresh.ready.aggEpsn fast bound
      simp only [Observed.init, System.init, zero] at passed
      cases passed
    · intro index _
      exact fresh.ready.idle index
  pending := nofun

end Observed.Gathered

end IncEmulation
