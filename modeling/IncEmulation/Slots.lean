import IncEmulation.HandlerSpec
import IncEmulation.Lib.Gather

/-!
# The slots of the aggregation ring

`SlotsHold` ties every slot of `psn_states` to the receive PSNs: a slot is idle
or holds exactly the contributions to one pending PSN.  `SumsHold` adds that
the buffer of a pending slot is the sum of these contributions.  The PSNs that
carry aggregated data are a parameter, so that the same lemmas serve one
collective and a whole program of them.
-/

namespace IncEmulation

open Gather

/-- The slot holds the contributions to `psn` that have arrived. -/
structure PsnState.Holds (hosts : Nat) (aggEpsn : Nat → Nat) (psn : Nat)
    (state : PsnState) : Prop where
  degree : state.degree = (contributors hosts aggEpsn psn).card
  arrival : ∀ conn,
    state.arrival conn = true ↔ conn ∈ contributors hosts aggEpsn psn
  psn_eq : state.aggBuffer.psn = psn

structure SlotsHold (hosts : Nat) (aggregated : Nat → Prop)
    (ctx : SwitchContext) : Prop where
  pending : ∀ psn, aggregated psn → Pending hosts ctx.aggEpsn psn →
    (ctx.psnStates (idx psn)).Holds hosts ctx.aggEpsn psn
  idle : ∀ index,
    (∀ psn, aggregated psn → Pending hosts ctx.aggEpsn psn →
      idx psn ≠ index) →
    (ctx.psnStates index).Idle

/-- Word `index` of a pending PSN is the sum of what has arrived. -/
def SumsHold (hosts : Nat) (aggregated : Nat → Prop) (length : Nat → Nat)
    (value : Nat → Nat → Nat → Word) (ctx : SwitchContext) : Prop :=
  ∀ psn, aggregated psn → Pending hosts ctx.aggEpsn psn →
    ∀ index < length psn,
      (ctx.psnStates (idx psn)).aggBuffer.buffer index =
        htonl (∑ conn ∈ contributors hosts ctx.aggEpsn psn,
          value conn psn index)

/-- No other pending PSN occupies the slot of `psn`. -/
def SlotFree (hosts : Nat) (aggregated : Nat → Prop) (ctx : SwitchContext)
    (psn : Nat) : Prop :=
  ∀ other, aggregated other → Pending hosts ctx.aggEpsn other →
    idx other = idx psn → other = psn

section Invariant

variable {hosts conn : Nat} {aggregated : Nat → Prop}
  {before after ctx : SwitchContext} {length : Nat → Nat}
  {value : Nat → Nat → Nat → Word}

theorem slotFree_of_within
    (within : Within hosts ctx.aggEpsn switchArrayLength) {psn : Nat}
    (pendingAfter : Pending hosts ctx.aggEpsn psn ∨
      ∀ source < hosts, ctx.aggEpsn source ≤ psn ∧
        psn < ctx.aggEpsn source + switchArrayLength) :
    SlotFree hosts aggregated ctx psn := by
  intro other _ otherPending sameSlot
  rcases pendingAfter with pending | near
  · exact otherPending.eq_of_mod_eq within pending sameSlot
  · obtain ⟨⟨fast, fastBound, passed⟩, slow, slowBound, owed⟩ := otherPending
    have fastNear := near fast fastBound
    have slowNear := near slow slowBound
    have divides : switchArrayLength ∣ psn - other :=
      (Nat.modEq_iff_dvd' (by omega)).mp sameSlot
    have small := Nat.le_of_dvd (by omega) divides
    omega

theorem SlotsHold.congr (slots : SlotsHold hosts aggregated before)
    (aggEpsn : after.aggEpsn = before.aggEpsn)
    (degree : ∀ index,
      (after.psnStates index).degree = (before.psnStates index).degree)
    (arrival : ∀ index,
      (after.psnStates index).arrival = (before.psnStates index).arrival)
    (aggBuffer : ∀ index, (after.psnStates index).aggBuffer =
      (before.psnStates index).aggBuffer) :
    SlotsHold hosts aggregated after where
  pending := by
    intro psn member pending
    rw [aggEpsn] at pending ⊢
    obtain ⟨sameDegree, sameArrival, samePsn⟩ :=
      slots.pending psn member pending
    exact ⟨by rw [degree, sameDegree], by rw [arrival]; exact sameArrival,
      by rw [aggBuffer, samePsn]⟩
  idle := by
    intro index free
    rw [aggEpsn] at free
    obtain ⟨noDegree, noArrival⟩ := slots.idle index free
    exact ⟨by rw [degree, noDegree], by rw [arrival]; exact noArrival⟩

theorem SumsHold.congr
    (sums : SumsHold hosts aggregated length value before)
    (aggEpsn : after.aggEpsn = before.aggEpsn)
    (aggBuffer : ∀ index, (after.psnStates index).aggBuffer =
      (before.psnStates index).aggBuffer) :
    SumsHold hosts aggregated length value after := by
  intro psn member pending index bound
  rw [aggEpsn] at pending ⊢
  rw [aggBuffer]
  exact sums psn member pending index bound

theorem SlotsHold.skip (slots : SlotsHold hosts aggregated before)
    (notAggregated : ¬aggregated (before.aggEpsn conn))
    (aggEpsn : after.aggEpsn = advance before.aggEpsn conn)
    (psnStates : after.psnStates = before.psnStates) :
    SlotsHold hosts aggregated after := by
  have other : ∀ psn, aggregated psn → psn ≠ before.aggEpsn conn :=
    fun psn member same => notAggregated (same ▸ member)
  constructor
  · intro psn member pending
    rw [aggEpsn, pending_advance_of_ne (other psn member)] at pending
    obtain ⟨degree, arrival, psnEq⟩ := slots.pending psn member pending
    rw [aggEpsn, psnStates]
    refine ⟨?_, ?_, psnEq⟩
    · rw [contributors_advance_of_ne (other psn member), degree]
    · rw [contributors_advance_of_ne (other psn member)]
      exact arrival
  · intro index free
    rw [psnStates]
    apply slots.idle
    intro psn member pending
    apply free psn member
    rw [aggEpsn, pending_advance_of_ne (other psn member)]
    exact pending

theorem SumsHold.skip
    (sums : SumsHold hosts aggregated length value before)
    (notAggregated : ¬aggregated (before.aggEpsn conn))
    (aggEpsn : after.aggEpsn = advance before.aggEpsn conn)
    (psnStates : after.psnStates = before.psnStates) :
    SumsHold hosts aggregated length value after := by
  intro psn member pending index bound
  have other : psn ≠ before.aggEpsn conn :=
    fun same => notAggregated (same ▸ member)
  rw [aggEpsn, pending_advance_of_ne other] at pending
  rw [aggEpsn, psnStates, contributors_advance_of_ne other]
  exact sums psn member pending index bound

/-- The slot of the next PSN of a connection, before its packet is added. -/
theorem SlotsHold.holds_next (slots : SlotsHold hosts aggregated ctx)
    (bound : conn < hosts) (member : aggregated (ctx.aggEpsn conn))
    (free : SlotFree hosts aggregated ctx (ctx.aggEpsn conn)) :
    (ctx.psnStates (idx (ctx.aggEpsn conn))).degree =
        (contributors hosts ctx.aggEpsn (ctx.aggEpsn conn)).card ∧
      ∀ other, (ctx.psnStates (idx (ctx.aggEpsn conn))).arrival other = true ↔
        other ∈ contributors hosts ctx.aggEpsn (ctx.aggEpsn conn) := by
  by_cases pending : Pending hosts ctx.aggEpsn (ctx.aggEpsn conn)
  · obtain ⟨degree, arrival, -⟩ := slots.pending _ member pending
    exact ⟨degree, arrival⟩
  · have empty := contributors_eq_empty_of_not_pending bound le_rfl pending
    have idle : (ctx.psnStates (idx (ctx.aggEpsn conn))).Idle := by
      apply slots.idle
      intro other otherMember otherPending sameSlot
      have same := free other otherMember otherPending sameSlot
      exact pending (same ▸ otherPending)
    rw [empty]
    exact ⟨idle.degree, fun other => by simp [idle.arrival other]⟩

/-- A contribution completes its slot when every other host has made its
own. -/
theorem SlotsHold.complete_iff (slots : SlotsHold hosts aggregated ctx)
    (bound : conn < hosts) (member : aggregated (ctx.aggEpsn conn))
    (free : SlotFree hosts aggregated ctx (ctx.aggEpsn conn)) :
    (ctx.psnStates (idx (ctx.aggEpsn conn))).degree + 1 = hosts ↔
      ∀ other < hosts, other ≠ conn →
        ctx.aggEpsn conn < ctx.aggEpsn other := by
  rw [(slots.holds_next bound member free).1]
  exact card_contributors_succ_eq_iff bound

variable {operation : Collective} {packet : Packet}

theorem afterContribution_psnStates_self :
    (ctx.afterContribution operation conn packet).psnStates (idx packet.psn) =
      ctx.contribution operation conn packet := by
  simp [SwitchContext.afterContribution]

theorem afterContribution_psnStates_of_ne {index : Nat}
    (different : index ≠ idx packet.psn) :
    (ctx.afterContribution operation conn packet).psnStates index =
      ctx.psnStates index := by
  simp [SwitchContext.afterContribution, Function.update_of_ne different,
    SwitchContext.bumpAggEpsn]

theorem afterContribution_aggEpsn :
    (ctx.afterContribution operation conn packet).aggEpsn =
      advance ctx.aggEpsn conn := rfl

theorem SlotsHold.pending_of_incomplete (slots : SlotsHold hosts aggregated ctx)
    (bound : conn < hosts) (member : aggregated (ctx.aggEpsn conn))
    (free : SlotFree hosts aggregated ctx (ctx.aggEpsn conn))
    (incomplete :
      (ctx.psnStates (idx (ctx.aggEpsn conn))).degree + 1 ≠ hosts) :
    Pending hosts (advance ctx.aggEpsn conn) (ctx.aggEpsn conn) := by
  rw [ne_eq, slots.complete_iff bound member free] at incomplete
  push Not at incomplete
  obtain ⟨other, otherBound, different, owed⟩ := incomplete
  exact ⟨⟨conn, bound, by simp⟩, other, otherBound, by
    rwa [advance_of_ne different]⟩

/-- Adding a contribution that is not the last one. -/
theorem SlotsHold.contribute (slots : SlotsHold hosts aggregated ctx)
    (bound : conn < hosts) (expected : packet.psn = ctx.aggEpsn conn)
    (member : aggregated (ctx.aggEpsn conn))
    (free : SlotFree hosts aggregated ctx (ctx.aggEpsn conn))
    (incomplete :
      (ctx.psnStates (idx (ctx.aggEpsn conn))).degree + 1 ≠ hosts) :
    SlotsHold hosts aggregated
      (ctx.afterContribution operation conn packet) := by
  obtain ⟨degree, arrival⟩ := slots.holds_next bound member free
  have grown := slots.pending_of_incomplete bound member free incomplete
  constructor
  · intro psn psnMember pending
    rw [afterContribution_aggEpsn] at pending ⊢
    by_cases same : psn = ctx.aggEpsn conn
    · subst same
      rw [← expected, afterContribution_psnStates_self, expected]
      refine ⟨?_, ?_, ?_⟩
      · rw [contributors_advance_self _ bound,
          Finset.card_insert_of_notMem notMem_contributors_self, ← degree,
          ← expected]
        rfl
      · intro other
        rw [contributors_advance_self _ bound, Finset.mem_insert,
          ← arrival other, ← expected]
        simp only [SwitchContext.contribution, PsnState.accumulate]
        by_cases sameConn : other = conn
        · simp [sameConn]
        · simp [sameConn]
      · simp [SwitchContext.contribution, PsnState.accumulate, expected]
    · rw [pending_advance_of_ne same] at pending
      have otherSlot : idx psn ≠ idx packet.psn := by
        intro sameSlot
        exact same (free psn psnMember pending (expected ▸ sameSlot))
      obtain ⟨psnDegree, psnArrival, psnEq⟩ :=
        slots.pending psn psnMember pending
      rw [afterContribution_psnStates_of_ne otherSlot]
      refine ⟨?_, ?_, psnEq⟩
      · rw [contributors_advance_of_ne same, psnDegree]
      · rw [contributors_advance_of_ne same]
        exact psnArrival
  · intro index notPending
    rw [afterContribution_aggEpsn] at notPending
    have otherSlot : index ≠ idx packet.psn := by
      rw [expected]
      exact (notPending _ member grown).symm
    rw [afterContribution_psnStates_of_ne otherSlot]
    apply slots.idle
    intro psn psnMember pending
    by_cases same : psn = ctx.aggEpsn conn
    · subst same
      exact notPending _ psnMember grown
    · apply notPending psn psnMember
      rw [pending_advance_of_ne same]
      exact pending

/-- Emptying the slot with the last contribution. -/
theorem SlotsHold.complete (slots : SlotsHold hosts aggregated before)
    (bound : conn < hosts) (member : aggregated (before.aggEpsn conn))
    (free : SlotFree hosts aggregated before (before.aggEpsn conn))
    (full :
      (before.psnStates (idx (before.aggEpsn conn))).degree + 1 = hosts)
    {targets : List Nat}
    (completed : before.Completed after conn (idx (before.aggEpsn conn))
      targets) :
    SlotsHold hosts aggregated after := by
  have last := (slots.complete_iff bound member free).mp full
  have aggEpsn : after.aggEpsn = advance before.aggEpsn conn :=
    completed.aggEpsn
  have passed :
      ¬Pending hosts (advance before.aggEpsn conn) (before.aggEpsn conn) := by
    rintro ⟨-, other, otherBound, owed⟩
    by_cases same : other = conn
    · subst same
      simp at owed
    · rw [advance_of_ne same] at owed
      have later := last other otherBound same
      omega
  constructor
  · intro psn psnMember pending
    rw [aggEpsn] at pending ⊢
    by_cases same : psn = before.aggEpsn conn
    · subst same
      exact absurd pending passed
    · rw [pending_advance_of_ne same] at pending
      have otherSlot : idx psn ≠ idx (before.aggEpsn conn) :=
        fun sameSlot => same (free psn psnMember pending sameSlot)
      obtain ⟨degree, arrival, psnEq⟩ := slots.pending psn psnMember pending
      rw [completed.others _ otherSlot]
      refine ⟨?_, ?_, psnEq⟩
      · rw [contributors_advance_of_ne same, degree]
      · rw [contributors_advance_of_ne same]
        exact arrival
  · intro index notPending
    by_cases slot : index = idx (before.aggEpsn conn)
    · exact slot ▸ completed.idle
    · rw [completed.others index slot]
      apply slots.idle
      intro psn psnMember pending sameSlot
      by_cases same : psn = before.aggEpsn conn
      · exact slot (same ▸ sameSlot.symm)
      · apply notPending psn psnMember _ sameSlot
        rw [aggEpsn, pending_advance_of_ne same]
        exact pending

/-- The buffer of the slot once a packet has been added. -/
theorem SumsHold.contribution_buffer
    (slots : SlotsHold hosts aggregated ctx)
    (sums : SumsHold hosts aggregated length value ctx)
    (bound : conn < hosts) (expected : packet.psn = ctx.aggEpsn conn)
    (member : aggregated (ctx.aggEpsn conn))
    (free : SlotFree hosts aggregated ctx (ctx.aggEpsn conn))
    (dataLen : packet.dataLen = length (ctx.aggEpsn conn))
    (data : ∀ index < length (ctx.aggEpsn conn),
      packet.data index = htonl (value conn (ctx.aggEpsn conn) index))
    {index : Nat} (inRange : index < length (ctx.aggEpsn conn)) :
    (ctx.contribution operation conn packet).aggBuffer.buffer index =
      htonl (∑ each ∈ contributors hosts (advance ctx.aggEpsn conn)
        (ctx.aggEpsn conn), value each (ctx.aggEpsn conn) index) := by
  obtain ⟨degree, -⟩ := slots.holds_next bound member free
  rw [sum_contributors_advance bound]
  have copied : (index : Int) < packet.dataLen := by
    rw [dataLen]
    exact_mod_cast inRange
  simp only [SwitchContext.contribution, PsnState.accumulate, expected]
  by_cases first : (ctx.psnStates (idx (ctx.aggEpsn conn))).degree = 0
  · have empty : contributors hosts ctx.aggEpsn (ctx.aggEpsn conn) = ∅ :=
      Finset.card_eq_zero.mp (degree.symm.trans first)
    simp [first, copyWords, copied, data index inRange, empty]
  · have pending : Pending hosts ctx.aggEpsn (ctx.aggEpsn conn) := by
      by_contra notPending
      have empty :=
        contributors_eq_empty_of_not_pending bound le_rfl notPending
      exact first (by rw [degree, empty, Finset.card_empty])
    have held := sums _ member pending index inRange
    simp [first, copyWords, copied, data index inRange, held]

theorem SumsHold.contribute
    (slots : SlotsHold hosts aggregated ctx)
    (sums : SumsHold hosts aggregated length value ctx)
    (bound : conn < hosts) (expected : packet.psn = ctx.aggEpsn conn)
    (member : aggregated (ctx.aggEpsn conn))
    (free : SlotFree hosts aggregated ctx (ctx.aggEpsn conn))
    (dataLen : packet.dataLen = length (ctx.aggEpsn conn))
    (data : ∀ index < length (ctx.aggEpsn conn),
      packet.data index = htonl (value conn (ctx.aggEpsn conn) index)) :
    SumsHold hosts aggregated length value
      (ctx.afterContribution operation conn packet) := by
  intro psn psnMember pending index inRange
  rw [afterContribution_aggEpsn] at pending ⊢
  by_cases same : psn = ctx.aggEpsn conn
  · subst same
    rw [← expected, afterContribution_psnStates_self, expected]
    exact sums.contribution_buffer slots bound expected member free dataLen
      data inRange
  · rw [pending_advance_of_ne same] at pending
    have otherSlot : idx psn ≠ idx packet.psn := by
      intro sameSlot
      exact same (free psn psnMember pending (expected ▸ sameSlot))
    rw [afterContribution_psnStates_of_ne otherSlot,
      contributors_advance_of_ne same]
    exact sums psn psnMember pending index inRange

theorem SumsHold.complete
    (slots : SlotsHold hosts aggregated before)
    (sums : SumsHold hosts aggregated length value before)
    (bound : conn < hosts) (member : aggregated (before.aggEpsn conn))
    (free : SlotFree hosts aggregated before (before.aggEpsn conn))
    (full :
      (before.psnStates (idx (before.aggEpsn conn))).degree + 1 = hosts)
    {targets : List Nat}
    (completed : before.Completed after conn (idx (before.aggEpsn conn))
      targets) :
    SumsHold hosts aggregated length value after := by
  have last := (slots.complete_iff bound member free).mp full
  have aggEpsn : after.aggEpsn = advance before.aggEpsn conn :=
    completed.aggEpsn
  intro psn psnMember pending index inRange
  rw [aggEpsn] at pending ⊢
  by_cases same : psn = before.aggEpsn conn
  · subst same
    obtain ⟨-, other, otherBound, owed⟩ := pending
    by_cases sameConn : other = conn
    · subst sameConn
      simp at owed
    · rw [advance_of_ne sameConn] at owed
      have later := last other otherBound sameConn
      omega
  · rw [pending_advance_of_ne same] at pending
    have otherSlot : idx psn ≠ idx (before.aggEpsn conn) :=
      fun sameSlot => same (free psn psnMember pending sameSlot)
    rw [completed.others _ otherSlot, contributors_advance_of_ne same]
    exact sums psn psnMember pending index inRange

end Invariant

end IncEmulation
