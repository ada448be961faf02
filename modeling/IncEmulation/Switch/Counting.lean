import IncEmulation.Lib.Tally
import IncEmulation.Switch.Handler

/-!
# Counting the acknowledgements of a broadcast

Between two packets `r_degree` counts, for every broadcast PSN that is not yet
released, the children whose `latest_ack` covers it.  In the middle of a walk it
counts the PSNs that the walk has passed, so the invariant speaks of an
arbitrary set of acknowledged PSNs.
-/

namespace IncEmulation.Switch

open Loop Tally

/-- Which child has acknowledged which PSN. -/
abbrev Coverage := Nat → Int → Bool

/-- The child acknowledges one PSN more. -/
def Coverage.add (covered : Coverage) (id : Nat) (psn : Int) : Coverage :=
  fun i other => if i = id ∧ other = psn then true else covered i other

namespace Globals

variable (globals : Globals)

/-- The slot of the PSN holds it. -/
def Broadcasting (psn : Int) : Prop :=
  (globals.bcastBuffer (idx psn)).state = true ∧
    (globals.bcastBuffer (idx psn)).psn = psn

/-- What `latest_ack` says. -/
def covers : Coverage := fun i psn => decide (psn ≤ globals.latestAck i)

structure Counted (covered : Coverage) : Prop where
  counted : ∀ psn, 0 ≤ psn → psn < globals.downEpsn →
    (∃ i < fanIn, covered i psn = false) →
      globals.Broadcasting psn ∧
        globals.rDegree (idx psn) = tally fanIn fun i => covered i psn
  waiting : ∀ slot, InRing slot → (globals.bcastBuffer slot).state = true →
    ∃ psn, 0 ≤ psn ∧ psn < globals.downEpsn ∧ idx psn = slot ∧
      (globals.bcastBuffer slot).psn = psn ∧
      ∃ i < fanIn, covered i psn = false
  empty : ∀ slot, InRing slot → (globals.bcastBuffer slot).state = false →
    globals.rDegree slot = 0
  sent : ∀ i < fanIn, ∀ psn, covered i psn = true → psn < globals.downEpsn

/-- The flags of a slot in use belong to acknowledged PSNs. -/
structure Marked (covered : Coverage) : Prop where
  marked : ∀ i < fanIn, ∀ psn, 0 ≤ psn → globals.Broadcasting psn →
    globals.rArrivalState i (idx psn) = true → covered i psn = true
  unmarked : ∀ i < fanIn, ∀ slot, InRing slot →
    (globals.bcastBuffer slot).state = false →
      globals.rArrivalState i slot = false

end Globals

section Round

variable {globals : Globals} {covered : Coverage} {id : Nat} {psn other : Int}

theorem Globals.Broadcasting.eq_of_idx_eq
    (broadcasting : globals.Broadcasting psn)
    (broadcasting' : globals.Broadcasting other)
    (same : idx other = idx psn) : other = psn := by
  rw [← broadcasting'.2, same, broadcasting.2]

theorem Coverage.add_of_ne (different : other ≠ psn) (i : Nat) :
    covered.add id psn i other = covered i other := by
  simp [Coverage.add, different]

theorem Coverage.add_self :
    (fun i => covered.add id psn i psn) =
      Function.update (fun i => covered i psn) id true := by
  funext i
  by_cases same : i = id
  · simp [Coverage.add, same]
  · simp [Coverage.add, same]

theorem Globals.Counted.holds (counted : globals.Counted covered)
    (isChild : id < fanIn) (nonneg : 0 ≤ psn)
    (sent : psn < globals.downEpsn) (fresh : covered id psn = false) :
    globals.Broadcasting psn :=
  (counted.counted psn nonneg sent ⟨id, isChild, fresh⟩).1

/-- The fresh acknowledgement raises the degree to the new number of
children. -/
theorem Globals.Counted.tally_add (counted : globals.Counted covered)
    (isChild : id < fanIn) (nonneg : 0 ≤ psn)
    (sent : psn < globals.downEpsn) (fresh : covered id psn = false) :
    globals.rDegree (idx psn) + 1 =
      tally fanIn fun i => covered.add id psn i psn := by
  rw [Coverage.add_self, tally_update isChild fresh,
    (counted.counted psn nonneg sent ⟨id, isChild, fresh⟩).2]

theorem Globals.Broadcasting.of_other_slot
    (broadcasting : globals.Broadcasting psn)
    (broadcasting' : globals.Broadcasting other) (different : other ≠ psn) :
    idx other ≠ idx psn :=
  fun same => different (broadcasting.eq_of_idx_eq broadcasting' same)

/-- One acknowledgement of the last child that is missing. -/
theorem Globals.Counted.release (counted : globals.Counted covered)
    (isChild : id < fanIn) (nonneg : 0 ≤ psn)
    (sent : psn < globals.downEpsn) (fresh : covered id psn = false)
    (full : globals.rDegree (idx psn) + 1 = fanIn) :
    (globals.release (idx psn)).Counted (covered.add id psn) := by
  have broadcasting := counted.holds isChild nonneg sent fresh
  have all : ∀ i < fanIn, covered.add id psn i psn = true := by
    rw [counted.tally_add isChild nonneg sent fresh] at full
    exact tally_eq_total_iff.mp full
  refine ⟨?_, ?_, ?_, ?_⟩
  · rintro other nonneg' sent' ⟨i, isChild', uncovered⟩
    have different : other ≠ psn := by
      rintro rfl
      rw [all i isChild'] at uncovered
      exact Bool.noConfusion uncovered
    rw [Coverage.add_of_ne different] at uncovered
    obtain ⟨broadcasting', degree⟩ :=
      counted.counted other nonneg' sent' ⟨i, isChild', uncovered⟩
    have apart := broadcasting.of_other_slot broadcasting' different
    simp only [Coverage.add_of_ne different, Globals.release,
      Globals.Broadcasting, Function.update_of_ne apart]
    exact ⟨broadcasting', degree⟩
  · intro slot inside used
    have apart : slot ≠ idx psn := by
      rintro rfl
      simp [Globals.release, AggBuffer.zero] at used
    simp only [Globals.release, Function.update_of_ne apart] at used ⊢
    obtain ⟨other, nonneg', sent', same, holds, i, isChild', uncovered⟩ :=
      counted.waiting slot inside used
    have different : other ≠ psn := by
      rintro rfl
      exact apart same.symm
    exact ⟨other, nonneg', sent', same, holds, i, isChild', by
      rwa [Coverage.add_of_ne different]⟩
  · intro slot inside unused
    by_cases same : slot = idx psn
    · simp [Globals.release, same]
    · simp only [Globals.release, Function.update_of_ne same] at unused ⊢
      exact counted.empty slot inside unused
  · intro i isChild' other isCovered
    by_cases same : other = psn
    · exact same ▸ sent
    · rw [Coverage.add_of_ne same] at isCovered
      exact counted.sent i isChild' other isCovered

/-- One acknowledgement while other children are missing. -/
theorem Globals.Counted.raise (counted : globals.Counted covered)
    (isChild : id < fanIn) (nonneg : 0 ≤ psn)
    (sent : psn < globals.downEpsn) (fresh : covered id psn = false)
    (waiting : globals.rDegree (idx psn) + 1 ≠ fanIn) :
    (globals.raise (idx psn)).Counted (covered.add id psn) := by
  have broadcasting := counted.holds isChild nonneg sent fresh
  have degree := counted.tally_add isChild nonneg sent fresh
  refine ⟨?_, ?_, ?_, ?_⟩
  · rintro other nonneg' sent' ⟨i, isChild', uncovered⟩
    by_cases same : other = psn
    · subst same
      exact ⟨broadcasting, by rw [← degree]; exact Function.update_self ..⟩
    · rw [Coverage.add_of_ne same] at uncovered
      obtain ⟨broadcasting', degree'⟩ :=
        counted.counted other nonneg' sent' ⟨i, isChild', uncovered⟩
      have apart := broadcasting.of_other_slot broadcasting' same
      simp only [Coverage.add_of_ne same, Globals.raise,
        Globals.Broadcasting, Function.update_of_ne apart]
      exact ⟨broadcasting', degree'⟩
  · intro slot inside used
    obtain ⟨other, nonneg', sent', same, holds, i, isChild', uncovered⟩ :=
      counted.waiting slot inside used
    refine ⟨other, nonneg', sent', same, holds, ?_⟩
    by_cases isPsn : other = psn
    · subst isPsn
      have notAll : ¬∀ i < fanIn, covered.add id other i other = true := by
        rw [← tally_eq_total_iff, ← degree]
        exact waiting
      push Not at notAll
      obtain ⟨j, isChild'', missing⟩ := notAll
      exact ⟨j, isChild'', Bool.not_eq_true _ ▸ missing⟩
    · exact ⟨i, isChild', by rwa [Coverage.add_of_ne isPsn]⟩
  · intro slot inside unused
    have apart : slot ≠ idx psn := by
      rintro rfl
      exact Bool.noConfusion (broadcasting.1.symm.trans unused)
    simp only [Globals.raise, Function.update_of_ne apart]
    exact counted.empty slot inside unused
  · intro i isChild' other isCovered
    by_cases same : other = psn
    · exact same ▸ sent
    · rw [Coverage.add_of_ne same] at isCovered
      exact counted.sent i isChild' other isCovered

theorem Globals.Counted.countAck (counted : globals.Counted covered)
    (isChild : id < fanIn) (nonneg : 0 ≤ psn)
    (sent : psn < globals.downEpsn) (fresh : covered id psn = false) :
    (globals.countAck (idx psn)).Counted (covered.add id psn) := by
  by_cases full : globals.rDegree (idx psn) + 1 = fanIn
  · rw [countAck_of_full full]
    exact counted.release isChild nonneg sent fresh full
  · rw [countAck_of_not_full full]
    exact counted.raise isChild nonneg sent fresh full

theorem Globals.Marked.mono {more : Coverage} (marked : globals.Marked covered)
    (grows : ∀ i psn, covered i psn = true → more i psn = true) :
    globals.Marked more :=
  ⟨fun i isChild psn nonneg broadcasting flag =>
    grows i psn (marked.marked i isChild psn nonneg broadcasting flag),
    marked.unmarked⟩

theorem Globals.Marked.mark (marked : globals.Marked covered)
    (broadcasting : globals.Broadcasting psn)
    (isCovered : covered id psn = true) :
    (globals.mark id (idx psn)).Marked covered := by
  refine ⟨?_, ?_⟩
  · intro i isChild other nonneg holds flag
    by_cases set : i = id ∧ idx other = idx psn
    · have same := broadcasting.eq_of_idx_eq holds set.2
      rw [set.1, same]
      exact isCovered
    · simp only [Globals.mark, set, if_false] at flag
      exact marked.marked i isChild other nonneg holds flag
  · intro i isChild slot inside unused
    have apart : slot ≠ idx psn := by
      rintro rfl
      exact Bool.noConfusion (broadcasting.1.symm.trans unused)
    simp only [Globals.mark, apart, and_false, if_false]
    exact marked.unmarked i isChild slot inside unused

theorem Globals.Marked.release (marked : globals.Marked covered) (slot : Int) :
    (globals.release slot).Marked covered := by
  refine ⟨?_, ?_⟩
  · intro i isChild psn nonneg holds flag
    have apart : idx psn ≠ slot := by
      intro same
      simp [Globals.Broadcasting, Globals.release, same, AggBuffer.zero] at holds
    simp only [Globals.Broadcasting, Globals.release,
      Function.update_of_ne apart] at holds
    simp only [Globals.release, apart, and_false, if_false] at flag
    exact marked.marked i isChild psn nonneg holds flag
  · intro i isChild other inside unused
    by_cases same : other = slot
    · simp [Globals.release, same, isChild]
    · simp only [Globals.release, Function.update_of_ne same] at unused
      simp only [Globals.release, same, and_false, if_false]
      exact marked.unmarked i isChild other inside unused

theorem Globals.Marked.countAck (marked : globals.Marked covered)
    (slot : Int) : (globals.countAck slot).Marked covered := by
  by_cases full : globals.rDegree slot + 1 = fanIn
  · rw [countAck_of_full full]
    exact marked.release slot
  · rw [countAck_of_not_full full]
    exact ⟨marked.marked, marked.unmarked⟩

end Round

/-- What the walk of an acknowledgement may change: it counts, releases slots
and sets and clears their flags. -/
structure AckChange (globals changed : Globals) : Prop where
  frame : changed = { globals with
    rDegree := changed.rDegree
    bcastBuffer := changed.bcastBuffer
    rArrivalState := changed.rArrivalState }
  slots : ∀ slot, changed.bcastBuffer slot = globals.bcastBuffer slot ∨
    changed.bcastBuffer slot = .zero

namespace AckChange

variable {globals changed final : Globals} {id : Nat} {slot : Int}

theorem refl (globals : Globals) : AckChange globals globals :=
  ⟨rfl, fun _ => Or.inl rfl⟩

theorem trans (first : AckChange globals changed)
    (second : AckChange changed final) : AckChange globals final := by
  refine ⟨?_, fun slot => ?_⟩
  · rw [second.frame, first.frame]
  · rcases second.slots slot with same | cleared
    · rw [same]
      exact first.slots slot
    · exact Or.inr cleared

theorem mark (globals : Globals) (id : Nat) (slot : Int) :
    AckChange globals (globals.mark id slot) :=
  ⟨rfl, fun _ => Or.inl rfl⟩

theorem countAck (globals : Globals) (slot : Int) :
    AckChange globals (globals.countAck slot) := by
  by_cases full : globals.rDegree slot + 1 = fanIn
  · rw [Globals.countAck_of_full full]
    refine ⟨rfl, fun other => ?_⟩
    by_cases same : other = slot
    · right
      rw [same]
      exact Function.update_self ..
    · left
      exact Function.update_of_ne same ..
  · rw [Globals.countAck_of_not_full full]
    exact ⟨rfl, fun _ => Or.inl rfl⟩

theorem latestAck (change : AckChange globals changed) :
    changed.latestAck = globals.latestAck := by
  rw [change.frame]

theorem downEpsn (change : AckChange globals changed) :
    changed.downEpsn = globals.downEpsn := by
  rw [change.frame]

end AckChange

/-! ## The walks -/

/-- The child acknowledges the PSNs above `low` up to `high`. -/
def Coverage.through (covered : Coverage) (id : Nat) (low high : Int) :
    Coverage :=
  fun i psn => decide (i = id ∧ low < psn ∧ psn ≤ high) || covered i psn

section Walk

variable {covered : Coverage} {id : Nat} {low high psn : Int}
  {globals result : Globals}

theorem Coverage.through_self : covered.through id high high = covered := by
  funext i psn
  have none : ¬(i = id ∧ high < psn ∧ psn ≤ high) := fun between => by omega
  simp [Coverage.through, none]

theorem Coverage.through_add (below : psn ≤ high) :
    (covered.through id psn high).add id psn =
      covered.through id (psn - 1) high := by
  funext i other
  by_cases isThis : i = id ∧ other = psn
  · obtain ⟨rfl, rfl⟩ := isThis
    have between : i = i ∧ other - 1 < other ∧ other ≤ high := by omega
    rw [Coverage.add, if_pos ⟨rfl, rfl⟩, Coverage.through,
      decide_eq_true between, Bool.true_or]
  · have same : (i = id ∧ psn < other ∧ other ≤ high) ↔
        (i = id ∧ psn - 1 < other ∧ other ≤ high) := by
      omega
    simp [Coverage.add, Coverage.through, isThis, same]

theorem Globals.covers_setLatestAck (grows : globals.latestAck id ≤ high) :
    (globals.setLatestAck id high).covers =
      globals.covers.through id (globals.latestAck id) high := by
  funext i psn
  by_cases same : i = id
  · subst same
    have split : psn ≤ high ↔ (globals.latestAck i < psn ∧ psn ≤ high) ∨
        psn ≤ globals.latestAck i := by
      omega
    simp only [Globals.covers, Globals.setLatestAck, Coverage.through,
      Function.update_self, true_and, ← Bool.decide_or]
    exact decide_eq_decide.mpr split
  · simp [Globals.covers, Globals.setLatestAck, Coverage.through, same]

/-- The state between two packets. -/
structure Globals.Settled (globals : Globals) : Prop where
  counted : globals.Counted globals.covers
  marked : globals.Marked globals.covers
  latest : ∀ i < fanIn, -1 ≤ globals.latestAck i

/-- A walk from `high` has counted the PSNs above its own. -/
structure Walking (globals : Globals) (id : Nat) (high : Int)
    (walk : Globals × Int) : Prop where
  change : AckChange globals walk.1
  counted : walk.1.Counted (globals.covers.through id walk.2 high)
  above : globals.latestAck id < walk.2
  below : walk.2 ≤ high

theorem Walking.uncovered {walk : Globals × Int}
    (walking : Walking globals id high walk) :
    globals.covers.through id walk.2 high id walk.2 = false := by
  have above := walking.above
  simp [Coverage.through, Globals.covers, above]

theorem Walking.lower {walk : Globals × Int}
    (walking : Walking globals id high walk)
    (more : walk.2 - 1 ≠ walk.1.latestAck id) :
    globals.latestAck id < walk.2 - 1 := by
  have above := walking.above
  rw [walking.change.latestAck] at more
  omega

theorem Walking.last {walk : Globals × Int}
    (walking : Walking globals id high walk)
    (last : walk.2 - 1 = walk.1.latestAck id) :
    walk.2 - 1 = globals.latestAck id := by
  rw [last, walking.change.latestAck]

theorem Walking.start (settled : globals.Settled)
    (above : globals.latestAck id < high) :
    Walking globals id high (globals, high) where
  change := .refl globals
  counted := by
    rw [Coverage.through_self]
    exact settled.counted
  above := above
  below := le_refl high

section Round

variable {walk next : Globals × Int}

theorem ackRound_eq_again (round : ackRound id walk = .again next) :
    next = (walk.1.countAck (idx walk.2), walk.2 - 1) ∧
      walk.2 - 1 ≠ walk.1.latestAck id := by
  have same := (AckChange.countAck walk.1 (idx walk.2)).latestAck
  simp only [ackRound, same] at round
  split at round
  · cases round
  · rename_i more
    exact ⟨(Round.again.inj round).symm, more⟩

theorem ackRound_eq_stop (round : ackRound id walk = .stop result) :
    result = walk.1.countAck (idx walk.2) ∧
      walk.2 - 1 = walk.1.latestAck id := by
  have same := (AckChange.countAck walk.1 (idx walk.2)).latestAck
  simp only [ackRound, same] at round
  split at round
  · rename_i last
    exact ⟨(Round.stop.inj round).symm, last⟩
  · cases round

theorem nakRound_of_unacknowledged
    (fresh : walk.1.unacknowledged id walk.2) :
    nakRound id walk =
      ackRound id (walk.1.mark id (idx walk.2), walk.2) := by
  simp only [nakRound, fresh, if_true, ackRound]

end Round

section Step

variable {walk : Globals × Int} (settled : globals.Settled)
  (isChild : id < fanIn) (sent : high < globals.downEpsn)
  (walking : Walking globals id high walk)

include settled isChild sent walking

theorem Walking.within : 0 ≤ walk.2 ∧ walk.2 < walk.1.downEpsn := by
  have latest := settled.latest id isChild
  have above := walking.above
  have below := walking.below
  rw [walking.change.downEpsn]
  omega

theorem Walking.broadcasting : walk.1.Broadcasting walk.2 := by
  obtain ⟨nonneg, sent'⟩ := walking.within settled isChild sent
  exact walking.counted.holds isChild nonneg sent' walking.uncovered

theorem Walking.countAck :
    (walk.1.countAck (idx walk.2)).Counted
      (globals.covers.through id (walk.2 - 1) high) := by
  obtain ⟨nonneg, sent'⟩ := walking.within settled isChild sent
  rw [← Coverage.through_add walking.below]
  exact walking.counted.countAck isChild nonneg sent' walking.uncovered

end Step

/-- What an acknowledgement up to `high` leaves. -/
structure Acknowledged (globals : Globals) (id : Nat) (high : Int)
    (result : Globals) : Prop where
  change : AckChange globals result
  counted : result.Counted (globals.setLatestAck id high).covers
  marked : result.Marked (globals.setLatestAck id high).covers

theorem covers_grow (above : globals.latestAck id < high) (i : Nat)
    (isCovered : globals.covers i psn = true) :
    (globals.setLatestAck id high).covers i psn = true := by
  rw [Globals.covers_setLatestAck above.le, Coverage.through, isCovered,
    Bool.or_true]

theorem covers_high : (globals.setLatestAck id high).covers id high = true := by
  simp [Globals.covers, Globals.setLatestAck]

/-- The walk of an ACK: its flag is set before, its other PSNs keep theirs. -/
theorem ackRound_walk (settled : globals.Settled) (isChild : id < fanIn)
    (sent : high < globals.downEpsn)
    (above : globals.latestAck id < high) {fuel : Nat}
    (returned : iterate (ackRound id) fuel
      (globals.mark id (idx high), high) = some result) :
    Acknowledged globals id high result := by
  have start := Walking.start settled above
  refine iterate_invariant
    (fun walk => Walking globals id high walk ∧
      walk.1.Marked (globals.setLatestAck id high).covers)
    (Acknowledged globals id high) ?_ ?_ ⟨⟨?_, ?_, above, le_refl high⟩, ?_⟩
    returned
  · rintro walk next ⟨walking, marked⟩ round
    have counted := walking.countAck settled isChild sent
    have change := walking.change.trans (.countAck walk.1 (idx walk.2))
    obtain ⟨rfl, more⟩ := ackRound_eq_again round
    have upper := walking.below
    exact ⟨⟨change, counted, walking.lower more, by omega⟩,
      marked.countAck (idx walk.2)⟩
  · rintro walk result ⟨walking, marked⟩ round
    have counted := walking.countAck settled isChild sent
    have change := walking.change.trans (.countAck walk.1 (idx walk.2))
    obtain ⟨rfl, last⟩ := ackRound_eq_stop round
    rw [walking.last last, ← Globals.covers_setLatestAck above.le] at counted
    exact ⟨change, counted, marked.countAck (idx walk.2)⟩
  · exact .mark globals id (idx high)
  · exact ⟨start.counted.counted, start.counted.waiting, start.counted.empty,
      start.counted.sent⟩
  · exact (settled.marked.mono fun i psn => covers_grow above i).mark
      (start.broadcasting settled isChild sent) covers_high

theorem ackRound_ends (above : globals.latestAck id < high) :
    Ends (ackRound id) (globals, high) := by
  refine ends_of_measure
    (fun walk => AckChange globals walk.1 ∧ globals.latestAck id < walk.2)
    (fun walk => (walk.2 - globals.latestAck id).toNat) ?_
    ⟨.refl globals, above⟩
  rintro walk next ⟨change, above'⟩ round
  obtain ⟨rfl, more⟩ := ackRound_eq_again round
  rw [change.latestAck] at more
  exact ⟨⟨change.trans (.countAck walk.1 (idx walk.2)), by omega⟩,
    by simp only; omega⟩

/-- The PSNs that a child acknowledges with a NAK are fresh. -/
theorem Walking.unacknowledged {walk : Globals × Int}
    (settled : globals.Settled) (isChild : id < fanIn)
    (sent : high < globals.downEpsn)
    (walking : Walking globals id high walk)
    (marked : walk.1.Marked (globals.covers.through id walk.2 high)) :
    walk.1.unacknowledged id walk.2 := by
  have broadcasting := walking.broadcasting settled isChild sent
  obtain ⟨nonneg, -⟩ := walking.within settled isChild sent
  refine ⟨?_, broadcasting.2⟩
  rw [← Bool.not_eq_true]
  intro flag
  have isCovered := marked.marked id isChild walk.2 nonneg broadcasting flag
  exact Bool.noConfusion (isCovered.symm.trans walking.uncovered)

/-- A round of a NAK marks and counts. -/
theorem Walking.nak {walk : Globals × Int} (settled : globals.Settled)
    (isChild : id < fanIn) (sent : high < globals.downEpsn)
    (walking : Walking globals id high walk)
    (marked : walk.1.Marked (globals.covers.through id walk.2 high)) :
    let next := (walk.1.mark id (idx walk.2)).countAck (idx walk.2)
    AckChange globals next ∧
      next.Counted (globals.covers.through id (walk.2 - 1) high) ∧
      next.Marked (globals.covers.through id (walk.2 - 1) high) := by
  have broadcasting := walking.broadcasting settled isChild sent
  have change := walking.change.trans (.mark walk.1 id (idx walk.2))
  have counted := walking.counted
  have walking' : Walking globals id high
      (walk.1.mark id (idx walk.2), walk.2) :=
    ⟨change, ⟨counted.counted, counted.waiting, counted.empty, counted.sent⟩,
      walking.above, walking.below⟩
  refine ⟨change.trans (.countAck _ _),
    walking'.countAck settled isChild sent, ?_⟩
  rw [← Coverage.through_add walking.below]
  refine ((marked.mono fun i psn isCovered => ?_).mark broadcasting
    ?_).countAck _
  · simp [Coverage.add, isCovered]
  · simp [Coverage.add]

theorem nakRound_walk (settled : globals.Settled) (isChild : id < fanIn)
    (sent : high < globals.downEpsn)
    (above : globals.latestAck id < high) {fuel : Nat}
    (returned : iterate (nakRound id) fuel (globals, high) = some result) :
    Acknowledged globals id high result := by
  have start := Walking.start settled above
  refine iterate_invariant
    (fun walk => Walking globals id high walk ∧
      walk.1.Marked (globals.covers.through id walk.2 high))
    (Acknowledged globals id high) ?_ ?_ ⟨start, ?_⟩ returned
  · rintro walk next ⟨walking, marked⟩ round
    obtain ⟨change, counted, marked'⟩ :=
      walking.nak settled isChild sent marked
    rw [nakRound_of_unacknowledged
      (walking.unacknowledged settled isChild sent marked)] at round
    obtain ⟨rfl, more⟩ := ackRound_eq_again round
    have upper := walking.below
    exact ⟨⟨change, counted, walking.lower more, by omega⟩, marked'⟩
  · rintro walk result ⟨walking, marked⟩ round
    obtain ⟨change, counted, marked'⟩ :=
      walking.nak settled isChild sent marked
    rw [nakRound_of_unacknowledged
      (walking.unacknowledged settled isChild sent marked)] at round
    obtain ⟨rfl, last⟩ := ackRound_eq_stop round
    rw [walking.last last, ← Globals.covers_setLatestAck above.le]
      at counted marked'
    exact ⟨change, counted, marked'⟩
  · rw [Coverage.through_self]
    exact settled.marked

/-- A NAK for broadcast PSNs never runs into its `continue`. -/
theorem nakRound_ends (settled : globals.Settled) (isChild : id < fanIn)
    (sent : high < globals.downEpsn)
    (above : globals.latestAck id < high) :
    Ends (nakRound id) (globals, high) := by
  refine ends_of_measure
    (fun walk => Walking globals id high walk ∧
      walk.1.Marked (globals.covers.through id walk.2 high))
    (fun walk => (walk.2 - globals.latestAck id).toNat) ?_
    ⟨.start settled above, by rw [Coverage.through_self]; exact settled.marked⟩
  rintro walk next ⟨walking, marked⟩ round
  obtain ⟨change, counted, marked'⟩ :=
    walking.nak settled isChild sent marked
  rw [nakRound_of_unacknowledged
    (walking.unacknowledged settled isChild sent marked)] at round
  obtain ⟨rfl, more⟩ := ackRound_eq_again round
  have lower := walking.lower more
  have upper := walking.below
  exact ⟨⟨⟨change, counted, lower, by omega⟩, marked'⟩,
    by simp only; omega⟩

end Walk

end IncEmulation.Switch
