import Mathlib.Algebra.BigOperators.Group.Finset.Basic
import Mathlib.Data.Finset.Card
import Mathlib.Data.Finset.Max
import Mathlib.Data.Nat.ModEq
import Mathlib.Tactic.NormNum

/-!
# Gathering streams position by position

Several sources each send a numbered stream in order, and a collector combines
the items that carry the same number.  All it knows of a source is its
progress: the number of items received from it.  A position is pending while
some sources have passed it and others have not.  When no source gets a full
ring ahead of another, the pending positions fit into the ring without
overlap.
-/

namespace Gather

/-- The next item of one source arrives. -/
def advance (progress : Nat → Nat) (source : Nat) : Nat → Nat :=
  Function.update progress source (progress source + 1)

/-- The sources that have passed a position. -/
def contributors (sources : Nat) (progress : Nat → Nat) (position : Nat) :
    Finset Nat :=
  (Finset.range sources).filter fun source => position < progress source

/-- Some sources have passed the position and others have not. -/
def Pending (sources : Nat) (progress : Nat → Nat) (position : Nat) : Prop :=
  (∃ source < sources, position < progress source) ∧
    ∃ source < sources, progress source ≤ position

/-- The progress of the slowest source. -/
structure Frontier (sources : Nat) (progress : Nat → Nat) (frontier : Nat) :
    Prop where
  le : ∀ source < sources, frontier ≤ progress source
  attained : ∃ source < sources, progress source = frontier

/-- No source is `width` or more items ahead of another. -/
def Within (sources : Nat) (progress : Nat → Nat) (width : Nat) : Prop :=
  ∀ first < sources, ∀ second < sources,
    progress first < progress second + width

variable {sources : Nat} {progress : Nat → Nat} {source position : Nat}

@[simp]
theorem advance_self (progress : Nat → Nat) (source : Nat) :
    advance progress source source = progress source + 1 := by
  simp [advance]

theorem advance_of_ne {other : Nat} (different : other ≠ source) :
    advance progress source other = progress other := by
  simp [advance, different]

theorem le_advance (progress : Nat → Nat) (source other : Nat) :
    progress other ≤ advance progress source other := by
  by_cases same : other = source
  · subst same
    simp
  · rw [advance_of_ne same]

theorem lt_advance_iff {other : Nat} (different : position ≠ progress source) :
    position < advance progress source other ↔ position < progress other := by
  by_cases same : other = source
  · subst same
    rw [advance_self]
    omega
  · rw [advance_of_ne same]

theorem advance_le_iff {other : Nat} (different : position ≠ progress source) :
    advance progress source other ≤ position ↔ progress other ≤ position := by
  rw [← not_lt, ← not_lt, lt_advance_iff different]

@[simp]
theorem mem_contributors :
    source ∈ contributors sources progress position ↔
      source < sources ∧ position < progress source := by
  simp [contributors]

theorem notMem_contributors_self :
    source ∉ contributors sources progress (progress source) := by
  simp

theorem contributors_advance_self (progress : Nat → Nat)
    (bound : source < sources) :
    contributors sources (advance progress source) (progress source) =
      insert source (contributors sources progress (progress source)) := by
  ext other
  by_cases same : other = source
  · subst same
    simp [bound]
  · simp [advance_of_ne same, same]

theorem contributors_advance_of_ne (different : position ≠ progress source) :
    contributors sources (advance progress source) position =
      contributors sources progress position := by
  ext other
  simp [lt_advance_iff different]

theorem pending_advance_of_ne (different : position ≠ progress source) :
    Pending sources (advance progress source) position ↔
      Pending sources progress position := by
  simp only [Pending, lt_advance_iff different, advance_le_iff different]

theorem card_contributors_eq_iff :
    (contributors sources progress position).card = sources ↔
      ∀ source < sources, position < progress source := by
  constructor
  · intro full source bound
    have subset :
        contributors sources progress position ⊆ Finset.range sources :=
      Finset.filter_subset _ _
    have same : contributors sources progress position = Finset.range sources :=
      Finset.eq_of_subset_of_card_le subset (by simp [full])
    have member : source ∈ contributors sources progress position := by
      rw [same]
      exact Finset.mem_range.mpr bound
    exact (mem_contributors.mp member).2
  · intro passed
    have same :
        contributors sources progress position = Finset.range sources := by
      ext source
      simp only [mem_contributors, Finset.mem_range]
      exact ⟨And.left, fun bound => ⟨bound, passed source bound⟩⟩
    rw [same, Finset.card_range]

/-- The next item of a source fills its position exactly when every other
source has passed it. -/
theorem card_contributors_succ_eq_iff (bound : source < sources) :
    (contributors sources progress (progress source)).card + 1 = sources ↔
      ∀ other < sources, other ≠ source →
        progress source < progress other := by
  have grown := contributors_advance_self progress bound
  have card := congrArg Finset.card grown
  rw [Finset.card_insert_of_notMem notMem_contributors_self] at card
  rw [← card, card_contributors_eq_iff]
  constructor
  · intro passed other otherBound different
    have later := passed other otherBound
    rwa [advance_of_ne different] at later
  · intro passed other otherBound
    by_cases same : other = source
    · subst same
      simp
    · rw [advance_of_ne same]
      exact passed other otherBound same

/-- A position somebody still owes is pending or untouched. -/
theorem contributors_eq_empty_of_not_pending (bound : source < sources)
    (owed : progress source ≤ position)
    (notPending : ¬Pending sources progress position) :
    contributors sources progress position = ∅ := by
  apply Finset.eq_empty_of_forall_notMem
  intro other member
  obtain ⟨otherBound, passed⟩ := mem_contributors.mp member
  exact notPending ⟨⟨other, otherBound, passed⟩, ⟨source, bound, owed⟩⟩

/-- Pending positions within one ring never share a cell. -/
theorem Pending.eq_of_mod_eq {other width : Nat}
    (within : Within sources progress width)
    (pending : Pending sources progress position)
    (otherPending : Pending sources progress other)
    (sameCell : position % width = other % width) : position = other := by
  obtain ⟨⟨fast, fastBound, passed⟩, slow, slowBound, owed⟩ := pending
  obtain ⟨⟨otherFast, otherFastBound, otherPassed⟩, otherSlow, otherSlowBound,
    otherOwed⟩ := otherPending
  have forward := within fast fastBound otherSlow otherSlowBound
  have backward := within otherFast otherFastBound slow slowBound
  rcases Nat.lt_trichotomy position other with less | same | greater
  · have divides : width ∣ other - position :=
      (Nat.modEq_iff_dvd' less.le).mp sameCell
    have small := Nat.le_of_dvd (by omega) divides
    omega
  · exact same
  · have divides : width ∣ position - other :=
      (Nat.modEq_iff_dvd' greater.le).mp sameCell.symm
    have small := Nat.le_of_dvd (by omega) divides
    omega

/-- Beyond the first ring no source is more than a ring ahead of another. -/
def Spread (sources width : Nat) (progress : Nat → Nat) : Prop :=
  ∀ first < sources, ∀ second < sources,
    progress first ≤ width + 1 ∨ progress first ≤ progress second + width

/-- The next position of a source is in the first ring or less than a ring ahead
of all others. -/
def Paced (sources width : Nat) (progress : Nat → Nat) (source : Nat) : Prop :=
  progress source ≤ width ∨
    ∀ other < sources, progress source < progress other + width

namespace Spread

variable {width : Nat}

theorem advance (spread : Spread sources width progress)
    (paced : Paced sources width progress source) :
    Spread sources width (advance progress source) := by
  intro first firstBound second secondBound
  have before := spread first firstBound second secondBound
  have grown := le_advance progress source second
  by_cases own : first = source
  · subst own
    rw [advance_self]
    rcases paced with near | near
    · exact Or.inl (Nat.succ_le_succ near)
    · have ahead := near second secondBound
      exact Or.inr (by omega)
  · rw [advance_of_ne own]
    omega

/-- A pending position in the cell of the next one of a source is that one. -/
theorem eq_of_mod_eq (spread : Spread sources width progress)
    (bound : source < sources) (paced : Paced sources width progress source)
    (started : 1 ≤ progress source) (first : 1 ≤ position)
    (pending : Pending sources progress position)
    (sameCell : position % width = progress source % width) :
    position = progress source := by
  obtain ⟨⟨fast, fastBound, passed⟩, slow, slowBound, owed⟩ := pending
  have lead := spread fast fastBound source bound
  rcases Nat.lt_trichotomy position (progress source) with
    less | same | greater
  · have divides : width ∣ progress source - position :=
      (Nat.modEq_iff_dvd' less.le).mp sameCell
    have small := Nat.le_of_dvd (by omega) divides
    rcases paced with near | near
    · omega
    · have behind := near slow slowBound
      omega
  · exact same
  · have divides : width ∣ position - progress source :=
      (Nat.modEq_iff_dvd' greater.le).mp sameCell.symm
    have small := Nat.le_of_dvd (by omega) divides
    omega

end Spread

namespace Frontier

variable {frontier : Nat}

/-- The frontier stays while another source still owes the position. -/
theorem advance_of_owed (reached : Frontier sources progress frontier)
    {other : Nat} (otherBound : other < sources) (different : other ≠ source)
    (owed : progress other ≤ progress source) :
    Frontier sources (advance progress source) frontier where
  le := fun each bound =>
    (reached.le each bound).trans (le_advance progress source each)
  attained := by
    obtain ⟨slowest, bound, same⟩ := reached.attained
    by_cases slowestIsSource : slowest = source
    · subst slowestIsSource
      have otherSame : progress other = frontier := by
        have least := reached.le other otherBound
        omega
      exact ⟨other, otherBound, by rw [advance_of_ne different, otherSame]⟩
    · exact ⟨slowest, bound, by rw [advance_of_ne slowestIsSource, same]⟩

theorem eq_of_last (reached : Frontier sources progress frontier)
    (bound : source < sources)
    (last : ∀ other < sources, other ≠ source →
      progress source < progress other) :
    frontier = progress source := by
  obtain ⟨slowest, slowestBound, same⟩ := reached.attained
  have least := reached.le source bound
  by_cases slowestIsSource : slowest = source
  · rw [← same, slowestIsSource]
  · have later := last slowest slowestBound slowestIsSource
    omega

/-- The last source to arrive at a position takes the frontier past it. -/
theorem advance_of_last (bound : source < sources)
    (last : ∀ other < sources, other ≠ source →
      progress source < progress other) :
    Frontier sources (advance progress source) (progress source + 1) where
  le := by
    intro each eachBound
    by_cases same : each = source
    · subst same
      simp
    · rw [advance_of_ne same]
      exact last each eachBound same
  attained := ⟨source, bound, advance_self progress source⟩

end Frontier

theorem sum_contributors_advance {Value : Type*} [AddCommMonoid Value]
    (bound : source < sources) (value : Nat → Value) :
    ∑ each ∈ contributors sources (advance progress source)
        (progress source), value each =
      ∑ each ∈ contributors sources progress (progress source), value each +
        value source := by
  rw [contributors_advance_self _ bound,
    Finset.sum_insert notMem_contributors_self, add_comm]

theorem contributors_eq_range
    (passed : ∀ source < sources, position < progress source) :
    contributors sources progress position = Finset.range sources := by
  ext source
  simp only [mem_contributors, Finset.mem_range]
  exact ⟨And.left, fun bound => ⟨bound, passed source bound⟩⟩

/-! ## Cells that are refused until they are cleared -/

/-- The cells of a ring, when a source is refused a cell that holds an earlier
item of its own and a cell is cleared only after the last source: what a cell
holds has been started, and what was started and is not finished is still in
its cell. -/
structure Occupied (sources width : Nat) (progress : Nat → Nat)
    (holds : Nat → Option Nat) : Prop where
  place : ∀ {cell position}, holds cell = some position →
    position % width = cell
  started : ∀ {cell position}, holds cell = some position →
    ∃ source < sources, position < progress source
  kept : ∀ {source position}, source < sources →
    position < progress source → holds (position % width) = some position ∨
      ∀ other < sources, position < progress other

namespace Occupied

variable {width : Nat} {holds holds' : Nat → Option Nat}

theorem empty (progress : Nat → Nat)
    (fresh : ∀ source < sources, progress source = 0) :
    Occupied sources width progress fun _ => none where
  place := nofun
  started := nofun
  kept := by
    intro source position bound passed
    rw [fresh source bound] at passed
    exact absurd passed (Nat.not_lt_zero position)

/-- A source that is not refused finds its item in the cell, or nothing. -/
theorem eq_of_admitted (occupied : Occupied sources width progress holds)
    (bound : source < sources)
    (held : holds (progress source % width) = some position)
    (admitted : progress source ≤ position) : position = progress source := by
  obtain ⟨other, otherBound, passed⟩ := occupied.started held
  by_contra different
  have earlier : progress source < progress other := by omega
  rcases occupied.kept otherBound earlier with own | finished
  · rw [held] at own
    exact different (Option.some.inj own)
  · exact lt_irrefl _ (finished source bound)

/-- An empty cell has no item of the position that is awaited next. -/
theorem contributors_eq_empty (occupied : Occupied sources width progress holds)
    (bound : source < sources)
    (free : holds (progress source % width) = none) :
    contributors sources progress (progress source) = ∅ := by
  apply Finset.eq_empty_of_forall_notMem
  intro other member
  obtain ⟨otherBound, passed⟩ := mem_contributors.mp member
  rcases occupied.kept otherBound passed with own | finished
  · rw [free] at own
    cases own
  · exact lt_irrefl _ (finished source bound)

theorem advance (occupied : Occupied sources width progress holds)
    (bound : source < sources)
    (admitted : ∀ position, holds (progress source % width) = some position →
      progress source ≤ position)
    (own : holds' (progress source % width) = some (progress source))
    (others : ∀ cell, cell ≠ progress source % width →
      holds' cell = holds cell) :
    Occupied sources width (Gather.advance progress source) holds' where
  place := by
    intro cell position held
    by_cases isOwn : cell = progress source % width
    · rw [isOwn, own] at held
      rw [isOwn, Option.some.inj held]
    · rw [others cell isOwn] at held
      exact occupied.place held
  started := by
    intro cell position held
    by_cases isOwn : cell = progress source % width
    · rw [isOwn, own] at held
      obtain rfl := Option.some.inj held
      exact ⟨source, bound, by simp⟩
    · rw [others cell isOwn] at held
      obtain ⟨other, otherBound, passed⟩ := occupied.started held
      exact ⟨other, otherBound,
        passed.trans_le (le_advance progress source other)⟩
  kept := by
    intro other position otherBound passed
    by_cases isOwn : position = progress source
    · rw [isOwn]
      exact Or.inl own
    · rw [lt_advance_iff isOwn] at passed
      rcases occupied.kept otherBound passed with held | finished
      · by_cases sameCell : position % width = progress source % width
        · rw [sameCell] at held
          exact absurd
            (occupied.eq_of_admitted bound held (admitted position held)) isOwn
        · rw [others _ sameCell]
          exact Or.inl held
      · exact Or.inr fun each eachBound =>
          (finished each eachBound).trans_le (le_advance progress source each)

/-- Cells are cleared after the last source. -/
theorem clear (occupied : Occupied sources width progress holds)
    (cleared : ∀ cell, holds' cell = holds cell ∨ (holds' cell = none ∧
      ∀ position, holds cell = some position →
        ∀ other < sources, position < progress other)) :
    Occupied sources width progress holds' where
  place := by
    intro cell position held
    rcases cleared cell with same | ⟨free, -⟩
    · exact occupied.place (same ▸ held)
    · rw [free] at held
      cases held
  started := by
    intro cell position held
    rcases cleared cell with same | ⟨free, -⟩
    · exact occupied.started (same ▸ held)
    · rw [free] at held
      cases held
  kept := by
    intro source position bound passed
    rcases occupied.kept bound passed with held | finished
    · rcases cleared (position % width) with same | ⟨-, after⟩
      · exact Or.inl (same.trans held)
      · exact Or.inr (after position held)
    · exact Or.inr finished

end Occupied

end Gather
