import Mathlib.Data.Finset.Card
import Mathlib.Order.Interval.Finset.Nat
import Mathlib.Logic.Function.Basic

/-!
# Tallies

How many of the first `total` parties have a mark.  A counter that is raised
with each fresh mark reaches `total` with the last one.
-/

namespace Tally

/-- The number of marks below `total`. -/
def tally (total : Nat) (marked : Nat → Bool) : Nat :=
  ((Finset.range total).filter fun party => marked party = true).card

variable {total party : Nat} {marked other : Nat → Bool}

theorem tally_congr (same : ∀ party < total, marked party = other party) :
    tally total marked = tally total other := by
  unfold tally
  congr 1
  refine Finset.filter_congr fun party member => ?_
  rw [same party (Finset.mem_range.mp member)]

theorem tally_of_unmarked (unmarked : ∀ party < total, marked party = false) :
    tally total marked = 0 := by
  unfold tally
  rw [Finset.card_eq_zero, Finset.filter_eq_empty_iff]
  intro party member
  rw [unmarked party (Finset.mem_range.mp member)]
  exact Bool.false_ne_true

theorem tally_update (bound : party < total) (fresh : marked party = false) :
    tally total (Function.update marked party true) =
      tally total marked + 1 := by
  have grown : ((Finset.range total).filter fun other =>
      Function.update marked party true other = true) =
      insert party ((Finset.range total).filter fun other =>
        marked other = true) := by
    ext other
    by_cases same : other = party
    · subst same
      simp [bound]
    · simp [same]
  have absent : party ∉ (Finset.range total).filter fun other =>
      marked other = true := by
    simp [fresh]
  rw [tally, grown, Finset.card_insert_of_notMem absent, tally]

theorem tally_le : tally total marked ≤ total := by
  have few := Finset.card_filter_le (Finset.range total)
    fun party => marked party = true
  rwa [Finset.card_range] at few

theorem tally_eq_total_iff :
    tally total marked = total ↔ ∀ party < total, marked party = true := by
  have all := Finset.card_filter_eq_iff (s := Finset.range total)
    (p := fun party => marked party = true)
  rw [Finset.card_range] at all
  rw [tally, all]
  simp only [Finset.mem_range]

end Tally
