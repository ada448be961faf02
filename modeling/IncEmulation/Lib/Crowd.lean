import Mathlib.Algebra.BigOperators.Group.Finset.Basic
import Mathlib.Algebra.BigOperators.Group.Finset.Piecewise
import Mathlib.Algebra.Order.BigOperators.Group.Finset

/-!
# Parties with stages

The stages of finitely many parties, such as the threads of a pool: the sum of
a weight over them, and the signal that lets one of the sleeping ones go on.
One party that changes its stage changes a sum by the difference of two
weights, which serves counters of parties and measures of progress alike.
-/

namespace Crowd

open Finset

variable {Stage : Type*}

/-- The sum of a weight over the first `size` parties. -/
def weigh (size : Nat) (weight : Stage → Nat) (stages : Nat → Stage) : Nat :=
  ∑ party ∈ range size, weight (stages party)

/-- A condition variable: the signal wakes the sleeping `target`, and none only
when nobody sleeps. -/
def signal (size : Nat) (asleep : Stage → Bool) (awake : Stage)
    (stages : Nat → Stage) (target : Option Nat) : Option (Nat → Stage) :=
  match target with
  | some party =>
      if party < size ∧ asleep (stages party) = true then
        some (Function.update stages party awake)
      else
        none
  | none =>
      if ∀ party < size, asleep (stages party) = false then
        some stages
      else
        none

section Weights

variable {size party : Nat} {weight : Stage → Nat} {stages : Nat → Stage}

variable (weight stages) in
theorem weigh_update (bound : party < size) (stage : Stage) :
    weigh size weight (Function.update stages party stage) +
        weight (stages party) =
      weigh size weight stages + weight stage := by
  have member : party ∈ range size := mem_range.mpr bound
  have others : ∑ other ∈ (range size).erase party,
      weight (Function.update stages party stage other) =
      ∑ other ∈ (range size).erase party, weight (stages other) := by
    refine sum_congr rfl fun other inside => ?_
    rw [Function.update_of_ne (ne_of_mem_erase inside)]
  have after := add_sum_erase (range size)
    (fun other => weight (Function.update stages party stage other)) member
  have before := add_sum_erase (range size)
    (fun other => weight (stages other)) member
  simp only [Function.update_self] at after
  unfold weigh
  omega

theorem weigh_eq_zero_iff :
    weigh size weight stages = 0 ↔
      ∀ party < size, weight (stages party) = 0 := by
  unfold weigh
  rw [sum_eq_zero_iff]
  simp only [mem_range]

variable (weight stages) in
theorem le_weigh (bound : party < size) :
    weight (stages party) ≤ weigh size weight stages :=
  single_le_sum (f := fun other => weight (stages other))
    (fun _ _ => Nat.zero_le _) (mem_range.mpr bound)

/-- What one party gives up is gone from the sum, apart from what the others
gain. -/
theorem weigh_add_le {before after gained : Nat → Nat} {given : Nat}
    (bound : party < size)
    (others : ∀ other < size, other ≠ party →
      after other ≤ before other + gained other)
    (own : after party + given ≤ before party + gained party) :
    weigh size after id + given ≤ weigh size before id + weigh size gained id := by
  have member : party ∈ range size := mem_range.mpr bound
  have rest : ∑ other ∈ (range size).erase party, after other ≤
      ∑ other ∈ (range size).erase party, (before other + gained other) := by
    refine sum_le_sum fun other inside => ?_
    exact others other (mem_range.mp (mem_of_mem_erase inside))
      (ne_of_mem_erase inside)
  have wholeAfter := add_sum_erase (range size) after member
  have wholeBefore := add_sum_erase (range size)
    (fun other => before other + gained other) member
  have split : ∑ other ∈ range size, (before other + gained other) =
      ∑ other ∈ range size, before other + ∑ other ∈ range size, gained other :=
    sum_add_distrib
  simp only [weigh, id_eq]
  omega

/-- Items shared out among the parties cost at most as much as all items. -/
theorem weigh_filter_le {Item : Type*} (price : Nat) (owner : Item → Nat)
    (items : List Item) :
    weigh size (fun party =>
      price * (items.filter fun item => owner item = party).length) id ≤
        price * items.length := by
  induction items with
  | nil => simp [weigh]
  | cons item items induction =>
      have split (party : Nat) :
          price * ((item :: items).filter fun each =>
              owner each = party).length =
            price * (items.filter fun each => owner each = party).length +
              if owner item = party then price else 0 := by
        rw [List.filter_cons]
        split_ifs <;> simp_all [Nat.mul_succ]
      have single :
          ∑ party ∈ range size, (if owner item = party then price else 0) ≤
            price := by
        rw [sum_ite_eq]
        split_ifs <;> omega
      simp only [weigh, id_eq] at induction ⊢
      rw [sum_congr rfl fun party _ => split party, sum_add_distrib,
        List.length_cons, Nat.mul_succ]
      omega

end Weights

section Signals

variable {size : Nat} {asleep : Stage → Bool} {awake : Stage}
  {stages after : Nat → Stage} {target : Option Nat}

theorem signal_frame
    (given : signal size asleep awake stages target = some after)
    (party : Nat) :
    after party = stages party ∨
      party < size ∧ asleep (stages party) = true ∧ after party = awake := by
  cases target with
  | none =>
      simp only [signal] at given
      split at given
      · cases given
        exact .inl rfl
      · cases given
  | some woken =>
      simp only [signal] at given
      split at given
      · rename_i sleeping
        cases given
        by_cases same : party = woken
        · subst same
          exact .inr ⟨sleeping.1, sleeping.2, Function.update_self ..⟩
        · exact .inl (Function.update_of_ne same ..)
      · cases given

theorem signal_of_awake
    (given : signal size asleep awake stages target = some after)
    {party : Nat} (up : asleep (stages party) = false) :
    after party = stages party := by
  rcases signal_frame given party with same | ⟨_, down, _⟩
  · exact same
  · rw [up] at down
    cases down

/-- A signal is not lost on the sleeping ones. -/
theorem exists_awake_of_signal
    (given : signal size asleep awake stages target = some after)
    (up : asleep awake = false) {party : Nat} (bound : party < size) :
    ∃ other < size, asleep (after other) = false := by
  cases target with
  | none =>
      simp only [signal] at given
      split at given
      · rename_i nobody
        cases given
        exact ⟨party, bound, nobody party bound⟩
      · cases given
  | some woken =>
      simp only [signal] at given
      split at given
      · rename_i sleeping
        cases given
        exact ⟨woken, sleeping.1, by rw [Function.update_self, up]⟩
      · cases given

/-- The signal finds somebody, or nobody sleeps. -/
theorem exists_signal (size : Nat) (asleep : Stage → Bool) (awake : Stage)
    (stages : Nat → Stage) :
    ∃ target after, signal size asleep awake stages target = some after := by
  by_cases nobody : ∀ party < size, asleep (stages party) = false
  · exact ⟨none, stages, if_pos nobody⟩
  · obtain ⟨party, sleeping⟩ := not_forall.mp nobody
    obtain ⟨bound, down⟩ := Classical.not_imp.mp sleeping
    exact ⟨some party, Function.update stages party awake,
      if_pos ⟨bound, by simpa using down⟩⟩

/-- A signal adds at most the weight of the one it wakes. -/
theorem weigh_signal_le (weight : Stage → Nat)
    (given : signal size asleep awake stages target = some after) :
    weigh size weight after ≤ weigh size weight stages + weight awake := by
  cases target with
  | none =>
      simp only [signal] at given
      split at given
      · cases given
        exact Nat.le_add_right ..
      · cases given
  | some woken =>
      simp only [signal] at given
      split at given
      · rename_i sleeping
        cases given
        have changed := weigh_update weight stages sleeping.1 awake
        omega
      · cases given

/-- What weighs the same asleep and awake is not changed by a signal. -/
theorem weigh_signal {weight : Stage → Nat}
    (alike : ∀ stage, asleep stage = true → weight stage = weight awake)
    (given : signal size asleep awake stages target = some after) :
    weigh size weight after = weigh size weight stages := by
  unfold weigh
  refine sum_congr rfl fun party _ => ?_
  rcases signal_frame given party with same | ⟨_, down, woken⟩
  · rw [same]
  · rw [woken, alike _ down]

end Signals

end Crowd
