import Mathlib.Logic.Function.Basic
import Mathlib.Tactic.Common

/-!
# A ring of slots behind a window

A cell handles the inputs of one number and is complete at some point.  The
spread machine keeps a cell for every number.  The ring machine shares `2 * width`
cells among all numbers and, when a number becomes complete, clears the cell one
window ahead.  As long as the inputs stay within a window of the completed
numbers, the ring shows the outputs of the spread machine.
-/

namespace SlotRing

structure Cell (Slot Input Output : Type*) where
  blank : Slot
  handle : Slot → Input → Slot × List Output
  complete : Slot → Bool
  blank_incomplete : complete blank = false
  complete_handle : ∀ slot input, complete slot = true →
    complete (handle slot input).1 = true

variable {Slot Input Output : Type*} (cell : Cell Slot Input Output)

namespace Cell

def spread (slots : Nat → Slot) (number : Nat) (input : Input) :
    (Nat → Slot) × List Output :=
  let outcome := cell.handle (slots number) input
  (Function.update slots number outcome.1, outcome.2)

def ring (width : Nat) (shared : Nat → Slot) (number : Nat) (input : Input) :
    (Nat → Slot) × List Output :=
  let slot := number % (2 * width)
  let outcome := cell.handle (shared slot) input
  let written := Function.update shared slot outcome.1
  (if !cell.complete (shared slot) && cell.complete outcome.1 then
      Function.update written ((number + width) % (2 * width)) cell.blank
    else written,
    outcome.2)

/-- Everything a window before `number` is complete, nothing a window after. -/
structure InWindow (width : Nat) (slots : Nat → Slot) (number : Nat) :
    Prop where
  before : ∀ other, other + width ≤ number →
    cell.complete (slots other) = true
  after : ∀ other, number + width ≤ other →
    cell.complete (slots other) = false

/-- The numbers whose slot the ring holds: cleared, and not cleared again. -/
def Owned (width : Nat) (slots : Nat → Slot) (number : Nat) : Prop :=
  (number < 2 * width ∨ cell.complete (slots (number - width)) = true) ∧
    cell.complete (slots (number + width)) = false

structure Agrees (width : Nat) (shared slots : Nat → Slot) : Prop where
  owned : ∀ number, cell.Owned width slots number →
    shared (number % (2 * width)) = slots number
  touched : ∀ number, slots number ≠ cell.blank →
    ∀ other, other + width ≤ number → cell.complete (slots other) = true

variable {cell} {width number other : Nat} {shared slots : Nat → Slot}

/-- Numbers in one slot are equal or a whole round apart. -/
theorem eq_or_apart_of_mod_eq {round : Nat}
    (same : other % round = number % round) :
    other = number ∨ other + round ≤ number ∨ number + round ≤ other := by
  rcases Nat.lt_trichotomy other number with less | equal | greater
  · have divides : round ∣ number - other :=
      Nat.dvd_of_mod_eq_zero (Nat.sub_mod_eq_zero_of_mod_eq same.symm)
    have apart := Nat.le_of_dvd (by omega) divides
    omega
  · exact Or.inl equal
  · have divides : round ∣ other - number :=
      Nat.dvd_of_mod_eq_zero (Nat.sub_mod_eq_zero_of_mod_eq same)
    have apart := Nat.le_of_dvd (by omega) divides
    omega

theorem InWindow.owned (window : cell.InWindow width slots number) :
    cell.Owned width slots number := by
  refine ⟨?_, window.after _ (Nat.le_refl _)⟩
  rcases Nat.lt_or_ge number (2 * width) with small | large
  · exact Or.inl small
  · exact Or.inr (window.before _ (by omega))

/-- No other number in the slot of an arriving one still owns it. -/
theorem InWindow.eq_of_owned (window : cell.InWindow width slots number)
    (owned : cell.Owned width slots other)
    (same : other % (2 * width) = number % (2 * width)) :
    other = number := by
  obtain ⟨cleared, uncleared⟩ := owned
  rcases eq_or_apart_of_mod_eq same with equal | earlier | later
  · exact equal
  · rw [window.before _ (by omega)] at uncleared
    cases uncleared
  · rcases cleared with small | complete
    · omega
    · rw [window.after _ (by omega)] at complete
      cases complete

/-- The slot one window ahead holds nothing that is still needed. -/
theorem InWindow.ahead_unowned (window : cell.InWindow width slots number)
    (owned : cell.Owned width slots other)
    (same : other % (2 * width) = (number + width) % (2 * width))
    (notAhead : other ≠ number + width) : other + width = number := by
  obtain ⟨cleared, uncleared⟩ := owned
  rcases eq_or_apart_of_mod_eq same with equal | earlier | later
  · exact absurd equal notAhead
  · have round : (other + 2 * width) % (2 * width) =
        (number + width) % (2 * width) := by
      rw [Nat.add_mod_right, same]
    rcases eq_or_apart_of_mod_eq round with equal | farther | later
    · omega
    · rw [window.before _ (by omega)] at uncleared
      cases uncleared
    · omega
  · rcases cleared with small | complete
    · omega
    · rw [window.after _ (by omega)] at complete
      cases complete

/-- A ring of cleared cells agrees with cells of which none was used. -/
theorem Agrees.blank (width : Nat) :
    cell.Agrees width (fun _ => cell.blank) (fun _ => cell.blank) :=
  ⟨fun _ _ => rfl, fun _ used => absurd rfl used⟩

section Step

variable {input : Input}

theorem complete_mono (earlier : cell.complete (slots other) = true) :
    cell.complete ((cell.spread slots number input).1 other) = true := by
  by_cases same : other = number
  · subst same
    simpa [spread] using cell.complete_handle _ input earlier
  · simpa [spread, same] using earlier

/-- What was touched, the arriving number included, has a complete window
before it. -/
theorem Agrees.touched_spread (agrees : cell.Agrees width shared slots)
    (window : cell.InWindow width slots number) (later : Nat)
    (used : (cell.spread slots number input).1 later ≠ cell.blank)
    (behind : other + width ≤ later) :
    cell.complete ((cell.spread slots number input).1 other) = true := by
  by_cases same : later = number
  · exact complete_mono (window.before other (same ▸ behind))
  · have touched : slots later ≠ cell.blank := by
      simpa [spread, same] using used
    exact complete_mono (agrees.touched later touched other behind)

/-- As long as nothing becomes complete, the numbers own the slots they
owned. -/
theorem owned_of_unchanged
    (unchanged : cell.complete (cell.handle (slots number) input).1 =
      cell.complete (slots number))
    (owned : cell.Owned width (cell.spread slots number input).1 other) :
    cell.Owned width slots other := by
  have same : ∀ any, cell.complete ((cell.spread slots number input).1 any) =
      cell.complete (slots any) := by
    intro any
    by_cases here : any = number
    · subst here
      simpa [spread] using unchanged
    · simp [spread, here]
  simpa only [Owned, same] using owned

/-- After a completion the only new owner is one window ahead, and one window
behind the ownership ends. -/
theorem owned_of_completed
    (completed : cell.complete (cell.handle (slots number) input).1 = true)
    (owned : cell.Owned width (cell.spread slots number input).1 other) :
    other + width ≠ number ∧
      (other = number + width ∨ cell.Owned width slots other) := by
  obtain ⟨cleared, uncleared⟩ := owned
  have notBehind : other + width ≠ number := by
    intro behind
    rw [behind] at uncleared
    simp [spread, completed] at uncleared
  refine ⟨notBehind, ?_⟩
  by_cases ahead : other = number + width
  · exact Or.inl ahead
  · refine Or.inr ⟨?_, by simpa [spread, notBehind] using uncleared⟩
    rcases cleared with small | complete
    · exact Or.inl small
    · by_cases here : other - width = number
      · left
        omega
      · exact Or.inr (by simpa [spread, here] using complete)

theorem ring_of_completed
    (here : shared (number % (2 * width)) = slots number)
    (incomplete : cell.complete (slots number) = false)
    (completed : cell.complete (cell.handle (slots number) input).1 = true) :
    (cell.ring width shared number input).1 =
      Function.update
        (Function.update shared (number % (2 * width))
          (cell.handle (slots number) input).1)
        ((number + width) % (2 * width)) cell.blank := by
  simp [ring, here, incomplete, completed]

theorem ring_of_unchanged
    (here : shared (number % (2 * width)) = slots number)
    (unchanged : cell.complete (cell.handle (slots number) input).1 =
      cell.complete (slots number)) :
    (cell.ring width shared number input).1 =
      Function.update shared (number % (2 * width))
        (cell.handle (slots number) input).1 := by
  simp [ring, here, unchanged]

theorem Agrees.owned_unchanged (agrees : cell.Agrees width shared slots)
    (window : cell.InWindow width slots number)
    (unchanged : cell.complete (cell.handle (slots number) input).1 =
      cell.complete (slots number))
    (owned : cell.Owned width (cell.spread slots number input).1 other) :
    (cell.ring width shared number input).1 (other % (2 * width)) =
      (cell.spread slots number input).1 other := by
  have before := owned_of_unchanged unchanged owned
  rw [ring_of_unchanged (agrees.owned number window.owned) unchanged]
  by_cases same : other = number
  · subst same
    simp [spread]
  · have elsewhere : other % (2 * width) ≠ number % (2 * width) :=
      fun equal => same (window.eq_of_owned before equal)
    rw [Function.update_of_ne elsewhere, agrees.owned other before]
    simp [spread, same]

theorem Agrees.owned_completed (agrees : cell.Agrees width shared slots)
    (positive : 0 < width) (window : cell.InWindow width slots number)
    (incomplete : cell.complete (slots number) = false)
    (completed : cell.complete (cell.handle (slots number) input).1 = true)
    (owned : cell.Owned width (cell.spread slots number input).1 other) :
    (cell.ring width shared number input).1 (other % (2 * width)) =
      (cell.spread slots number input).1 other := by
  have here := agrees.owned number window.owned
  rw [ring_of_completed here incomplete completed]
  obtain ⟨notBehind, aheadOrOwned⟩ := owned_of_completed completed owned
  by_cases ahead : other = number + width
  · have untouched : slots other = cell.blank := by
      by_contra touched
      have complete := agrees.touched other touched number (by omega)
      rw [incomplete] at complete
      cases complete
    have elsewhere : other ≠ number := by omega
    rw [ahead, Function.update_self, ← untouched, ← ahead]
    simp [spread, elsewhere]
  · have before := aheadOrOwned.resolve_left ahead
    have notAhead : other % (2 * width) ≠ (number + width) % (2 * width) :=
      fun equal => notBehind (window.ahead_unowned before equal ahead)
    rw [Function.update_of_ne notAhead]
    by_cases same : other = number
    · subst same
      simp [spread]
    · have elsewhere : other % (2 * width) ≠ number % (2 * width) :=
        fun equal => same (window.eq_of_owned before equal)
      rw [Function.update_of_ne elsewhere, agrees.owned other before]
      simp [spread, same]

/-- One input within the window: the outputs are the same, and the ring still
agrees. -/
theorem Agrees.step (agrees : cell.Agrees width shared slots)
    (positive : 0 < width) (window : cell.InWindow width slots number)
    (input : Input) :
    cell.Agrees width (cell.ring width shared number input).1
        (cell.spread slots number input).1 ∧
      (cell.ring width shared number input).2 =
        (cell.spread slots number input).2 := by
  have here := agrees.owned number window.owned
  refine ⟨⟨fun later owned => ?_, fun later used earlier behind =>
    agrees.touched_spread window later used behind⟩, ?_⟩
  · cases before : cell.complete (slots number) with
    | true =>
        have unchanged := (cell.complete_handle _ input before).trans before.symm
        exact agrees.owned_unchanged window unchanged owned
    | false =>
        cases after : cell.complete (cell.handle (slots number) input).1 with
        | true => exact agrees.owned_completed positive window before after owned
        | false =>
            exact agrees.owned_unchanged window (after.trans before.symm) owned
  · simp [ring, spread, here]

end Step

end Cell

end SlotRing
