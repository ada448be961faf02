import Mathlib.Algebra.BigOperators.Group.List.Basic
import Mathlib.Algebra.GroupWithZero.Nat
import Mathlib.Data.List.Perm.Basic

/-!
# One's complement sums

A sum of digits below some radix whose carries are added again at the lowest
place.  It is zero for zeros only and otherwise the representative from one on
of the sum modulo the radix less one, so the order and the moment of adding the
carries play no role.
-/

namespace OnesComplement

variable {radix : Nat}

/-- Addition with an end-around carry. -/
def add (radix left right : Nat) : Nat :=
  (left + right) % radix + (left + right) / radix

def sum (radix : Nat) (digits : List Nat) : Nat := digits.foldl (add radix) 0

/-- The digit that stands for a number. -/
def residue (radix number : Nat) : Nat :=
  if number = 0 then 0 else (number - 1) % (radix - 1) + 1

theorem residue_lt (large : 2 ≤ radix) (number : Nat) :
    residue radix number < radix := by
  unfold residue
  split_ifs
  · omega
  · have bound := Nat.mod_lt (number - 1) (show radix - 1 > 0 by omega)
    omega

theorem residue_of_lt {number : Nat} (small : number < radix) :
    residue radix number = number := by
  unfold residue
  split_ifs with zero
  · exact zero.symm
  · rw [Nat.mod_eq_of_lt (by omega)]
    omega

/-- Two numbers other than zero stand for the same digit if they are a multiple
of the radix less one apart. -/
theorem residue_add_mul {number : Nat} (positive : 0 < number) (count : Nat) :
    residue radix (number + (radix - 1) * count) = residue radix number := by
  have other : number + (radix - 1) * count ≠ 0 := by
    omega
  rw [residue, residue, if_neg other, if_neg (by omega),
    show number + (radix - 1) * count - 1 =
      number - 1 + (radix - 1) * count by omega, Nat.add_mul_mod_self_left]

/-- Adding the carry again does not change the digit. -/
theorem residue_carry (large : 2 ≤ radix) (number : Nat) :
    residue radix (number % radix + number / radix) = residue radix number := by
  have division := Nat.mod_add_div number radix
  by_cases zero : number = 0
  · subst zero
    simp
  have apart : number = number % radix + number / radix +
      (radix - 1) * (number / radix) := by
    have expand : radix * (number / radix) =
        number / radix + (radix - 1) * (number / radix) := by
      obtain ⟨before, rfl⟩ := Nat.exists_eq_add_of_le' (show 1 ≤ radix by omega)
      rw [Nat.add_sub_cancel, Nat.add_mul, Nat.one_mul, Nat.add_comm]
    rw [Nat.add_assoc, ← expand, division]
  have positive : 0 < number % radix + number / radix := by
    by_contra none
    obtain ⟨rest, quotient⟩ :=
      Nat.add_eq_zero_iff.mp (Nat.eq_zero_of_not_pos none)
    rw [rest, quotient] at division
    exact zero division.symm
  conv_rhs => rw [apart]
  exact (residue_add_mul positive _).symm

theorem add_eq_residue (large : 2 ≤ radix) {left right : Nat}
    (leftSmall : left < radix) (rightSmall : right < radix) :
    add radix left right = residue radix (left + right) := by
  have carried : add radix left right < radix := by
    unfold add
    have quotient : (left + right) / radix ≤ 1 := by
      have below : left + right < radix * 2 := by
        omega
      have bound := Nat.div_lt_of_lt_mul below
      omega
    have division := Nat.mod_add_div (left + right) radix
    rcases Nat.le_one_iff_eq_zero_or_eq_one.mp quotient with none | one
    · rw [none]
      have bound := Nat.mod_lt (left + right) (show radix > 0 by omega)
      omega
    · rw [one] at division ⊢
      omega
  rw [← residue_carry large (left + right)]
  exact (residue_of_lt carried).symm

theorem residue_add_residue (left right : Nat) :
    residue radix (residue radix left + right) =
      residue radix (left + right) := by
  by_cases zero : left = 0
  · simp [zero, residue]
  · have apart : left = residue radix left +
        (radix - 1) * ((left - 1) / (radix - 1)) := by
      have division := Nat.mod_add_div (left - 1) (radix - 1)
      rw [residue, if_neg zero]
      omega
    have positive : 0 < residue radix left + right := by
      rw [residue, if_neg zero]
      omega
    conv_rhs => rw [apart, Nat.add_right_comm]
    exact (residue_add_mul positive _).symm

/-- The carries may as well be added at the end. -/
theorem sum_eq_residue (large : 2 ≤ radix) {digits : List Nat}
    (small : ∀ digit ∈ digits, digit < radix) :
    sum radix digits = residue radix digits.sum := by
  have from_start : ∀ start < radix, digits.foldl (add radix) start =
      residue radix (start + digits.sum) := by
    induction digits with
    | nil =>
        intro start bound
        exact (residue_of_lt (by simpa using bound)).symm
    | cons digit digits induction =>
        intro start bound
        have digitSmall := small digit List.mem_cons_self
        have first := add_eq_residue large bound digitSmall
        rw [List.foldl_cons, first, induction
          (fun other inside => small other (List.mem_cons_of_mem _ inside)) _
          (residue_lt large _), residue_add_residue, List.sum_cons,
          Nat.add_assoc]
  have all := from_start 0 (by omega)
  rwa [Nat.zero_add] at all

/-- The complement of a sum completes it to the largest digit. -/
theorem residue_complement (large : 2 ≤ radix) (number : Nat) :
    residue radix (number + (radix - 1 - residue radix number)) =
      radix - 1 := by
  have small := residue_lt large number
  rw [← residue_add_residue,
    show residue radix number + (radix - 1 - residue radix number) =
      radix - 1 by omega]
  exact residue_of_lt (by omega)

end OnesComplement
