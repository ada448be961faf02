import Mathlib.Data.BitVec
import Mathlib.Logic.Function.Iterate

/-!
# Reflected cyclic redundancy checks

A check of width `w` takes its message in bit by bit, the least significant bit
of a byte first.  A step is linear over exclusive or, so a check is made of what
the state and every byte contribute.  A step is injective when the polynomial
has its top bit, so a short burst of differences is never lost.
-/

namespace Crc

variable {w : Nat} (poly : BitVec w)

/-- One bit of the message. -/
def shift (crc : BitVec w) : BitVec w :=
  (crc >>> 1) ^^^ (if crc.getLsbD 0 then poly else 0#w)

def absorb (crc : BitVec w) (byte : BitVec 8) : BitVec w :=
  (shift poly)^[8] (crc ^^^ byte.setWidth w)

def absorbAll (crc : BitVec w) (bytes : List (BitVec 8)) : BitVec w :=
  bytes.foldl (absorb poly) crc

section Linear

variable {poly}

@[simp]
theorem absorbAll_nil (crc : BitVec w) : absorbAll poly crc [] = crc := rfl

theorem shift_xor (left right : BitVec w) :
    shift poly (left ^^^ right) = shift poly left ^^^ shift poly right := by
  simp only [shift, BitVec.getLsbD_xor, BitVec.ushiftRight_xor_distrib]
  cases left.getLsbD 0 <;> cases right.getLsbD 0
  · simp
  · simp [BitVec.xor_assoc]
  · simp [BitVec.xor_assoc, BitVec.xor_comm poly]
  · have cancel : right >>> 1 = poly ^^^ (right >>> 1 ^^^ poly) := by
      rw [BitVec.xor_comm (right >>> 1), ← BitVec.xor_assoc, BitVec.xor_self,
        BitVec.zero_xor]
    simp [BitVec.xor_assoc, ← cancel]

theorem iterate_xor (count : Nat) (left right : BitVec w) :
    (shift poly)^[count] (left ^^^ right) =
      (shift poly)^[count] left ^^^ (shift poly)^[count] right := by
  induction count generalizing left right with
  | zero => rfl
  | succ count induction =>
      simp only [Function.iterate_succ_apply, shift_xor, induction]

/-- The state and the message contribute on their own. -/
theorem absorbAll_eq (crc : BitVec w) (bytes : List (BitVec 8)) :
    absorbAll poly crc bytes =
      (shift poly)^[8 * bytes.length] crc ^^^ absorbAll poly 0#w bytes := by
  induction bytes generalizing crc with
  | nil => simp [absorbAll]
  | cons byte bytes induction =>
      have split : absorb poly crc byte =
          (shift poly)^[8] crc ^^^ absorb poly 0#w byte := by
        rw [absorb, absorb, iterate_xor, BitVec.zero_xor]
      have rest := induction (absorb poly 0#w byte)
      have both := induction (absorb poly crc byte)
      rw [split, iterate_xor, ← Function.iterate_add_apply, BitVec.xor_assoc,
        ← rest, ← split] at both
      rw [List.length_cons, show 8 * (bytes.length + 1) =
        8 * bytes.length + 8 by omega]
      exact both

theorem absorbAll_cons (byte : BitVec 8) (bytes : List (BitVec 8)) :
    absorbAll poly 0#w (byte :: bytes) =
      (shift poly)^[8 * (bytes.length + 1)] (byte.setWidth w) ^^^
        absorbAll poly 0#w bytes := by
  have first : absorb poly 0#w byte = (shift poly)^[8] (byte.setWidth w) := by
    rw [absorb, BitVec.zero_xor]
  have rest : absorbAll poly (absorb poly 0#w byte) bytes = _ :=
    absorbAll_eq (absorb poly 0#w byte) bytes
  rw [first, ← Function.iterate_add_apply, ← first] at rest
  exact rest

theorem absorbAll_append (crc : BitVec w) (first second : List (BitVec 8)) :
    absorbAll poly crc (first ++ second) =
      absorbAll poly (absorbAll poly crc first) second :=
  List.foldl_append

/-- Low bits that are clear are shifted out without a trace. -/
theorem iterate_shiftLeft {count : Nat} {crc : BitVec w}
    (clear : ∀ index, w ≤ index + count → crc.getLsbD index = false) :
    (shift poly)^[count] (crc <<< count) = crc := by
  induction count with
  | zero => simp
  | succ count induction =>
      have once : shift poly (crc <<< (count + 1)) = crc <<< count := by
        have low : (crc <<< (count + 1)).getLsbD 0 = false := by
          simp
        rw [shift, low]
        apply BitVec.eq_of_getLsbD_eq
        intro index inside
        have top : index + 1 = w → crc.getLsbD (index - count) = false := by
          intro last
          by_cases early : index < count
          · exact clear _ (by omega)
          · exact clear _ (by omega)
        simp only [Bool.false_eq_true, if_false, BitVec.xor_zero,
          BitVec.getLsbD_ushiftRight, BitVec.getLsbD_shiftLeft, inside]
        by_cases early : index < count
        · simp [early, Nat.add_comm 1]
        · rw [Nat.add_comm 1 index, Nat.add_sub_add_right]
          by_cases last : index + 1 = w
          · simp [early, last, top last]
          · have room : index + 1 < w := by
              omega
            simp [early, room]
      rw [Function.iterate_succ_apply, once]
      exact induction fun index high => clear index (by omega)

/-- The low byte is absorbed, the others move down. -/
theorem iterate_byte (crc : BitVec w) :
    (shift poly)^[8] crc =
      crc >>> 8 ^^^ (shift poly)^[8] ((crc.setWidth 8).setWidth w) := by
  have split : crc = crc >>> 8 <<< 8 ^^^ (crc.setWidth 8).setWidth w := by
    apply BitVec.eq_of_getLsbD_eq
    intro index inside
    simp only [BitVec.getLsbD_xor, BitVec.getLsbD_shiftLeft,
      BitVec.getLsbD_ushiftRight, BitVec.getLsbD_setWidth, inside]
    by_cases low : index < 8
    · simp [low]
    · simp [low, show 8 + (index - 8) = index by omega]
  have moved : (shift poly)^[8] (crc >>> 8 <<< 8) = crc >>> 8 := by
    apply iterate_shiftLeft
    intro index high
    rw [BitVec.getLsbD_ushiftRight]
    exact BitVec.getLsbD_of_ge _ _ (by omega)
  conv_lhs => rw [split, iterate_xor, moved]

theorem shift_injective (top : poly.msb = true) :
    Function.Injective (shift poly) := by
  intro left right same
  have difference : shift poly (left ^^^ right) = 0#w := by
    rw [shift_xor, same, BitVec.xor_self]
  have positive : 0 < w := by
    by_contra none
    obtain rfl : w = 0 := by omega
    simp [BitVec.msb_eq_getLsbD_last] at top
  have bits : ∀ index, ((left ^^^ right) >>> 1).getLsbD index =
      (if (left ^^^ right).getLsbD 0 then poly else 0#w).getLsbD index := by
    intro index
    rw [BitVec.xor_eq_zero_iff.mp difference]
  have even : (left ^^^ right).getLsbD 0 = false := by
    by_contra odd
    have last := bits (w - 1)
    rw [if_pos (by simpa using odd), BitVec.getLsbD_ushiftRight,
      BitVec.getLsbD_of_ge _ _ (by omega)] at last
    rw [BitVec.msb_eq_getLsbD_last, ← last] at top
    cases top
  have zero : left ^^^ right = 0#w := by
    apply BitVec.eq_of_getLsbD_eq
    intro index inside
    cases index with
    | zero => simpa using even
    | succ index =>
        have next := bits index
        rw [even, BitVec.getLsbD_ushiftRight, Nat.add_comm] at next
        simpa using next
  exact BitVec.xor_eq_zero_iff.mp zero

end Linear

section Burst

variable {poly}

/-- The first bytes of a message, as the state has them after them. -/
def pack : List (BitVec 8) → BitVec w
  | [] => 0#w
  | byte :: bytes => byte.setWidth w ^^^ pack bytes <<< 8

theorem getLsbD_pack_cons (byte : BitVec 8) (bytes : List (BitVec 8))
    {index : Nat} (inside : index < w) :
    (pack (byte :: bytes) : BitVec w).getLsbD index =
      if index < 8 then byte.getLsbD index
      else (pack bytes : BitVec w).getLsbD (index - 8) := by
  simp only [pack, BitVec.getLsbD_xor, BitVec.getLsbD_setWidth,
    BitVec.getLsbD_shiftLeft, inside]
  by_cases low : index < 8
  · simp [low]
  · simp [low, BitVec.getLsbD_of_ge byte index (by omega)]

theorem getLsbD_pack_of_le (bytes : List (BitVec 8)) {index : Nat}
    (high : 8 * bytes.length ≤ index) :
    (pack bytes : BitVec w).getLsbD index = false := by
  induction bytes generalizing index with
  | nil => simp [pack]
  | cons byte bytes induction =>
      rw [List.length_cons] at high
      by_cases inside : index < w
      · rw [getLsbD_pack_cons byte bytes inside, if_neg (by omega)]
        exact induction (by omega)
      · exact BitVec.getLsbD_of_ge _ _ (by omega)

theorem pack_injective {first second : List (BitVec 8)}
    (length : first.length = second.length) (fits : 8 * first.length ≤ w)
    (same : (pack first : BitVec w) = pack second) : first = second := by
  induction first generalizing second with
  | nil => exact (List.length_eq_zero_iff.mp length.symm).symm
  | cons byte first induction =>
      obtain ⟨other, second, rfl⟩ :=
        List.exists_cons_of_length_eq_add_one length.symm
      rw [List.length_cons] at fits
      have bits : ∀ index, (pack (byte :: first) : BitVec w).getLsbD index =
          (pack (other :: second) : BitVec w).getLsbD index := by
        intro index
        rw [same]
      have heads : byte = other := by
        apply BitVec.eq_of_getLsbD_eq
        intro index low
        have here := bits index
        rwa [getLsbD_pack_cons _ _ (by omega), getLsbD_pack_cons _ _ (by omega),
          if_pos low, if_pos low] at here
      have lengths : first.length = second.length := Nat.succ.inj length
      have tails : (pack first : BitVec w) = pack second := by
        apply BitVec.eq_of_getLsbD_eq
        intro index inside
        by_cases room : index + 8 < w
        · have here := bits (index + 8)
          rwa [getLsbD_pack_cons _ _ room, getLsbD_pack_cons _ _ room,
            if_neg (by omega), if_neg (by omega), Nat.add_sub_cancel] at here
        · rw [getLsbD_pack_of_le first (by omega),
            getLsbD_pack_of_le second (by omega)]
      rw [heads, induction lengths (by omega) tails]

theorem absorbAll_pack {bytes : List (BitVec 8)}
    (fits : 8 * bytes.length ≤ w) :
    absorbAll poly 0#w bytes =
      (shift poly)^[8 * bytes.length] (pack bytes) := by
  induction bytes with
  | nil => rfl
  | cons byte bytes induction =>
      rw [List.length_cons] at fits
      have moved : (shift poly)^[8] (pack bytes <<< 8 : BitVec w) =
          pack bytes :=
        iterate_shiftLeft fun index high =>
          getLsbD_pack_of_le bytes (by omega)
      rw [absorbAll_cons, induction (by omega), List.length_cons, pack,
        iterate_xor, show 8 * (bytes.length + 1) = 8 * bytes.length + 8 by omega,
        Function.iterate_add_apply _ _ _ (pack bytes <<< 8), moved]

theorem absorbAll_state_injective (top : poly.msb = true)
    (bytes : List (BitVec 8)) :
    Function.Injective fun crc => absorbAll poly crc bytes := by
  intro left right same
  have contributions : (shift poly)^[8 * bytes.length] left =
      (shift poly)^[8 * bytes.length] right := by
    simpa [absorbAll_eq left, absorbAll_eq right] using same
  exact (shift_injective top).iterate _ contributions

theorem absorbAll_burst_injective (top : poly.msb = true)
    {first second : List (BitVec 8)} (length : first.length = second.length)
    (fits : 8 * first.length ≤ w) {crc : BitVec w}
    (same : absorbAll poly crc first = absorbAll poly crc second) :
    first = second := by
  rw [absorbAll_eq crc first, absorbAll_eq crc second, length] at same
  have contributions : absorbAll poly 0#w first = absorbAll poly 0#w second := by
    simpa using same
  rw [absorbAll_pack fits, absorbAll_pack (length ▸ fits), length] at contributions
  exact pack_injective length fits
    ((shift_injective top).iterate _ contributions)

/-- Messages that differ, but only in as many consecutive bytes as the check is
wide, have different checks. -/
theorem absorbAll_ne (top : poly.msb = true) {first second : List (BitVec 8)}
    {start count : Nat} (fits : 8 * count ≤ w)
    (length : first.length = second.length) (different : first ≠ second)
    (apart : ∀ index, index < start ∨ start + count ≤ index →
      first[index]? = second[index]?) (crc : BitVec w) :
    absorbAll poly crc first ≠ absorbAll poly crc second := by
  have before : first.take start = second.take start := by
    apply List.ext_getElem?
    intro index
    rw [List.getElem?_take, List.getElem?_take]
    split_ifs with early
    · exact apart index (Or.inl early)
    · rfl
  have after : first.drop (start + count) = second.drop (start + count) := by
    apply List.ext_getElem?
    intro index
    rw [List.getElem?_drop, List.getElem?_drop]
    exact apart _ (Or.inr (Nat.le_add_right _ _))
  have cut : ∀ bytes : List (BitVec 8), bytes = bytes.take start ++
      ((bytes.drop start).take count ++ bytes.drop (start + count)) := by
    intro bytes
    rw [← List.drop_drop, List.take_append_drop, List.take_append_drop]
  have lengths : ((first.drop start).take count).length =
      ((second.drop start).take count).length := by
    simp only [List.length_take, List.length_drop, length]
  have short : 8 * ((first.drop start).take count).length ≤ w := by
    rw [List.length_take]
    omega
  intro same
  rw [cut first, cut second, before, after, absorbAll_append, absorbAll_append,
    absorbAll_append, absorbAll_append] at same
  have burst := absorbAll_burst_injective top lengths short
    (absorbAll_state_injective top _ same)
  apply different
  rw [cut first, cut second, before, after, burst]

end Burst

end Crc
