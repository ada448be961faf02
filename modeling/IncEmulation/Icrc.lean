import IncEmulation.EthPacket
import IncEmulation.SlicingByEight

/-!
# What the ICRC protects

`compute_icrc` masks the fields that routers may change and checks the rest of
the frame behind the Ethernet header.  Frames that differ in the masked bytes
only have the same ICRC, and a short difference anywhere else is noticed.
-/

namespace IncEmulation

open Memory Crc

/-- The total length in the IP header of a frame. -/
def ipTotalLength (frame : List Byte) : Nat := (ntohs (shortAt frame 16)).toNat

/-- Where a frame has TOS, TTL, both checksums and the byte before the
destination QP. -/
def mutableOffsets : List Nat := [15, 22, 24, 25, 40, 41, 46]

/-- What `compute_icrc` hands to `crc32`. -/
def icrcInput (frame : List Byte) : List Byte :=
  [9, 16, 18, 19, 34, 35, 40].foldl (fun bytes offset => bytes.set offset 0xFF)
    (List.replicate 8 0xFF ++ (frame.drop 14).take (ipTotalLength frame - 4))

theorem computeIcrc_eq (frame : List Byte) :
    computeIcrc frame =
      absorbAll poly 0xFFFFFFFF (icrcInput frame) ^^^ 0xFFFFFFFF :=
  crc32_eq (icrcInput frame)

section Input

variable {frame : List Byte}

theorem length_foldl_set (bytes : List Byte) (offsets : List Nat) (mask : Byte) :
    (offsets.foldl (fun bytes offset => bytes.set offset mask) bytes).length =
      bytes.length := by
  induction offsets generalizing bytes with
  | nil => rfl
  | cons offset offsets induction =>
      rw [List.foldl_cons, induction, List.length_set]

theorem getElem?_foldl_set {bytes : List Byte} {index : Nat}
    (inside : index < bytes.length) (offsets : List Nat) (mask : Byte) :
    (offsets.foldl (fun bytes offset => bytes.set offset mask) bytes)[index]? =
      if index ∈ offsets then some mask else bytes[index]? := by
  induction offsets generalizing bytes with
  | nil => simp
  | cons offset offsets induction =>
      rw [List.foldl_cons, induction (by rwa [List.length_set])]
      by_cases later : index ∈ offsets
      · simp [later]
      · rw [if_neg later, List.getElem?_set]
        by_cases here : offset = index
        · simp [here, inside]
        · have other : index ≠ offset := fun same => here same.symm
          simp [here, other, later]

theorem length_icrcInput (long : 10 + ipTotalLength frame ≤ frame.length)
    (bound : 44 ≤ ipTotalLength frame) :
    (icrcInput frame).length = ipTotalLength frame + 4 := by
  rw [icrcInput, length_foldl_set, List.length_append, List.length_replicate,
    List.length_take, List.length_drop]
  omega

theorem getElem?_icrcInput (long : 10 + ipTotalLength frame ≤ frame.length)
    (bound : 44 ≤ ipTotalLength frame) {index : Nat}
    (inside : index < ipTotalLength frame + 4) :
    (icrcInput frame)[index]? =
      some (if index < 8 ∨ index + 6 ∈ mutableOffsets then 0xFF
        else byteAt frame (index + 6)) := by
  have total := length_icrcInput long bound
  have room : index < (List.replicate 8 (0xFF : Byte) ++
      (frame.drop 14).take (ipTotalLength frame - 4)).length := by
    rw [icrcInput, length_foldl_set] at total
    exact inside.trans_eq total.symm
  have masks : index ∈ [9, 16, 18, 19, 34, 35, 40] ↔
      index + 6 ∈ mutableOffsets := by
    simp only [mutableOffsets, List.mem_cons, List.not_mem_nil, or_false]
    omega
  rw [icrcInput, getElem?_foldl_set room, ite_congr (propext masks)
    (fun _ => rfl) (fun _ => rfl)]
  by_cases masked : index + 6 ∈ mutableOffsets
  · simp [masked]
  rw [if_neg masked]
  by_cases first : index < 8
  · rw [List.getElem?_append_left (by simpa using first),
      List.getElem?_replicate, if_pos first, if_pos (Or.inl first)]
  · have within : index + 6 < frame.length := by
      omega
    rw [List.getElem?_append_right (by simpa using first),
      List.length_replicate, List.getElem?_take, if_pos (by omega),
      List.getElem?_drop, if_neg (by tauto), byteAt, List.getD_eq_getElem?_getD,
      show 14 + (index - 8) = index + 6 by omega,
      List.getElem?_eq_getElem within]
    rfl

end Input

/-- The offsets behind the Ethernet header and before the ICRC at which two
frames differ outside of the masked bytes. -/
def DiffersAt (first second : List Byte) (offset : Nat) : Prop :=
  14 ≤ offset ∧ offset < 10 + ipTotalLength first ∧
    offset ∉ mutableOffsets ∧ byteAt first offset ≠ byteAt second offset

/-- Two frames of the same length. -/
structure Comparable (first second : List Byte) : Prop where
  same : ipTotalLength first = ipTotalLength second
  atLeast : 44 ≤ ipTotalLength first
  atMost : ipTotalLength first ≤ 5551
  firstLong : 10 + ipTotalLength first ≤ first.length
  secondLong : 10 + ipTotalLength second ≤ second.length

namespace Comparable

variable {first second : List Byte}

theorem length_eq (comparable : Comparable first second) :
    (icrcInput first).length = (icrcInput second).length := by
  have bound := comparable.atLeast
  rw [length_icrcInput comparable.firstLong bound,
    length_icrcInput comparable.secondLong (comparable.same ▸ bound),
    comparable.same]

theorem getElem?_eq (comparable : Comparable first second) {index : Nat}
    (equal : ¬DiffersAt first second (index + 6)) :
    (icrcInput first)[index]? = (icrcInput second)[index]? := by
  have bound := comparable.atLeast
  have bound' := comparable.same ▸ bound
  by_cases inside : index < ipTotalLength first + 4
  · rw [getElem?_icrcInput comparable.firstLong bound inside,
      getElem?_icrcInput comparable.secondLong bound'
        (comparable.same ▸ inside)]
    split_ifs with masked
    · rfl
    · congr 1
      by_contra different
      push Not at masked
      exact equal ⟨by omega, by omega, masked.2, different⟩
  · have lengths := comparable.length_eq
    have total := length_icrcInput comparable.firstLong bound
    rw [List.getElem?_eq_none (by omega), List.getElem?_eq_none (by omega)]

theorem getElem?_ne (comparable : Comparable first second) {offset : Nat}
    (differs : DiffersAt first second offset) :
    (icrcInput first)[offset - 6]? ≠ (icrcInput second)[offset - 6]? := by
  obtain ⟨low, high, notMasked, different⟩ := differs
  have bound := comparable.atLeast
  have bound' := comparable.same ▸ bound
  have high' := comparable.same ▸ high
  have plain : ¬(offset - 6 < 8 ∨ offset - 6 + 6 ∈ mutableOffsets) := by
    rw [show offset - 6 + 6 = offset by omega]
    rintro (early | masked)
    · omega
    · exact notMasked masked
  rw [getElem?_icrcInput comparable.firstLong bound (by omega),
    getElem?_icrcInput comparable.secondLong bound' (by omega), if_neg plain,
    if_neg plain, show offset - 6 + 6 = offset by omega]
  intro same
  exact different (Option.some.inj same)

end Comparable

/-- The ICRC does not depend on the masked bytes, and notices every difference
within four consecutive bytes elsewhere. -/
theorem icrc_protects {first second : List Byte}
    (comparable : Comparable first second) :
    ((∀ offset, ¬DiffersAt first second offset) →
        computeIcrc first = computeIcrc second) ∧
      ((∃ offset, DiffersAt first second offset) →
        (∃ start, ∀ offset, DiffersAt first second offset →
          start ≤ offset ∧ offset < start + 4) →
        computeIcrc first ≠ computeIcrc second) := by
  constructor
  · intro equal
    have same : icrcInput first = icrcInput second := by
      apply List.ext_getElem?
      intro index
      exact comparable.getElem?_eq (equal _)
    rw [computeIcrc_eq, computeIcrc_eq, same]
  · rintro ⟨offset, differs⟩ ⟨start, burst⟩ same
    have different : icrcInput first ≠ icrcInput second := by
      intro equal
      apply comparable.getElem?_ne differs
      rw [equal]
    have window := (burst offset differs).1
    have apart : ∀ index, index < start - 6 ∨ start - 6 + 4 ≤ index →
        (icrcInput first)[index]? = (icrcInput second)[index]? := by
      intro index outside
      apply comparable.getElem?_eq
      intro here
      have near := burst _ here
      have low := here.1
      omega
    rw [computeIcrc_eq, computeIcrc_eq] at same
    have checks : absorbAll poly 0xFFFFFFFF (icrcInput first) =
        absorbAll poly 0xFFFFFFFF (icrcInput second) := by
      simpa using same
    exact absorbAll_ne (by decide) (by decide) comparable.length_eq different
      apart _ checks

instance (first second : List Byte) (offset : Nat) :
    Decidable (DiffersAt first second offset) :=
  inferInstanceAs (Decidable (_ ∧ _ ∧ _ ∧ _))

/-- A frame with nothing behind the BTH but the ICRC. -/
def blankFrame : List Byte :=
  List.replicate 17 0 ++ [44] ++ List.replicate 36 0

theorem blankFrame_comparable (offset : Nat) (behind : 18 ≤ offset)
    (byte : Byte) : Comparable blankFrame (blankFrame.set offset byte) := by
  have header : ipTotalLength (blankFrame.set offset byte) = 44 := by
    have untouched : shortAt (blankFrame.set offset byte) 16 =
        shortAt blankFrame 16 := by
      simp only [shortAt, byteAt, List.getD_eq_getElem?_getD]
      rw [List.getElem?_set_ne (by omega), List.getElem?_set_ne (by omega)]
    rw [ipTotalLength, untouched]
    decide
  constructor
  · rw [header]
    decide
  · decide
  · decide
  · decide
  · rw [header, List.length_set]
    decide

theorem icrc_protects_blankFrame :
    computeIcrc blankFrame = computeIcrc (blankFrame.set 46 7) ∧
      computeIcrc blankFrame ≠ computeIcrc (blankFrame.set 50 1) := by
  have reserved : ∀ offset < 54,
      ¬DiffersAt blankFrame (blankFrame.set 46 7) offset := by
    decide
  have number : ∀ offset < 54,
      DiffersAt blankFrame (blankFrame.set 50 1) offset → offset = 50 := by
    decide
  constructor
  · apply (icrc_protects (blankFrame_comparable 46 (by decide) 7)).1
    intro offset differs
    exact reserved offset differs.2.1 differs
  · apply (icrc_protects (blankFrame_comparable 50 (by decide) 1)).2
    · exact ⟨50, by decide⟩
    · refine ⟨50, fun offset differs => ?_⟩
      obtain rfl := number offset differs.2.1 differs
      decide

end IncEmulation
