import IncEmulation.EthPacket
import IncEmulation.Lib.OnesComplement

/-!
# The checksum of the IP header

`ipv4_checksum` computes the complement of the one's complement sum of the
other words of the header and returns it in network order.
`is_ipv4_checksum_valid` compares this with the stored field after `ntohs`.
-/

namespace IncEmulation

open Memory

section Header

variable (ip : List Byte)

/-- The number of 16-bit words that the IHL field announces. -/
def headerWordCount : Nat := (byteAt ip 0 &&& 0x0F).toNat * 2

def headerWord (index : Nat) : Nat := (ntohs (shortAt ip (2 * index))).toNat

/-- The one's complement sum of the header, checksum included. -/
def headerSum : Nat :=
  OnesComplement.sum (2 ^ 16) ((List.range (headerWordCount ip)).map
    (headerWord ip))

/-- The checksum that the other words of the header ask for. -/
def dueChecksum : Nat :=
  2 ^ 16 - 1 - OnesComplement.sum (2 ^ 16)
    (((List.range (headerWordCount ip)).erase 5).map (headerWord ip))

/-- The header after the field has been cleared. -/
def clearChecksum : List Byte := (ip.set 10 0).set 11 0

/-- `((ipv4_header_t *)ip)->checksum = checksum`. -/
def storeChecksum (checksum : Short) : List Byte :=
  (ip.set 10 (checksum.extractLsb' 0 8)).set 11 (checksum.extractLsb' 8 8)

/-- `ipv4_checksum` with the header it leaves: it clears the field and puts the
old value back. -/
def ipv4ChecksumCall : Short × List Byte :=
  let savedChecksum := shortAt ip 10
  (ipv4Checksum ip, storeChecksum (clearChecksum ip) savedChecksum)

def isIpv4ChecksumValid : Bool :=
  (ipv4ChecksumCall ip).1 = ntohs (shortAt (ipv4ChecksumCall ip).2 10)

end Header

section Sum

variable {ip : List Byte}

theorem foldCarry_eq (number : Nat) :
    foldCarry number = OnesComplement.residue (2 ^ 16) number := by
  fun_induction foldCarry number with
  | case1 number small => exact (OnesComplement.residue_of_lt small).symm
  | case2 number large induction =>
      rw [induction, OnesComplement.residue_carry (by decide)]

theorem byteAt_set (bytes : List Byte) (position offset : Nat) (byte : Byte)
    (inside : position < bytes.length) :
    byteAt (bytes.set position byte) offset =
      if position = offset then byte else byteAt bytes offset := by
  simp only [byteAt, List.getD_eq_getElem?_getD, List.getElem?_set]
  by_cases here : position = offset
  · rw [if_pos here, if_pos inside, if_pos here]
    rfl
  · rw [if_neg here, if_neg here]

theorem headerWord_lt (index : Nat) : headerWord ip index < 2 ^ 16 :=
  BitVec.isLt _

theorem headerWord_clearChecksum (long : 12 ≤ ip.length) (index : Nat) :
    headerWord (clearChecksum ip) index =
      if index = 5 then 0 else headerWord ip index := by
  have byte : ∀ offset, byteAt (clearChecksum ip) offset =
      if 11 = offset then 0 else if 10 = offset then 0
        else byteAt ip offset := by
    intro offset
    rw [clearChecksum, byteAt_set _ _ _ _ (by rw [List.length_set]; omega),
      byteAt_set _ _ _ _ (by omega)]
  split_ifs with field
  · rw [field, headerWord, shortAt, byte, byte, if_pos (by decide),
      if_neg (by decide), if_pos (by decide)]
    decide
  · simp only [headerWord, shortAt, byte]
    rw [if_neg (by omega), if_neg (by omega), if_neg (by omega),
      if_neg (by omega)]

theorem sum_clearChecksum (long : 12 ≤ ip.length)
    (field : 5 < headerWordCount ip) :
    ((List.range (headerWordCount ip)).map
        (headerWord (clearChecksum ip))).sum =
      (((List.range (headerWordCount ip)).erase 5).map (headerWord ip)).sum := by
  have present : 5 ∈ List.range (headerWordCount ip) :=
    List.mem_range.mpr field
  have others : ((List.range (headerWordCount ip)).erase 5).map
      (headerWord (clearChecksum ip)) =
        ((List.range (headerWordCount ip)).erase 5).map (headerWord ip) := by
    apply List.map_congr_left
    intro index inside
    have different := (List.nodup_range.mem_erase_iff.mp inside).1
    rw [headerWord_clearChecksum long, if_neg different]
  rw [((List.perm_cons_erase present).map _).sum_eq, List.map_cons,
    List.sum_cons, others, headerWord_clearChecksum long, if_pos rfl,
    Nat.zero_add]

theorem sum_others :
    OnesComplement.sum (2 ^ 16)
        (((List.range (headerWordCount ip)).erase 5).map (headerWord ip)) =
      OnesComplement.residue (2 ^ 16)
        (((List.range (headerWordCount ip)).erase 5).map
          (headerWord ip)).sum := by
  apply OnesComplement.sum_eq_residue (by decide)
  intro digit inside
  obtain ⟨index, -, rfl⟩ := List.mem_map.mp inside
  exact headerWord_lt index

theorem ipv4Checksum_eq (long : 12 ≤ ip.length)
    (field : 5 < headerWordCount ip) :
    ipv4Checksum ip = htons (BitVec.ofNat 16 (dueChecksum ip)) := by
  have count : (byteAt ip 0 &&& 0x0F).toNat * 4 / 2 = headerWordCount ip := by
    rw [headerWordCount]
    omega
  have words : ((List.range (headerWordCount ip)).map fun index =>
      (ntohs (shortAt ((ip.set 10 0).set 11 0) (2 * index))).toNat).sum =
        (((List.range (headerWordCount ip)).erase 5).map
          (headerWord ip)).sum := sum_clearChecksum long field
  have small := OnesComplement.residue_lt (show 2 ≤ 2 ^ 16 by decide)
    (((List.range (headerWordCount ip)).erase 5).map (headerWord ip)).sum
  simp only [ipv4Checksum, count, words, foldCarry_eq, dueChecksum, sum_others]
  apply congrArg htons
  apply BitVec.eq_of_toNat_eq
  rw [BitVec.toNat_not, BitVec.toNat_ofNat, BitVec.toNat_ofNat,
    Nat.mod_eq_of_lt small, Nat.mod_eq_of_lt (by omega)]

theorem dueChecksum_lt : dueChecksum ip < 2 ^ 16 := by
  rw [dueChecksum]
  omega

/-- A header with the checksum it asks for adds up to all ones. -/
theorem headerSum_of_generated (long : 12 ≤ ip.length)
    (field : 5 < headerWordCount ip)
    (generated : shortAt ip 10 = ipv4Checksum ip) : headerSum ip = 0xFFFF := by
  have due : headerWord ip 5 = dueChecksum ip := by
    rw [headerWord, generated, ipv4Checksum_eq long field, ntohs_htons,
      BitVec.toNat_ofNat, Nat.mod_eq_of_lt dueChecksum_lt]
  have present : 5 ∈ List.range (headerWordCount ip) :=
    List.mem_range.mpr field
  rw [headerSum, OnesComplement.sum_eq_residue (by decide),
    ((List.perm_cons_erase present).map _).sum_eq, List.map_cons, List.sum_cons,
    due, dueChecksum, sum_others, Nat.add_comm]
  · exact OnesComplement.residue_complement (by decide) _
  · intro digit inside
    obtain ⟨index, -, rfl⟩ := List.mem_map.mp inside
    exact headerWord_lt index

end Sum

section Validator

variable {ip : List Byte}

/-- The field is put back as it was. -/
theorem storeChecksum_clearChecksum :
    storeChecksum (clearChecksum ip) (shortAt ip 10) = ip := by
  have low : (shortAt ip 10).extractLsb' 0 8 = byteAt ip 10 :=
    BitVec.extractLsb'_append_eq_right
  have high : (shortAt ip 10).extractLsb' 8 8 = byteAt ip 11 :=
    BitVec.extractLsb'_append_eq_left
  have own : ∀ index, (if index < ip.length then some (byteAt ip index)
      else none) = ip[index]? := by
    intro index
    split_ifs with inside
    · rw [byteAt, List.getD_eq_getElem?_getD, List.getElem?_eq_getElem inside]
      rfl
    · exact (List.getElem?_eq_none (Nat.le_of_not_lt inside)).symm
  apply List.ext_getElem?
  intro index
  simp only [storeChecksum, clearChecksum, List.getElem?_set, List.length_set,
    low, high]
  by_cases second : 11 = index
  · rw [if_pos second, ← second, own]
  · rw [if_neg second]
    by_cases first : 10 = index
    · rw [if_pos first, ← first, own]
    · rw [if_neg first, if_neg second, if_neg first]

/-- The verdict is that of the specification, and the header stays. -/
structure Validates (ip : List Byte) : Prop where
  verdict : isIpv4ChecksumValid ip = true ↔ shortAt ip 10 = ipv4Checksum ip
  kept : (ipv4ChecksumCall ip).2 = ip

/-- A value that has the same bytes in either order. -/
def Symmetric (short : Short) : Prop := htons short = short

/-- The stored checksum, as a number in network order. -/
def storedChecksum (ip : List Byte) : Short := ntohs (shortAt ip 10)

instance (short : Short) : Decidable (Symmetric short) :=
  inferInstanceAs (Decidable (_ = _))

section Verdict

variable (long : 12 ≤ ip.length) (field : 5 < headerWordCount ip)

include long field

theorem isIpv4ChecksumValid_iff :
    isIpv4ChecksumValid ip = true ↔
      htons (BitVec.ofNat 16 (dueChecksum ip)) = storedChecksum ip := by
  have kept : (ipv4ChecksumCall ip).2 = ip := storeChecksum_clearChecksum
  rw [isIpv4ChecksumValid, kept, decide_eq_true_iff, storedChecksum,
    ← ipv4Checksum_eq long field]
  rfl

theorem stored_eq_ipv4Checksum_iff :
    shortAt ip 10 = ipv4Checksum ip ↔
      storedChecksum ip = BitVec.ofNat 16 (dueChecksum ip) := by
  rw [ipv4Checksum_eq long field, storedChecksum]
  constructor
  · intro same
    rw [same, ntohs_htons]
  · intro same
    rw [← same]
    exact (ntohs_htons (shortAt ip 10)).symm

theorem validates_iff_verdict :
    Validates ip ↔
      (htons (BitVec.ofNat 16 (dueChecksum ip)) = storedChecksum ip ↔
        storedChecksum ip = BitVec.ofNat 16 (dueChecksum ip)) := by
  rw [← isIpv4ChecksumValid_iff long field,
    ← stored_eq_ipv4Checksum_iff long field]
  constructor
  · exact Validates.verdict
  · intro verdict
    exact ⟨verdict, storeChecksum_clearChecksum⟩

/-- The checksum that the generator stores is accepted only if its bytes are
the same in either order. -/
theorem accepts_generated_iff (generated : shortAt ip 10 = ipv4Checksum ip) :
    isIpv4ChecksumValid ip = true ↔
      Symmetric (BitVec.ofNat 16 (dueChecksum ip)) := by
  rw [isIpv4ChecksumValid_iff long field,
    (stored_eq_ipv4Checksum_iff long field).mp generated]
  rfl

/-- The validator agrees with the generator exactly for a symmetric checksum,
or if the stored one is right in neither byte order. -/
theorem validates_iff :
    Validates ip ↔
      Symmetric (BitVec.ofNat 16 (dueChecksum ip)) ∨
        storedChecksum ip ≠ BitVec.ofNat 16 (dueChecksum ip) ∧
          storedChecksum ip ≠ htons (BitVec.ofNat 16 (dueChecksum ip)) := by
  rw [validates_iff_verdict long field, Symmetric]
  constructor
  · intro verdict
    by_cases due : storedChecksum ip = BitVec.ofNat 16 (dueChecksum ip)
    · exact Or.inl ((verdict.mpr due).trans due)
    · exact Or.inr ⟨due, fun swapped => due (verdict.mp swapped.symm)⟩
  · rintro (symmetric | ⟨different, swapped⟩)
    · rw [symmetric]
      exact eq_comm
    · exact iff_of_false (fun same => swapped same.symm) different

end Verdict

/-- A header whose words add up to `0x4545`. -/
theorem validates_symmetricHeader :
    Validates ([0x45, 0, 0, 0x45] ++ List.replicate 16 0) :=
  (validates_iff (by decide) (by decide)).mpr (Or.inl (by decide))

/-- The header of an acknowledgement from `10.0.0.1` to `10.0.0.2`, with the
checksum that `build_eth_packet` stores, is rejected. -/
theorem not_validates_acknowledgement :
    ¬∀ ip : List Byte, 12 ≤ ip.length → 5 < headerWordCount ip →
      Validates ip := by
  intro always
  have verdict := (validates_iff_verdict (by decide) (by decide)).mp
    (always ([0x45, 0, 0, 48, 0x11, 0x11, 0x40, 0, 0x40, 0x11, 0x15, 0xAA] ++
      [10, 0, 0, 1, 10, 0, 0, 2]) (by decide) (by decide))
  exact absurd verdict (by decide)

end Validator

end IncEmulation
