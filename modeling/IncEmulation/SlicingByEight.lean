import IncEmulation.Crc32
import IncEmulation.Lib.Crc

/-!
# Eight bytes at a time

An entry of a table that `init_crc32_table` fills is what a byte contributes to
the check one to eight bytes later.  So `crc32` computes the check bit by bit
that `util.c` keeps as a comment.
-/

namespace IncEmulation

open Memory Crc

/-- `crc32_table` as it lies in memory. -/
abbrev CrcTable := Nat → Nat → BitVec 32

/-- `table[row][column] = entry`. -/
def CrcTable.set (table : CrcTable) (row column : Nat) (entry : BitVec 32) :
    CrcTable :=
  Function.update table row (Function.update (table row) column entry)

/-- A loop over the columns of a row. -/
def CrcTable.fillRow (table : CrcTable) (row : Nat)
    (entry : CrcTable → Nat → BitVec 32) : CrcTable :=
  (List.range 256).foldl
    (fun table column => table.set row column (entry table column)) table

/-- The body of the first loop of `init_crc32_table`. -/
def firstEntry (_ : CrcTable) (column : Nat) : BitVec 32 :=
  crcShift^[8] (BitVec.ofNat 32 column)

/-- The body of the second one. -/
def derivedEntry (row : Nat) (table : CrcTable) (column : Nat) : BitVec 32 :=
  (table (row - 1) column >>> 8) ^^^
    table 0 (table (row - 1) column &&& 0xFF).toNat

def initCrc32Table (table : CrcTable) : CrcTable :=
  (List.range' 1 7).foldl
    (fun table row => table.fillRow row (derivedEntry row))
    (table.fillRow 0 firstEntry)

/-- One round of the inner loop of the bitwise `crc32`. -/
def crc32Bit (crc : BitVec 32) : BitVec 32 :=
  if crc &&& 1 = 0 then crc >>> 1 else (crc >>> 1) ^^^ 0xEDB88320

/-- The `crc32` that `util.c` keeps as a comment. -/
def crc32Bitwise (bytes : List Byte) : BitVec 32 :=
  bytes.foldl (fun crc byte => crc32Bit^[8] (crc ^^^ byte.setWidth 32))
    0xFFFFFFFF ^^^ 0xFFFFFFFF

section Steps

theorem even_iff (crc : BitVec 32) : crc &&& 1 = 0 ↔ crc.getLsbD 0 = false := by
  rw [show (1 : BitVec 32) = 1#32 from rfl,
    BitVec.and_one_eq_setWidth_ofBool_getLsbD]
  cases crc.getLsbD 0 <;> decide

theorem crcShift_eq : crcShift = shift poly := by
  funext crc
  rw [crcShift, shift, ite_congr (propext (even_iff crc)) (fun _ => rfl)
    (fun _ => rfl)]
  cases crc.getLsbD 0 <;> rfl

theorem crc32Bit_eq : crc32Bit = shift poly := by
  funext crc
  rw [crc32Bit, shift, ite_congr (propext (even_iff crc)) (fun _ => rfl)
    (fun _ => rfl)]
  cases crc.getLsbD 0
  · simp
  · rfl

theorem crc32Table_zero (index : Byte) :
    crc32Table 0 index = (shift poly)^[8] (index.setWidth 32) := by
  rw [crc32Table, crcShift_eq]

theorem crc32Table_eq (table : Nat) (index : Byte) :
    crc32Table table index =
      (shift poly)^[8 * (table + 1)] (index.setWidth 32) := by
  induction table with
  | zero => exact crc32Table_zero index
  | succ table induction =>
      have previous : crc32Table (table + 1) index =
          (shift poly)^[8] (crc32Table table index) := by
        rw [iterate_byte, crc32Table, crcShift_eq]
      rw [previous, induction, ← Function.iterate_add_apply,
        show 8 + 8 * (table + 1) = 8 * (table + 1 + 1) by omega]

theorem crc32Step_eq : crc32Step = absorb poly := by
  funext crc byte
  have low : (crc ^^^ byte.setWidth 32).setWidth 8 = crcByte crc 0 ^^^ byte := by
    rw [BitVec.setWidth_xor, crcByte]
    simp
  have high : (crc ^^^ byte.setWidth 32) >>> 8 = crc >>> 8 := by
    rw [BitVec.ushiftRight_xor_distrib]
    have gone : byte.setWidth 32 >>> 8 = 0#32 := by
      apply BitVec.eq_of_getLsbD_eq
      intro index _
      simp
    rw [gone, BitVec.xor_zero]
  rw [crc32Step, crc32Table_zero, absorb, iterate_byte (crc ^^^ _), low, high]

end Steps

section Tables

@[simp]
theorem CrcTable.set_row (table : CrcTable) (row column : Nat)
    (entry : BitVec 32) :
    table.set row column entry row =
      Function.update (table row) column entry :=
  Function.update_self ..

theorem CrcTable.set_of_ne (table : CrcTable) {row other : Nat}
    (different : other ≠ row) (column : Nat) (entry : BitVec 32) :
    table.set row column entry other = table other :=
  Function.update_of_ne different ..

variable {row : Nat} {entry : CrcTable → Nat → BitVec 32}

/-- What a loop over a row has done after some rounds. -/
structure CrcTable.Filled (before after : CrcTable) (row count : Nat)
    (entry : CrcTable → Nat → BitVec 32) : Prop where
  inside : ∀ column < count, after row column = entry before column
  others : ∀ other, other ≠ row → after other = before other
  kept : entry after = entry before

theorem CrcTable.filled_range (table : CrcTable)
    (apart : ∀ (other : CrcTable) column value,
      entry (other.set row column value) = entry other) (count : Nat) :
    table.Filled
      ((List.range count).foldl
        (fun table column => table.set row column (entry table column)) table)
      row count entry := by
  induction count with
  | zero =>
      constructor
      · intro column bound
        cases bound
      · intro other _
        rfl
      · rfl
  | succ count induction =>
      rw [List.range_succ, List.foldl_append]
      constructor
      · intro column bound
        rw [List.foldl_cons, List.foldl_nil, set_row]
        by_cases last : column = count
        · rw [last, Function.update_self, induction.kept]
        · rw [Function.update_of_ne last]
          exact induction.inside column (by omega)
      · intro other different
        exact (set_of_ne _ different _ _).trans
          (induction.others other different)
      · exact (apart _ _ _).trans induction.kept

/-- The first rows of a table are those of `crc32Table`. -/
def CrcTable.Holds (table : CrcTable) (rows : Nat) : Prop :=
  ∀ row < rows, ∀ index : Byte, table row index.toNat = crc32Table row index

theorem firstEntry_eq (table : CrcTable) (index : Byte) :
    firstEntry table index.toNat = crc32Table 0 index := by
  rw [firstEntry, BitVec.ofNat_toNat]
  rfl

theorem derivedEntry_eq {table : CrcTable} {row : Nat} (positive : 0 < row)
    (holds : table.Holds row) (index : Byte) :
    derivedEntry row table index.toNat = crc32Table row index := by
  obtain ⟨before, rfl⟩ := Nat.exists_eq_add_one.mpr positive
  have previous := holds before (Nat.lt_succ_self before) index
  have low : (crc32Table before index &&& 0xFF).toNat =
      ((crc32Table before index).setWidth 8).toNat := by
    have masked := Nat.and_two_pow_sub_one_eq_mod
      (crc32Table before index).toNat 8
    simpa [BitVec.toNat_and] using masked
  rw [derivedEntry, Nat.add_sub_cancel, previous, low,
    holds 0 positive ((crc32Table before index).setWidth 8)]
  rfl

theorem CrcTable.Holds.fillRow {table : CrcTable} (holds : table.Holds row)
    (apart : ∀ (other : CrcTable) column value,
      entry (other.set row column value) = entry other)
    (entries : ∀ index : Byte,
      entry table index.toNat = crc32Table row index) :
    (table.fillRow row entry).Holds (row + 1) := by
  have filled := CrcTable.filled_range table apart 256
  intro other bound index
  by_cases last : other = row
  · rw [last]
    exact (filled.inside index.toNat index.isLt).trans (entries index)
  · have kept := congrFun (filled.others other last) index.toNat
    exact kept.trans (holds other (by omega) index)

/-- Every entry is filled as `crc32Table` says. -/
theorem initCrc32Table_holds (table : CrcTable) :
    (initCrc32Table table).Holds 8 := by
  have first : (table.fillRow 0 firstEntry).Holds 1 := by
    apply CrcTable.Holds.fillRow
    · intro row bound
      cases bound
    · intro other column value
      rfl
    · exact firstEntry_eq table
  have rows : ∀ count (table : CrcTable), table.Holds 1 →
      ((List.range' 1 count).foldl
        (fun table row => table.fillRow row (derivedEntry row)) table).Holds
          (count + 1) := by
    intro count table holds
    induction count with
    | zero => exact holds
    | succ count induction =>
        rw [List.range'_1_concat, List.foldl_append, List.foldl_cons,
          List.foldl_nil, Nat.add_comm 1 count]
        apply induction.fillRow
        · intro other column value
          funext index
          rw [derivedEntry, derivedEntry, Nat.add_sub_cancel,
            CrcTable.set_of_ne _ (by omega), CrcTable.set_of_ne _ (by omega)]
        · exact derivedEntry_eq (Nat.succ_pos count) induction
  exact rows 7 _ first

end Tables

section Block

/-- The four bytes of the running value. -/
theorem pack_crcByte (crc : BitVec 32) :
    pack [crcByte crc 0, crcByte crc 1, crcByte crc 2, crcByte crc 3] = crc := by
  have byte : ∀ position index, index < 8 →
      (crcByte crc position).getLsbD index =
        crc.getLsbD (8 * position + index) := by
    intro position index low
    simp [crcByte, low]
  apply BitVec.eq_of_getLsbD_eq
  intro index inside
  have first := getLsbD_pack_cons (crcByte crc 0)
    [crcByte crc 1, crcByte crc 2, crcByte crc 3] inside
  rw [first]
  split_ifs with low
  · rw [byte 0 index low, Nat.mul_zero, Nat.zero_add]
  rw [getLsbD_pack_cons _ _ (by omega)]
  split_ifs with low
  · rw [byte 1 _ low, show 8 * 1 + (index - 8) = index by omega]
  rw [getLsbD_pack_cons _ _ (by omega)]
  split_ifs with low
  · rw [byte 2 _ low, show 8 * 2 + (index - 8 - 8) = index by omega]
  rw [getLsbD_pack_cons _ _ (by omega), if_pos (by omega),
    byte 3 _ (by omega), show 8 * 3 + (index - 8 - 8 - 8) = index by omega]

theorem absorbAll_byte (byte : Byte) (bytes : List Byte) :
    absorbAll poly 0#32 (byte :: bytes) =
      crc32Table bytes.length byte ^^^ absorbAll poly 0#32 bytes := by
  rw [absorbAll_cons, crc32Table_eq]

/-- What the running value becomes eight bytes later. -/
theorem iterate_crcByte (crc : BitVec 32) :
    (shift poly)^[64] crc =
      crc32Table 7 (crcByte crc 0) ^^^ (crc32Table 6 (crcByte crc 1) ^^^
        (crc32Table 5 (crcByte crc 2) ^^^ crc32Table 4 (crcByte crc 3))) := by
  have half : (shift poly)^[32] crc =
      crc32Table 3 (crcByte crc 0) ^^^ (crc32Table 2 (crcByte crc 1) ^^^
        (crc32Table 1 (crcByte crc 2) ^^^ crc32Table 0 (crcByte crc 3))) := by
    have fits : 8 * [crcByte crc 0, crcByte crc 1, crcByte crc 2,
        crcByte crc 3].length ≤ 32 := Nat.le_refl 32
    have bytes : absorbAll poly 0#32 _ = _ := absorbAll_pack fits
    rw [pack_crcByte] at bytes
    simp only [absorbAll_byte, absorbAll_nil, BitVec.xor_zero] at bytes
    exact bytes.symm
  have later : ∀ table index, (shift poly)^[32] (crc32Table table index) =
      crc32Table (table + 4) index := by
    intro table index
    rw [crc32Table_eq, crc32Table_eq, ← Function.iterate_add_apply,
      show 32 + 8 * (table + 1) = 8 * (table + 4 + 1) by omega]
  rw [show 64 = 32 + 32 from rfl, Function.iterate_add_apply, half]
  simp only [iterate_xor, later]

theorem crc32Table_xor (table : Nat) (first second : Byte) :
    crc32Table table (first ^^^ second) =
      crc32Table table first ^^^ crc32Table table second := by
  simp only [crc32Table_eq, BitVec.setWidth_xor, iterate_xor]

/-- One round of the first loop of `crc32` takes eight bytes in. -/
theorem absorbAll_eight (crc : BitVec 32) (b0 b1 b2 b3 b4 b5 b6 b7 : Byte) :
    crc32Table 0 b7 ^^^ crc32Table 1 b6 ^^^ crc32Table 2 b5 ^^^
        crc32Table 3 b4 ^^^ crc32Table 4 (b3 ^^^ crcByte crc 3) ^^^
        crc32Table 5 (b2 ^^^ crcByte crc 2) ^^^
        crc32Table 6 (b1 ^^^ crcByte crc 1) ^^^
        crc32Table 7 (b0 ^^^ crcByte crc 0) =
      absorbAll poly crc [b0, b1, b2, b3, b4, b5, b6, b7] := by
  have bytes : absorbAll poly 0#32 [b0, b1, b2, b3, b4, b5, b6, b7] =
      crc32Table 7 b0 ^^^ (crc32Table 6 b1 ^^^ (crc32Table 5 b2 ^^^
        (crc32Table 4 b3 ^^^ (crc32Table 3 b4 ^^^ (crc32Table 2 b5 ^^^
          (crc32Table 1 b6 ^^^ crc32Table 0 b7)))))) := by
    simp only [absorbAll_byte, absorbAll_nil, BitVec.xor_zero]
    rfl
  have state : absorbAll poly crc [b0, b1, b2, b3, b4, b5, b6, b7] =
      (shift poly)^[64] crc ^^^
        absorbAll poly 0#32 [b0, b1, b2, b3, b4, b5, b6, b7] :=
    absorbAll_eq crc _
  rw [state, bytes, iterate_crcByte]
  simp only [crc32Table_xor]
  ac_rfl

end Block

theorem crc32Loop_eq (crc : BitVec 32) (bytes : List Byte) :
    crc32Loop crc bytes = absorbAll poly crc bytes := by
  fun_induction crc32Loop crc bytes with
  | case1 crc b0 b1 b2 b3 b4 b5 b6 b7 bytes induction =>
      rw [induction, absorbAll_eight, ← absorbAll_append]
      rfl
  | case2 crc bytes _ => rw [crc32Step_eq, absorbAll]

theorem crc32_eq (bytes : List Byte) :
    crc32 bytes = absorbAll poly 0xFFFFFFFF bytes ^^^ 0xFFFFFFFF := by
  rw [crc32, crc32Loop_eq]

/-- `init_crc32_table` fills the tables that `crc32` reads, and `crc32` is the
bitwise check. -/
theorem crc32_eq_bitwise (table : CrcTable) (bytes : List Byte) :
    (initCrc32Table table).Holds 8 ∧ crc32 bytes = crc32Bitwise bytes := by
  refine ⟨initCrc32Table_holds table, ?_⟩
  rw [crc32_eq, crc32Bitwise, crc32Bit_eq]
  rfl

end IncEmulation
