import IncEmulation.Lib.Bytes

/-!
# The CRC of `util.c`

`crc32` takes eight bytes at a time through the tables that
`init_crc32_table` has filled, and the rest byte by byte.
-/

namespace IncEmulation

open Memory

def poly : BitVec 32 := 0xEDB88320

/-- One round of the inner loop of `init_crc32_table`. -/
def crcShift (crc : BitVec 32) : BitVec 32 :=
  (crc >>> 1) ^^^ (if crc &&& 1 = 0 then 0 else poly)

/-- `crc32_table[table][index]`. -/
def crc32Table : Nat → Byte → BitVec 32
  | 0, index => crcShift^[8] (index.setWidth 32)
  | table + 1, index =>
      let previous := crc32Table table index
      (previous >>> 8) ^^^ crcShift^[8] ((previous.setWidth 8).setWidth 32)

/-- The byte at `position` of the running value. -/
def crcByte (crc : BitVec 32) (position : Nat) : Byte :=
  (crc >>> (8 * position)).setWidth 8

def crc32Step (crc : BitVec 32) (byte : Byte) : BitVec 32 :=
  (crc >>> 8) ^^^ crc32Table 0 (crcByte crc 0 ^^^ byte)

/-- The two loops of `crc32`. -/
def crc32Loop : BitVec 32 → List Byte → BitVec 32
  | crc, b0 :: b1 :: b2 :: b3 :: b4 :: b5 :: b6 :: b7 :: bytes =>
      crc32Loop
        (crc32Table 0 b7 ^^^ crc32Table 1 b6 ^^^ crc32Table 2 b5 ^^^
          crc32Table 3 b4 ^^^ crc32Table 4 (b3 ^^^ crcByte crc 3) ^^^
          crc32Table 5 (b2 ^^^ crcByte crc 2) ^^^
          crc32Table 6 (b1 ^^^ crcByte crc 1) ^^^
          crc32Table 7 (b0 ^^^ crcByte crc 0))
        bytes
  | crc, bytes => bytes.foldl crc32Step crc

def crc32 (bytes : List Byte) : BitVec 32 :=
  crc32Loop 0xFFFFFFFF bytes ^^^ 0xFFFFFFFF

/-- The check value of the CRC-32 in use. -/
example : crc32 [0x31, 0x32, 0x33, 0x34, 0x35, 0x36, 0x37, 0x38, 0x39] =
    0xCBF43926 := by decide +kernel

end IncEmulation
