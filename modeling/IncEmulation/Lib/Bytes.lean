import Mathlib.Data.BitVec

/-!
# Words and shorts in little-endian memory

A `Word` or a `Short` lies in memory least significant byte first.  Memory is a
list of bytes; reading past its end gives zero.
-/

namespace Memory

abbrev Byte := BitVec 8

def bytesOfShort (short : BitVec 16) : List Byte :=
  [short.extractLsb' 0 8, short.extractLsb' 8 8]

def bytesOfWord (word : BitVec 32) : List Byte :=
  [word.extractLsb' 0 8, word.extractLsb' 8 8, word.extractLsb' 16 8,
    word.extractLsb' 24 8]

def bytesOfWords (words : List (BitVec 32)) : List Byte :=
  words.flatMap bytesOfWord

def byteAt (bytes : List Byte) (offset : Nat) : Byte := bytes.getD offset 0

def shortAt (bytes : List Byte) (offset : Nat) : BitVec 16 :=
  byteAt bytes (offset + 1) ++ byteAt bytes offset

def wordOfBytes (first second third fourth : Byte) : BitVec 32 :=
  fourth ++ third ++ second ++ first

def wordAt (bytes : List Byte) (offset : Nat) : BitVec 32 :=
  wordOfBytes (byteAt bytes offset) (byteAt bytes (offset + 1))
    (byteAt bytes (offset + 2)) (byteAt bytes (offset + 3))

/-- The whole words at the front of a piece of memory. -/
def wordsOfBytes : List Byte → List (BitVec 32)
  | first :: second :: third :: fourth :: bytes =>
      wordOfBytes first second third fourth :: wordsOfBytes bytes
  | _ => []

@[simp]
theorem bytesOfWord_length (word : BitVec 32) :
    (bytesOfWord word).length = 4 := rfl

@[simp]
theorem bytesOfWords_cons (word : BitVec 32) (words : List (BitVec 32)) :
    bytesOfWords (word :: words) = bytesOfWord word ++ bytesOfWords words :=
  rfl

@[simp]
theorem bytesOfWords_length (words : List (BitVec 32)) :
    (bytesOfWords words).length = 4 * words.length := by
  induction words with
  | nil => rfl
  | cons word words induction =>
      rw [bytesOfWords_cons, List.length_append, bytesOfWord_length, induction,
        List.length_cons]
      omega

theorem short_of_bytes (short : BitVec 16) :
    short.extractLsb' 8 8 ++ short.extractLsb' 0 8 = short := by
  rw [BitVec.extractLsb'_append_extractLsb'_eq_extractLsb'
    (show 8 = 0 + 8 from rfl)]
  exact BitVec.extractLsb'_eq_self

theorem word_of_bytes (word : BitVec 32) :
    wordOfBytes (word.extractLsb' 0 8) (word.extractLsb' 8 8)
      (word.extractLsb' 16 8) (word.extractLsb' 24 8) = word := by
  unfold wordOfBytes
  rw [BitVec.extractLsb'_append_extractLsb'_eq_extractLsb'
      (show 24 = 16 + 8 from rfl),
    BitVec.extractLsb'_append_extractLsb'_eq_extractLsb'
      (show 16 = 8 + 8 from rfl),
    BitVec.extractLsb'_append_extractLsb'_eq_extractLsb'
      (show 8 = 0 + 8 from rfl)]
  exact BitVec.extractLsb'_eq_self

theorem wordsOfBytes_bytesOfWord (word : BitVec 32) (bytes : List Byte) :
    wordsOfBytes (bytesOfWord word ++ bytes) = word :: wordsOfBytes bytes :=
  congrArg (· :: wordsOfBytes bytes) (word_of_bytes word)

/-- Words written one after the other are read back, whatever follows. -/
theorem wordsOfBytes_bytesOfWords (words : List (BitVec 32))
    (bytes : List Byte) :
    wordsOfBytes (bytesOfWords words ++ bytes) =
      words ++ wordsOfBytes bytes := by
  induction words with
  | nil => rfl
  | cons word words induction =>
      rw [bytesOfWords_cons, List.append_assoc, wordsOfBytes_bytesOfWord,
        induction, List.cons_append]

end Memory
