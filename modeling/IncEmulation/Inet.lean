import IncEmulation.Wire

/-!
# The C library's text conversions

`inet_addr` reads an address in numbers-and-dots form: one to four parts, each
decimal, octal (`0…`) or hexadecimal (`0x…`), of which the last fills the bytes
that are left.  Text after a blank is ignored and anything else malformed gives
`INADDR_NONE`.  `sscanf` with six `%hhx` conversions separated by colons stores
the bytes it reads until the first mismatch and leaves the others alone; `%hhx`
keeps the last byte of what `%x` reads.
-/

namespace IncEmulation

def digitValue (base : Nat) (character : Char) : Option Nat :=
  let value :=
    if '0' ≤ character ∧ character ≤ '9' then character.toNat - '0'.toNat
    else if 'a' ≤ character ∧ character ≤ 'f' then
      character.toNat - 'a'.toNat + 10
    else if 'A' ≤ character ∧ character ≤ 'F' then
      character.toNat - 'A'.toNat + 10
    else base
  if value < base then some value else none

def digitsValue (base : Nat) : Nat → List Char → Option Nat
  | value, [] => some value
  | value, character :: characters =>
      (digitValue base character).bind fun digit =>
        digitsValue base (value * base + digit) characters

def numberValue : List Char → Option Nat
  | [] => none
  | '0' :: 'x' :: characters =>
      if characters = [] then none else digitsValue 16 0 characters
  | '0' :: 'X' :: characters =>
      if characters = [] then none else digitsValue 16 0 characters
  | '0' :: characters => digitsValue 8 0 characters
  | characters => digitsValue 10 0 characters

def addressOfParts : List Nat → Option Nat
  | [a] => if a < 2 ^ 32 then some a else none
  | [a, b] =>
      if a < 256 ∧ b < 2 ^ 24 then some (a * 2 ^ 24 + b) else none
  | [a, b, c] =>
      if a < 256 ∧ b < 256 ∧ c < 2 ^ 16 then
        some (a * 2 ^ 24 + b * 2 ^ 16 + c)
      else none
  | [a, b, c, d] =>
      if a < 256 ∧ b < 256 ∧ c < 256 ∧ d < 256 then
        some (a * 2 ^ 24 + b * 2 ^ 16 + c * 2 ^ 8 + d)
      else none
  | _ => none

/-- The address in network byte order, as it lies in memory. -/
def inetAddr (text : String) : Word :=
  let parts :=
    (text.toList.takeWhile fun character => !character.isWhitespace).splitOn '.'
  match (parts.mapM numberValue).bind addressOfParts with
  | some value => htonl (BitVec.ofNat 32 value)
  | none => 0xFFFFFFFF

def skipSign : List Char → List Char
  | '-' :: text => text
  | '+' :: text => text
  | text => text

def skipPrefix : List Char → List Char
  | '0' :: 'x' :: text => text
  | '0' :: 'X' :: text => text
  | text => text

/-- A conversion `%x`: blanks, a sign and a prefix may come first. -/
def scanHex (text : List Char) : Option (Word × List Char) :=
  let trimmed := text.dropWhile Char.isWhitespace
  let number := skipPrefix (skipSign trimmed)
  let digits := number.takeWhile fun character =>
    (digitValue 16 character).isSome
  match digits, digitsValue 16 0 digits with
  | [], _ => none
  | _, none => none
  | _, some value =>
      let stored : Word :=
        if 2 ^ 64 ≤ value then -1
        else if trimmed.head? = some '-' then -BitVec.ofNat 32 value
        else BitVec.ofNat 32 value
      some (stored, number.drop digits.length)

/-- The conversions of `"%hhx:%hhx:%hhx:%hhx:%hhx:%hhx"`, one per byte of
`stored`. -/
def scanMac : List (BitVec 8) → List Char → List (BitVec 8)
  | [], _ => []
  | byte :: bytes, text =>
      match scanHex text with
      | none => byte :: bytes
      | some (value, ':' :: rest) => value.setWidth 8 :: scanMac bytes rest
      | some (value, _) => value.setWidth 8 :: bytes

end IncEmulation
