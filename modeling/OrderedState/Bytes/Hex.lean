import OrderedState.Json.Text

/-!
# Bytes as hex text

Byte strings are written as lowercase hex digits with no separators, two per byte. Reading
takes either case. A text is read two bytes of its UTF-8 form at a time: a text of odd length is
refused, and so is a pair that is not a number base 16 (a pair may carry a leading `+`, as in
`+f`, as number syntax allows). A pair that ends inside a character of several bytes cannot be
cut out of the text at all; that fault names the byte index and the character.
-/

namespace OrderedState

/-- A byte string. -/
abbrev Bytes := List UInt8

namespace Bytes

/-- Two lowercase hex digits per byte. -/
def toHex (bs : Bytes) : String :=
  String.ofList (bs.flatMap fun b => [hexDigit (b.toNat / 16), hexDigit (b.toNat % 16)])

/-- The value of a hex digit of either case. -/
def hexValue? (c : Char) : Option Nat :=
  if '0' ≤ c ∧ c ≤ '9' then some (c.toNat - 48)
  else if 'a' ≤ c ∧ c ≤ 'f' then some (c.toNat - 87)
  else if 'A' ≤ c ∧ c ≤ 'F' then some (c.toNat - 55)
  else none

/-- The byte a pair of characters stands for. -/
def pairValue? (a b : Char) : Option UInt8 :=
  match hexValue? a, hexValue? b with
  | some x, some y => some (UInt8.ofNat (16 * x + y))
  | none, some y => if a = '+' then some (UInt8.ofNat y) else none
  | _, _ => none

/-- Why a hex text cannot be read. -/
inductive HexFault where
  | oddLength
  | invalidDigit
  /-- The pair ending at byte `index` ends inside the character `c`, which starts at byte
  `start`. -/
  | splitChar (index : Nat) (c : Char) (start : Nat)
  deriving DecidableEq, Repr

/-- Reads pairs from the characters of a text whose UTF-8 form has even length, the first of
them at byte `offset`. A pair of one-byte characters is read as digits; a character of two bytes
is a pair of its own and no number; a pair that would end inside a character is a fault. -/
def ofHexChars (offset : Nat) : List Char → Except HexFault Bytes
  | [] => .ok []
  | a :: rest =>
    if a.utf8Size = 1 then
      match rest with
      | [] => .error .oddLength
      | b :: rest =>
        if b.utf8Size = 1 then
          match pairValue? a b with
          | some v => (ofHexChars (offset + 2) rest).map (v :: ·)
          | none => .error .invalidDigit
        else .error (.splitChar (offset + 2) b (offset + 1))
    else if a.utf8Size = 2 then .error .invalidDigit
    else .error (.splitChar (offset + 2) a offset)

/-- Reads a hex text; its length is counted in bytes of its UTF-8 form. -/
def ofHex (s : String) : Except HexFault Bytes :=
  if s.utf8ByteSize % 2 = 1 then .error .oddLength else ofHexChars 0 s.toList

/-- The bytes of the UTF-8 form of a string. -/
def ofString (s : String) : Bytes := s.toUTF8.toList

end Bytes

end OrderedState
