/-!
# UTF-8 byte strings

`Utf8.decode` reads a byte string as UTF-8 (RFC 3629): a sequence is one to four bytes, with
the second byte's range narrowed after `E0`, `ED`, `F0` and `F4` so that overlong forms,
surrogates and code points above U+10FFFF are refused. On the first bad sequence it reports
how long the valid prefix is and how many bytes form the maximal bad prefix of a sequence
(one to three), or that the input ends inside a sequence.
-/

namespace OrderedState

/-- Where a byte string stops being UTF-8. -/
structure Utf8Error where
  /-- The length of the longest valid prefix. -/
  validUpTo : Nat
  /-- The bytes of the bad sequence, `none` when the input ends inside a sequence. -/
  errorLen : Option Nat
  deriving Repr, DecidableEq

namespace Utf8Error

/-- The error text: "invalid utf-8 sequence of 1 bytes from index 0". -/
def message (e : Utf8Error) : String :=
  match e.errorLen with
  | some n => s!"invalid utf-8 sequence of {n} bytes from index {e.validUpTo}"
  | none => s!"incomplete utf-8 byte sequence from index {e.validUpTo}"

end Utf8Error

namespace Utf8

/-- A continuation byte, `10xxxxxx`. -/
def isTail (b : UInt8) : Bool := 0x80 ≤ b && b ≤ 0xBF

/-- The range the second byte of a sequence may take after lead byte `b`, and the length of
the sequence; `none` for a byte that begins no sequence. -/
def leadRange (b : UInt8) : Option (UInt8 × UInt8 × Nat) :=
  if 0xC2 ≤ b && b ≤ 0xDF then some (0x80, 0xBF, 2)
  else if b = 0xE0 then some (0xA0, 0xBF, 3)
  else if 0xE1 ≤ b && b ≤ 0xEC then some (0x80, 0xBF, 3)
  else if b = 0xED then some (0x80, 0x9F, 3)
  else if 0xEE ≤ b && b ≤ 0xEF then some (0x80, 0xBF, 3)
  else if b = 0xF0 then some (0x90, 0xBF, 4)
  else if 0xF1 ≤ b && b ≤ 0xF3 then some (0x80, 0xBF, 4)
  else if b = 0xF4 then some (0x80, 0x8F, 4)
  else none

/-- The code point of a sequence from its lead byte and continuation bytes. -/
def codePoint (lead : UInt8) (tails : List UInt8) : Nat :=
  let init := match tails.length with
    | 1 => lead.toNat % 32
    | 2 => lead.toNat % 16
    | _ => lead.toNat % 8
  tails.foldl (fun acc t => acc * 64 + t.toNat % 64) init

/-- Reads the sequence at the front of `bs`: its code point and the rest, or the error length
(`none` when the input ends inside the sequence). -/
def front : List UInt8 → Except (Option Nat) (Nat × List UInt8)
  | [] => .error none
  | b :: rest =>
    if b < 0x80 then .ok (b.toNat, rest)
    else match leadRange b with
      | none => .error (some 1)
      | some (lo, hi, width) =>
        match rest with
        | [] => .error none
        | b2 :: rest2 =>
          if !(lo ≤ b2 && b2 ≤ hi) then .error (some 1)
          else if width = 2 then .ok (codePoint b [b2], rest2)
          else match rest2 with
            | [] => .error none
            | b3 :: rest3 =>
              if !isTail b3 then .error (some 2)
              else if width = 3 then .ok (codePoint b [b2, b3], rest3)
              else match rest3 with
                | [] => .error none
                | b4 :: rest4 =>
                  if !isTail b4 then .error (some 3)
                  else .ok (codePoint b [b2, b3, b4], rest4)

theorem front_length {bs : List UInt8} {c : Nat} {rest : List UInt8}
    (h : front bs = .ok (c, rest)) : rest.length < bs.length := by
  unfold front at h
  repeat' split at h
  all_goals (cases h <;> (simp only [List.length_cons]; omega))

/-- Decodes sequences from the front, `offset` bytes having been read before. -/
def decodeFrom (offset : Nat) (acc : List Char) (bs : List UInt8) :
    Except Utf8Error (List Char) :=
  if bs = [] then .ok acc.reverse
  else
    match h : front bs with
    | .error len => .error ⟨offset, len⟩
    | .ok (c, rest) =>
      have := front_length h
      decodeFrom (offset + (bs.length - rest.length)) (Char.ofNat c :: acc) rest
termination_by bs.length

/-- The text of a UTF-8 byte string, or where it stops being UTF-8. -/
def decode (bs : List UInt8) : Except Utf8Error String :=
  (decodeFrom 0 [] bs).map String.ofList

end Utf8

end OrderedState
