import OrderedState.Json.Basic
import OrderedState.Codec.Mismatch
import OrderedState.Text.Utf8

/-!
# Reading JSON text

A reader walks the bytes of a JSON text once, front to back, and reports the first fault it
meets with its position: "trailing comma at line 1 column 6". The position of a fault is the
line and the byte column of the byte index where it is reported; a fault found on looking at
the next byte is reported one byte further ("peek" position), a fault found after consuming a
byte at the byte after it.

A target type reads its value straight from the text, so a value of the wrong type is reported
where it is met, and nothing after it is read: `{"a": true, oops` read as a record whose `a` is a
number fails at `true`. A mismatch raised inside a value gets the position the reader has when
the enclosing value gives up.

Numbers follow the grammar of RFC 8259. An integer that fits in 64 bits is kept exactly
(negative ones as signed, `-0` as the float `-0.0`); anything else is a float computed from its
digits and decimal exponent by one multiplication or division by a power of ten, with
`number out of range` where that overflows. Nesting of arrays and objects is limited to 127
levels.
-/

namespace OrderedState

/-- The faults a JSON reader reports. -/
inductive ReadCode where
  | eofList | eofObject | eofString | eofValue
  | expectedColon | expectedListCommaOrEnd | expectedObjectCommaOrEnd
  | expectedIdent | expectedValue
  | invalidEscape | invalidNumber | numberOutOfRange | invalidUnicode
  | controlCharacter | keyMustBeString | loneLeadingSurrogate
  | trailingComma | trailingCharacters | unexpectedEndOfHexEscape | recursionLimit
  | outOfFuel
  | mismatch (m : Mismatch)

/-- The text of a fault. -/
def ReadCode.message : ReadCode → String
  | .eofList => "EOF while parsing a list"
  | .eofObject => "EOF while parsing an object"
  | .eofString => "EOF while parsing a string"
  | .eofValue => "EOF while parsing a value"
  | .expectedColon => "expected `:`"
  | .expectedListCommaOrEnd => "expected `,` or `]`"
  | .expectedObjectCommaOrEnd => "expected `,` or `\x7d`"
  | .expectedIdent => "expected ident"
  | .expectedValue => "expected value"
  | .invalidEscape => "invalid escape"
  | .invalidNumber => "invalid number"
  | .numberOutOfRange => "number out of range"
  | .invalidUnicode => "invalid unicode code point"
  | .controlCharacter => "control character (\\u0000-\\u001F) found while parsing a string"
  | .keyMustBeString => "key must be a string"
  | .loneLeadingSurrogate => "lone leading surrogate in hex escape"
  | .trailingComma => "trailing comma"
  | .trailingCharacters => "trailing characters"
  | .unexpectedEndOfHexEscape => "unexpected end of hex escape"
  | .recursionLimit => "recursion limit exceeded"
  | .outOfFuel => "input too complex"
  | .mismatch m => m.message .json

/-- A fault, with the byte index of its position once one is known. -/
structure ReadError where
  code : ReadCode
  index : Option Nat

/-- The line (from 1) and byte column of byte index `i` of `input`. -/
def lineColumn (input : List UInt8) (i : Nat) : Nat × Nat :=
  let before := input.take i
  let lines := before.count 10
  let lastLine := (before.reverse.takeWhile (· ≠ 10)).length
  (lines + 1, lastLine)

/-- The text of a fault in `input`: the fault, then its position if it has one. -/
def ReadError.message (input : List UInt8) (e : ReadError) : String :=
  match e.index with
  | none => e.code.message
  | some i =>
    let (l, c) := lineColumn input i
    e.code.message ++ " at line " ++ toString l ++ " column " ++ toString c

/-- Where a JSON reader stands: the bytes not read yet, the index of the next byte, and how
many more levels of nesting are allowed. -/
structure Cursor where
  rest : List UInt8
  pos : Nat
  depth : Nat

/-- A JSON reader: it may fail, and its position survives a failure. -/
abbrev JsonReader := ExceptT ReadError (StateM Cursor)

namespace JsonReader

/-- The next byte, not consumed. -/
def peek : JsonReader (Option UInt8) := return (← get).rest.head?

/-- Consumes one byte. -/
def eat : JsonReader Unit :=
  modify fun c => match c.rest with
    | [] => c
    | _ :: r => { c with rest := r, pos := c.pos + 1 }

/-- The next byte, consumed. -/
def next : JsonReader (Option UInt8) := do
  let b ← peek
  eat
  return b

/-- A fault at the current index. -/
def fail (code : ReadCode) : JsonReader α := do
  throw ⟨code, some (← get).pos⟩

/-- A fault at the byte after the current one (or at the end of input). -/
def failPeek (code : ReadCode) : JsonReader α := do
  let c ← get
  throw ⟨code, some (if c.rest.isEmpty then c.pos else c.pos + 1)⟩

/-- A mismatch, positioned later by the value that gives up. -/
def mismatch (m : Mismatch) : JsonReader α := throw ⟨.mismatch m, none⟩

/-- Lifts a target's verdict. -/
def ofExcept (r : Except Mismatch α) : JsonReader α :=
  match r with
  | .ok a => pure a
  | .error m => mismatch m

/-- Gives an unpositioned fault raised by `x` the current index. -/
def fixPosition (x : JsonReader α) : JsonReader α :=
  tryCatch x fun e => do
    match e.index with
    | some _ => throw e
    | none => throw { e with index := some (← get).pos }

/-- Whether a byte is JSON whitespace. -/
def isBlank (b : UInt8) : Bool := b == 32 || b == 10 || b == 9 || b == 13

/-- Drops leading whitespace, counting it. -/
def dropBlank : List UInt8 → Nat → List UInt8 × Nat
  | b :: r, n => if isBlank b then dropBlank r (n + 1) else (b :: r, n)
  | [], n => ([], n)

/-- Skips whitespace and returns the next byte, not consumed. -/
def skipBlank : JsonReader (Option UInt8) := do
  let c ← get
  let (r, n) := dropBlank c.rest 0
  set { c with rest := r, pos := c.pos + n }
  return r.head?

/-- Whether a byte is a decimal digit. -/
def isDigit (b : UInt8) : Bool := 48 ≤ b && b ≤ 57

/-- Consumes the bytes of `ident`, each of which must come next. -/
def expectIdent : List UInt8 → JsonReader Unit
  | [] => pure ()
  | b :: rest => do
    match ← next with
    | none => fail .eofValue
    | some x => if x == b then expectIdent rest else fail .expectedIdent

/-- The bytes of a text. -/
def bytesOf (s : String) : List UInt8 := s.toUTF8.toList

/-- Enters one level of nesting, failing past the limit. -/
def enter : JsonReader Unit := do
  let c ← get
  if c.depth ≤ 1 then failPeek .recursionLimit
  else set { c with depth := c.depth - 1 }

/-- Leaves one level of nesting. -/
def leave : JsonReader Unit := modify fun c => { c with depth := c.depth + 1 }

/-! ## Numbers -/

/-- The nearest binary64 float to a natural number (ties to even). -/
def natToFloat (n : Nat) : Float :=
  if n < 9007199254740992 then (UInt64.ofNat n).toFloat
  else
    let len := n.log2 + 1
    let s := len - 53
    let q := n >>> s
    let r := n - (q <<< s)
    let half := 1 <<< (s - 1)
    let q' := if r > half || (r == half && q % 2 == 1) then q + 1 else q
    let (q'', s') := if q' = 9007199254740992 then (4503599627370496, s + 1) else (q', s)
    let biased := s' + 52 + 1023
    if biased ≥ 2047 then Float.ofBits 0x7FF0000000000000
    else Float.ofBits (UInt64.ofNat (biased * 4503599627370496 + (q'' - 4503599627370496)))

/-- `10^k` as the nearest float, for `k ≤ 308`. -/
def pow10 (k : Nat) : Float := natToFloat (Nat.pow 10 k)

/-- The float `significand × 10^exponent`, computed by one multiplication or division by a
power of ten (two divisions below `10^-308`), or `number out of range`. -/
def floatOfParts (positive : Bool) (significand : Nat) (exponent : Int) :
    JsonReader Float := do
  let f := natToFloat significand
  let rec scale : Nat → Float → Int → JsonReader Float
    | 0, f, _ => pure f
    | fuel + 1, f, e =>
      if e.natAbs ≤ 308 then
        if e ≥ 0 then
          let g := f * pow10 e.natAbs
          if g.isInf then fail .numberOutOfRange else pure g
        else pure (f / pow10 e.natAbs)
      else if f == 0.0 then pure f
      else if e ≥ 0 then fail .numberOutOfRange
      else scale fuel (f / pow10 308) (e + 308)
  let g ← scale 4 f exponent
  return if positive then g else -g

/-- Whether `s × 10 + d` would pass `u64::MAX`. -/
def overflows (s d : Nat) : Bool :=
  s ≥ 18446744073709551615 / 10 && (s > 18446744073709551615 / 10 || d > 18446744073709551615 % 10)

/-- Consumes digits, counting them. -/
def skipDigits (fuel : Nat) : JsonReader Nat := do
  match fuel with
  | 0 => pure 0
  | fuel + 1 =>
    match ← peek with
    | some b => if isDigit b then do eat; return (← skipDigits fuel) + 1 else pure 0
    | none => pure 0

/-- The exponent part, after `e`: digits, with an optional sign. -/
def readExponent (fuel : Nat) (positive : Bool) (significand : Nat) (start : Int) :
    JsonReader Float := do
  eat
  let positiveExp ← match ← peek with
    | some 43 => do eat; pure true
    | some 45 => do eat; pure false
    | _ => pure true
  match ← next with
  | none => fail .eofValue
  | some b =>
    if !isDigit b then fail .invalidNumber
    else
      let rec digits : Nat → Nat → JsonReader (Option Nat)
        | 0, e => pure (some e)
        | fuel + 1, e => do
          match ← peek with
          | some c =>
            if isDigit c then do
              eat
              let d := (c - 48).toNat
              if e ≥ 2147483647 / 10 && (e > 2147483647 / 10 || d > 2147483647 % 10) then
                pure none
              else digits fuel (e * 10 + d)
            else pure (some e)
          | none => pure (some e)
      match ← digits fuel (b - 48).toNat with
      | some e =>
        let final := if positiveExp then start + e else start - e
        floatOfParts positive significand final
      | none =>
        if significand ≠ 0 && positiveExp then fail .numberOutOfRange
        else do
          let _ ← skipDigits fuel
          return if positive then 0.0 else -0.0

/-- The fraction part, after `.`. -/
def readDecimal (fuel : Nat) (positive : Bool) (significand : Nat) (before : Int) :
    JsonReader Float := do
  eat
  let rec digits : Nat → Nat → Int → JsonReader (Nat × Int × Bool)
    | 0, s, e => pure (s, e, false)
    | fuel + 1, s, e => do
      match ← peek with
      | some c =>
        if isDigit c then
          let d := (c - 48).toNat
          if overflows s d then pure (s, e, true)
          else do eat; digits fuel (s * 10 + d) (e - 1)
        else pure (s, e, false)
      | none => pure (s, e, false)
  let (s, after, overflowed) ← digits fuel significand 0
  if overflowed then
    let _ ← skipDigits fuel
    match ← peek with
    | some 101 | some 69 => readExponent fuel positive s (before + after)
    | _ => floatOfParts positive s (before + after)
  else if after = 0 then
    match ← peek with
    | some _ => failPeek .invalidNumber
    | none => failPeek .eofValue
  else
    match ← peek with
    | some 101 | some 69 => readExponent fuel positive s (before + after)
    | _ => floatOfParts positive s (before + after)

/-- What follows the integer digits: a fraction, an exponent, or nothing. -/
def readNumberTail (fuel : Nat) (positive : Bool) (significand : Nat) : JsonReader Atom := do
  match ← peek with
  | some 46 => return .float (← readDecimal fuel positive significand 0)
  | some 101 | some 69 => return .float (← readExponent fuel positive significand 0)
  | _ =>
    if positive then return .unsigned significand
    else if significand = 0 then return .float (-0.0)
    else if significand ≤ 9223372036854775808 then return .signed (-(significand : Int))
    else return .float (-(natToFloat significand))

/-- A number after its sign: the integer digits, then the rest. -/
def readInteger (fuel : Nat) (positive : Bool) : JsonReader Atom := do
  match ← next with
  | none => fail .eofValue
  | some 48 =>
    match ← peek with
    | some c => if isDigit c then failPeek .invalidNumber else readNumberTail fuel positive 0
    | none => readNumberTail fuel positive 0
  | some b =>
    if !isDigit b then fail .invalidNumber
    else
      let rec digits : Nat → Nat → JsonReader Atom
        | 0, s => readNumberTail 0 positive s
        | fuel + 1, s => do
          match ← peek with
          | some c =>
            if isDigit c then
              let d := (c - 48).toNat
              if overflows s d then do
                -- too long for 64 bits: the remaining digits only scale the value
                let extra ← skipDigits fuel
                match ← peek with
                | some 46 => return .float (← readDecimal fuel positive s extra)
                | some 101 | some 69 => return .float (← readExponent fuel positive s extra)
                | _ => return .float (← floatOfParts positive s extra)
              else do eat; digits fuel (s * 10 + d)
            else readNumberTail fuel positive s
          | none => readNumberTail fuel positive s
      digits fuel (b - 48).toNat

/-! ## Strings -/

/-- The UTF-8 bytes of a code point. -/
def utf8Bytes (n : Nat) : List UInt8 :=
  if n < 0x80 then [UInt8.ofNat n]
  else if n < 0x800 then [UInt8.ofNat (0xC0 + n / 64), UInt8.ofNat (0x80 + n % 64)]
  else if n < 0x10000 then
    [UInt8.ofNat (0xE0 + n / 4096), UInt8.ofNat (0x80 + n / 64 % 64), UInt8.ofNat (0x80 + n % 64)]
  else
    [UInt8.ofNat (0xF0 + n / 262144), UInt8.ofNat (0x80 + n / 4096 % 64),
      UInt8.ofNat (0x80 + n / 64 % 64), UInt8.ofNat (0x80 + n % 64)]

/-- The value of a hex digit byte. -/
def hexByte? (b : UInt8) : Option Nat :=
  if 48 ≤ b && b ≤ 57 then some (b - 48).toNat
  else if 97 ≤ b && b ≤ 102 then some (b - 87).toNat
  else if 65 ≤ b && b ≤ 70 then some (b - 55).toNat
  else none

/-- Four hex digits of a `\u` escape. -/
def hexEscape : JsonReader Nat := do
  let c ← get
  match c.rest with
  | a :: b :: d :: e :: r =>
    set { c with rest := r, pos := c.pos + 4 }
    match hexByte? a, hexByte? b, hexByte? d, hexByte? e with
    | some w, some x, some y, some z => pure (((w * 16 + x) * 16 + y) * 16 + z)
    | _, _, _, _ => fail .invalidEscape
  | r =>
    set { c with rest := [], pos := c.pos + r.length }
    fail .eofString

/-- The next byte of a string, which must exist. -/
def nextInString : JsonReader UInt8 := do
  match ← next with
  | some b => pure b
  | none => fail .eofString

/-- The next byte of a string, not consumed, which must exist. -/
def peekInString : JsonReader UInt8 := do
  match ← peek with
  | some b => pure b
  | none => fail .eofString

/-- The bytes a `\u` escape stands for, after `\u`; a high surrogate must be followed by an
escaped low surrogate. -/
def unicodeEscape : JsonReader (List UInt8) := do
  let n ← hexEscape
  if 0xDC00 ≤ n && n ≤ 0xDFFF then fail .loneLeadingSurrogate
  else if n < 0xD800 || n > 0xDBFF then pure (utf8Bytes n)
  else do
    if (← peekInString) == 92 then eat else do eat; fail .unexpectedEndOfHexEscape
    if (← peekInString) == 117 then eat else do eat; fail .unexpectedEndOfHexEscape
    let n2 ← hexEscape
    if n2 < 0xDC00 || n2 > 0xDFFF then fail .loneLeadingSurrogate
    else pure (utf8Bytes ((n - 0xD800) * 1024 + (n2 - 0xDC00) + 0x10000))

/-- The bytes an escape stands for, after the backslash. -/
def escape : JsonReader (List UInt8) := do
  let b ← nextInString
  match b with
  | 34 => pure [34]
  | 92 => pure [92]
  | 47 => pure [47]
  | 98 => pure [8]
  | 102 => pure [12]
  | 110 => pure [10]
  | 114 => pure [13]
  | 116 => pure [9]
  | 117 => unicodeEscape
  | _ => fail .invalidEscape

/-- The bytes of a string after its opening quote, up to and including the closing quote. -/
def stringBytes (fuel : Nat) (acc : List UInt8) : JsonReader (List UInt8) := do
  match fuel with
  | 0 => fail .outOfFuel
  | fuel + 1 =>
    match ← next with
    | none => fail .eofString
    | some 34 => pure acc.reverse
    | some 92 => stringBytes fuel ((← escape).reverse ++ acc)
    | some b => if b < 32 then fail .controlCharacter else stringBytes fuel (b :: acc)

/-- A string after its opening quote. Its bytes, escapes decoded, are checked as UTF-8 once the
closing quote is read; a fault is placed as far before the end of the string as its first bad
byte is before the end of the decoded bytes, which is that byte's own column when the string
has no escapes. -/
def readString (fuel : Nat) : JsonReader String := do
  let bs ← stringBytes fuel []
  match Utf8.decode bs with
  | .ok s => pure s
  | .error e => throw ⟨.invalidUnicode, some ((← get).pos - (bs.length - e.validUpTo))⟩

/-- Skips an escape, after the backslash. -/
def skipEscape : JsonReader Unit := do
  let b ← nextInString
  if b == 34 || b == 92 || b == 47 || b == 98 || b == 102 || b == 110 || b == 114 ||
    b == 116 then pure ()
  else if b == 117 then do let _ ← hexEscape; pure ()
  else fail .invalidEscape

/-- Skips a string after its opening quote. -/
def skipString (fuel : Nat) : JsonReader Unit := do
  match fuel with
  | 0 => fail .outOfFuel
  | fuel + 1 =>
    match ← peek with
    | none => fail .eofString
    | some 34 => eat
    | some 92 => do eat; skipEscape; skipString fuel
    | some b => if b < 32 then fail .controlCharacter else do eat; skipString fuel

/-! ## Values of any type -/

/-- Describes the value at the cursor, consuming it if it is a scalar. -/
def found (fuel : Nat) : JsonReader Unexpected := do
  match ← peek with
  | some 110 => eat; expectIdent (bytesOf "ull"); pure .unit
  | some 116 => eat; expectIdent (bytesOf "rue"); pure (.bool true)
  | some 102 => eat; expectIdent (bytesOf "alse"); pure (.bool false)
  | some 45 =>
    eat
    let a ← readInteger fuel false
    pure a.unexpected
  | some 34 =>
    eat
    let s ← readString fuel
    pure (.str s)
  | some 91 => pure .seq
  | some 123 => pure .map
  | some b =>
    if isDigit b then
      let a ← readInteger fuel true
      pure a.unexpected
    else failPeek .expectedValue
  | none => failPeek .expectedValue

/-- Reports the value at the cursor as the wrong type for `expected`, consuming a scalar. -/
def invalidType (fuel : Nat) (expected : String) : JsonReader α := do
  let u ← found fuel
  fixPosition (mismatch (.invalidType u expected))

/-- Whether another array element follows; consumes the comma before it. -/
def hasNextElement (first : Bool) : JsonReader Bool := do
  match ← skipBlank with
  | none => failPeek .eofList
  | some 93 => pure false
  | some 44 =>
    if first then pure true
    else do
      eat
      match ← skipBlank with
      | some 93 => failPeek .trailingComma
      | some _ => pure true
      | none => failPeek .eofValue
  | some _ => if first then pure true else failPeek .expectedListCommaOrEnd

/-- The end of an array. -/
def endArray : JsonReader Unit := do
  match ← skipBlank with
  | some 93 => eat
  | some 44 =>
    eat
    match ← skipBlank with
    | some 93 => failPeek .trailingComma
    | _ => failPeek .trailingCharacters
  | some _ => failPeek .trailingCharacters
  | none => failPeek .eofList

/-- The next object key, if another field follows; consumes the comma before it. -/
def nextKey (fuel : Nat) (first : Bool) : JsonReader (Option String) := do
  let start ← skipBlank
  let b ← match start with
    | some 125 => pure (some 125)
    | some 44 => if first then pure (some 44) else do eat; skipBlank
    | some b => if first then pure (some b) else failPeek .expectedObjectCommaOrEnd
    | none => failPeek .eofObject
  if start == some 125 then return none
  match b with
  | some 34 =>
    eat
    let k ← readString fuel
    return some k
  | some 125 => failPeek .trailingComma
  | some _ => failPeek .keyMustBeString
  | none => failPeek .eofValue

/-- The colon between a key and its value. -/
def colon : JsonReader Unit := do
  match ← skipBlank with
  | some 58 => eat
  | some _ => failPeek .expectedColon
  | none => failPeek .eofObject

/-- The end of an object. -/
def endObject : JsonReader Unit := do
  match ← skipBlank with
  | some 125 => eat
  | some 44 => failPeek .trailingComma
  | some _ => failPeek .trailingCharacters
  | none => failPeek .eofObject

/-- Runs the body of an array or object between its brackets: the body's fault wins over a
fault of the closing bracket, which is looked for either way. -/
def bracketed (body : JsonReader α) (close : JsonReader Unit) : JsonReader α := do
  enter
  eat
  let r ← tryCatch (Except.ok <$> body) (fun e => pure (Except.error e))
  leave
  let closed ← tryCatch (Except.ok <$> close) (fun e => pure (Except.error e))
  match r, closed with
  | .error e, _ => throw e
  | .ok _, .error e => throw e
  | .ok a, .ok () => pure a

/-- A number as a document number. -/
def ofAtom : Atom → Json
  | .unsigned n => .number (.posInt (UInt64.ofNat n))
  | .signed n => Json.int n
  | .float x => .number (.float x)
  | _ => .null

mutual
/-- A value of any type, as a document. -/
def readAny (fuel : Nat) : JsonReader Json := do
  match fuel with
  | 0 => fail .outOfFuel
  | fuel + 1 =>
    fixPosition do
      match ← skipBlank with
      | none => failPeek .eofValue
      | some 110 => do eat; expectIdent (bytesOf "ull"); pure .null
      | some 116 => do eat; expectIdent (bytesOf "rue"); pure (.bool true)
      | some 102 => do eat; expectIdent (bytesOf "alse"); pure (.bool false)
      | some 45 => do eat; pure (ofAtom (← readInteger fuel false))
      | some 34 => do eat; pure (.string (← readString fuel))
      | some 91 => bracketed (readItems fuel true []) endArray
      | some 123 => bracketed (readFields fuel true []) endObject
      | some b =>
        if isDigit b then do
          let a ← readInteger fuel true
          pure (ofAtom a)
        else failPeek .expectedValue

/-- Array items, until the closing bracket (not consumed). -/
def readItems (fuel : Nat) (first : Bool) (acc : List Json) : JsonReader Json := do
  match fuel with
  | 0 => fail .outOfFuel
  | fuel + 1 =>
    if ← hasNextElement first then
      let item ← readAny fuel
      readItems fuel false (item :: acc)
    else pure (.array acc.reverse)

/-- Object fields, until the closing brace (not consumed); a later duplicate wins. -/
def readFields (fuel : Nat) (first : Bool) (acc : List (String × Json)) : JsonReader Json := do
  match fuel with
  | 0 => fail .outOfFuel
  | fuel + 1 =>
    match ← nextKey fuel first with
    | none => pure (.object acc)
    | some k =>
      colon
      let v ← readAny fuel
      readFields fuel false (Json.insertField k v acc)
end

/-- Skips a value of any type, checking its syntax but computing nothing. -/
def skipValue (fuel : Nat) : JsonReader Unit := do
  match fuel with
  | 0 => fail .outOfFuel
  | fuel + 1 =>
    match ← skipBlank with
    | none => failPeek .eofValue
    | some 110 => do eat; expectIdent (bytesOf "ull")
    | some 116 => do eat; expectIdent (bytesOf "rue")
    | some 102 => do eat; expectIdent (bytesOf "alse")
    | some 45 => do eat; skipNumber fuel
    | some 34 => do eat; skipString fuel
    | some 91 => do eat; skipItems fuel true
    | some 123 => do eat; skipFields fuel true
    | some b => if isDigit b then skipNumber fuel else failPeek .expectedValue
where
  /-- Skips a number after its sign. -/
  skipNumber (fuel : Nat) : JsonReader Unit := do
    let first ← match ← peek with
      | some b => do eat; pure b
      | none => pure 0
    if first == 48 then
      match ← peek with
      | some c => if isDigit c then failPeek .invalidNumber else pure ()
      | none => pure ()
    else if isDigit first then do let _ ← skipDigits fuel
    else fail .invalidNumber
    match ← peek with
    | some 46 =>
      eat
      if (← skipDigits fuel) = 0 then failPeek .invalidNumber
      match ← peek with
      | some 101 | some 69 => skipExp fuel
      | _ => pure ()
    | some 101 | some 69 => skipExp fuel
    | _ => pure ()
  /-- Skips an exponent part. -/
  skipExp (fuel : Nat) : JsonReader Unit := do
    eat
    match ← peek with
    | some 43 | some 45 => eat
    | _ => pure ()
    let d ← match ← peek with
      | some b => do eat; pure b
      | none => pure 0
    if isDigit d then do let _ ← skipDigits fuel else fail .invalidNumber
  /-- Skips array items and the closing bracket. -/
  skipItems (fuel : Nat) (first : Bool) : JsonReader Unit := do
    match fuel with
    | 0 => fail .outOfFuel
    | fuel + 1 =>
      match ← skipBlank with
      | some 93 => eat
      | some 44 =>
        if first then do skipValue fuel; skipItems fuel false
        else do eat; skipValue fuel; skipItems fuel false
      | some _ =>
        if first then do skipValue fuel; skipItems fuel false
        else failPeek .expectedListCommaOrEnd
      | none => failPeek .eofList
  /-- Skips object fields and the closing brace. -/
  skipFields (fuel : Nat) (first : Bool) : JsonReader Unit := do
    match fuel with
    | 0 => fail .outOfFuel
    | fuel + 1 =>
      let go : JsonReader Unit := do
        match ← skipBlank with
        | some 34 => eat
        | some _ => failPeek .keyMustBeString
        | none => failPeek .eofObject
        skipString fuel
        match ← skipBlank with
        | some 58 => eat
        | some _ => failPeek .expectedColon
        | none => failPeek .eofObject
        skipValue fuel
        skipFields fuel false
      match ← skipBlank with
      | some 125 => eat
      | some 44 => if first then go else do eat; go
      | some _ => if first then go else failPeek .expectedObjectCommaOrEnd
      | none => failPeek .eofObject

/-- Runs a reader over a whole text: one value, then nothing but whitespace. Its fuel is
enough for every path through a text of this length. -/
def runAll (r : Nat → JsonReader α) (input : List UInt8) : Except ReadError α :=
  let whole : JsonReader α := do
    let a ← r (2 * input.length + 300)
    match ← skipBlank with
    | some _ => failPeek .trailingCharacters
    | none => pure a
  (whole.run.run ⟨input, 0, 128⟩).1

end JsonReader

namespace Json

/-- Reads a JSON text as a document, or gives the text of the first fault. -/
def parse (input : List UInt8) : Except String Json :=
  (JsonReader.runAll JsonReader.readAny input).mapError (·.message input)

end Json

end OrderedState
