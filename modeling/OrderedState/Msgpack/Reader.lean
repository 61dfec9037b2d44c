import OrderedState.Codec.Mismatch
import OrderedState.Text.Utf8

/-!
# Reading MessagePack

A MessagePack value starts with a marker byte that gives its kind and either carries a small
value or length itself or announces how many bytes of it follow. `BinReader.readHead` reads a
marker and the data it announces for a scalar, so a value's kind and scalar content are known
before its target type looks at it. Arrays, maps and extension values count towards a nesting
limit of 1023 levels. Bytes after the value are ignored.

A number's target looks at the marker first: a marker that cannot start a number (a string,
byte array, container or extension) is refused by its name before its data is read.

A value cut short is reported by what was being read: the marker, a scalar or length field
("failed to fill whole buffer"), or the body of a string or byte array ("unexpected end of
file").
-/

namespace OrderedState

/-- The faults a MessagePack reader reports. -/
inductive BinaryError where
  | markerEof
  | dataEof
  | sliceEof
  /-- A marker the target cannot start from, by its name. -/
  | wrongMarker (name : String)
  | lengthMismatch (n : Nat)
  | utf8 (e : Utf8Error)
  | depthLimit
  | mismatch (m : Mismatch)
  | outOfFuel

/-- The text of a fault. -/
def BinaryError.message : BinaryError → String
  | .markerEof => "IO error while reading marker: failed to fill whole buffer"
  | .dataEof => "IO error while reading data: failed to fill whole buffer"
  | .sliceEof => "IO error while reading data: unexpected end of file"
  | .wrongMarker name => "wrong msgpack marker " ++ name
  | .lengthMismatch n => "array had incorrect length, expected " ++ toString n
  | .utf8 e => "string found to be invalid utf8: " ++ e.message
  | .depthLimit => "depth limit exceeded"
  | .mismatch m => m.message .binary
  | .outOfFuel => "input too complex"

/-- Where a MessagePack reader stands: the bytes not read yet and how many more levels of
nesting are allowed. -/
structure BinCursor where
  rest : List UInt8
  depth : Nat

/-- A MessagePack reader. -/
abbrev BinReader := StateT BinCursor (Except BinaryError)

/-- What a marker announces, with the data of a scalar already read. -/
inductive Head where
  | atom (a : Atom)
  /-- A string whose bytes are not UTF-8. -/
  | badStr (bs : List UInt8) (e : Utf8Error)
  /-- A byte array. -/
  | bin (bs : List UInt8)
  | array (n : Nat)
  | map (n : Nat)
  /-- An extension value with `n` bytes of data after its type byte. -/
  | ext (n : Nat)

/-- How a mismatch describes a head. -/
def Head.unexpected : Head → Unexpected
  | .atom a => a.unexpected
  | .badStr _ _ => .bytes
  | .bin _ => .bytes
  | .array _ => .seq
  | .map _ => .map
  | .ext _ => .newtypeStruct

namespace BinReader

/-- A fault. -/
def fail (e : BinaryError) : BinReader α := throw e

/-- A mismatch between the value and its target. -/
def mismatch (m : Mismatch) : BinReader α := throw (.mismatch m)

/-- Lifts a target's verdict. -/
def ofExcept (r : Except Mismatch α) : BinReader α :=
  match r with
  | .ok a => pure a
  | .error m => mismatch m

/-- The next byte, not consumed. -/
def peek : BinReader (Option UInt8) := return (← get).rest.head?

/-- The first `n` bytes and the rest, if there are `n`. -/
def splitExact : Nat → List UInt8 → Option (List UInt8 × List UInt8)
  | 0, r => some ([], r)
  | _ + 1, [] => none
  | n + 1, b :: r => (splitExact n r).map fun (a, rest) => (b :: a, rest)

/-- Consumes `n` bytes, failing with `e` if fewer are left. -/
def take (n : Nat) (e : BinaryError) : BinReader (List UInt8) := do
  let c ← get
  match splitExact n c.rest with
  | none => fail e
  | some (bs, rest) =>
    set { c with rest := rest }
    pure bs

/-- A big-endian unsigned number. -/
def beNat (bs : List UInt8) : Nat := bs.foldl (fun acc b => acc * 256 + b.toNat) 0

/-- A big-endian field of `n` bytes. -/
def field (n : Nat) : BinReader Nat := beNat <$> take n .dataEof

/-- A big-endian two's-complement field of `n` bytes. -/
def signedField (n : Nat) : BinReader Int := do
  let v ← field n
  pure (if v ≥ Nat.pow 2 (8 * n - 1) then (v : Int) - (Nat.pow 2 (8 * n) : Nat) else v)

/-- The atom or error of a string body. -/
def strHead (n : Nat) : BinReader Head := do
  let bs ← take n .sliceEof
  match Utf8.decode bs with
  | .ok s => pure (.atom (.str s))
  | .error e => pure (.badStr bs e)

/-- Reads a marker and the data of a scalar, or the length of a container. -/
def readHead : BinReader Head := do
  let m ← match (← take 1 .markerEof) with
    | [m] => pure m
    | _ => fail .markerEof
  let n := m.toNat
  if n < 0x80 then pure (.atom (.unsigned n))
  else if n < 0x90 then pure (.map (n - 0x80))
  else if n < 0xa0 then pure (.array (n - 0x90))
  else if n < 0xc0 then strHead (n - 0xa0)
  else if n ≥ 0xe0 then pure (.atom (.signed ((n : Int) - 256)))
  else match n with
    | 0xc0 => pure (.atom .unit)
    | 0xc2 => pure (.atom (.bool false))
    | 0xc3 => pure (.atom (.bool true))
    | 0xc4 => do let len ← field 1; pure (.bin (← take len .sliceEof))
    | 0xc5 => do let len ← field 2; pure (.bin (← take len .sliceEof))
    | 0xc6 => do let len ← field 4; pure (.bin (← take len .sliceEof))
    | 0xc7 => do let len ← field 1; pure (.ext len)
    | 0xc8 => do let len ← field 2; pure (.ext len)
    | 0xc9 => do let len ← field 4; pure (.ext len)
    | 0xca => do
      let bits ← field 4
      pure (.atom (.float (Float32.ofBits (UInt32.ofNat bits)).toFloat))
    | 0xcb => do
      let bits ← field 8
      pure (.atom (.float (Float.ofBits (UInt64.ofNat bits))))
    | 0xcc => do pure (.atom (.unsigned (← field 1)))
    | 0xcd => do pure (.atom (.unsigned (← field 2)))
    | 0xce => do pure (.atom (.unsigned (← field 4)))
    | 0xcf => do pure (.atom (.unsigned (← field 8)))
    | 0xd0 => do pure (.atom (.signed (← signedField 1)))
    | 0xd1 => do pure (.atom (.signed (← signedField 2)))
    | 0xd2 => do pure (.atom (.signed (← signedField 4)))
    | 0xd3 => do pure (.atom (.signed (← signedField 8)))
    | 0xd4 => pure (.ext 1)
    | 0xd5 => pure (.ext 2)
    | 0xd6 => pure (.ext 4)
    | 0xd7 => pure (.ext 8)
    | 0xd8 => pure (.ext 16)
    | 0xd9 => do strHead (← field 1)
    | 0xda => do strHead (← field 2)
    | 0xdb => do strHead (← field 4)
    | 0xdc => do pure (.array (← field 2))
    | 0xdd => do pure (.array (← field 4))
    | 0xde => do pure (.map (← field 2))
    | 0xdf => do pure (.map (← field 4))
    | _ => fail (.wrongMarker "Reserved")

/-- The name of a marker byte. -/
def markerName (m : Nat) : String :=
  if m < 0x80 then "FixPos(" ++ toString m ++ ")"
  else if m < 0x90 then "FixMap(" ++ toString (m - 0x80) ++ ")"
  else if m < 0xa0 then "FixArray(" ++ toString (m - 0x90) ++ ")"
  else if m < 0xc0 then "FixStr(" ++ toString (m - 0xa0) ++ ")"
  else if m ≥ 0xe0 then "FixNeg(" ++ toString ((m : Int) - 256) ++ ")"
  else
    let names := ["Null", "Reserved", "False", "True", "Bin8", "Bin16", "Bin32", "Ext8", "Ext16",
      "Ext32", "F32", "F64", "U8", "U16", "U32", "U64", "I8", "I16", "I32", "I64", "FixExt1",
      "FixExt2", "FixExt4", "FixExt8", "FixExt16", "Str8", "Str16", "Str32", "Array16", "Array32",
      "Map16", "Map32"]
    names.getD (m - 0xc0) "Reserved"

/-- Whether a number can start from a marker: a number, nil or a boolean. -/
def numberMarker (m : Nat) : Bool :=
  m < 0x80 || m ≥ 0xe0 || m = 0xc0 || m = 0xc2 || m = 0xc3 || (0xca ≤ m && m ≤ 0xd3)

/-- Reads the head of a value whose target is a number. Any other marker is refused by its
name alone, before anything after it is read. -/
def readNumberHead : BinReader Head := do
  match ← peek with
  | some m =>
    if numberMarker m.toNat then readHead
    else do
      let _ ← take 1 .markerEof
      fail (.wrongMarker (markerName m.toNat))
  | none => readHead

/-- Runs `body` one nesting level deeper, failing at the limit. -/
def nested (body : BinReader α) : BinReader α := do
  let c ← get
  if c.depth ≤ 1 then fail .depthLimit
  set { c with depth := c.depth - 1 }
  let a ← body
  modify fun c => { c with depth := c.depth + 1 }
  pure a

/-- Refuses a head as the wrong type for `expected`: a string that is not UTF-8 is reported
as such, and a container is entered (counting towards the nesting limit) before it is refused. -/
def refuse (h : Head) (expected : String) : BinReader α :=
  match h with
  | .badStr _ e => fail (.utf8 e)
  | .array _ | .map _ | .ext _ => nested (mismatch (.invalidType h.unexpected expected))
  | _ => mismatch (.invalidType h.unexpected expected)

/-- Runs a reader over bytes; what follows the value is ignored. -/
def run (r : Nat → BinReader α) (input : List UInt8) : Except BinaryError α :=
  (r (input.length + 2100)).run' ⟨input, 1024⟩

end BinReader

end OrderedState
