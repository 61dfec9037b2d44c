import OrderedState.Codec.Value
import OrderedState.Msgpack.Writer
import OrderedState.Msgpack.Reader

/-!
# Values as MessagePack

`Value.encodeMsgpack` writes a value in the compact MessagePack forms of `Msgpack`: a window as
the array `[start, end]`, an absent optional as nil and a present one as its integer, a
`pairMap` as a map from integer arrays to integers in key order, and a JSON document with its
objects as maps in key order. Every value has an encoding.

`ValueType.decodeMsgpack` reads a value of a type. Integers of any width are taken by range,
floats of either width, and a window from its two-element array, from a map of its fields
(named, or numbered 0 and 1) or from a byte array of at least two bytes. Bytes after the value
are ignored.
-/

namespace OrderedState

namespace Json

mutual
/-- A document in MessagePack. -/
def msgpack : Json → List UInt8
  | .null => Msgpack.nil
  | .bool b => Msgpack.bool b
  | .number (.posInt n) => Msgpack.uint n.toNat
  | .number (.negInt n) => Msgpack.int n.toInt
  | .number (.float x) => Msgpack.float x
  | .string s => Msgpack.str s
  | .array items => Msgpack.arrayHeader items.length ++ msgpackItems items
  | .object fields => Msgpack.mapHeader fields.length ++ msgpackFields fields

/-- Array items in MessagePack. -/
def msgpackItems : List Json → List UInt8
  | [] => []
  | j :: rest => msgpack j ++ msgpackItems rest

/-- Object fields in MessagePack, each key as a string. -/
def msgpackFields : List (String × Json) → List UInt8
  | [] => []
  | (k, v) :: rest => Msgpack.str k ++ msgpack v ++ msgpackFields rest
end

end Json

namespace Value

/-- An integer array in MessagePack. -/
def intArray (xs : List Int) : List UInt8 :=
  Msgpack.arrayHeader xs.length ++ xs.flatMap Msgpack.int

/-- The MessagePack encoding of a value. -/
def encodeMsgpack : Value → List UInt8
  | .i64 n => Msgpack.int n
  | .u32 n => Msgpack.uint n
  | .u8 n => Msgpack.uint n
  | .f64 x => Msgpack.float x
  | .bool b => Msgpack.bool b
  | .string s => Msgpack.str s
  | .json j => j.msgpack
  | .optI64 none => Msgpack.nil
  | .optI64 (some n) => Msgpack.int n
  | .vecI64 xs => intArray xs
  | .window a b => Msgpack.arrayHeader 2 ++ Msgpack.int a ++ Msgpack.int b
  | .pairMap entries =>
    Msgpack.mapHeader entries.length ++ entries.flatMap fun (k, v) => intArray k ++ Msgpack.int v

end Value

namespace BinReader

/-- An integer of target `t`; a marker that starts no number is refused by its name. -/
def readInt (t : IntTarget) : BinReader Int := do
  let h ← readNumberHead
  match h with
  | .atom a => ofExcept (t.accept a)
  | _ => refuse h t.name

/-- A float; integers are converted, and a marker that starts no number is refused by its
name. -/
def readFloat : BinReader Float := do
  let h ← readNumberHead
  match h with
  | .atom a => ofExcept (acceptFloat a)
  | _ => refuse h "f64"

/-- A boolean; as for a number, a marker that starts no number, nil or boolean is refused by
its name. -/
def readBool : BinReader Bool := do
  let h ← readNumberHead
  match h with
  | .atom a => ofExcept (acceptBool a)
  | _ => refuse h "a boolean"

/-- A string; a byte array is taken when it is UTF-8. -/
def readStr : BinReader String := do
  let h ← readHead
  match h with
  | .atom (.str s) => pure s
  | .bin bs =>
    match Utf8.decode bs with
    | .ok s => pure s
    | .error _ => mismatch (.invalidValue .bytes "a string")
  | _ => refuse h "a string"

/-- A scalar as a document; a non-finite float is `null`. -/
def atomJson : Atom → Json
  | .unsigned n => .number (.posInt (UInt64.ofNat n))
  | .signed n => Json.int n
  | .float x => if x.isFinite then .number (.float x) else .null
  | .bool b => .bool b
  | .str s => .string s
  | .bytes _ => .null
  | .unit => .null

/-- A map key of a document, which must be a string. -/
def readKey : BinReader String := do
  let h ← readHead
  match h with
  | .atom (.str s) => pure s
  | _ => refuse h "a string key"

mutual
/-- A document. -/
def readJson (fuel : Nat) : BinReader Json := do
  match fuel with
  | 0 => fail .outOfFuel
  | fuel + 1 =>
    let h ← readHead
    match h with
    | .atom a => pure (atomJson a)
    | .array n => nested (jsonItems fuel n [])
    | .map n => nested (jsonFields fuel n true [])
    | _ => refuse h "any valid JSON value"

/-- `n` array items of a document. -/
def jsonItems (fuel n : Nat) (acc : List Json) : BinReader Json := do
  match fuel, n with
  | _, 0 => pure (.array acc.reverse)
  | 0, _ + 1 => fail .outOfFuel
  | fuel + 1, n + 1 =>
    let j ← readJson fuel
    jsonItems fuel n (j :: acc)

/-- `n` object fields of a document; a later duplicate wins. The first key must be a string
key; a later one is read as a string, so a byte array of UTF-8 is taken there. -/
def jsonFields (fuel n : Nat) (first : Bool) (acc : List (String × Json)) : BinReader Json := do
  match fuel, n with
  | _, 0 => pure (.object acc)
  | 0, _ + 1 => fail .outOfFuel
  | fuel + 1, n + 1 =>
    let k ← if first then readKey else readStr
    let v ← readJson fuel
    jsonFields fuel n false (Json.insertField k v acc)
end

/-- `n` integers. -/
def ints (fuel n : Nat) (acc : List Int) : BinReader (List Int) := do
  match fuel, n with
  | _, 0 => pure acc.reverse
  | 0, _ + 1 => fail .outOfFuel
  | fuel + 1, n + 1 =>
    let x ← readInt IntTarget.i64
    ints fuel n (x :: acc)

/-- An integer sequence: an array, or a byte array read as its bytes. -/
def readInts (fuel : Nat) : BinReader (List Int) := do
  let h ← readHead
  match h with
  | .array n => nested (ints fuel n [])
  | .bin bs => pure (bs.map fun b => (b.toNat : Int))
  | _ => refuse h "a sequence"

/-- Skips a value of any kind. -/
def skipAny (fuel : Nat) : BinReader Unit := do
  match fuel with
  | 0 => fail .outOfFuel
  | fuel + 1 =>
    let h ← readHead
    match h with
    | .array n => nested (skipMany fuel n)
    | .map n => nested (skipMany fuel (2 * n))
    | .ext n => nested do
      let _ ← take 1 .dataEof
      let _ ← take n .sliceEof
      pure ()
    | _ => pure ()
where
  /-- Skips `n` values. -/
  skipMany (fuel n : Nat) : BinReader Unit := do
    match fuel, n with
    | _, 0 => pure ()
    | 0, _ + 1 => fail .outOfFuel
    | fuel + 1, n + 1 => do skipAny fuel; skipMany fuel n

/-- Which field of a window a map key names, if any. -/
def windowField : BinReader (Option Bool) := do
  let h ← readHead
  match h with
  | .atom (.str "start") => pure (some true)
  | .atom (.str "end") => pure (some false)
  | .atom (.str _) => pure none
  | .atom (.unsigned 0) => pure (some true)
  | .atom (.unsigned 1) => pure (some false)
  | .atom (.unsigned _) => pure none
  | .bin bs =>
    if bs = "start".toUTF8.toList then pure (some true)
    else if bs = "end".toUTF8.toList then pure (some false)
    else pure none
  | .badStr _ _ => pure none
  | _ => refuse h "field identifier"

/-- `n` fields of a window given as a map. -/
def windowFields (fuel n : Nat) (start stop : Option Int) : BinReader Value := do
  match fuel, n with
  | _, 0 =>
    match start, stop with
    | none, _ => mismatch (.missingField "start")
    | _, none => mismatch (.missingField "end")
    | some a, some b => pure (.window a b)
  | 0, _ + 1 => fail .outOfFuel
  | fuel + 1, n + 1 =>
    match ← windowField with
    | some true =>
      if start.isSome then mismatch (.duplicateField "start")
      let a ← readInt IntTarget.i64
      windowFields fuel n (some a) stop
    | some false =>
      if stop.isSome then mismatch (.duplicateField "end")
      let b ← readInt IntTarget.i64
      windowFields fuel n start (some b)
    | none =>
      skipAny fuel
      windowFields fuel n start stop

/-- A window, from its two-element array, a map of its fields, or a byte array whose first two
bytes are its fields. -/
def readWindow (fuel : Nat) : BinReader Value := do
  let expected := "struct Window with 2 elements"
  let h ← readHead
  match h with
  | .array n => nested do
    if n = 0 then mismatch (.invalidLength 0 expected)
    let a ← readInt IntTarget.i64
    if n = 1 then mismatch (.invalidLength 1 expected)
    let b ← readInt IntTarget.i64
    if n > 2 then fail (.lengthMismatch 2)
    pure (.window a b)
  | .map n => nested (windowFields fuel n none none)
  | .bin bs =>
    match bs with
    | [] => mismatch (.invalidLength 0 expected)
    | [_] => mismatch (.invalidLength 1 expected)
    | a :: b :: _ => pure (.window a.toNat b.toNat)
  | _ => refuse h "struct Window"

/-- `n` entries of a `pairMap`; a later duplicate wins. -/
def pairEntries (fuel n : Nat) (acc : List (List Int × Int)) : BinReader Value := do
  match fuel, n with
  | _, 0 => pure (.pairMap acc)
  | 0, _ + 1 => fail .outOfFuel
  | fuel + 1, n + 1 =>
    let k ← readInts fuel
    let v ← readInt IntTarget.i64
    pairEntries fuel n (PairMap.insert k v acc)

/-- A value of type `t`. -/
def readValue (fuel : Nat) : ValueType → BinReader Value
  | .i64 => .i64 <$> readInt IntTarget.i64
  | .u32 => (fun n => .u32 n.toNat) <$> readInt IntTarget.u32
  | .u8 => (fun n => .u8 n.toNat) <$> readInt IntTarget.u8
  | .f64 => .f64 <$> readFloat
  | .bool => .bool <$> readBool
  | .string => .string <$> readStr
  | .json => .json <$> readJson fuel
  | .optI64 => do
    match ← peek with
    | some 0xc0 => do let _ ← take 1 .markerEof; pure (.optI64 none)
    | _ => (fun n => .optI64 (some n)) <$> readInt IntTarget.i64
  | .vecI64 => .vecI64 <$> readInts fuel
  | .window => readWindow fuel
  | .pairMap => do
    let h ← readHead
    match h with
    | .map n => nested (pairEntries fuel n [])
    | _ => refuse h "a map"

end BinReader

namespace ValueType

/-- Reads a value of this type from MessagePack, or gives the text of the fault. -/
def decodeMsgpack (t : ValueType) (input : List UInt8) : Except String Value :=
  (BinReader.run (fun fuel => BinReader.readValue fuel t) input).mapError (·.message)

end ValueType

end OrderedState
