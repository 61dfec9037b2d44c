import OrderedState.Codec.Value
import OrderedState.Json.Reader
import OrderedState.Json.Text

/-!
# Values as JSON text

`Value.encodeJson` writes a value as compact JSON text: integers in full, floats in
`Layout.json` (non-finite ones as `null`), a window as `{"start":…,"end":…}` in that field
order, and a `pairMap` as an object, which is possible only when it is empty (`{}`): its keys
are sequences and an object key must be a string.

`ValueType.decodeJson` reads a value of a type from JSON text, reporting the first fault with
its position. A window is read from an object (fields in any order, unknown fields skipped, a
field twice refused) or from an array of its two fields.
-/

namespace OrderedState

namespace Value

/-- A list of texts, comma-separated in brackets. -/
def bracket (open_ close : String) (items : List String) : String :=
  open_ ++ ",".intercalate items ++ close

/-- The JSON text of a value, or why it has none. -/
def jsonText : Value → Except String String
  | .i64 n => .ok (toString n)
  | .u32 n => .ok (toString n)
  | .u8 n => .ok (toString n)
  | .f64 x => .ok (floatJson x).render
  | .bool b => .ok (Json.bool b).render
  | .string s => .ok (quoteJson s)
  | .json j => .ok j.render
  | .optI64 none => .ok "null"
  | .optI64 (some n) => .ok (toString n)
  | .vecI64 xs => .ok (bracket "[" "]" (xs.map toString))
  | .window a b => .ok ("\x7b\"start\":" ++ toString a ++ ",\"end\":" ++ toString b ++ "\x7d")
  | .pairMap [] => .ok "\x7b\x7d"
  | .pairMap (_ :: _) => .error "key must be a string"

/-- The JSON encoding of a value, or why it has none. -/
def encodeJson (v : Value) : Except String (List UInt8) :=
  v.jsonText.map fun s => s.toUTF8.toList

end Value

namespace JsonReader

/-- A number handed to `visit`; any other value is the wrong type for `expected`. -/
def readNumber (fuel : Nat) (expected : String) (visit : Atom → Except Mismatch α) :
    JsonReader α :=
  fixPosition do
    match ← skipBlank with
    | none => failPeek .eofValue
    | some 45 =>
      eat
      let a ← readInteger fuel false
      ofExcept (visit a)
    | some b =>
      if isDigit b then
        let a ← readInteger fuel true
        ofExcept (visit a)
      else invalidType fuel expected

/-- A boolean. -/
def readBool (fuel : Nat) : JsonReader Bool :=
  fixPosition do
    match ← skipBlank with
    | none => failPeek .eofValue
    | some 116 => eat; expectIdent (bytesOf "rue"); pure true
    | some 102 => eat; expectIdent (bytesOf "alse"); pure false
    | some _ => invalidType fuel "a boolean"

/-- A string. -/
def readStr (fuel : Nat) : JsonReader String :=
  fixPosition do
    match ← skipBlank with
    | none => failPeek .eofValue
    | some 34 => eat; readString fuel
    | some _ => invalidType fuel "a string"

/-- An array, its items read by `body`; any other value is the wrong type for `expected`. -/
def readSeq (fuel : Nat) (expected : String) (body : JsonReader α) : JsonReader α :=
  fixPosition do
    match ← skipBlank with
    | none => failPeek .eofValue
    | some 91 => bracketed body endArray
    | some _ => invalidType fuel expected

/-- An object, its fields read by `body`. -/
def readMap (fuel : Nat) (expected : String) (body : JsonReader α) : JsonReader α :=
  fixPosition do
    match ← skipBlank with
    | none => failPeek .eofValue
    | some 123 => bracketed body endObject
    | some _ => invalidType fuel expected

/-- A record, from an array of its fields (`seqBody`) or an object (`mapBody`). -/
def readRecord (fuel : Nat) (expected : String) (seqBody mapBody : JsonReader α) :
    JsonReader α :=
  fixPosition do
    match ← skipBlank with
    | none => failPeek .eofValue
    | some 91 => bracketed seqBody endArray
    | some 123 => bracketed mapBody endObject
    | some _ => invalidType fuel expected

/-- Items of an integer array. -/
def intItems (fuel : Nat) (first : Bool) (acc : List Int) : JsonReader (List Int) := do
  match fuel with
  | 0 => fail .outOfFuel
  | fuel + 1 =>
    if ← hasNextElement first then
      let n ← readNumber fuel "i64" IntTarget.i64.accept
      intItems fuel false (n :: acc)
    else pure acc.reverse

/-- The two fields of a window given as an array. -/
def windowSeq (fuel : Nat) : JsonReader Value := do
  let expected := "struct Window with 2 elements"
  if !(← hasNextElement true) then mismatch (.invalidLength 0 expected)
  let a ← readNumber fuel "i64" IntTarget.i64.accept
  if !(← hasNextElement false) then mismatch (.invalidLength 1 expected)
  let b ← readNumber fuel "i64" IntTarget.i64.accept
  pure (.window a b)

/-- The fields of a window given as an object. -/
def windowFields (fuel : Nat) (first : Bool) (start stop : Option Int) : JsonReader Value := do
  match fuel with
  | 0 => fail .outOfFuel
  | fuel + 1 =>
    match ← nextKey fuel first with
    | none =>
      match start, stop with
      | none, _ => mismatch (.missingField "start")
      | _, none => mismatch (.missingField "end")
      | some a, some b => pure (.window a b)
    | some "start" =>
      if start.isSome then mismatch (.duplicateField "start")
      colon
      let a ← readNumber fuel "i64" IntTarget.i64.accept
      windowFields fuel false (some a) stop
    | some "end" =>
      if stop.isSome then mismatch (.duplicateField "end")
      colon
      let b ← readNumber fuel "i64" IntTarget.i64.accept
      windowFields fuel false start (some b)
    | some _ =>
      colon
      skipValue fuel
      windowFields fuel false start stop

/-- The entries of a `pairMap` given as an object: its keys are strings, never sequences, so
only the empty object is one. -/
def pairFields (fuel : Nat) : JsonReader Value := do
  match ← nextKey fuel true with
  | none => pure (.pairMap [])
  | some k => mismatch (.invalidType (.str k) "a sequence")

/-- A value of type `t`. -/
def readValue (fuel : Nat) : ValueType → JsonReader Value
  | .i64 => .i64 <$> readNumber fuel "i64" IntTarget.i64.accept
  | .u32 => (fun n => .u32 n.toNat) <$> readNumber fuel "u32" IntTarget.u32.accept
  | .u8 => (fun n => .u8 n.toNat) <$> readNumber fuel "u8" IntTarget.u8.accept
  | .f64 => .f64 <$> readNumber fuel "f64" acceptFloat
  | .bool => .bool <$> readBool fuel
  | .string => .string <$> readStr fuel
  | .json => .json <$> readAny fuel
  | .optI64 => do
    match ← skipBlank with
    | some 110 => eat; expectIdent (bytesOf "ull"); pure (.optI64 none)
    | _ => (fun n => .optI64 (some n)) <$> readNumber fuel "i64" IntTarget.i64.accept
  | .vecI64 => .vecI64 <$> readSeq fuel "a sequence" (intItems fuel true [])
  | .window => readRecord fuel "struct Window" (windowSeq fuel) (windowFields fuel true none none)
  | .pairMap => readMap fuel "a map" (pairFields fuel)

end JsonReader

namespace ValueType

/-- Reads a value of this type from JSON text, or gives the text of the first fault. -/
def decodeJson (t : ValueType) (input : List UInt8) : Except String Value :=
  (JsonReader.runAll (fun fuel => JsonReader.readValue fuel t) input).mapError (·.message input)

end ValueType

end OrderedState
