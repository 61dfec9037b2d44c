import OrderedState.Request.Payload
import OrderedState.Codec.Format
import OrderedState.Json.Text

/-!
# Queries as JSON documents

The library answers queries written as JSON documents. An answer is `{"result": R}` or
`{"error": KIND, "message": TEXT}`, where `KIND` names a `StateError` kind, or `BadInput` for a
query the library cannot read (a missing field, a field of the wrong type, an unknown name, a
value not of its declared type).

This module holds the vocabulary shared by all queries: failures, reading fields, and the
document forms of payloads and responses (bytes as lowercase hex).
-/

namespace OrderedState

/-- A failed query: the kind of failure and its text. -/
structure Failure where
  kind : String
  message : String
  deriving DecidableEq, Repr

namespace Failure

/-- A query the library cannot read. -/
def badInput (message : String) : Failure := ⟨"BadInput", message⟩

/-- A failure of the library. -/
def ofError (e : StateError) : Failure := ⟨e.kindName, e.message⟩

/-- A fault that stops the whole query at once, as a panic would: no step after it runs and no
answer of an earlier step is shown. -/
def panic (message : String) : Failure := ⟨"Panic", message⟩

/-- Whether a failure stops the whole query. -/
def isPanic (f : Failure) : Bool := f.kind == "Panic"

/-- The fields of a failure in an answer. -/
def fields (f : Failure) : List (String × Json) :=
  [("error", .string f.kind), ("message", .string f.message)]

end Failure

/-- What a query step reads or computes: a value, or the failure that stops it. -/
abbrev Reading := Except Failure

namespace Reading

/-- A library error as a failure. -/
def lift (r : Except StateError α) : Reading α := r.mapError Failure.ofError

/-- A bad-input failure. -/
def bad (message : String) : Reading α := .error (Failure.badInput message)

/-- The document `{"result": r}` or the failure's fields. -/
def answer (r : Reading Json) : Json :=
  match r with
  | .ok j => Json.mkObject [("result", j)]
  | .error f => Json.mkObject f.fields

/-- `{"ok": v}` or the failure's fields. -/
def okOrError (r : Reading Json) : Json :=
  match r with
  | .ok j => Json.mkObject [("ok", j)]
  | .error f => Json.mkObject f.fields

end Reading

/-! ## Fields -/

namespace Json

/-- A required field. -/
def need (j : Json) (k : String) : Reading Json :=
  match j.field? k with
  | some v => .ok v
  | none => Reading.bad ("missing field '" ++ k ++ "'")

/-- A field that must be a string. -/
def needString (j : Json) (k : String) : Reading String := do
  match ← j.need k with
  | .string s => pure s
  | _ => Reading.bad ("field '" ++ k ++ "' must be a string")

/-- A field that must be an array. -/
def needArray (j : Json) (k : String) : Reading (List Json) := do
  match ← j.need k with
  | .array xs => pure xs
  | _ => Reading.bad ("field '" ++ k ++ "' must be an array")

/-- A field that must be an array, named on its own when it is not one: "values must be an
array". Documents of the library (payloads, responses) and the lists of a query read their
arrays this way. -/
def needList (j : Json) (k : String) : Reading (List Json) := do
  match ← j.need k with
  | .array xs => pure xs
  | _ => Reading.bad (k ++ " must be an array")

/-- A field that must be a non-negative integer. -/
def needNat (j : Json) (k : String) : Reading Nat := do
  match (← j.need k).nat? with
  | some n => pure n
  | none => Reading.bad ("field '" ++ k ++ "' must be an unsigned integer")

/-- An optional string field: its text when it is a string, and the default `d` when it is
missing or not a string. -/
def stringOr (j : Json) (k : String) (d : String) : String :=
  match j.field? k with
  | some (.string s) => s
  | _ => d

/-- A key: an unsigned 64-bit integer. -/
def toKey (j : Json) : Reading Nat :=
  match j with
  | .number (.posInt n) => .ok n.toNat
  | _ => Reading.bad "key must be an unsigned integer"

end Json

/-! ## Names -/

/-- The name of a variant without data, written as its name or as an object whose one field is
the name with the value `null`. -/
def variantName? (j : Json) : Option String :=
  match j with
  | .string s => some s
  | .object [(s, .null)] => some s
  | _ => none

/-- A request type by name; anything else is named in the failure as written. -/
def readRequestType (j : Json) : Reading RequestType :=
  match (variantName? j).bind RequestType.ofName? with
  | some rt => .ok rt
  | none => Reading.bad ("unknown request type " ++ j.render)

/-- A state kind by name. -/
def readKind (j : Json) : Reading StateKind :=
  match (variantName? j).bind StateKind.ofName? with
  | some k => .ok k
  | none => Reading.bad ("unknown state kind " ++ j.render)

/-- A payload shape by name. -/
def readShape (j : Json) : Reading PayloadShape :=
  match (variantName? j).bind PayloadShape.ofName? with
  | some k => .ok k
  | none => Reading.bad ("unknown payload shape " ++ j.render)

/-- A value type by name. -/
def readValueType (name : String) : Reading ValueType :=
  match ValueType.ofName? name with
  | some t => .ok t
  | none => Reading.bad ("unknown value type '" ++ name ++ "'")

/-- A wire format by name. -/
def readFormat (name : String) : Reading Format :=
  match Format.ofName? name with
  | some f => .ok f
  | none => Reading.bad ("unknown serializer '" ++ name ++ "'")

/-! ## Bytes, payloads and responses -/

/-- The failure for a hex text that cannot be read; cutting a pair out of the middle of a
character stops the whole query. -/
def hexFailure : Bytes.HexFault → Failure
  | .oddLength => Failure.badInput "odd hex length"
  | .invalidDigit => Failure.badInput "bad hex: invalid digit found in string"
  | .splitChar i c start =>
    Failure.panic ("end byte index " ++ toString i ++ " is not a char boundary; it is inside " ++
      quoteChar c ++ " (bytes " ++ toString start ++ ".." ++ toString (start + c.utf8Size) ++
      " of string)")

/-- Bytes written as hex. -/
def readHex (j : Json) : Reading Bytes :=
  match j with
  | .string s => (Bytes.ofHex s).mapError hexFailure
  | _ => Reading.bad "bytes must be a hex string"

/-- Bytes as a hex string. -/
def hexJson (bs : Bytes) : Json := .string bs.toHex

/-- A `[key, value]` pair of hex strings. -/
def readHexPair (j : Json) : Reading (Bytes × Bytes) :=
  match j with
  | .array [k, v] => do pure (← readHex k, ← readHex v)
  | _ => Reading.bad "entry must be [key, value]"

/-- A payload document. -/
def readPayload (j : Json) : Reading Payload := do
  let t ← j.needString "type"
  match t with
  | "Empty" => pure .empty
  | "Value" => .value <$> readHex (← j.need "value")
  | "Values" => .values <$> (← j.needList "values").mapM readHex
  | "UserKey" => .userKey <$> readHex (← j.need "key")
  | "Entry" => do pure (.entry (← readHex (← j.need "key")) (← readHex (← j.need "value")))
  | "Entries" => .entries <$> (← j.needList "entries").mapM readHexPair
  | other => Reading.bad ("unknown payload type '" ++ other ++ "'")

/-- Entries as `[[key, value]...]` hex pairs. -/
def entriesJson (es : List (Bytes × Bytes)) : Json :=
  .array (es.map fun (k, v) => .array [hexJson k, hexJson v])

/-- A response document. -/
def readResponse (j : Json) : Reading Response := do
  let t ← j.needString "type"
  match t with
  | "Done" => pure .done
  | "Value" =>
    match ← j.need "value" with
    | .null => pure (.value none)
    | v => (fun bs => .value (some bs)) <$> readHex v
  | "Values" => .values <$> (← j.needList "values").mapM readHex
  | "Bool" =>
    match ← j.need "value" with
    | .bool b => pure (.bool b)
    | _ => Reading.bad "value must be a bool"
  | "Entries" => .entries <$> (← j.needList "entries").mapM readHexPair
  | other => Reading.bad ("unknown response type '" ++ other ++ "'")

/-- A response as a document, `{"type": …}` with its fields. -/
def Response.toJson : Response → Json
  | .done => Json.mkObject [("type", .string "Done")]
  | .value v =>
    Json.mkObject [("type", .string "Value"), ("value", (v.map hexJson).getD .null)]
  | .values vs => Json.mkObject [("type", .string "Values"), ("values", .array (vs.map hexJson))]
  | .bool b => Json.mkObject [("type", .string "Bool"), ("value", .bool b)]
  | .entries es => Json.mkObject [("type", .string "Entries"), ("entries", entriesJson es)]

end OrderedState
