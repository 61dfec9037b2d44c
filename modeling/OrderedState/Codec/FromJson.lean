import OrderedState.Codec.Value
import OrderedState.Codec.Mismatch

/-!
# Values from documents

`ValueType.ofJson t j` takes the document `j` as a value of type `t`, or says why it is not one
(in the JSON dialect of `Mismatch`). Integers are taken by range, a float target also takes
integers, a window is taken from an object with its two fields or from an array of exactly
two integers, and a `pairMap` from an array of `[key, value]` pairs, of which the later of two
with one key wins.
-/

namespace OrderedState

namespace Json

/-- How a mismatch describes a document. -/
def unexpected : Json → Unexpected
  | .null => .unit
  | .bool b => .bool b
  | .number (.posInt n) => .unsigned n.toNat
  | .number (.negInt n) => .signed n.toInt
  | .number (.float x) => .float x
  | .string s => .str s
  | .array _ => .seq
  | .object _ => .map

/-- A number as an atom. -/
def numberAtom? : Json → Option Atom
  | .number (.posInt n) => some (.unsigned n.toNat)
  | .number (.negInt n) => some (.signed n.toInt)
  | .number (.float x) => some (.float x)
  | _ => none

/-- An integer of target `t`. -/
def toInt (t : IntTarget) (j : Json) : Except Mismatch Int :=
  match j.numberAtom? with
  | some a => t.accept a
  | none => .error (.invalidType j.unexpected t.name)

/-- Integers of an array, the first failure winning. -/
def toInts (js : List Json) : Except Mismatch (List Int) := js.mapM (toInt IntTarget.i64)

/-- An integer array. -/
def toIntArray (j : Json) : Except Mismatch (List Int) :=
  match j with
  | .array js => toInts js
  | _ => .error (.invalidType j.unexpected "a sequence")

/-- A window from the fields of an object, visited in key order. -/
def windowOfFields (fields : List (String × Json)) : Except Mismatch Value := do
  let step (acc : Option Int × Option Int) (f : String × Json) :
      Except Mismatch (Option Int × Option Int) :=
    match f.1 with
    | "start" => do let a ← toInt IntTarget.i64 f.2; pure (some a, acc.2)
    | "end" => do let b ← toInt IntTarget.i64 f.2; pure (acc.1, some b)
    | _ => pure acc
  let (start, stop) ← fields.foldlM step (none, none)
  match start, stop with
  | none, _ => .error (.missingField "start")
  | _, none => .error (.missingField "end")
  | some a, some b => pure (.window a b)

/-- A window from an array of its two fields. -/
def windowOfItems (js : List Json) : Except Mismatch Value := do
  let expected := "struct Window with 2 elements"
  match js with
  | [] => .error (.invalidLength 0 expected)
  | [a] => do let _ ← toInt IntTarget.i64 a; .error (.invalidLength 1 expected)
  | a :: b :: rest => do
    let x ← toInt IntTarget.i64 a
    let y ← toInt IntTarget.i64 b
    if rest.isEmpty then pure (.window x y)
    else .error (.invalidLength js.length "fewer elements in array")

/-- One `[key, value]` pair of a `pairMap`. -/
def toPair (j : Json) : Except Mismatch (List Int × Int) :=
  let expected := "a tuple of size 2"
  match j with
  | .array [] => .error (.invalidLength 0 expected)
  | .array [k] => do let _ ← toIntArray k; .error (.invalidLength 1 expected)
  | .array (k :: v :: rest) => do
    let ks ← toIntArray k
    let x ← toInt IntTarget.i64 v
    if rest.isEmpty then pure (ks, x)
    else .error (.invalidLength (rest.length + 2) "fewer elements in array")
  | _ => .error (.invalidType j.unexpected expected)

end Json

namespace ValueType

/-- The document as a value of this type. -/
def ofJson (t : ValueType) (j : Json) : Except Mismatch Value :=
  match t with
  | .i64 => .i64 <$> j.toInt IntTarget.i64
  | .u32 => (fun n => .u32 n.toNat) <$> j.toInt IntTarget.u32
  | .u8 => (fun n => .u8 n.toNat) <$> j.toInt IntTarget.u8
  | .f64 =>
    match j.numberAtom? with
    | some a => .f64 <$> acceptFloat a
    | none => .error (.invalidType j.unexpected "f64")
  | .bool =>
    match j with
    | .bool b => .ok (.bool b)
    | _ => .error (.invalidType j.unexpected "a boolean")
  | .string =>
    match j with
    | .string s => .ok (.string s)
    | _ => .error (.invalidType j.unexpected "a string")
  | .json => .ok (.json j)
  | .optI64 =>
    match j with
    | .null => .ok (.optI64 none)
    | _ => (fun n => .optI64 (some n)) <$> j.toInt IntTarget.i64
  | .vecI64 => .vecI64 <$> j.toIntArray
  | .window =>
    match j with
    | .object fields => Json.windowOfFields fields
    | .array js => Json.windowOfItems js
    | _ => .error (.invalidType j.unexpected "struct Window")
  | .pairMap =>
    match j with
    | .array js => (fun ps => .pairMap (PairMap.ofList ps)) <$> js.mapM Json.toPair
    | _ => .error (.invalidType j.unexpected "a sequence")

end ValueType

namespace NamespaceType

/-- The name of a namespace type in declarations. -/
def ofName? : String → Option NamespaceType
  | "void" => some .void
  | "string" => some .string
  | "i64" => some .i64
  | _ => none

/-- The document as a namespace of this type. -/
def ofJson (t : NamespaceType) (j : Json) : Except Mismatch Namespace :=
  match t with
  | .void =>
    match j with
    | .null => .ok .void
    | _ => .error (.invalidType j.unexpected "unit struct VoidNamespace")
  | .string =>
    match j with
    | .string s => .ok (.string s)
    | _ => .error (.invalidType j.unexpected "a string")
  | .i64 => .i64 <$> j.toInt IntTarget.i64

end NamespaceType

end OrderedState
