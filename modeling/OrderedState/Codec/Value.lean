import OrderedState.Json.Basic
import OrderedState.Text.Quoted

/-!
# Typed values

State holds values of a declared type. `ValueType` names the types a state may be declared
with; `Value` is a value of one of them. Integers are kept as `Int`/`Nat` within the range of
their type, which every reader checks.

A `pairMap` is a map from integer sequences to integers, kept sorted by key in the order of
sequences (element by element, a proper prefix first) with each key once; `PairMap.insert`
replaces the value of a key already present, so the later of two entries wins.

`Value.toJson` is how a value is shown in answers: records as objects, a `pairMap` as the list
of its `[key, value]` pairs in key order, and a non-finite float as `null`.
-/

namespace OrderedState

/-- The types a state's values may be declared with. -/
inductive ValueType where
  | i64 | u32 | u8 | f64 | bool | string | json | optI64 | vecI64 | window | pairMap
  deriving DecidableEq, Repr

namespace ValueType

/-- The type with a given declaration name. -/
def ofName? : String → Option ValueType
  | "i64" => some .i64
  | "u32" => some .u32
  | "u8" => some .u8
  | "f64" => some .f64
  | "bool" => some .bool
  | "string" => some .string
  | "json" => some .json
  | "opt_i64" => some .optI64
  | "vec_i64" => some .vecI64
  | "window" => some .window
  | "pair_map" => some .pairMap
  | _ => none

/-- The types a map's user keys may have. -/
def isKeyType : ValueType → Bool
  | .string | .i64 | .json | .window => true
  | _ => false

end ValueType

/-- Sequence order on integer lists: element by element, a proper prefix first. -/
def seqLt : List Int → List Int → Bool
  | [], [] => false
  | [], _ :: _ => true
  | _ :: _, [] => false
  | a :: as, b :: bs => if a < b then true else if b < a then false else seqLt as bs

namespace PairMap

/-- Inserts an entry into a key-sorted entry list, replacing the value of an equal key. -/
def insert (k : List Int) (v : Int) : List (List Int × Int) → List (List Int × Int)
  | [] => [(k, v)]
  | (k', v') :: rest =>
    if seqLt k k' then (k, v) :: (k', v') :: rest
    else if k = k' then (k, v) :: rest
    else (k', v') :: insert k v rest

/-- The map of a list of entries; of two entries with one key the later wins. -/
def ofList (entries : List (List Int × Int)) : List (List Int × Int) :=
  entries.foldl (fun acc (k, v) => insert k v acc) []

end PairMap

/-- A value of one of the declarable types. -/
inductive Value where
  | i64 (n : Int)
  | u32 (n : Nat)
  | u8 (n : Nat)
  | f64 (x : Float)
  | bool (b : Bool)
  | string (s : String)
  | json (j : Json)
  | optI64 (n : Option Int)
  | vecI64 (xs : List Int)
  /-- A window `{start, end}`. -/
  | window (start stop : Int)
  /-- A map from integer sequences to integers, sorted by key. -/
  | pairMap (entries : List (List Int × Int))

namespace Value

/-- A float as a document: a number when finite, else `null`. -/
def floatJson (x : Float) : Json := if x.isFinite then .number (.float x) else .null

/-- How a value is shown in answers. -/
def toJson : Value → Json
  | .i64 n => Json.int n
  | .u32 n => Json.nat n
  | .u8 n => Json.nat n
  | .f64 x => floatJson x
  | .bool b => .bool b
  | .string s => .string s
  | .json j => j
  | .optI64 none => .null
  | .optI64 (some n) => Json.int n
  | .vecI64 xs => .array (xs.map Json.int)
  | .window a b => Json.mkObject [("start", Json.int a), ("end", Json.int b)]
  | .pairMap entries => .array (entries.map fun (k, v) => .array [.array (k.map Json.int), Json.int v])

end Value

/-- The types a namespace may be declared with. -/
inductive NamespaceType where
  | void | string | i64
  deriving DecidableEq, Repr

/-- A namespace: the one value of the void type, a string or an integer. -/
inductive Namespace where
  | void
  | string (s : String)
  | i64 (n : Int)
  deriving DecidableEq, Repr

namespace Namespace

/-- A namespace as shown in a handle's description: `VoidNamespace`, a quoted string, or the
integer. -/
def describe : Namespace → String
  | .void => "VoidNamespace"
  | .string s => quoteDescribed s
  | .i64 n => toString n

end Namespace

end OrderedState
