/-!
# JSON documents

The JSON data model used throughout the library: requests arrive as JSON, values of the
`json` value type are JSON, and answers are JSON.

A number keeps the three forms a reader distinguishes: a non-negative integer that fits in
64 bits, a negative integer that fits in 64 bits, and a finite binary64 float. An integer
outside both ranges is read as a float, and a float literal stays a float even when it is
integral (`1e3` is the float `1000.0`, never the integer `1000`).

An object holds its fields sorted by key, each key once: `Json.insertField` replaces the value
of a key already present, so of two fields with one key the later wins.
-/

namespace OrderedState

/-- A JSON number in one of the three forms a reader produces. -/
inductive JsonNumber where
  /-- A non-negative integer. -/
  | posInt (n : UInt64)
  /-- A negative integer. -/
  | negInt (n : Int64)
  /-- A finite float. -/
  | float (x : Float)

/-- A JSON value. Objects keep their fields sorted by key with no key twice. -/
inductive Json where
  | null
  | bool (b : Bool)
  | number (n : JsonNumber)
  | string (s : String)
  | array (items : List Json)
  | object (fields : List (String × Json))

namespace Json

/-- The non-negative integer `n`, which must be below 2^64 to keep its value. -/
def nat (n : Nat) : Json := .number (.posInt (UInt64.ofNat n))

/-- The integer `n` in the form a reader gives it: non-negative integers as `posInt`,
negative ones as `negInt`. -/
def int (n : Int) : Json :=
  if n < 0 then .number (.negInt (Int64.ofInt n)) else .number (.posInt (UInt64.ofNat n.toNat))

/-- Inserts a field into a sorted field list, replacing the value of an equal key. -/
def insertField (k : String) (v : Json) : List (String × Json) → List (String × Json)
  | [] => [(k, v)]
  | (k', v') :: rest =>
    if k < k' then (k, v) :: (k', v') :: rest
    else if k = k' then (k, v) :: rest
    else (k', v') :: insertField k v rest

/-- An object from fields in any order; of two fields with one key the later wins. -/
def mkObject (fields : List (String × Json)) : Json :=
  .object (fields.foldl (fun acc (k, v) => insertField k v acc) [])

/-- The value of field `k`, if the value is an object that has it. -/
def field? (j : Json) (k : String) : Option Json :=
  match j with
  | .object fields => fields.lookup k
  | _ => none

/-- Whether the value is `null`. -/
def isNull : Json → Bool
  | .null => true
  | _ => false

/-- The value as a natural number, if it is a non-negative integer. -/
def nat? : Json → Option Nat
  | .number (.posInt n) => some n.toNat
  | _ => none

/-- The value as an integer, if it is an integer of either form. -/
def int? : Json → Option Int
  | .number (.posInt n) => some n.toNat
  | .number (.negInt n) => some n.toInt
  | _ => none

/-- The value as a string, if it is one. -/
def string? : Json → Option String
  | .string s => some s
  | _ => none

/-- The value as a list of items, if it is an array. -/
def array? : Json → Option (List Json)
  | .array xs => some xs
  | _ => none

/-- The value as a boolean, if it is one. -/
def bool? : Json → Option Bool
  | .bool b => some b
  | _ => none

end Json

end OrderedState
