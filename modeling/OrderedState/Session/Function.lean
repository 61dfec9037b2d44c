import OrderedState.Json.Basic
import OrderedState.Error

/-!
# Functions on results

A session transforms future results with a small set of named functions on documents. Each
first looks through a present optional value: an object whose only field is `some` stands for
the value inside it. Integer arithmetic is on 64-bit signed integers, and a result that would
leave that range leaves the document as it was; an integer above the signed range is not an
integer for these functions.
-/

namespace OrderedState

/-- A named function on result documents. -/
inductive Fn where
  | identity
  /-- Adds one; `null` counts as zero. -/
  | inc
  /-- Doubles; `null` counts as zero. -/
  | double
  /-- Negates an integer or a boolean. -/
  | neg
  /-- The size of an array, object or string; `null` has size zero and anything else one. -/
  | len
  /-- The one-element array. -/
  | wrap
  /-- Always fails. -/
  | fail
  /-- Fails on `null`. -/
  | failIfNull
  deriving DecidableEq, Repr

namespace Fn

/-- The function with a given name. -/
def ofName? : String → Option Fn
  | "identity" => some .identity
  | "inc" => some .inc
  | "double" => some .double
  | "neg" => some .neg
  | "len" => some .len
  | "wrap" => some .wrap
  | "fail" => some .fail
  | "fail_if_null" => some .failIfNull
  | _ => none

/-- The smallest and largest 64-bit signed integers. -/
def minI64 : Int := -9223372036854775808
def maxI64 : Int := 9223372036854775807

/-- The document as a 64-bit signed integer, if it is one. -/
def asI64 (x : Json) : Option Int :=
  match x.int? with
  | some n => if minI64 ≤ n ∧ n ≤ maxI64 then some n else none
  | none => none

/-- The integer `n` as a document when it is in the signed 64-bit range, else `x` unchanged. -/
def inRangeOr (x : Json) (n : Int) : Json :=
  if minI64 ≤ n ∧ n ≤ maxI64 then Json.int n else x

/-- The value a present optional stands for: the inside of an object whose only field is
`some`. -/
def unwrap : Json → Json
  | .object [("some", v)] => v
  | x => x

/-- Applies the function to a result document. -/
def apply (f : Fn) (x : Json) : Except StateError Json :=
  let x := unwrap x
  match f with
  | .identity => .ok x
  | .inc =>
    match x with
    | .null => .ok (Json.int 1)
    | _ => .ok ((asI64 x).elim x fun n => inRangeOr x (n + 1))
  | .double =>
    match x with
    | .null => .ok (Json.int 0)
    | _ => .ok ((asI64 x).elim x fun n => inRangeOr x (2 * n))
  | .neg =>
    match x with
    | .bool b => .ok (.bool !b)
    | _ => .ok ((asI64 x).elim x fun n => inRangeOr x (-n))
  | .len =>
    match x with
    | .null => .ok (Json.int 0)
    | .array xs => .ok (Json.nat xs.length)
    | .object fs => .ok (Json.nat fs.length)
    | .string s => .ok (Json.nat s.length)
    | _ => .ok (Json.int 1)
  | .wrap => .ok (.array [x])
  | .fail => .error (.store "forced failure")
  | .failIfNull =>
    match x with
    | .null => .error (.store "value is null")
    | _ => .ok x

end Fn

end OrderedState
