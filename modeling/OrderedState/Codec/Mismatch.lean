import OrderedState.Decimal.Layout
import OrderedState.Text.Quoted

/-!
# Mismatches between a document and a target type

When a reader meets a value that its target type does not take, the error text names what was
found and what was expected: "invalid type: string \"x\", expected i64". The found value is
described in one of two dialects: JSON documents call the unit value `null` and write floats
in `Layout.json`; the binary format calls it `unit value` and writes floats positionally.

A scalar handed to a target is an `Atom`. Integer targets take an atom by range
(`IntTarget.accept`): an integer out of range is an invalid *value*, anything else an invalid
*type*.
-/

namespace OrderedState

/-- What a reader found where a value of another type was expected. -/
inductive Unexpected where
  | bool (b : Bool)
  | unsigned (n : Nat)
  | signed (n : Int)
  | float (x : Float)
  | str (s : String)
  | bytes
  | unit
  | option
  | newtypeStruct
  | seq
  | map

/-- The two ways error texts describe a found value. -/
inductive Dialect where
  | json
  | binary
  deriving DecidableEq

/-- The description of a found value, as in "invalid type: *integer `5`*, expected …". -/
def Unexpected.describe (d : Dialect) : Unexpected → String
  | .bool b => "boolean `" ++ toString b ++ "`"
  | .unsigned n => "integer `" ++ toString n ++ "`"
  | .signed n => "integer `" ++ toString n ++ "`"
  | .float x =>
    let text := match d with
      | .json => Layout.json.render x
      | .binary => Layout.positional.render x
    "floating point `" ++ text ++ "`"
  | .str s => "string " ++ quoteDescribed s
  | .bytes => "byte array"
  | .unit => match d with
    | .json => "null"
    | .binary => "unit value"
  | .option => "Option value"
  | .newtypeStruct => "newtype struct"
  | .seq => "sequence"
  | .map => "map"

/-- Why a value does not fit its target type. -/
inductive Mismatch where
  | invalidType (found : Unexpected) (expected : String)
  | invalidValue (found : Unexpected) (expected : String)
  | invalidLength (len : Nat) (expected : String)
  | missingField (name : String)
  | duplicateField (name : String)
  | other (text : String)

/-- The error text of a mismatch. -/
def Mismatch.message (d : Dialect) : Mismatch → String
  | .invalidType u e => "invalid type: " ++ u.describe d ++ ", expected " ++ e
  | .invalidValue u e => "invalid value: " ++ u.describe d ++ ", expected " ++ e
  | .invalidLength n e => "invalid length " ++ toString n ++ ", expected " ++ e
  | .missingField f => "missing field `" ++ f ++ "`"
  | .duplicateField f => "duplicate field `" ++ f ++ "`"
  | .other t => t

/-- A scalar a reader hands to its target type. -/
inductive Atom where
  | unsigned (n : Nat)
  | signed (n : Int)
  | float (x : Float)
  | bool (b : Bool)
  | str (s : String)
  | bytes (bs : List UInt8)
  | unit

/-- How a mismatch describes an atom. -/
def Atom.unexpected : Atom → Unexpected
  | .unsigned n => .unsigned n
  | .signed n => .signed n
  | .float x => .float x
  | .bool b => .bool b
  | .str s => .str s
  | .bytes _ => .bytes
  | .unit => .unit

/-- An integer target type: its name in error texts and its range. -/
structure IntTarget where
  name : String
  lo : Int
  hi : Int

namespace IntTarget

def i64 : IntTarget := ⟨"i64", -9223372036854775808, 9223372036854775807⟩
def u64 : IntTarget := ⟨"u64", 0, 18446744073709551615⟩
def usize : IntTarget := ⟨"usize", 0, 18446744073709551615⟩
def u32 : IntTarget := ⟨"u32", 0, 4294967295⟩
def u8 : IntTarget := ⟨"u8", 0, 255⟩

/-- An integer in range is taken; one out of range is an invalid value; any other atom is an
invalid type. -/
def accept (t : IntTarget) : Atom → Except Mismatch Int
  | .unsigned n => if (n : Int) ≤ t.hi then .ok n else .error (.invalidValue (.unsigned n) t.name)
  | .signed n =>
    if t.lo ≤ n ∧ n ≤ t.hi then .ok n else .error (.invalidValue (.signed n) t.name)
  | a => .error (.invalidType a.unexpected t.name)

end IntTarget

/-- A float target takes integers (converted) and floats. -/
def acceptFloat : Atom → Except Mismatch Float
  | .unsigned n => .ok (UInt64.ofNat n).toFloat
  | .signed n => .ok (if n < 0 then -(UInt64.ofNat n.natAbs).toFloat else (UInt64.ofNat n.toNat).toFloat)
  | .float x => .ok x
  | a => .error (.invalidType a.unexpected "f64")

/-- A boolean target. -/
def acceptBool : Atom → Except Mismatch Bool
  | .bool b => .ok b
  | a => .error (.invalidType a.unexpected "a boolean")

end OrderedState
