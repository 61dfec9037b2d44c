import OrderedState.Json.Basic
import OrderedState.Decimal.Layout

/-!
# JSON text

`Json.render` writes a document compactly: no blanks, object fields in their (sorted) order,
integers in full, floats in `Layout.json` and non-finite floats as `null`.

In a string the quote, the backslash and the control characters below U+0020 are escaped:
`\"`, `\\`, the short escapes `\b \f \n \r \t`, and `\u00XX` with lowercase hex digits for
the other controls. Everything else, U+007F included, is written as itself.
-/

namespace OrderedState

/-- The lowercase hex digit of `n < 16`. -/
def hexDigit (n : Nat) : Char :=
  if n < 10 then Char.ofNat (48 + n) else Char.ofNat (87 + n)

/-- The escaped form of one character inside a JSON string. -/
def escapeChar (c : Char) : List Char :=
  if c = '"' then ['\\', '"']
  else if c = '\\' then ['\\', '\\']
  else if c = '\n' then ['\\', 'n']
  else if c = '\t' then ['\\', 't']
  else if c = '\r' then ['\\', 'r']
  else if c.toNat = 8 then ['\\', 'b']
  else if c.toNat = 12 then ['\\', 'f']
  else if c.toNat < 32 then ['\\', 'u', '0', '0', hexDigit (c.toNat / 16), hexDigit (c.toNat % 16)]
  else [c]

/-- A string as a quoted JSON string. -/
def quoteJson (s : String) : String :=
  String.ofList ('"' :: (s.toList.flatMap escapeChar ++ ['"']))

/-- The text of a JSON number. -/
def JsonNumber.render : JsonNumber → String
  | .posInt n => toString n.toNat
  | .negInt n => toString n.toInt
  | .float x => if x.isFinite then Layout.json.render x else "null"

namespace Json

mutual
/-- The compact text of a JSON document. -/
def render : Json → String
  | .null => "null"
  | .bool true => "true"
  | .bool false => "false"
  | .number n => n.render
  | .string s => quoteJson s
  | .array items => "[" ++ renderItems items ++ "]"
  | .object fields => "\x7b" ++ renderFields fields ++ "\x7d"

/-- Array items, comma-separated. -/
def renderItems : List Json → String
  | [] => ""
  | [j] => render j
  | j :: rest => render j ++ "," ++ renderItems rest

/-- Object fields, comma-separated. -/
def renderFields : List (String × Json) → String
  | [] => ""
  | [(k, v)] => quoteJson k ++ ":" ++ render v
  | (k, v) :: rest => quoteJson k ++ ":" ++ render v ++ "," ++ renderFields rest
end

end Json

end OrderedState
