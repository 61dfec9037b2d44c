import OrderedState.Json.Text
import OrderedState.Text.Escaped

/-!
# Quoted text in descriptions

Error texts and descriptions of handles show a string in double quotes with the escapes
`\0 \t \r \n \\ \"`; a character that is not printable or that extends a grapheme
(`isEscapedCodePoint`) is written as `\u{XX}` with lowercase hex digits and no padding, as
`\u{301}` for a combining acute accent. Other characters are written as themselves.
-/

namespace OrderedState

/-- Lowercase hex digits of `n`, without padding. -/
def hexText (n : Nat) : String := String.ofList ((Nat.toDigits 16 n).map Char.toLower)

/-- The escaped form of one character inside a quoted description. -/
def describeChar (c : Char) : String :=
  if c.toNat = 0 then "\\0"
  else if c = '\t' then "\\t"
  else if c = '\r' then "\\r"
  else if c = '\n' then "\\n"
  else if c = '\\' then "\\\\"
  else if c = '"' then "\\\""
  else if isEscapedCodePoint c.toNat then
    "\\u\x7b" ++ hexText c.toNat ++ "\x7d"
  else String.singleton c

/-- A string in double quotes, escaped for a description. -/
def quoteDescribed (s : String) : String :=
  "\"" ++ String.join (s.toList.map describeChar) ++ "\""

/-- A character in single quotes, escaped as in a description except that the single quote is
escaped and the double quote is not. -/
def quoteChar (c : Char) : String :=
  let inner := if c.toNat = 39 then "\\\x27" else if c.toNat = 34 then "\"" else describeChar c
  "'" ++ inner ++ "'"

end OrderedState
