import OrderedState.Decimal.Shortest

/-!
# Writing a float

A finite float is written from its shortest decimal (`Decimal.ofFloat`). A `Layout` says which
magnitudes are written positionally, how an exponent is marked, and how a tie between two
shortest decimals is broken; both layouts used by the library keep a `.0` on an integral
positional value and write zero as `0.0` or `-0.0`.

* `Layout.json`: positional for `1e-5 ≤ |x| < 1e16`, otherwise one digit before the point and
  an exponent with its sign always written (`1e+16`, `1e-7`, `5e-324`); ties go to the even
  digit (`17592186044416.0625` is `17592186044416.062`). This is the number text of JSON
  documents and of the JSON format's error texts.
* `Layout.positional`: positional at every magnitude (`1e300` is written with 301 digits and
  `.0`), ties away from zero (`17592186044416.0625` is `17592186044416.063`), as error texts of
  the binary format describe a float.
-/

namespace OrderedState

/-- How a float is written: the decimal exponents (of the first digit) written positionally,
the texts of the non-finite values, and the tie rule of its shortest decimal. -/
structure Layout where
  lowestPositional : Int
  highestPositional : Int
  nanText : String
  infText : String
  tie : Tie

namespace Layout

/-- Number text of JSON documents. -/
def json : Layout := ⟨-5, 15, "NaN", "inf", .toEven⟩

/-- Every magnitude positional, as in the error texts of the binary format. -/
def positional : Layout := ⟨-400, 400, "NaN", "inf", .up⟩

/-- `n` zero digits. -/
def zeros (n : Nat) : String := String.ofList (List.replicate n '0')

/-- The digits `s` (at least one) of a decimal whose point stands after `p` of them. -/
def place (l : Layout) (s : String) (p : Int) : String :=
  let n := s.length
  let sci := p - 1
  if l.lowestPositional ≤ sci ∧ sci ≤ l.highestPositional then
    if p ≤ 0 then "0." ++ zeros (-p).toNat ++ s
    else if p < n then String.ofList (s.toList.take p.toNat) ++ "." ++
      String.ofList (s.toList.drop p.toNat)
    else s ++ zeros (p.toNat - n) ++ ".0"
  else
    let cs := s.toList
    let mant := match cs with
      | [] => ""
      | [c] => String.singleton c
      | c :: rest => String.singleton c ++ "." ++ String.ofList rest
    mant ++ "e" ++ (if sci < 0 then "-" else "+") ++ toString sci.natAbs

/-- The text of a float in this layout. -/
def render (l : Layout) (x : Float) : String :=
  if x.isNaN then l.nanText
  else if x.isInf then (if signBit x then "-" else "") ++ l.infText
  else
    let sign := if signBit x then "-" else ""
    let d := Decimal.ofFloat l.tie x
    if d.digits = 0 then sign ++ "0.0"
    else
      let s := toString d.digits
      sign ++ l.place s (d.exponent + s.length)

end Layout

end OrderedState
