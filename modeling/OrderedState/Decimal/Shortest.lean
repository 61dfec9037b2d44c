/-!
# Shortest decimal of a binary64 float

`Decimal.ofFloat x` is the decimal `digits × 10^exponent` with the fewest significant digits
that reads back as `x`, and of those the one nearest to `x`. An exact tie between two such
decimals is broken by a `Tie` rule: to the even digit string, or away from zero. Trailing zeros
are moved into the exponent.

The float is decoded from its bits into `m × 2^q`. The reals that round to it form an
interval around it, closed when `m` is even (round-half-even reading keeps the ends), and
narrower below when `m` is the smallest mantissa of its binade. For `n = 1, 2, …, 17` digits
the two neighbours of the value on the grid of `n`-digit decimals are tested against that
interval in exact natural-number arithmetic; the first grid with a hit wins.
-/

namespace OrderedState

/-- The decimal `digits × 10^exponent`. -/
structure Decimal where
  digits : Nat
  exponent : Int
  deriving Repr, DecidableEq

/-- How a tie between two nearest decimals of one length is broken. -/
inductive Tie where
  /-- The decimal whose last digit is even. -/
  | toEven
  /-- The decimal of larger magnitude. -/
  | up
  deriving Repr, DecidableEq

namespace Tie

/-- Of the neighbours `d` and `d + 1`, equally near, the one the rule takes. -/
def choose : Tie → Nat → Nat
  | .toEven, d => if d % 2 = 0 then d else d + 1
  | .up, d => d + 1

end Tie

namespace Decimal

/-- The number of decimal digits of `n`, with `0` written as one digit. -/
def digitCount (n : Nat) : Nat := (Nat.toDigits 10 n).length

/-- Moves trailing zero digits into the exponent. -/
def normalize (digits : Nat) (exponent : Int) : Decimal :=
  if h : digits ≠ 0 ∧ digits % 10 = 0 then normalize (digits / 10) (exponent + 1)
  else ⟨digits, exponent⟩
termination_by digits
decreasing_by omega

/-- The magnitude of a finite nonzero float as `mantissa × 2^exponent`, with whether the gap
to the next float below is half the gap above. -/
structure Binary where
  mantissa : Nat
  exponent : Int
  lowerCloser : Bool

/-- Decodes the magnitude bits of a binary64 float (the sign bit is ignored). -/
def Binary.ofBits (bits : UInt64) : Binary :=
  let f : Nat := bits.toNat % 4503599627370496
  let e : Nat := (bits.toNat / 4503599627370496) % 2048
  if e = 0 then ⟨f, -1074, false⟩
  else ⟨f + 4503599627370496, (e : Int) - 1075, f = 0 && e > 1⟩

/-- `⌊log₁₀ (m × 2^q)⌋` for `m > 0`. -/
def log10Floor (m : Nat) (q : Int) : Int :=
  if q ≥ 0 then (digitCount (m * Nat.pow 2 q.toNat) : Int) - 1
  else
    let den := Nat.pow 2 (-q).toNat
    let t := digitCount den
    (digitCount (m * Nat.pow 10 t / den) : Int) - 1 - t

/-- The value, the ends of its rounding interval and the spacing of the grid of multiples of
`10^k`, all scaled by one common factor so that each is a natural number. -/
def scaled (b : Binary) (k : Int) : Nat × Nat × Nat × Nat :=
  let a := (2 - b.exponent).toNat
  let p2 := Nat.pow 2 (b.exponent - 2 + a).toNat
  let s10 := Nat.pow 10 (-k).toNat
  let below := if b.lowerCloser then 1 else 2
  (4 * b.mantissa * p2 * s10, (4 * b.mantissa - below) * p2 * s10,
    (4 * b.mantissa + 2) * p2 * s10, Nat.pow 10 (k + (-k).toNat).toNat * Nat.pow 2 a)

/-- The multiple `d` of `10^k` that reads back as the value, if one of the two neighbours of
the value on that grid does; of two, the nearer, and on a tie the one `tie` takes. -/
def pick (tie : Tie) (b : Binary) (k : Int) : Option Nat :=
  let (c, lo, hi, unit) := scaled b k
  let inside (x : Nat) : Bool :=
    if b.mantissa % 2 = 0 then lo ≤ x && x ≤ hi else lo < x && x < hi
  let d := c / unit
  let below := d * unit
  let above := (d + 1) * unit
  match inside below, inside above with
  | true, true =>
    if c - below < above - c then some d
    else if above - c < c - below then some (d + 1)
    else some (tie.choose d)
  | true, false => some d
  | false, true => some (d + 1)
  | false, false => none

/-- The nearest multiple of `10^k` to the value; on a tie, the one `tie` takes. -/
def nearest (tie : Tie) (b : Binary) (k : Int) : Nat :=
  let (c, _, _, unit) := scaled b k
  let d := c / unit
  let twice := 2 * (c - d * unit)
  if twice < unit then d
  else if unit < twice then d + 1
  else tie.choose d

/-- Tries grids of `n`, `n + 1`, … digits, the last one tried being taken at its nearest
point. -/
def search (tie : Tie) (b : Binary) (e : Int) : Nat → Nat → Decimal
  | 0, n => normalize (nearest tie b (e - n + 1)) (e - n + 1)
  | fuel + 1, n =>
    match pick tie b (e - n + 1) with
    | some d => normalize d (e - n + 1)
    | none => search tie b e fuel (n + 1)

/-- The shortest decimal of the magnitude of a finite float, ties broken by `tie`; `0` for
zero. -/
def ofFloat (tie : Tie) (x : Float) : Decimal :=
  let b := Binary.ofBits x.toBits
  if b.mantissa = 0 then ⟨0, 0⟩
  else search tie b (log10Floor b.mantissa b.exponent) 16 1

end Decimal

/-- Whether the sign bit of a float is set (true for `-0.0`). -/
def signBit (x : Float) : Bool := x.toBits >>> 63 == 1

end OrderedState
