import ClenshawCode.Binary64
import ClenshawCode.Text.Numeral

/-!
# The shortest decimal of a double

A decimal is an integer times a power of ten. Among the decimals that read back as a given
double there are some with the fewest digits; the one nearest to the double is selected, and of
two equally near the one with the even last digit.

The search tries one digit, then two, and so on up to seventeen. For each count it looks at the
two neighbours of the double on the grid of decimals with that many digits, and takes one that
reads back. Should no count succeed, the exact expansion of the double stands.

## Main definitions

* `Decimal`: `digits * 10 ^ exponent`
* `Decimal.magnitudeBits`: the bits of the double that a decimal reads back as
* `Decimal.scaleOf`: the least power of ten above a quotient
* `Decimal.shortest`: the selected decimal
-/

namespace ClenshawCode

/-- The number `digits * 10 ^ exponent`. -/
structure Decimal where
  digits : Nat
  exponent : Int
deriving DecidableEq, Repr

namespace Decimal

/-- The numerator of a decimal as a quotient of naturals. -/
def num (d : Decimal) : Nat := d.digits * Nat.pow 10 d.exponent.toNat

/-- The denominator of a decimal as a quotient of naturals. -/
def den (d : Decimal) : Nat := Nat.pow 10 (-d.exponent).toNat

/-- The bits, without sign, of the double that a decimal reads back as. -/
def magnitudeBits (d : Decimal) : Nat := Binary64.magnitudeBits d.num d.den

/-- The number of digits of a natural; zero has none. -/
def digitCount (n : Nat) : Nat := (Text.digitsReversed n).length

/-- The least `k` for which a positive quotient lies below `10 ^ k`. -/
def scaleOf (num den : Nat) : Int :=
  if den ≤ num then digitCount (num / den) else 1 - (digitCount ((den - 1) / num) : Int)

/-- A quotient in steps of `10 ^ exponent`, rounded down. -/
def stepsBelow (num den : Nat) (exponent : Int) : Nat :=
  num * Nat.pow 10 (-exponent).toNat / (den * Nat.pow 10 exponent.toNat)

/-- Of the two neighbours of a quotient on a grid, whether the lower one is to be preferred:
it is nearer, or as near and even. -/
def prefersLower (num den : Nat) (lower : Decimal) : Bool :=
  -- The quotient and the middle of its neighbours, both times `2 * den` and a power of ten.
  let value := 2 * num * Nat.pow 10 (-lower.exponent).toNat
  let middle := (2 * lower.digits + 1) * (den * Nat.pow 10 lower.exponent.toNat)
  value < middle || (value == middle && lower.digits % 2 == 0)

/-- A neighbour of a quotient on the grid of multiples of `10 ^ exponent` that reads back as the
given bits, the preferred one if both do. -/
def onGrid? (num den bits : Nat) (exponent : Int) : Option Decimal :=
  let lower : Decimal := ⟨stepsBelow num den exponent, exponent⟩
  let upper : Decimal := ⟨lower.digits + 1, exponent⟩
  match lower.magnitudeBits == bits, upper.magnitudeBits == bits with
  | true, true => some (if prefersLower num den lower then lower else upper)
  | true, false => some lower
  | false, true => some upper
  | false, false => none

/-- A natural without its trailing zeros, and their number. -/
def dropZeros (n : Nat) : Nat × Nat :=
  if h : n = 0 then (0, 0)
  else if n % 10 = 0 then
    let rest := dropZeros (n / 10)
    (rest.1, rest.2 + 1)
  else (n, 0)
termination_by n
decreasing_by omega

/-- The same number, its last digit not a zero. -/
def strip (d : Decimal) : Decimal :=
  ⟨(dropZeros d.digits).1, d.exponent + (dropZeros d.digits).2⟩

/-- The decimal that is exactly `mantissa * 2 ^ exponent`. -/
def ofDyadic (mantissa : Nat) (exponent : Int) : Decimal :=
  if 0 ≤ exponent then ⟨mantissa * Nat.pow 2 exponent.toNat, 0⟩
  else ⟨mantissa * Nat.pow 5 (-exponent).toNat, exponent⟩

/-- The shortest decimal that reads back as the positive finite double
`mantissa * 2 ^ exponent`. -/
def shortest (mantissa : Nat) (exponent : Int) : Decimal :=
  let num := mantissa * Nat.pow 2 exponent.toNat
  let den := Nat.pow 2 (-exponent).toNat
  let bits := Binary64.magnitudeBits num den
  let scale := scaleOf num den
  -- With `count + 1` digits the last one has the exponent `scale - (count + 1)`.
  match (List.range 17).findSome? fun count => onGrid? num den bits (scale - (count + 1 : Nat)) with
  | some d => d.strip
  | none => (ofDyadic mantissa exponent).strip

end Decimal

end ClenshawCode
