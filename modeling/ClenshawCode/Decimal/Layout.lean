import ClenshawCode.Decimal.Shortest

/-!
# How a double is written

A finite double is written by its shortest decimal. The decimal is laid out with a point when its
leading digit stands for `10 ^ e` with `-4 ≤ e < 16`, and then always has a digit after the point;
otherwise one digit, the others after a point, and an exponent with a sign and at least two digits.
What differs between the texts that this library writes is collected in a `Layout`.

A double can also be written with a fixed number of places, correctly rounded from its exact value.
The digits that are asked for are counted in 32 bits with a sign, those before the point included.
When the count does not fit, nothing but zeros is written. Integers of at most fifteen digits are
known without counting.

## Main definitions

* `Decimal.Layout`: the choices that differ between written formats
* `Decimal.Layout.render`: a double in a layout
* `Decimal.overflows`: whether too many digits are asked for
* `Decimal.fixed`: a double with a fixed number of places
-/

namespace ClenshawCode.Decimal

/-- The choices in which the written formats differ. -/
structure Layout where
  /-- Whether a single digit before an exponent is followed by a point and a zero. -/
  pointBeforeExponent : Bool
  /-- The text of positive infinity; a minus sign makes it the negative one. -/
  infinity : String
  /-- The text of what is not a number. -/
  nan : String

/-- The exponent of the leading digit of a decimal. -/
def leadingExponent (d : Decimal) : Int :=
  d.exponent + (Text.natChars d.digits).length - 1

/-- A decimal written out with a point and at least one digit on either side of it. -/
def positional (d : Decimal) : List Char :=
  let digits := Text.natChars d.digits
  let leading := d.leadingExponent
  if 0 ≤ d.exponent then digits ++ List.replicate d.exponent.toNat '0' ++ ['.', '0']
  else if 0 ≤ leading then
    digits.take (leading + 1).toNat ++ '.' :: digits.drop (leading + 1).toNat
  else '0' :: '.' :: List.replicate (-leading - 1).toNat '0' ++ digits

/-- A decimal written as one digit, the others after a point, and an exponent. -/
def scientific (pointBeforeExponent : Bool) (d : Decimal) : List Char :=
  let leading := d.leadingExponent
  let mantissa := match Text.natChars d.digits with
    | [] => []
    | [c] => if pointBeforeExponent then [c, '.', '0'] else [c]
    | c :: rest => c :: '.' :: rest
  mantissa ++ 'e' :: (if leading < 0 then '-' else '+') ::
    Text.padZeros 2 (Text.natChars leading.natAbs)

/-- A decimal with a point, or with an exponent when it is very large or very small. -/
def written (pointBeforeExponent : Bool) (d : Decimal) : List Char :=
  if -4 ≤ d.leadingExponent ∧ d.leadingExponent < 16 then d.positional
  else d.scientific pointBeforeExponent

/-- Characters with a minus sign in front of them if there is to be one. -/
def signed (negative : Bool) (cs : List Char) : List Char :=
  if negative then '-' :: cs else cs

/-- A double in a layout. -/
def Layout.render (layout : Layout) (x : Float) : String :=
  match Binary64.view x with
  | .nan => layout.nan
  | .infinite negative => String.ofList (signed negative layout.infinity.toList)
  | .finite negative mantissa exponent =>
    String.ofList (signed negative
      (if mantissa = 0 then ['0', '.', '0']
       else written layout.pointBeforeExponent (shortest mantissa exponent)))

/-- Digits with a point before the last `places` of them, and a digit before the point. -/
def withPoint (places : Nat) (n : Nat) : List Char :=
  let digits := Text.padZeros (places + 1) (Text.natChars n)
  let whole := digits.length - places
  if places = 0 then digits else digits.take whole ++ '.' :: digits.drop whole

/-- The value `mantissa * 2 ^ exponent` in units of `10 ^ -places`, a half to the even neighbour. -/
def roundedUnits (mantissa : Nat) (exponent : Int) (places : Nat) : Nat :=
  Binary64.roundDiv (mantissa * Nat.pow 2 exponent.toNat * Nat.pow 10 places)
    (Nat.pow 2 (-exponent).toNat)

/-- Whether the digits of the value `mantissa * 2 ^ exponent` before the point and so many places
are too many to be counted together. -/
def overflows (mantissa : Nat) (exponent : Int) (places : Nat) : Bool :=
  let num := mantissa * Nat.pow 2 exponent.toNat
  let den := Nat.pow 2 (-exponent).toNat
  let digits := digitCount (num / den)
  Nat.pow 2 31 ≤ places + digits && !(num % den = 0 && digits ≤ 15)

/-- What is written of the value `mantissa * 2 ^ exponent`, in units of `10 ^ -places`. -/
def writtenUnits (mantissa : Nat) (exponent : Int) (places : Nat) : Nat :=
  if overflows mantissa exponent places then 0 else roundedUnits mantissa exponent places

/-- A double with a fixed number of places, correctly rounded from its exact value unless too many
digits are asked for. A zero keeps the sign of what it stands for. -/
def fixed (x : Float) (places : Nat) : List Char :=
  match Binary64.view x with
  | .nan => ['n', 'a', 'n']
  | .infinite negative => signed negative ['i', 'n', 'f']
  | .finite negative mantissa exponent =>
    signed negative (withPoint places (writtenUnits mantissa exponent places))

end ClenshawCode.Decimal
