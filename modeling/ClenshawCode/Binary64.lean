/-!
# Doubles as exact numbers

A finite double is an integer times a power of two. This file reads that pair off the bits and
rounds a quotient of naturals back to bits, so that everything said about printing, reading and
comparing doubles can be said about naturals and integers.

The bits of a finite double without its sign, read as a natural, grow with the magnitude:
they are `(exponent + 1074) * 2 ^ 52 + mantissa` for the exponent and mantissa of
`Binary64.View.finite`, in the subnormal range as well. Rounding up to the next power of two
carries into the exponent field, and rounding past the largest finite double gives the bits of
infinity.

Powers of naturals are written `Nat.pow` in definitions; lemmas about them use `^`.

## Main definitions

* `Binary64.View`, `Binary64.view`: what a double stands for
* `Binary64.roundDiv`: a quotient rounded to an integer, a half to the even neighbour
* `Binary64.magnitudeBits`: the bits, without sign, of the double nearest to a quotient
* `Binary64.ofRatio`, `Binary64.ofInt?`: the double nearest to a quotient and to an integer
* `Binary64.Exact`, `Binary64.exact`: the number that a double is, with the two infinities
-/

namespace ClenshawCode.Binary64

/-- What a double stands for. A finite one is `± mantissa * 2 ^ exponent`. -/
inductive View where
  | nan
  | infinite (negative : Bool)
  | finite (negative : Bool) (mantissa : Nat) (exponent : Int)
deriving DecidableEq, Repr

/-- The bits of the two infinities without their sign. -/
def infinityBits : Nat := 2047 * Nat.pow 2 52

/-- The pair read off the bits of a finite double without its sign. -/
def ofMagnitudeBits (bits : Nat) : Nat × Int :=
  if bits / Nat.pow 2 52 = 0 then (bits, -1074)
  else (Nat.pow 2 52 + bits % Nat.pow 2 52, (bits / Nat.pow 2 52 : Nat) - 1075)

/-- The double read off its bits. -/
def view (x : Float) : View :=
  let bits := x.toBits.toNat
  let negative := decide (Nat.pow 2 63 ≤ bits)
  let magnitude := bits % Nat.pow 2 63
  if infinityBits < magnitude then .nan
  else if magnitude = infinityBits then .infinite negative
  else .finite negative (ofMagnitudeBits magnitude).1 (ofMagnitudeBits magnitude).2

/-- A quotient rounded to an integer; a half goes to the even neighbour. -/
def roundDiv (num den : Nat) : Nat :=
  let quotient := num / den
  match compare (2 * (num % den)) den with
  | .lt => quotient
  | .gt => quotient + 1
  | .eq => if quotient % 2 = 0 then quotient else quotient + 1

/-- The rounded quotient is within half a unit of the exact one. -/
theorem roundDiv_near (num den : Nat) (h : 0 < den) :
    2 * (roundDiv num den * den) ≤ 2 * num + den ∧
      2 * num ≤ 2 * (roundDiv num den * den) + den := by
  have split_num : den * (num / den) + num % den = num := Nat.div_add_mod num den
  have rest_lt : num % den < den := Nat.mod_lt _ h
  have next : (num / den + 1) * den = den * (num / den) + den := by
    rw [Nat.add_mul, Nat.mul_comm]; simp
  have same : num / den * den = den * (num / den) := Nat.mul_comm ..
  simp only [roundDiv]
  split
  · rename_i order
    rw [Nat.compare_eq_lt] at order
    omega
  · rename_i order
    rw [Nat.compare_eq_gt] at order
    omega
  · rename_i order
    rw [Nat.compare_eq_eq] at order
    split <;> omega

/-- The exponent of the grid on which a quotient is rounded: the quotient lies below `2 ^ 53`
steps of the grid, and no finer grid of doubles has this property. -/
def gridExponent (num den : Nat) : Int :=
  -- The difference of the logarithms is the logarithm of the quotient or one above it.
  let exponent := max ((num.log2 : Int) - den.log2 - 53) (-1074)
  if num * Nat.pow 2 (-exponent).toNat < den * Nat.pow 2 exponent.toNat * Nat.pow 2 53 then exponent
  else exponent + 1

/-- The bits, without sign, of the double nearest to a quotient, a half to the even neighbour.
They are those of infinity or larger when the quotient rounds beyond the finite doubles. -/
def magnitudeBits (num den : Nat) : Nat :=
  if num = 0 then 0
  else
    let exponent := gridExponent num den
    (exponent + 1074).toNat * Nat.pow 2 52 +
      roundDiv (num * Nat.pow 2 (-exponent).toNat) (den * Nat.pow 2 exponent.toNat)

/-- The double with the given sign and the given bits besides. -/
def ofSignedBits (negative : Bool) (bits : Nat) : Float :=
  Float.ofBits (UInt64.ofNat (bits + if negative then Nat.pow 2 63 else 0))

/-- The double nearest to a quotient, infinite when that is too large. -/
def ofRatio (negative : Bool) (num den : Nat) : Float :=
  ofSignedBits negative (min (magnitudeBits num den) infinityBits)

/-- The double nearest to an integer, unless that rounds beyond the finite doubles. -/
def ofInt? (n : Int) : Option Float :=
  let bits := magnitudeBits n.natAbs 1
  if bits < infinityBits then some (ofSignedBits (n < 0) bits) else none

/-- The one double that is not a number. -/
def nan : Float := Float.ofBits 0x7FF8000000000000

/-- The infinite double of a sign. -/
def infinity (negative : Bool) : Float := ofSignedBits negative infinityBits

/-- The numbers that doubles and integers stand for. -/
inductive Exact where
  | nan
  | infinite (negative : Bool)
  | finite (value : Rat)
deriving DecidableEq

/-- The rational `mantissa * 2 ^ exponent`. -/
def scaled (mantissa : Nat) (exponent : Int) : Rat :=
  mkRat (mantissa * Nat.pow 2 exponent.toNat : Nat) (Nat.pow 2 (-exponent).toNat)

/-- The number that a double is. -/
def exact (x : Float) : Exact :=
  match view x with
  | .nan => .nan
  | .infinite negative => .infinite negative
  | .finite negative mantissa exponent =>
    .finite (if negative then -scaled mantissa exponent else scaled mantissa exponent)

/-- The order of numbers, infinities included; nothing is below or above what is no number. -/
def Exact.lt : Exact → Exact → Bool
  | .nan, _ => false
  | _, .nan => false
  | .infinite a, .infinite b => a && !b
  | .infinite a, .finite _ => a
  | .finite _, .infinite b => !b
  | .finite a, .finite b => a < b

/-- Equality of numbers; what is no number is not even equal to itself. -/
def Exact.same : Exact → Exact → Bool
  | .infinite a, .infinite b => a == b
  | .finite a, .finite b => a == b
  | _, _ => false

/-- Whether a double is finite. -/
def isFinite (x : Float) : Bool :=
  match view x with
  | .finite .. => true
  | _ => false

/-- Whether a double is not a number. -/
def isNaN (x : Float) : Bool :=
  match view x with
  | .nan => true
  | _ => false

end ClenshawCode.Binary64
