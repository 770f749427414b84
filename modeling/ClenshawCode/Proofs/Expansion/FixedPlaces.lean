import ClenshawCode.Proofs.Decimal.Places
import ClenshawCode.Proofs.Expansion.FullPrecision
import ClenshawCode.Proofs.Shader.Written

/-!
# The literal of a shader is rounded correctly

A finite double is written with a minus sign if its sign bit is set, digits without zeros in front
of them, a point with as many digits behind it as there are places, and the suffix. A zero keeps its
sign, and so does a double that is rounded to zero. The number that is written is the multiple of
the unit of the last place nearest to the double, with an even last digit if another multiple is as
near, unless the double has too many digits with so many places: then it is zero. Counts of places
from `2 ^ 31` on are refused.

## Main definitions

* `Literal.IsFixed`: what a literal of a finite double with a fixed number of places has to be

## Main results

* `fixedSingle_nearest`: the literal of a shader is of this kind
* `exists_isRounded`: the literal of a number denotes it in units of the last place
-/

namespace ClenshawCode

open Binary64 Decimal

/-- The literal of a finite double with a fixed number of places, by its sign, the digits before and
behind the point, and the integer that it denotes in units of the last place. -/
structure Literal.IsFixed (places : ℕ) (x : Float) (literal : String) (negative : Bool)
    (whole fraction : List Char) (n : ℤ) : Prop where
  text : literal = String.ofList (signed negative (whole ++ fractionChars fraction ++ ['f']))
  /-- The sign bit. -/
  sign : negative = true ↔ 2 ^ 63 ≤ x.toBits.toNat
  digits : Digits (whole ++ fraction)
  nonempty : whole ≠ []
  leading : whole = ['0'] ∨ '0' ∉ whole.head?
  count : fraction.length = places
  denotes : Shader.literalValue? literal = some ((n : ℚ) / 10 ^ places)
  /-- The last digit is even when the integer is. -/
  last : ∀ c ∈ (whole ++ fraction).getLast?, Even n ↔ Even (digitsValue [c])
  nearest : ∀ r, exact x = .finite r → ¬ Overflows places r → IsRounded places r n
  overflown : ∀ r, exact x = .finite r → Overflows places r → n = 0

namespace Shader

section Literals

variable {negative : Bool} {bits : ℕ} {v : Value}

/-- The literal of a finite double denotes it in units of the last place. -/
theorem literalValue?_fixedLiteral (places : ℕ) (finite : bits < infinityBits)
    (double : v.nearest = ofSignedBits negative bits) :
    literalValue? (fixedLiteral places v) =
      some (withSign negative (Decimal.unitsOf places bits / 10 ^ places)) := by
  obtain ⟨c, rest, d, written, read, digit, -, worth⟩ :=
    Decimal.unsigned?_withPoint places (Decimal.unitsOf places bits)
  have chars : (fixedLiteral places v).toList =
      Decimal.signed negative (c :: (rest ++ ['f'])) := by
    rw [Decimal.unitsOf] at written
    rw [fixedLiteral, double, Decimal.fixed, view_ofSignedBits negative finite]
    dsimp only
    rw [written, String.toList_ofList]
    cases negative <;> rfl
  rw [literalValue?_eq (takeSign_literal chars digit) read, worth]
  rfl

/-- With few places no double has too many digits. -/
theorem literalValue?_fixedLiteral_of_few {places : ℕ} (few : places ≤ 10)
    (finite : bits < infinityBits) (double : v.nearest = ofSignedBits negative bits) :
    literalValue? (fixedLiteral places v) =
      some (withSign negative (Decimal.fixedUnits places bits / 10 ^ places)) := by
  rw [literalValue?_fixedLiteral places finite double,
    unitsOf_eq (by omega) (not_overflows_magnitude finite few)]

end Literals

end Shader

namespace Literal

section Doubles

/-- The last of some digits tells whether the number is even. -/
theorem even_digitsValue_iff {cs : List Char} {c : Char} (last : c ∈ cs.getLast?) :
    Even (digitsValue cs) ↔ Even (digitsValue [c]) := by
  obtain ⟨front, rfl⟩ := List.getLast?_eq_some_iff.mp last
  rw [Text.digitsValue_append, Nat.even_add]
  have tens : Even (digitsValue front * 10 ^ [c].length) := by
    rw [List.length_singleton, pow_one]
    exact (by decide : Even 10).mul_left _
  simp only [tens, true_iff]

/-- A finite double is written as it has to be. -/
theorem isFixed_fixedLiteral {places : ℕ} (few : places < 2 ^ 31) (negative : Bool) {bits : ℕ}
    (finite : bits < infinityBits) :
    ∃ whole fraction, IsFixed places (ofSignedBits negative bits)
      (Shader.fixedLiteral places (.float (ofSignedBits negative bits))) negative whole fraction
      (signedUnits places negative bits) := by
  obtain ⟨whole, fraction, nonempty, digits, digits', count, worth, written, leading⟩ :=
    withPoint_eq places (unitsOf places bits)
  have point : (if places = 0 then [] else '.' :: fraction) = fractionChars fraction := by
    rw [fractionChars, ← count]
    simp only [List.length_eq_zero_iff]
  have parity : Even (signedUnits places negative bits) ↔ Even (unitsOf places bits) := by
    cases negative with
    | false => exact Int.even_coe_nat _
    | true => exact even_neg.trans (Int.even_coe_nat _)
  refine ⟨whole, fraction, ?_, sign_ofSignedBits negative finite,
    Digits.append digits digits', nonempty, leading, count, ?_, ?_, fun r known fits => ?_,
    fun r known many => ?_⟩
  · rw [point, unitsOf] at written
    rw [Shader.fixedLiteral, Value.nearest, Value.toFloat, fixed, view_ofSignedBits negative finite]
    dsimp only
    rw [written]
    cases negative <;> rfl
  · rw [cast_signedUnits]
    exact Shader.literalValue?_fixedLiteral places finite rfl
  · intro c last
    rw [parity, ← worth]
    exact even_digitsValue_iff last
  · rw [exact_ofSignedBits negative finite, Exact.finite.injEq] at known
    rw [← known, overflows_withSign] at fits
    rw [← known]
    exact isRounded_signedUnits few negative fits
  · rw [exact_ofSignedBits negative finite, Exact.finite.injEq] at known
    rw [← known, overflows_withSign] at many
    exact signedUnits_of_overflows few negative many

end Doubles

end Literal

end ClenshawCode
