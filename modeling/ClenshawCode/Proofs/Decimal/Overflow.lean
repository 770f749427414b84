import ClenshawCode.Proofs.Binary64.Correct
import ClenshawCode.Proofs.Decimal.Order

/-!
# Too many digits

A number with very many places has more digits than are counted, and then it is written as zero. It
is the number alone that decides: its first digit stands so far before the point that the places do
not fit behind it, and it is no integer of at most fifteen digits, as these are not counted. With
places as few as a program usually has there is no such double.

## Main definitions

* `Overflows`: a number with more digits than are counted
* `unitsOf`: what is written of a magnitude

## Main results

* `overflows_iff`: the writer finds the numbers with too many digits
* `unitsOf_eq`, `unitsOf_of_overflows`: what is written of the others, and of these
-/

namespace ClenshawCode.Decimal

open Binary64

/-- A number that has more digits than are counted when it is written with so many places. -/
def Overflows (places : ℕ) (q : ℚ) : Prop :=
  (∃ k : ℕ, 10 ^ k ≤ |q| ∧ 2 ^ 31 ≤ places + k + 1) ∧ ¬ (|q| < 10 ^ 15 ∧ ∃ n : ℤ, q = n)

/-- What is written of a magnitude, in units of the last place. -/
def unitsOf (places bits : ℕ) : ℕ :=
  writtenUnits (ofMagnitudeBits bits).1 (ofMagnitudeBits bits).2 places

section Numbers

variable {places : ℕ} {q : ℚ}

/-- The sign of a number is not counted. -/
@[simp] theorem overflows_neg : Overflows places (-q) ↔ Overflows places q := by
  have integral : (∃ n : ℤ, -q = n) ↔ ∃ n : ℤ, q = n := by
    constructor
    · rintro ⟨n, same⟩
      exact ⟨-n, by rw [Int.cast_neg, ← same, neg_neg]⟩
    · rintro ⟨n, rfl⟩
      exact ⟨-n, by rw [Int.cast_neg]⟩
  simp only [Overflows, abs_neg, integral]

theorem overflows_withSign (negative : Bool) :
    Overflows places (withSign negative q) ↔ Overflows places q := by
  cases negative with
  | false => exact Iff.rfl
  | true => exact overflows_neg

/-- A number that is small enough for its places has not too many digits. -/
theorem not_overflows_of_lt {k : ℕ} (small : |q| < 10 ^ k) (fits : places + k < 2 ^ 31) :
    ¬ Overflows places q := by
  rintro ⟨⟨j, large, many⟩, -⟩
  have order : (10 : ℚ) ^ j < 10 ^ k := large.trans_lt small
  have less : j < k := (pow_lt_pow_iff_right₀ (by norm_num)).mp order
  omega

end Numbers

section Ratios

variable {places num den : ℕ}

/-- The digits before the point are those of the integral part. -/
theorem lt_digitCount_iff {k n : ℕ} : k < digitCount n ↔ 10 ^ k ≤ n := by
  rw [digitCount, Text.digitsReversed_eq_digits]
  exact Nat.lt_digits_length_iff (by norm_num) n

theorem pow_le_ratio_iff (positive : 0 < den) {k : ℕ} :
    (10 : ℚ) ^ k ≤ (num : ℚ) / den ↔ k < digitCount (num / den) := by
  rw [lt_digitCount_iff, Nat.le_div_iff_mul_le positive, le_div_iff₀ (by exact_mod_cast positive)]
  exact_mod_cast Iff.rfl

theorem ratio_integral_iff (positive : 0 < den) :
    (∃ n : ℤ, (num : ℚ) / den = n) ↔ num % den = 0 := by
  have nonzero : (den : ℚ) ≠ 0 := by exact_mod_cast positive.ne'
  rw [← Nat.dvd_iff_mod_eq_zero]
  constructor
  · rintro ⟨n, same⟩
    rw [div_eq_iff nonzero] at same
    have whole : (num : ℤ) = n * den := by exact_mod_cast same
    exact Int.natCast_dvd_natCast.mp ⟨n, by rw [whole, mul_comm]⟩
  · rintro ⟨n, rfl⟩
    exact ⟨n, by rw [Nat.cast_mul, mul_div_cancel_left₀ _ nonzero, Int.cast_natCast]⟩

/-- The test of the writer is that on the number. -/
theorem overflows_ratio_iff (positive : 0 < den) (few : places < 2 ^ 31) :
    Overflows places ((num : ℚ) / den) ↔
      2 ^ 31 ≤ places + digitCount (num / den) ∧
        ¬ (num % den = 0 ∧ digitCount (num / den) ≤ 15) := by
  have nonneg : (0 : ℚ) ≤ (num : ℚ) / den := by positivity
  have counted : (∃ k : ℕ, k < digitCount (num / den) ∧ 2 ^ 31 ≤ places + k + 1) ↔
      2 ^ 31 ≤ places + digitCount (num / den) := by
    constructor
    · rintro ⟨k, less, many⟩
      omega
    · intro many
      exact ⟨digitCount (num / den) - 1, by omega, by omega⟩
  have short : (num : ℚ) / den < 10 ^ 15 ↔ digitCount (num / den) ≤ 15 := by
    rw [← not_le, pow_le_ratio_iff positive, not_lt]
  rw [Overflows, abs_of_nonneg nonneg]
  simp only [pow_le_ratio_iff positive, counted, short, ratio_integral_iff positive]
  tauto

end Ratios

section Magnitudes

variable {places bits : ℕ}

/-- The writer finds the magnitudes with too many digits. -/
theorem overflows_iff (few : places < 2 ^ 31) :
    overflows (ofMagnitudeBits bits).1 (ofMagnitudeBits bits).2 places = true ↔
      Overflows places (magnitude bits) := by
  rw [magnitude, ← dyadic_ratio, overflows_ratio_iff (Nat.two_pow_pos _) few, overflows]
  simp [imp_iff_not_or]

theorem unitsOf_eq (few : places < 2 ^ 31) (fits : ¬ Overflows places (magnitude bits)) :
    unitsOf places bits = fixedUnits places bits := by
  rw [unitsOf, writtenUnits, if_neg (mt (overflows_iff few).mp fits), fixedUnits]

theorem unitsOf_of_overflows (few : places < 2 ^ 31)
    (many : Overflows places (magnitude bits)) : unitsOf places bits = 0 := by
  rw [unitsOf, writtenUnits, if_pos ((overflows_iff few).mpr many)]

/-- A finite double with few places has not too many digits. -/
theorem not_overflows_magnitude (finite : bits < infinityBits) (few : places ≤ 10) :
    ¬ Overflows places (magnitude bits) := by
  have small : magnitude bits < 10 ^ 309 := by
    have ratio := magnitudeBits_lt_infinityBits_iff
      ((ofMagnitudeBits bits).1 * 2 ^ (ofMagnitudeBits bits).2.toNat)
      (Nat.two_pow_pos (-(ofMagnitudeBits bits).2).toNat)
    rw [magnitudeBits_ofMagnitudeBits, dyadic_ratio, ← magnitude] at ratio
    refine (ratio.mp finite).trans ?_
    have bound : overflow < 10 ^ 309 := by decide +kernel
    exact_mod_cast bound
  refine not_overflows_of_lt (k := 309) ?_ (by omega)
  rwa [abs_of_nonneg (magnitude_nonneg bits)]

end Magnitudes

end ClenshawCode.Decimal
