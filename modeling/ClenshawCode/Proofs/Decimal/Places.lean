import ClenshawCode.Proofs.Decimal.Overflow
import Mathlib.Algebra.Order.Round

/-!
# Rounding to a fixed number of places

With a fixed number of places a number is written as an integer in units of the last place, and the
integer is the nearest one, the even one of two that are as near. There is only one such integer:
from this alone it follows that the number is off by half a unit at most, that a multiple of the
unit is not off at all, and that a larger number is not given a smaller integer.

A finite double is rounded by its magnitude and gets its sign afterwards. An integer on the other
side of zero is no nearer, so this is the integer nearest to the double itself. A double with too
many digits is not rounded but written as zero.

## Main definitions

* `IsRounded`: the integer nearest to a number in units of the last place
* `signedUnits`: a finite double in units of the last place

## Main results

* `IsRounded.mono`: rounding does not turn the order
* `isRounded_signedUnits`: a double is written as the nearest integer
* `signedUnits_of_overflows`: with too many digits it is written as zero
-/

namespace ClenshawCode.Decimal

open Binary64

/-- The integer nearest to a number in units of the last place. It is even if another one is as
near. -/
def IsRounded (places : ℕ) (q : ℚ) (n : ℤ) : Prop :=
  ∀ k : ℤ, k ≠ n → |q - n / 10 ^ places| ≤ |q - k / 10 ^ places| ∧
    (|q - k / 10 ^ places| = |q - n / 10 ^ places| → Even n)

/-- What is written of a finite double, in units of the last place. -/
def signedUnits (places : ℕ) (negative : Bool) (bits : ℕ) : ℤ :=
  if negative then -unitsOf places bits else unitsOf places bits

section Rounded

variable {places : ℕ} {p q : ℚ} {m n : ℤ}

/-- A distance in units of the last place. -/
theorem abs_sub_div_eq (places : ℕ) (q : ℚ) (k : ℤ) :
    |q - k / 10 ^ places| = |q * 10 ^ places - k| / 10 ^ places := by
  have unit : (0 : ℚ) < 10 ^ places := by positivity
  rw [eq_div_iff unit.ne', ← abs_of_pos unit, ← abs_mul, abs_of_pos unit, sub_mul,
    div_mul_cancel₀ _ unit.ne']

/-- Rounding is a matter of the number in units of the last place. -/
theorem isRounded_iff : IsRounded places q n ↔ ∀ k : ℤ, k ≠ n →
    |q * 10 ^ places - n| ≤ |q * 10 ^ places - k| ∧
      (|q * 10 ^ places - k| = |q * 10 ^ places - n| → Even n) := by
  have unit : (0 : ℚ) < 10 ^ places := by positivity
  simp only [IsRounded, abs_sub_div_eq, div_le_div_iff_of_pos_right unit,
    div_left_inj' unit.ne']

/-- A rounded number is off by half a unit at most. -/
theorem IsRounded.near (rounded : IsRounded places q n) :
    |q - n / 10 ^ places| ≤ 1 / 2 / 10 ^ places := by
  have unit : (0 : ℚ) < 10 ^ places := by positivity
  rw [abs_sub_div_eq, div_le_div_iff_of_pos_right unit]
  have nearest := abs_sub_round (q * 10 ^ places)
  by_cases same : round (q * 10 ^ places) = n
  · rwa [same] at nearest
  · exact ((isRounded_iff.mp rounded _ same).1).trans nearest

/-- The opposite number is rounded to the opposite integer. -/
theorem IsRounded.neg (rounded : IsRounded places q n) : IsRounded places (-q) (-n) := by
  intro k other
  have opposite (k : ℤ) : |-q - k / 10 ^ places| = |q - (-k : ℤ) / 10 ^ places| := by
    rw [← abs_neg]
    congr 1
    push_cast
    ring
  rw [opposite, opposite, neg_neg, even_neg]
  exact rounded (-k) (by omega)

/-- A larger number is not rounded to a smaller integer. -/
theorem IsRounded.mono (first : IsRounded places p m) (second : IsRounded places q n)
    (order : p ≤ q) : m ≤ n := by
  rw [isRounded_iff] at first second
  by_contra turned
  have above : n + 1 ≤ m := not_le.mp turned
  have unit : (0 : ℚ) ≤ 10 ^ places := by positivity
  have scaled := mul_le_mul_of_nonneg_right order unit
  have gap : (n : ℚ) + 1 ≤ m := by exact_mod_cast above
  obtain ⟨least, tie⟩ := first n (by omega)
  obtain ⟨least', tie'⟩ := second m (by omega)
  generalize p * 10 ^ places = a at *
  generalize q * 10 ^ places = b at *
  -- Both numbers lie in the middle of the two integers, each of which is as near as the other.
  have middle : a = (m + n) / 2 ∧ b = (m + n) / 2 := by
    have low : (m + n) / 2 ≤ a := by
      by_contra below
      have nearer : |a - n| < |a - m| := by
        rw [abs_of_neg (by linarith : a - m < 0)]
        apply abs_lt.mpr
        constructor <;> linarith
      exact nearer.not_ge least
    have high : b ≤ (m + n) / 2 := by
      by_contra beyond
      have nearer : |b - m| < |b - n| := by
        rw [abs_of_pos (by linarith : 0 < b - n)]
        apply abs_lt.mpr
        constructor <;> linarith
      exact nearer.not_ge least'
    constructor <;> linarith
  obtain ⟨rfl, rfl⟩ := middle
  have equal : |((m : ℚ) + n) / 2 - m| = |((m : ℚ) + n) / 2 - n| := by
    rw [← abs_neg]
    congr 1
    ring
  have even := tie equal.symm
  have even' := tie' equal
  -- Two even integers have another one between them, which is nearer.
  have apart : n + 2 ≤ m := by
    rcases above.lt_or_eq with more | next
    · omega
    · rw [← next] at even
      exact absurd even' (Int.not_even_iff_odd.mpr (by simpa using even.sub_odd odd_one))
  have wide : (n : ℚ) + 2 ≤ m := by exact_mod_cast apart
  obtain ⟨closer, -⟩ := second (n + 1) (by omega)
  have inside : |((m : ℚ) + n) / 2 - (n + 1 : ℤ)| < |((m : ℚ) + n) / 2 - n| := by
    push_cast
    rw [abs_of_nonneg (by linarith), abs_of_pos (by linarith)]
    linarith
  exact inside.not_ge closer

end Rounded

section Doubles

/-- A magnitude is written as the nearest integer in units of the last place. -/
theorem isRounded_fixedUnits (places bits : ℕ) :
    IsRounded places (magnitude bits) (fixedUnits places bits) := by
  rw [isRounded_iff]
  intro k other
  rcases lt_or_ge k 0 with negative | nonneg
  · -- A negative integer is more than half a unit away.
    have near := fixedUnits_near places bits
    have least := mul_nonneg (magnitude_nonneg bits) (by positivity : (0 : ℚ) ≤ 10 ^ places)
    have below : (k : ℚ) ≤ -1 := by exact_mod_cast Int.le_sub_one_of_lt negative
    have far : 1 ≤ |magnitude bits * 10 ^ places - k| :=
      le_trans (by linarith) (le_abs_self _)
    rw [abs_sub_comm] at near
    rw [Int.cast_natCast]
    exact ⟨by linarith, fun equal => absurd equal (by linarith)⟩
  · -- Among the naturals this is how a quotient is rounded.
    obtain ⟨j, rfl⟩ := Int.eq_ofNat_of_zero_le nonneg
    have different : j ≠ fixedUnits places bits := by exact_mod_cast other
    rw [fixedUnits_eq] at different
    have nearest := roundDiv_nearest (Nat.two_pow_pos _) different
    rw [fixedUnits_ratio, ← fixedUnits_eq] at nearest
    exact_mod_cast nearest

theorem isRounded_signedUnits {places : ℕ} (few : places < 2 ^ 31) (negative : Bool) {bits : ℕ}
    (fits : ¬ Overflows places (magnitude bits)) :
    IsRounded places (withSign negative (magnitude bits)) (signedUnits places negative bits) := by
  rw [signedUnits, unitsOf_eq few fits]
  cases negative with
  | false => exact isRounded_fixedUnits places bits
  | true => exact (isRounded_fixedUnits places bits).neg

theorem signedUnits_of_overflows {places : ℕ} (few : places < 2 ^ 31) (negative : Bool) {bits : ℕ}
    (many : Overflows places (magnitude bits)) : signedUnits places negative bits = 0 := by
  rw [signedUnits, unitsOf_of_overflows few many]
  cases negative <;> rfl

/-- The units of a double as an exact number. -/
theorem cast_signedUnits (places : ℕ) (negative : Bool) (bits : ℕ) :
    ((signedUnits places negative bits : ℤ) : ℚ) / 10 ^ places =
      withSign negative (unitsOf places bits / 10 ^ places) := by
  cases negative with
  | false => simp [signedUnits, withSign]
  | true => simp [signedUnits, withSign, neg_div]

end Doubles

end ClenshawCode.Decimal
