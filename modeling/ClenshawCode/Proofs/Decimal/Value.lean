import ClenshawCode.Proofs.Binary64.Rounding
import ClenshawCode.Proofs.Text.Digits

/-!
# What a decimal is worth

A decimal reads back as the double nearest to its value, so two decimals of one value read back
alike. The shortest decimal of a double is found among those that read back as it, or else is its
exact expansion, and dropping zeros at the end keeps the value; so it reads back as the double.

## Main definitions

* `Decimal.value`: the value of a decimal
-/

namespace ClenshawCode.Decimal

open Binary64

/-- The value of a decimal. -/
def value (d : Decimal) : ℚ := d.digits * 10 ^ d.exponent

section Value

theorem den_pos (d : Decimal) : 0 < d.den := Nat.pow_pos (by norm_num)

theorem num_div_den (d : Decimal) : (d.num : ℚ) / d.den = d.value := by
  have power : (10 : ℚ) ^ d.exponent * 10 ^ (-d.exponent).toNat = 10 ^ d.exponent.toNat := by
    rw [← zpow_natCast, ← zpow_natCast, ← zpow_add₀ (by norm_num)]
    congr 1
    omega
  rw [num, den, value, Nat.pow_eq, Nat.pow_eq, div_eq_iff (by positivity)]
  push_cast
  rw [mul_assoc, power]

/-- A quotient of naturals equal to a decimal is rounded as the decimal is. -/
theorem magnitudeBits_eq_of_ratio {num den : ℕ} {d : Decimal} (positive : 0 < den)
    (same : (num : ℚ) / den = d.value) : Binary64.magnitudeBits num den = d.magnitudeBits := by
  have nonzero : (den : ℚ) ≠ 0 := by exact_mod_cast positive.ne'
  have nonzero' : (d.den : ℚ) ≠ 0 := by exact_mod_cast d.den_pos.ne'
  rw [← num_div_den, div_eq_div_iff nonzero nonzero'] at same
  exact magnitudeBits_congr positive d.den_pos (by exact_mod_cast same)

/-- Decimals of one value read back alike. -/
theorem magnitudeBits_eq_of_value {d d' : Decimal} (same : d.value = d'.value) :
    d.magnitudeBits = d'.magnitudeBits :=
  magnitudeBits_eq_of_ratio d.den_pos (d.num_div_den.trans same)

/-- What is dropped are zeros. -/
theorem dropZeros_spec (n : ℕ) : (dropZeros n).1 * 10 ^ (dropZeros n).2 = n := by
  induction n using Nat.strongRecOn with
  | ind n ih =>
    -- The recursion is on a tenth of the number.
    rw [dropZeros]
    split
    · rename_i zero
      rw [zero]
      rfl
    · rename_i nonzero
      split
      · rename_i divisible
        have whole := ih (n / 10) (by omega)
        dsimp only
        rw [pow_succ, ← mul_assoc, whole]
        omega
      · exact Nat.mul_one n

theorem value_strip (d : Decimal) : d.strip.value = d.value := by
  have zeros : ((dropZeros d.digits).1 : ℚ) * 10 ^ (dropZeros d.digits).2 = d.digits := by
    exact_mod_cast dropZeros_spec d.digits
  rw [value, value, strip, ← zeros, zpow_add₀ (by norm_num), zpow_natCast]
  ring

theorem value_ofDyadic (m : ℕ) (e : ℤ) : (ofDyadic m e).value = m * 2 ^ e := by
  rw [ofDyadic, value, Nat.pow_eq, Nat.pow_eq]
  split
  · rename_i nonneg
    have power : (2 : ℚ) ^ e = 2 ^ e.toNat := by
      rw [← zpow_natCast, Int.toNat_of_nonneg nonneg]
    rw [power]
    push_cast
    ring
  · rename_i negative
    -- A power of a half is a power of five in units of the same power of a tenth.
    have power : (2 : ℚ) ^ e = 5 ^ (-e).toNat * 10 ^ e := by
      have five : (5 : ℚ) ^ (-e).toNat = 5 ^ (-e) := by
        rw [← zpow_natCast, Int.toNat_of_nonneg (by omega)]
      have ten : (10 : ℚ) ^ e = 5 ^ e * 2 ^ e := by
        rw [← mul_zpow]
        norm_num
      rw [five, ten, ← mul_assoc, ← zpow_add₀ (by norm_num), neg_add_cancel, zpow_zero, one_mul]
    rw [power]
    push_cast
    ring

end Value

section Shortest

variable {num den bits : ℕ} {exponent : ℤ} {d : Decimal}

/-- A neighbour is only taken if it reads back as the bits that are asked for. -/
theorem magnitudeBits_of_onGrid (found : onGrid? num den bits exponent = some d) :
    d.magnitudeBits = bits := by
  rw [onGrid?] at found
  -- Both neighbours, one of them, or none may read back.
  simp only at found
  split at found
  · rename_i lower upper
    rw [Option.some.injEq] at found
    rw [beq_iff_eq] at lower upper
    split at found
    · rw [← found, lower]
    · rw [← found, upper]
  · rename_i lower _
    rw [Option.some.injEq] at found
    rw [← found, eq_of_beq lower]
  · rename_i _ upper
    rw [Option.some.injEq] at found
    rw [← found, eq_of_beq upper]
  · cases found

/-- The shortest decimal of a dyadic number reads back as the double nearest to the number. -/
theorem magnitudeBits_shortest (m : ℕ) (e : ℤ) :
    (shortest m e).magnitudeBits =
      Binary64.magnitudeBits (m * 2 ^ e.toNat) (2 ^ (-e).toNat) := by
  rw [shortest]
  simp only [Nat.pow_eq]
  split
  · rename_i d found
    obtain ⟨count, -, onGrid⟩ := List.exists_of_findSome?_eq_some found
    rw [magnitudeBits_eq_of_value (value_strip d), magnitudeBits_of_onGrid onGrid]
  · rw [magnitudeBits_eq_of_value (value_strip _)]
    refine (magnitudeBits_eq_of_ratio (Nat.two_pow_pos _) ?_).symm
    rw [dyadic_ratio, value_ofDyadic]

end Shortest

section ToFloat

/-- A positive decimal lies between two powers of ten. -/
theorem value_bounds {d : Decimal} (positive : 0 < d.digits) :
    10 ^ (d.exponent + digitCount d.digits - 1) ≤ d.value ∧
      d.value < 10 ^ (d.exponent + digitCount d.digits) := by
  obtain ⟨lower, upper, some⟩ := Text.digitCount_bounds positive
  have power : (0 : ℚ) < 10 ^ d.exponent := by positivity
  constructor
  · have split : d.exponent + digitCount d.digits - 1 =
        ((digitCount d.digits - 1 : ℕ) : ℤ) + d.exponent := by omega
    rw [split, zpow_add₀ (by norm_num), zpow_natCast, value]
    exact mul_le_mul_of_nonneg_right (by exact_mod_cast lower) power.le
  · rw [add_comm, zpow_add₀ (by norm_num), zpow_natCast, value]
    exact mul_lt_mul_of_pos_right (by exact_mod_cast upper) power

/-- Ten is more than three doublings. -/
private theorem two_zpow_le_ten_zpow (k : ℕ) : (2 : ℚ) ^ (3 * (k : ℤ)) ≤ 10 ^ (k : ℤ) := by
  rw [zpow_mul, zpow_natCast, zpow_natCast]
  exact pow_le_pow_left₀ (by norm_num) (by norm_num) k

/-- The shortcuts for decimals far outside the range of doubles give what rounding gives. -/
theorem toFloat_eq (negative : Bool) (d : Decimal) :
    toFloat negative d = ofSignedBits negative (min d.magnitudeBits infinityBits) := by
  rw [toFloat]
  split
  · rename_i small
    have zero : d.magnitudeBits = 0 := by
      rcases Nat.eq_zero_or_pos d.digits with none | positive
      · rw [magnitudeBits, num, none, Nat.zero_mul, Binary64.magnitudeBits, if_pos rfl]
      · apply magnitudeBits_of_tiny d.den_pos
        rw [num_div_den]
        have scale := small.resolve_left positive.ne'
        -- The shortcut leaves some room: even `8 ^ 400` is more than `2 ^ 1075`.
        calc d.value < 10 ^ (d.exponent + digitCount d.digits) := (value_bounds positive).2
          _ ≤ 10 ^ (-400 : ℤ) := zpow_le_zpow_right₀ (by norm_num) scale.le
          _ ≤ (2 ^ (3 * ((400 : ℕ) : ℤ)))⁻¹ := by
            rw [zpow_neg]
            exact inv_anti₀ (by positivity) (two_zpow_le_ten_zpow 400)
          _ < 2 ^ (-1075 : ℤ) := by
            rw [← zpow_neg]
            exact zpow_lt_zpow_right₀ one_lt_two (by norm_num)
    rw [zero, Nat.zero_min]
  · split
    · rename_i some large
      have positive : 0 < d.digits := Nat.pos_of_ne_zero fun none => some (.inl none)
      have infinite : infinityBits ≤ d.magnitudeBits := by
        apply le_magnitudeBits_of_huge d.den_pos
        rw [num_div_den]
        calc (2 : ℚ) ^ (1024 : ℤ) ≤ 2 ^ (3 * ((400 : ℕ) : ℤ)) :=
              zpow_le_zpow_right₀ one_le_two (by norm_num)
          _ ≤ 10 ^ (400 : ℤ) := two_zpow_le_ten_zpow 400
          _ ≤ 10 ^ (d.exponent + digitCount d.digits - 1) :=
            zpow_le_zpow_right₀ (by norm_num) (by omega)
          _ ≤ d.value := (value_bounds positive).1
      rw [Nat.min_eq_right infinite]
      rfl
    · rfl

end ToFloat

end ClenshawCode.Decimal
