import ClenshawCode.Proofs.Binary64.Bits
import Mathlib.Tactic.Ring
import Mathlib.Tactic.FieldSimp
import Mathlib.Tactic.Positivity
import Mathlib.Algebra.Order.Field.Power
import Mathlib.Algebra.Order.Floor.Ring
import Mathlib.Data.Rat.Cast.Order

/-!
# Rounding a quotient to a double

`magnitudeBits` is given a quotient as a numerator and a denominator. It depends on their ratio
alone: the grid on which it rounds is the one grid on which the ratio has at most 53 digits and no
fewer than it can have, and a ratio is rounded to an integer alike however it is written. The pair
that the bits of a finite double stand for lies on its own grid, so it is rounded to those bits.

## Main definitions

* `IsGrid`: the exponent of the grid on which a ratio is rounded
-/

namespace ClenshawCode.Binary64

section RoundDiv

/-- A common factor of a quotient does not change how it is rounded. -/
theorem roundDiv_mul_left (k num den : ℕ) (positive : 0 < k) :
    roundDiv (k * num) (k * den) = roundDiv num den := by
  have quotient : k * num / (k * den) = num / den := Nat.mul_div_mul_left num den positive
  have rest : 2 * (k * num % (k * den)) = k * (2 * (num % den)) := by
    rw [Nat.mul_mod_mul_left]
    ring
  have order : compare (2 * (k * num % (k * den))) (k * den) =
      compare (2 * (num % den)) den := by
    rw [rest]
    rcases lt_trichotomy (2 * (num % den)) den with less | same | greater
    · rw [Nat.compare_eq_lt.mpr less,
        Nat.compare_eq_lt.mpr (Nat.mul_lt_mul_of_pos_left less positive)]
    · rw [Nat.compare_eq_eq.mpr same, Nat.compare_eq_eq.mpr (by rw [same])]
    · rw [Nat.compare_eq_gt.mpr greater,
        Nat.compare_eq_gt.mpr (Nat.mul_lt_mul_of_pos_left greater positive)]
  simp only [roundDiv, quotient, order]

/-- How a quotient is rounded depends on the ratio alone. -/
theorem roundDiv_congr {num den num' den' : ℕ} (positive : 0 < den) (positive' : 0 < den')
    (same : num * den' = num' * den) : roundDiv num den = roundDiv num' den' := by
  rw [← roundDiv_mul_left den' num den positive', ← roundDiv_mul_left den num' den' positive,
    Nat.mul_comm den' num, same, Nat.mul_comm num' den, Nat.mul_comm den' den]

/-- Rounding goes no lower than an integer that is no larger. -/
theorem le_roundDiv {m num den : ℕ} (positive : 0 < den) (order : m * den ≤ num) :
    m ≤ roundDiv num den := by
  have floor : m ≤ num / den := (Nat.le_div_iff_mul_le positive).mpr order
  rw [roundDiv]
  split
  · exact floor
  · exact floor.trans (Nat.le_succ _)
  · split
    · exact floor
    · exact floor.trans (Nat.le_succ _)

/-- What is below a half is rounded to zero. -/
theorem roundDiv_eq_zero {num den : ℕ} (small : 2 * num < den) : roundDiv num den = 0 := by
  have order : compare (2 * (num % den)) den = .lt := by
    rw [Nat.mod_eq_of_lt (by omega)]
    exact Nat.compare_eq_lt.mpr small
  simp only [roundDiv, order]
  exact Nat.div_eq_of_lt (by omega)

/-- An integer is rounded to itself. -/
theorem roundDiv_mul_self (m : ℕ) {den : ℕ} (positive : 0 < den) :
    roundDiv (m * den) den = m := by
  rw [roundDiv, Nat.mul_div_cancel m positive, Nat.mul_mod_left]
  have order : compare (2 * 0) den = .lt := Nat.compare_eq_lt.mpr positive
  simp only [order]

end RoundDiv

/-- The exponent of the grid on which a ratio is rounded: the ratio lies below `2 ^ 53` steps of
the grid, and not below `2 ^ 52` of them unless there is no finer grid. -/
structure IsGrid (ratio : ℚ) (exponent : ℤ) : Prop where
  lowest : -1074 ≤ exponent
  below : ratio < 2 ^ (exponent + 53)
  tight : exponent = -1074 ∨ 2 ^ (exponent + 52) ≤ ratio

section Grid

variable {ratio : ℚ} {exponent exponent' : ℤ}

/-- There is one grid for a ratio. -/
theorem IsGrid.unique (grid : IsGrid ratio exponent) (grid' : IsGrid ratio exponent') :
    exponent = exponent' := by
  have le {e e' : ℤ} (first : IsGrid ratio e) (second : IsGrid ratio e') : e' ≤ e := by
    -- A grid that is not the finest is reached by the ratio, which the other one exceeds.
    rcases second.tight with lowest | reached
    · rw [lowest]
      exact first.lowest
    · have order : (2 : ℚ) ^ (e' + 52) < 2 ^ (e + 53) := reached.trans_lt first.below
      rw [zpow_lt_zpow_iff_right₀ one_lt_two] at order
      omega
  exact le_antisymm (le grid' grid) (le grid grid')

/-- A ratio lies below `2 ^ k` steps of a grid. -/
theorem ratio_lt_two_zpow_iff {num den : ℕ} (positive : 0 < den) (e : ℤ) (k : ℕ) :
    (num : ℚ) / den < 2 ^ (e + k) ↔
      num * 2 ^ (-e).toNat < den * 2 ^ e.toNat * 2 ^ k := by
  have dPos : (0 : ℚ) < den := by exact_mod_cast positive
  have split : (2 : ℚ) ^ (e + k) * 2 ^ (-e).toNat = 2 ^ e.toNat * 2 ^ k := by
    rw [← zpow_natCast, ← zpow_natCast, ← zpow_natCast, ← zpow_add₀ two_ne_zero,
      ← zpow_add₀ two_ne_zero]
    congr 1
    omega
  have pPos : (0 : ℚ) < 2 ^ (-e).toNat := by positivity
  rw [div_lt_iff₀ dPos, ← mul_lt_mul_iff_left₀ pPos]
  have right : (2 : ℚ) ^ (e + k) * den * 2 ^ (-e).toNat = den * (2 ^ e.toNat * 2 ^ k) := by
    rw [← split]
    ring
  rw [right, ← mul_assoc]
  exact_mod_cast Iff.rfl

/-- The ratio lies within a factor of two of the quotient of the leading powers. -/
theorem two_zpow_log2_bounds {num den : ℕ} (num_pos : 0 < num) (den_pos : 0 < den) :
    (2 : ℚ) ^ ((num.log2 : ℤ) - den.log2 - 1) < num / den ∧
      (num : ℚ) / den < 2 ^ ((num.log2 : ℤ) - den.log2 + 1) := by
  have dPos : (0 : ℚ) < den := by exact_mod_cast den_pos
  have numLow : (2 : ℚ) ^ (num.log2 : ℤ) ≤ num := by
    exact_mod_cast Nat.log2_self_le num_pos.ne'
  have numHigh : (num : ℚ) < 2 ^ ((num.log2 : ℤ) + 1) := by
    exact_mod_cast Nat.lt_log2_self (n := num)
  have denLow : (2 : ℚ) ^ (den.log2 : ℤ) ≤ den := by
    exact_mod_cast Nat.log2_self_le den_pos.ne'
  have denHigh : (den : ℚ) < 2 ^ ((den.log2 : ℤ) + 1) := by
    exact_mod_cast Nat.lt_log2_self (n := den)
  constructor
  · rw [lt_div_iff₀ dPos]
    calc (2 : ℚ) ^ ((num.log2 : ℤ) - den.log2 - 1) * den
        < 2 ^ ((num.log2 : ℤ) - den.log2 - 1) * 2 ^ ((den.log2 : ℤ) + 1) :=
          mul_lt_mul_of_pos_left denHigh (by positivity)
      _ = 2 ^ (num.log2 : ℤ) := by
          rw [← zpow_add₀ two_ne_zero]
          congr 1
          ring
      _ ≤ num := numLow
  · rw [div_lt_iff₀ dPos]
    calc (num : ℚ) < 2 ^ ((num.log2 : ℤ) + 1) := numHigh
      _ = 2 ^ ((num.log2 : ℤ) - den.log2 + 1) * 2 ^ (den.log2 : ℤ) := by
          rw [← zpow_add₀ two_ne_zero]
          congr 1
          ring
      _ ≤ 2 ^ ((num.log2 : ℤ) - den.log2 + 1) * den :=
          mul_le_mul_of_nonneg_left denLow (by positivity)

/-- `gridExponent` finds the grid of a positive ratio. -/
theorem gridExponent_isGrid {num den : ℕ} (num_pos : 0 < num) (den_pos : 0 < den) :
    IsGrid ((num : ℚ) / den) (gridExponent num den) := by
  obtain ⟨low, high⟩ := two_zpow_log2_bounds num_pos den_pos
  have step {a b : ℤ} (order : a ≤ b) : (2 : ℚ) ^ a ≤ 2 ^ b :=
    zpow_le_zpow_right₀ one_le_two order
  rw [gridExponent]
  simp only [Nat.pow_eq]
  -- The leading digits leave two candidates, of which the finer one is tried first.
  set guess := max ((num.log2 : ℤ) - den.log2 - 53) (-1074) with definition
  split
  · rename_i fits
    refine ⟨le_max_right _ _, (ratio_lt_two_zpow_iff den_pos guess 53).mpr fits, ?_⟩
    rcases le_total ((num.log2 : ℤ) - den.log2 - 53) (-1074) with small | large
    · exact .inl (by omega)
    · exact .inr ((step (by omega)).trans low.le)
  · rename_i exceeds
    rw [← ratio_lt_two_zpow_iff den_pos guess 53, not_lt] at exceeds
    refine ⟨by omega, high.trans_le (step (by omega)), .inr ?_⟩
    have shift : guess + 1 + 52 = guess + 53 := by ring
    rw [shift]
    exact_mod_cast exceeds

end Grid


section Magnitude

/-- The bits of a positive ratio, on its grid. -/
theorem magnitudeBits_eq {num den : ℕ} (nonzero : num ≠ 0) :
    magnitudeBits num den = (gridExponent num den + 1074).toNat * 2 ^ 52 +
      roundDiv (num * 2 ^ (-gridExponent num den).toNat)
        (den * 2 ^ (gridExponent num den).toNat) :=
  if_neg nonzero

/-- The bits of the nearest double depend on the ratio alone. -/
theorem magnitudeBits_congr {num den num' den' : ℕ} (positive : 0 < den) (positive' : 0 < den')
    (same : num * den' = num' * den) : magnitudeBits num den = magnitudeBits num' den' := by
  rcases Nat.eq_zero_or_pos num with rfl | num_pos
  · have zero : num' = 0 := by
      rw [Nat.zero_mul] at same
      exact (Nat.mul_eq_zero.mp same.symm).resolve_right positive.ne'
    rw [zero, magnitudeBits, magnitudeBits, if_pos rfl, if_pos rfl]
  · have num_pos' : 0 < num' := by
      have product : 0 < num' * den := same ▸ Nat.mul_pos num_pos positive'
      exact Nat.pos_of_mul_pos_right product
    have ratio : (num : ℚ) / den = num' / den' := by
      rw [div_eq_div_iff (by exact_mod_cast positive.ne') (by exact_mod_cast positive'.ne')]
      exact_mod_cast same
    -- Both quotients are rounded on the one grid of their ratio.
    have grid : gridExponent num den = gridExponent num' den' :=
      (gridExponent_isGrid num_pos positive).unique
        (ratio ▸ gridExponent_isGrid num_pos' positive')
    have rounded (k l : ℕ) (hk : 0 < k) : roundDiv (num * l) (den * k) =
        roundDiv (num' * l) (den' * k) := by
      apply roundDiv_congr (Nat.mul_pos positive hk) (Nat.mul_pos positive' hk)
      calc num * l * (den' * k) = num * den' * (l * k) := by ring
        _ = num' * den * (l * k) := by rw [same]
        _ = num' * l * (den * k) := by ring
    rw [magnitudeBits_eq num_pos.ne', magnitudeBits_eq num_pos'.ne', grid]
    rw [rounded _ _ (Nat.two_pow_pos _)]

/-- The pair that bits without a sign stand for: a mantissa of at most 53 digits on the lowest grid
on which it has so many, counted through by the bits. -/
theorem ofMagnitudeBits_spec (bits : ℕ) :
    -1074 ≤ (ofMagnitudeBits bits).2 ∧ (ofMagnitudeBits bits).1 < 2 ^ 53 ∧
      ((ofMagnitudeBits bits).2 = -1074 ∨ 2 ^ 52 ≤ (ofMagnitudeBits bits).1) ∧
      ((ofMagnitudeBits bits).2 + 1074).toNat * 2 ^ 52 + (ofMagnitudeBits bits).1 = bits := by
  rw [ofMagnitudeBits, Nat.pow_eq]
  split <;> dsimp only <;> omega

/-- Such a pair is found again. -/
theorem ofMagnitudeBits_pair {m : ℕ} {e : ℤ} (lowest : -1074 ≤ e) (short : m < 2 ^ 53)
    (normal : e = -1074 ∨ 2 ^ 52 ≤ m) :
    ofMagnitudeBits ((e + 1074).toNat * 2 ^ 52 + m) = (m, e) := by
  rw [ofMagnitudeBits, Nat.pow_eq]
  split <;> rw [Prod.mk.injEq] <;> omega

/-- A dyadic number as the quotient of two naturals. -/
theorem dyadic_ratio (m : ℕ) (e : ℤ) :
    ((m * 2 ^ e.toNat : ℕ) : ℚ) / (2 ^ (-e).toNat : ℕ) = m * 2 ^ e := by
  have power : (2 : ℚ) ^ e * 2 ^ (-e).toNat = 2 ^ e.toNat := by
    rw [← zpow_natCast, ← zpow_natCast, ← zpow_add₀ two_ne_zero]
    congr 1
    omega
  rw [div_eq_iff (by positivity)]
  push_cast
  rw [mul_assoc, power]

/-- A mantissa of at most 53 digits lies on its own grid, if it has no fewer than it can have. -/
theorem isGrid_of_pair {m : ℕ} {e : ℤ} (lowest : -1074 ≤ e) (short : m < 2 ^ 53)
    (normal : e = -1074 ∨ 2 ^ 52 ≤ m) : IsGrid (m * 2 ^ e) e := by
  refine ⟨lowest, ?_, normal.imp_right fun long => ?_⟩
  · rw [zpow_add₀ two_ne_zero, mul_comm]
    exact mul_lt_mul_of_pos_left (by exact_mod_cast short) (by positivity)
  · rw [zpow_add₀ two_ne_zero, mul_comm]
    exact mul_le_mul_of_nonneg_right (by exact_mod_cast long) (by positivity)

/-- The pair that the bits of a double stand for is rounded to those bits. -/
theorem magnitudeBits_ofMagnitudeBits (bits : ℕ) :
    magnitudeBits ((ofMagnitudeBits bits).1 * 2 ^ (ofMagnitudeBits bits).2.toNat)
      (2 ^ (-(ofMagnitudeBits bits).2).toNat) = bits := by
  obtain ⟨lowest, short, normal, whole⟩ := ofMagnitudeBits_spec bits
  generalize (ofMagnitudeBits bits).1 = m at *
  generalize (ofMagnitudeBits bits).2 = e at *
  rcases Nat.eq_zero_or_pos m with rfl | m_pos
  · rw [Nat.zero_mul, magnitudeBits, if_pos rfl]
    omega
  · have num_pos : 0 < m * 2 ^ e.toNat := Nat.mul_pos m_pos (Nat.two_pow_pos _)
    have den_pos : 0 < 2 ^ (-e).toNat := Nat.two_pow_pos _
    -- The pair is on its own grid, so no digit has to be rounded away.
    have found : gridExponent (m * 2 ^ e.toNat) (2 ^ (-e).toNat) = e :=
      (dyadic_ratio m e ▸ gridExponent_isGrid num_pos den_pos).unique
        (isGrid_of_pair lowest short normal)
    have swap : m * 2 ^ e.toNat * 2 ^ (-e).toNat = m * (2 ^ (-e).toNat * 2 ^ e.toNat) := by ring
    rw [magnitudeBits_eq num_pos.ne', found]
    rw [swap, roundDiv_mul_self m (Nat.mul_pos den_pos (Nat.two_pow_pos _))]
    exact whole

private theorem double_lt_of_ratio_lt {num den : ℕ} (n : ℕ) (den_pos : 0 < den)
    (small : (num : ℚ) / den < 2 ^ (-((n : ℤ) + 1))) : 2 * (num * 2 ^ n) < den := by
  have dPos : (0 : ℚ) < den := by exact_mod_cast den_pos
  have pPos : (0 : ℚ) < 2 ^ ((n : ℤ) + 1) := by positivity
  rw [div_lt_iff₀ dPos, zpow_neg, inv_mul_eq_div, lt_div_iff₀ pPos] at small
  have cast : num * 2 ^ (n + 1) < den := by exact_mod_cast small
  calc 2 * (num * 2 ^ n) = num * 2 ^ (n + 1) := by ring
    _ < den := cast

/-- A ratio below half of the smallest double is rounded to zero. -/
theorem magnitudeBits_of_tiny {num den : ℕ} (den_pos : 0 < den)
    (tiny : (num : ℚ) / den < 2 ^ (-1075 : ℤ)) : magnitudeBits num den = 0 := by
  rcases Nat.eq_zero_or_pos num with rfl | num_pos
  · rw [magnitudeBits, if_pos rfl]
  · have dPos : (0 : ℚ) < den := by exact_mod_cast den_pos
    have ratioPos : (0 : ℚ) < num / den := div_pos (by exact_mod_cast num_pos) dPos
    have order : (2 : ℚ) ^ (-1075 : ℤ) ≤ 2 ^ ((-1074 : ℤ) + 53) :=
      zpow_le_zpow_right₀ one_le_two (by norm_num)
    have grid : gridExponent num den = -1074 :=
      (gridExponent_isGrid num_pos den_pos).unique ⟨le_rfl, tiny.trans_le order, .inl rfl⟩
    -- The power is kept as a variable, so that no step computes it.
    obtain ⟨k, lowest⟩ : ∃ k : ℕ, (k : ℤ) = 1074 := ⟨1074, rfl⟩
    have half : 2 * (num * 2 ^ k) < den :=
      double_lt_of_ratio_lt k den_pos (by rw [lowest]; exact tiny)
    have power : (1074 : ℤ).toNat = k := by rw [← lowest, Int.toNat_natCast]
    have none : (-1074 : ℤ).toNat = 0 := rfl
    rw [magnitudeBits_eq num_pos.ne', grid]
    simp only [neg_neg]
    rw [power, none, pow_zero, Nat.mul_one, roundDiv_eq_zero half]
    rfl

/-- A ratio beyond the finite doubles is rounded to an infinity. -/
theorem le_magnitudeBits_of_huge {num den : ℕ} (den_pos : 0 < den)
    (huge : 2 ^ (1024 : ℤ) ≤ (num : ℚ) / den) : infinityBits ≤ magnitudeBits num den := by
  have ratioPos : (0 : ℚ) < num / den := huge.trans_lt' (by positivity)
  have num_pos : 0 < num := by
    rcases Nat.eq_zero_or_pos num with rfl | positive
    · simp at ratioPos
    · exact positive
  obtain ⟨-, below, tight⟩ := gridExponent_isGrid num_pos den_pos
  rw [magnitudeBits_eq num_pos.ne']
  generalize gridExponent num den = g at *
  -- The grid is so coarse that the exponent alone is that of the infinities.
  have high : 972 ≤ g := by
    have order : (2 : ℚ) ^ (1024 : ℤ) < 2 ^ (g + 53) := huge.trans_lt below
    rw [zpow_lt_zpow_iff_right₀ one_lt_two] at order
    omega
  have long : 2 ^ 52 * (den * 2 ^ g.toNat) ≤ num * 2 ^ (-g).toNat := by
    have reached := tight.resolve_left (by omega)
    rw [← not_lt] at reached
    have scaled := mt (ratio_lt_two_zpow_iff den_pos g 52).mpr (by exact_mod_cast reached)
    rw [Nat.mul_comm]
    exact not_lt.mp scaled
  have mantissa := le_roundDiv (Nat.mul_pos den_pos (Nat.two_pow_pos _)) long
  rw [infinityBits_eq]
  omega

end Magnitude

end ClenshawCode.Binary64
