import ClenshawCode.Proofs.Recurrence.Backward
import Mathlib.RingTheory.Polynomial.Chebyshev

/-!
# The recurrence computes the Chebyshev expansion

The accumulators of the recurrence and the Chebyshev polynomials obey one three-term recurrence, the
former running down and the latter running up. For a pair of neighbouring terms `f k`, `f (k + 1)`
of any sequence with that recurrence, the accumulators `d`, `dd` of a list of coefficients satisfy

    d * f (k + 1) - dd * f k = ∑ i, c i * f (k + 1 + i),

since a coefficient more moves the pair one term on. With the polynomials themselves and `k = 0` the
left side is `d * t - dd`, which is what the recurrence ends with.

## Main definitions

* `argument`: the argument on the interval from `-1` to `1`
* `chebyshev`: the value of a Chebyshev polynomial
* `expansion`: the Chebyshev expansion with the constant term counted half

## Main results

* `clenshaw_eq_expansion`: the loop computes the expansion
-/

namespace ClenshawCode

open Polynomial

/-- The argument on the interval from `-1` to `1`. -/
def argument (x low high : Rat) : Rat := (2 * x - low - high) / (high - low)

/-- The value at `t` of the Chebyshev polynomial of the first kind. -/
noncomputable def chebyshev (k : ℕ) (t : Rat) : Rat := (Chebyshev.T ℚ k).eval t

/-- The Chebyshev expansion at `t`, whose constant term counts half. -/
noncomputable def expansion (coeffs : List Rat) (t : Rat) : Rat :=
  coeffs.getD 0 0 / 2 + ∑ k ∈ Finset.Ico 1 coeffs.length, coeffs.getD k 0 * chebyshev k t

@[simp] theorem chebyshev_zero (t : Rat) : chebyshev 0 t = 1 := by
  simp [chebyshev]

@[simp] theorem chebyshev_one (t : Rat) : chebyshev 1 t = t := by
  simp [chebyshev]

theorem chebyshev_add_two (k : ℕ) (t : Rat) :
    chebyshev (k + 2) t = 2 * t * chebyshev (k + 1) t - chebyshev k t := by
  simp [chebyshev, Chebyshev.T_add_two]

/-- The accumulators of a list of coefficients, weighted by two neighbouring terms of a sequence
with the same recurrence, sum up the terms behind. -/
theorem backward_weighted {twice : Rat} {f : ℕ → Rat}
    (recurrence : ∀ k, f (k + 2) = twice * f (k + 1) - f k) (coeffs : List Rat) (k : ℕ) :
    (backward twice coeffs).1 * f (k + 1) - (backward twice coeffs).2 * f k =
      ∑ i ∈ Finset.range coeffs.length, coeffs.getD i 0 * f (k + 1 + i) := by
  induction coeffs generalizing k with
  | nil => simp [backward]
  | cons c rest ih =>
    have behind : ∑ i ∈ Finset.range rest.length, rest.getD i 0 * f (k + 1 + (i + 1)) =
        (backward twice rest).1 * f (k + 2) - (backward twice rest).2 * f (k + 1) := by
      rw [show k + 2 = k + 1 + 1 from rfl, ih (k + 1)]
      exact Finset.sum_congr rfl fun i _ => by rw [show k + 1 + (i + 1) = k + 1 + 1 + i by omega]
    rw [List.length_cons, Finset.sum_range_succ']
    simp only [List.getD_cons_succ, List.getD_cons_zero, Nat.add_zero]
    rw [behind, recurrence k, backward]
    ring

/-- The value of the recurrence is the Chebyshev expansion at half its argument. -/
theorem expansionValue_eq (c : Rat) (rest : List Rat) (t : Rat) :
    expansionValue c rest (2 * t) = expansion (c :: rest) t := by
  have tail : (backward (2 * t) rest).1 * t - (backward (2 * t) rest).2 =
      ∑ k ∈ Finset.Ico 1 (c :: rest).length, (c :: rest).getD k 0 * chebyshev k t := by
    have weighted := backward_weighted (f := fun k => chebyshev k t)
      (fun k => chebyshev_add_two k t) rest 0
    rw [chebyshev_one, chebyshev_zero, mul_one] at weighted
    rw [weighted, Finset.sum_Ico_eq_sum_range]
    refine Finset.sum_congr rfl fun i _ => ?_
    rw [Nat.zero_add, Nat.add_comm 1 i, List.getD_cons_succ]
  rw [expansion, ← tail, expansionValue, List.getD_cons_zero]
  ring

/-- The mapped argument is twice the argument of the polynomials. -/
theorem twiceArgument_eq (x : Rat) {low high : Rat} (proper : low ≠ high) :
    twiceArgument x low high = 2 * argument x low high := by
  have width : high - low ≠ 0 := sub_ne_zero.mpr (Ne.symm proper)
  rw [twiceArgument, argument]
  field_simp
  ring

/-- On exact rationals the loop never fails and computes the Chebyshev expansion. -/
theorem clenshaw_eq_expansion (container : String) (coeffs : List Rat) (nonempty : coeffs ≠ [])
    (x low high : Rat) (proper : low ≠ high) :
    clenshaw (Table.ofList container coeffs) x low high =
      .ok (expansion coeffs (argument x low high)) := by
  obtain ⟨c, rest, rfl⟩ := List.exists_cons_of_ne_nil nonempty
  rw [clenshaw_rat container c rest x proper, twiceArgument_eq x proper, expansionValue_eq]

/-- At `1/2` on the interval from `0` to `2` the four polynomials are `1`, `-1/2`, `-1/2`, `1`. -/
theorem clenshaw_eq_expansion_four_terms :
    ([1, 2, 3, 4] : List Rat) ≠ [] ∧ (0 : Rat) ≠ 2 ∧
      clenshaw (Table.ofList "list" ([1, 2, 3, 4] : List Rat)) (1 / 2) 0 2 = .ok 2 ∧
      clenshaw (Table.ofList "list" [1, 2, 3, 4]) (1 / 2) 0 2 =
        .ok (expansion [1, 2, 3, 4] (-1 / 2)) := by
  have nonempty : ([1, 2, 3, 4] : List Rat) ≠ [] := List.cons_ne_nil _ _
  have proper : (0 : Rat) ≠ 2 := by norm_num
  have mapped : argument (1 / 2) 0 2 = -1 / 2 := by norm_num [argument]
  have value : expansionValue 1 [2, 3, 4] (twiceArgument (1 / 2) 0 2) = 2 := by
    norm_num [expansionValue, twiceArgument, backward]
  refine ⟨nonempty, proper, ?_, ?_⟩
  · rw [clenshaw_rat "list" 1 [2, 3, 4] (1 / 2) proper, value]
  · rw [← mapped]
    exact clenshaw_eq_expansion "list" [1, 2, 3, 4] nonempty (1 / 2) 0 2 proper

end ClenshawCode
