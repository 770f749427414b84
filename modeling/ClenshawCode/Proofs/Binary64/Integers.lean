import ClenshawCode.Proofs.Binary64.Difference

/-!
# Doubles that are integers

The sum of two doubles is the exact sum, rounded once. If both are integers, so is the exact sum,
and it does not matter whether they are added as doubles or added exactly and rounded afterwards.
The same holds for a difference. An exact sum of zero is the positive zero either way.

## Main results

* `add_ofInt?`, `sub_ofInt?`: the sum and the difference of doubles that are integers
-/

namespace ClenshawCode.Binary64

open Float.Model Float.Model.UnpackedFloat

variable {n m : ℤ} {x y z : Float}

/-- The double of an integer, which is the integer itself. -/
structure Keeps (n : ℤ) (x : Float) : Prop where
  rounded : ofInt? n = some x
  exact : Binary64.exact x = .finite n

theorem Keeps.exists_bits (keeps : Keeps n x) :
    ∃ bits, bits < infinityBits ∧ x = ofSignedBits (n < 0) bits ∧
      withSign (n < 0) (magnitude bits) = n := by
  obtain ⟨rounded, exact⟩ := keeps
  rw [ofInt?, Option.ite_none_right_eq_some, Option.some.injEq] at rounded
  obtain ⟨finite, rfl⟩ := rounded
  rw [exact_ofSignedBits _ finite, Exact.finite.injEq] at exact
  exact ⟨_, finite, rfl, exact⟩

/-- Zero is kept as the positive zero. -/
theorem Keeps.eq_zero (keeps : Keeps 0 x) : x = ofSignedBits false 0 :=
  (Option.some.inj keeps.rounded).symm

theorem Keeps.unpack_zero (keeps : Keeps 0 x) : x.toModel.unpack = .zero .positive := by
  rw [keeps.eq_zero]
  exact Binary64.unpack_zero false

/-- Any other integer is kept as a mantissa with a sign on a grid. -/
theorem Keeps.unpack (keeps : Keeps n x) (nonzero : n ≠ 0) :
    ∃ s k e some, x.toModel.unpack = .finite s k e some ∧ -1074 ≤ e ∧
      (s.apply k : ℚ) * 2 ^ e = n := by
  obtain ⟨bits, finite, rfl, same⟩ := keeps.exists_bits
  have positive : 0 < bits := by
    by_contra none
    rw [Nat.eq_zero_of_not_pos none, magnitude_zero] at same
    have zero : (n : ℚ) = 0 := by
      rw [← same, withSign]
      split <;> simp
    exact nonzero (by exact_mod_cast zero)
  obtain ⟨some, unpacked⟩ := unpack_ofSignedBits (n < 0) positive finite
  obtain ⟨lowest, -⟩ := ofMagnitudeBits_spec bits
  exact ⟨_, _, _, some, unpacked, lowest, (apply_sign_magnitude _ _).trans same⟩

/-- The negative of an integer that is not zero is rounded to the negative of its double. -/
theorem ofInt?_neg (nonzero : n ≠ 0) (rounded : ofInt? n = some x) : ofInt? (-n) = some (-x) := by
  rw [ofInt?, Option.ite_none_right_eq_some, Option.some.injEq] at rounded
  obtain ⟨finite, rfl⟩ := rounded
  have turned : decide (-n < 0) = !decide (n < 0) := by
    rw [Bool.eq_iff_iff]
    simp
    omega
  rw [neg_ofSignedBits _ finite, ofInt?, Int.natAbs_neg, turned]
  exact if_pos finite

/-- Two mantissas are combined on the finer of their two grids. -/
private theorem combine_shiftLeft {s s' : Sign} {k k' : ℕ} {e e' : ℤ}
    (first : (s.apply k : ℚ) * 2 ^ e = n) (second : (s'.apply k' : ℚ) * 2 ^ e' = m) :
    (s.apply (k <<< (e - min e e').toNat : ℕ) : ℚ) * 2 ^ min e e' = n ∧
      (s'.apply (k' <<< (e' - min e e').toNat : ℕ) : ℚ) * 2 ^ min e e' = m := by
  rw [apply_shiftLeft s k (min_le_left e e'), apply_shiftLeft s' k' (min_le_right e e')]
  exact ⟨first, second⟩

/-- Integers may be added before or after they are rounded, if they are kept. -/
theorem add_ofInt? (keeps : Keeps n x) (keeps' : Keeps m y) (rounded : ofInt? (n + m) = some z) :
    x + y = z := by
  have sum : x + y = ⟨Float.Model.pack (UnpackedFloat.add Format.binary64 x.toModel.unpack
    y.toModel.unpack)⟩ := rfl
  -- Zeros have a form of their own; a zero leaves the other number as it is.
  by_cases none : n = 0
  · subst none
    rw [zero_add, keeps'.rounded, Option.some.injEq] at rounded
    subst rounded
    by_cases none' : m = 0
    · -- Two positive zeros make a positive one.
      subst none'
      rw [keeps.eq_zero, keeps'.eq_zero]
      rfl
    · obtain ⟨s, k, e, some, unpacked, -⟩ := keeps'.unpack none'
      have kept : UnpackedFloat.add Format.binary64 x.toModel.unpack y.toModel.unpack =
          y.toModel.unpack := by
        rw [keeps.unpack_zero, unpacked]
        rfl
      rw [sum, kept]
      exact pack_unpack_float y
  · obtain ⟨s, k, e, some, unpacked, lowest, worth⟩ := keeps.unpack none
    by_cases none' : m = 0
    · subst none'
      rw [add_zero, keeps.rounded, Option.some.injEq] at rounded
      subst rounded
      have kept : UnpackedFloat.add Format.binary64 x.toModel.unpack y.toModel.unpack =
          x.toModel.unpack := by
        rw [keeps'.unpack_zero, unpacked]
        rfl
      rw [sum, kept]
      exact pack_unpack_float x
    · -- Both are brought to one grid, on which the sum is exact before it is rounded.
      obtain ⟨s', k', e', some', unpacked', lowest', worth'⟩ := keeps'.unpack none'
      obtain ⟨first, second⟩ := combine_shiftLeft worth worth'
      rw [sum, unpacked, unpacked']
      refine pack_normalize (le_min lowest lowest') ?_ rounded
      push_cast
      rw [add_mul]
      exact congrArg₂ (· + ·) first second

/-- Integers may be subtracted before or after they are rounded, if they are kept. -/
theorem sub_ofInt? (keeps : Keeps n x) (keeps' : Keeps m y) (rounded : ofInt? (n - m) = some z) :
    x - y = z := by
  have difference : x - y = ⟨Float.Model.pack (UnpackedFloat.sub Format.binary64 x.toModel.unpack
    y.toModel.unpack)⟩ := rfl
  by_cases none' : m = 0
  · subst none'
    rw [sub_zero, keeps.rounded, Option.some.injEq] at rounded
    subst rounded
    by_cases none : n = 0
    · subst none
      rw [keeps.eq_zero, keeps'.eq_zero]
      rfl
    · obtain ⟨s, k, e, some, unpacked, -⟩ := keeps.unpack none
      have kept : UnpackedFloat.sub Format.binary64 x.toModel.unpack y.toModel.unpack =
          x.toModel.unpack := by
        rw [keeps'.unpack_zero, unpacked]
        rfl
      rw [difference, kept]
      exact pack_unpack_float x
  · obtain ⟨s', k', e', some', unpacked', lowest', worth'⟩ := keeps'.unpack none'
    by_cases none : n = 0
    · -- The difference is the other double with its sign turned.
      subst none
      rw [zero_sub, ofInt?_neg none' keeps'.rounded, Option.some.injEq] at rounded
      subst rounded
      have turned : -y = ⟨Float.Model.pack y.toModel.unpack.neg⟩ := rfl
      rw [difference, turned, keeps.unpack_zero, unpacked']
      rfl
    · obtain ⟨s, k, e, some, unpacked, lowest, worth⟩ := keeps.unpack none
      obtain ⟨first, second⟩ := combine_shiftLeft worth worth'
      rw [difference, unpacked, unpacked']
      refine pack_normalize (le_min lowest lowest') ?_ rounded
      push_cast
      rw [sub_mul]
      exact congrArg₂ (· - ·) first second

end ClenshawCode.Binary64
