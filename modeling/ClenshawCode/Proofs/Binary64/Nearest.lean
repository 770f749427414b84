import ClenshawCode.Proofs.Binary64.Order

/-!
# The model rounds to the nearest double

The logical model of `Float` rounds a dyadic number by shifting its mantissa onto the grid of the
result, one digit at a time. Of the digits that it drops it keeps the last one and whether there was
another that is not zero. That is enough to find the nearest point of the grid, so the result has
the bits that `Binary64.magnitudeBits` gives for the number.

## Main results

* `round_eq`: a dyadic number that is rounded
* `pack_normalize`: an integer that is rounded
-/

namespace ClenshawCode.Binary64

open Float.Model Float.Model.UnpackedFloat

section Shifting

/-- A mantissa that is shifted. The two digits that are kept tell how twice the part that was
shifted out compares to the unit of the grid. -/
theorem shiftRight_eq (n k : ℕ) : (⟨n, false, false⟩ : ExtendedMantissa) >>> k =
    ⟨n / 2 ^ k, decide (2 ^ k ≤ 2 * (n % 2 ^ k)),
      decide (2 * (n % 2 ^ k) ≠ 0 ∧ 2 * (n % 2 ^ k) ≠ 2 ^ k)⟩ := by
  induction k with
  | zero =>
    rw [pow_zero, Nat.div_one, Nat.mod_one]
    rfl
  | succ k ih =>
    -- One more digit is shifted out; all that was shifted out before lies below it.
    have part : n % 2 ^ (k + 1) = n % 2 ^ k + 2 ^ k * (n / 2 ^ k % 2) := by
      rw [pow_succ, Nat.mod_mul]
    have whole : n / 2 ^ (k + 1) = n / 2 ^ k / 2 := by
      rw [pow_succ, Nat.div_div_eq_div_mul]
    have small : n % 2 ^ k < 2 ^ k := Nat.mod_lt _ (Nat.two_pow_pos k)
    change ((⟨n, false, false⟩ : ExtendedMantissa) >>> k).shiftRightOne = _
    rw [ih, part, whole, pow_succ' 2 k, ExtendedMantissa.shiftRightOne]
    dsimp only
    generalize n % 2 ^ k = low at small ⊢
    generalize n / 2 ^ k = high
    generalize 2 ^ k = unit at small ⊢
    rw [ExtendedMantissa.mk.injEq]
    rcases Nat.mod_two_eq_zero_or_one high with even | odd
    · rw [even]
      refine ⟨rfl, ?_, ?_⟩
      · simpa using small
      · rw [Bool.eq_iff_iff]
        simp
        omega
    · rw [odd]
      refine ⟨rfl, ?_, ?_⟩
      · simp
      · rw [Bool.eq_iff_iff]
        simp
        omega

/-- A mantissa that is shifted is rounded to the nearest integer, a half to the even one. -/
theorem roundedMantissa_shiftRight (n k : ℕ) :
    ((⟨n, false, false⟩ : ExtendedMantissa) >>> k).roundedMantissa = roundDiv n (2 ^ k) := by
  have positive : 0 < 2 ^ k := Nat.two_pow_pos k
  rw [shiftRight_eq, roundDiv]
  generalize n % 2 ^ k = low
  generalize n / 2 ^ k = high
  generalize 2 ^ k = unit at positive ⊢
  rcases lt_trichotomy (2 * low) unit with below | tie | above
  · rw [Nat.compare_eq_lt.mpr below, decide_eq_false (by omega)]
    cases decide (2 * low ≠ 0 ∧ 2 * low ≠ unit) <;> rfl
  · -- A half goes to the even one of its two neighbours.
    rw [Nat.compare_eq_eq.mpr tie, decide_eq_true (by omega), decide_eq_false (by omega)]
    change high + high % 2 = if high % 2 = 0 then high else high + 1
    split <;> omega
  · rw [Nat.compare_eq_gt.mpr above, decide_eq_true (by omega), decide_eq_true (by omega)]
    rfl

end Shifting

section Rounding

variable {m : ℕ} {e : ℤ}

/-- The exponent that the model aims at is that of the grid. -/
theorem isGrid_targetExponent (positive : 0 < m) :
    IsGrid (m * 2 ^ e) (Format.binary64.targetExponent (totalExponent m e)) := by
  have target : Format.binary64.targetExponent (totalExponent m e) =
      max (m.log2 + 1 + e - 53) (-1074) := rfl
  have low : (2 : ℚ) ^ (m.log2 : ℤ) ≤ m := by exact_mod_cast Nat.log2_self_le positive.ne'
  have high : (m : ℚ) < 2 ^ ((m.log2 : ℤ) + 1) := by exact_mod_cast Nat.lt_log2_self (n := m)
  have step {a b : ℤ} (order : a ≤ b) : (2 : ℚ) ^ a ≤ 2 ^ b :=
    zpow_le_zpow_right₀ one_le_two order
  have unit : (0 : ℚ) < 2 ^ e := by positivity
  rw [target]
  refine ⟨le_max_right _ _, ?_, ?_⟩
  · calc (m : ℚ) * 2 ^ e < 2 ^ ((m.log2 : ℤ) + 1) * 2 ^ e := mul_lt_mul_of_pos_right high unit
      _ = 2 ^ ((m.log2 : ℤ) + 1 + e) := (zpow_add₀ two_ne_zero _ _).symm
      _ ≤ _ := step (by omega)
  · rcases le_total ((m.log2 : ℤ) + 1 + e - 53) (-1074) with small | large
    · exact .inl (max_eq_right small)
    · rw [max_eq_left large]
      refine .inr ?_
      calc (2 : ℚ) ^ ((m.log2 : ℤ) + 1 + e - 53 + 52) = 2 ^ (m.log2 : ℤ) * 2 ^ e := by
            rw [← zpow_add₀ two_ne_zero]
            congr 1
            ring
        _ ≤ m * 2 ^ e := mul_le_mul_of_nonneg_right low unit.le

/-- A mantissa that is brought to the grid it belongs to is shifted by their distance. -/
theorem shiftToTargetExponent_eq (positive : 0 < m) {g : ℤ} (grid : IsGrid (m * 2 ^ e) g) :
    shiftToTargetExponent Format.binary64 m e .exact =
      ((⟨m, false, false⟩ : ExtendedMantissa) >>> (g - e).toNat, e + ((g - e).toNat : ℤ)) := by
  rw [shiftToTargetExponent, (isGrid_targetExponent positive).unique grid]
  rfl

/-- On a grid that is no finer than its own a dyadic number is rounded like its mantissa. -/
theorem roundDiv_dyadic (m : ℕ) {g : ℤ} (coarser : e ≤ g) :
    roundDiv (m * 2 ^ e.toNat * 2 ^ (-g).toNat) (2 ^ (-e).toNat * 2 ^ g.toNat) =
      roundDiv m (2 ^ (g - e).toNat) := by
  refine roundDiv_congr (Nat.mul_pos (Nat.two_pow_pos _) (Nat.two_pow_pos _))
    (Nat.two_pow_pos _) ?_
  have digits : e.toNat + (-g).toNat + (g - e).toNat = (-e).toNat + g.toNat := by omega
  calc m * 2 ^ e.toNat * 2 ^ (-g).toNat * 2 ^ (g - e).toNat
      = m * 2 ^ (e.toNat + (-g).toNat + (g - e).toNat) := by rw [pow_add, pow_add]; ring
    _ = m * (2 ^ (-e).toNat * 2 ^ g.toNat) := by rw [digits, pow_add]

/-- The bits of a dyadic number whose mantissa has no digits below its grid. -/
theorem magnitudeBits_dyadic (positive : 0 < m) {g : ℤ} (grid : IsGrid (m * 2 ^ e) g)
    (coarser : e ≤ g) :
    magnitudeBits (m * 2 ^ e.toNat) (2 ^ (-e).toNat) =
      (g + 1074).toNat * 2 ^ 52 + roundDiv m (2 ^ (g - e).toNat) := by
  have num_pos : 0 < m * 2 ^ e.toNat := Nat.mul_pos positive (Nat.two_pow_pos _)
  have found : gridExponent (m * 2 ^ e.toNat) (2 ^ (-e).toNat) = g :=
    (dyadic_ratio m e ▸ gridExponent_isGrid num_pos (Nat.two_pow_pos _)).unique grid
  rw [magnitudeBits_eq num_pos.ne', found, roundDiv_dyadic m coarser]

/-- The rounded mantissa of a positive dyadic number has at most one digit too many, and no fewer
than it can have. -/
theorem roundDiv_dyadic_bounds (positive : 0 < m) (lowest : -1074 ≤ e) {g : ℤ}
    (grid : IsGrid (m * 2 ^ e) g) (coarser : e ≤ g) :
    0 < roundDiv m (2 ^ (g - e).toNat) ∧ roundDiv m (2 ^ (g - e).toNat) ≤ 2 ^ 53 ∧
      (g = -1074 ∨ 2 ^ 52 ≤ roundDiv m (2 ^ (g - e).toNat)) := by
  have ratio : IsGrid (((m * 2 ^ e.toNat : ℕ) : ℚ) / (2 ^ (-e).toNat : ℕ)) g := by
    rwa [dyadic_ratio]
  obtain ⟨short, normal⟩ := roundDiv_bounds (Nat.two_pow_pos _) ratio
  rw [roundDiv_dyadic m coarser] at short normal
  refine ⟨?_, short, normal⟩
  rcases normal with finest | long
  · have same : (g - e).toNat = 0 := by omega
    rw [same, pow_zero]
    exact positive.trans_eq (by simpa using (roundDiv_mul_self m one_pos).symm)
  · omega

/-- A positive mantissa with no digits below its grid is rounded to the pair that the bits of the
nearest double stand for. -/
theorem roundWithAccuracy_eq (s : Sign) (positive : 0 < m) (lowest : -1074 ≤ e) {g : ℤ}
    (grid : IsGrid (m * 2 ^ e) g) (coarser : e ≤ g) :
    ∃ some, roundWithAccuracy Format.binary64 s m e .exact =
      .finite s (ofMagnitudeBits (magnitudeBits (m * 2 ^ e.toNat) (2 ^ (-e).toNat))).1
        (ofMagnitudeBits (magnitudeBits (m * 2 ^ e.toNat) (2 ^ (-e).toNat))).2 some := by
  obtain ⟨some, short, normal⟩ := roundDiv_dyadic_bounds positive lowest grid coarser
  rw [magnitudeBits_dyadic positive grid coarser, roundWithAccuracy,
    shiftToTargetExponent_eq positive grid]
  dsimp only
  rw [roundedMantissa_shiftRight]
  generalize roundDiv m (2 ^ (g - e).toNat) = r at some short normal ⊢
  have reached : e + ((g - e).toNat : ℤ) = g := by omega
  rw [reached]
  rcases short.lt_or_eq with fits | rfl
  · -- Nothing is left to be shifted.
    have pair := ofMagnitudeBits_pair grid.lowest fits normal
    rw [shiftToTargetExponent_eq some (isGrid_of_pair grid.lowest fits normal), pair]
    simp only [sub_self, Int.toNat_zero, Nat.cast_zero, add_zero, shiftRight_eq, pow_zero,
      Nat.div_one]
    exact ⟨some, dif_neg some.ne'⟩
  · -- Rounding up has added a digit, which is a zero.
    have grid' : IsGrid ((2 ^ 53 : ℕ) * 2 ^ g) (g + 1) := by
      have next := isGrid_of_pair (m := 2 ^ 52) (e := g + 1) (by have := grid.lowest; omega)
        (by norm_num) (.inr le_rfl)
      have same : ((2 ^ 53 : ℕ) : ℚ) * 2 ^ g = (2 ^ 52 : ℕ) * 2 ^ (g + 1) := by
        rw [zpow_add_one₀ two_ne_zero]
        push_cast
        ring
      rwa [same]
    have pair : ofMagnitudeBits ((g + 1074).toNat * 2 ^ 52 + 2 ^ 53) = (2 ^ 52, g + 1) := by
      have bound := grid.lowest
      have whole : (g + 1074).toNat * 2 ^ 52 + 2 ^ 53 = (g + 1 + 1074).toNat * 2 ^ 52 + 2 ^ 52 := by
        omega
      rw [whole]
      exact ofMagnitudeBits_pair (by omega) (by norm_num) (.inr le_rfl)
    rw [shiftToTargetExponent_eq some grid', pair]
    have one : (g + 1 - g).toNat = 1 := by omega
    simp only [one, shiftRight_eq]
    exact ⟨by norm_num, rfl⟩

/-- A positive dyadic number is rounded to the pair that the bits of the nearest double stand for.
-/
theorem round_eq (s : Sign) (positive : 0 < m) (lowest : -1074 ≤ e) :
    ∃ some, UnpackedFloat.round Format.binary64 s m e =
      .finite s (ofMagnitudeBits (magnitudeBits (m * 2 ^ e.toNat) (2 ^ (-e).toNat))).1
        (ofMagnitudeBits (magnitudeBits (m * 2 ^ e.toNat) (2 ^ (-e).toNat))).2 some := by
  have grid := isGrid_targetExponent (e := e) positive
  rw [UnpackedFloat.round, decreaseExponent]
  dsimp only
  generalize Format.binary64.targetExponent (totalExponent m e) = g at grid
  -- A mantissa above its grid gets the zeros that are missing.
  have longer : 0 < m <<< (e - g).toNat := by
    rw [Nat.shiftLeft_eq]
    exact Nat.mul_pos positive (Nat.two_pow_pos _)
  have bound := grid.lowest
  have same : ((m <<< (e - g).toNat : ℕ) : ℚ) * 2 ^ (e - ((e - g).toNat : ℤ)) = m * 2 ^ e := by
    rw [Nat.shiftLeft_eq, zpow_sub₀ two_ne_zero, zpow_natCast]
    push_cast
    field_simp
  have bits : magnitudeBits (m * 2 ^ e.toNat) (2 ^ (-e).toNat) =
      magnitudeBits (m <<< (e - g).toNat * 2 ^ (e - ((e - g).toNat : ℤ)).toNat)
        (2 ^ (-(e - ((e - g).toNat : ℤ))).toNat) := by
    refine magnitudeBits_congr (Nat.two_pow_pos _) (Nat.two_pow_pos _) ?_
    have ratios := (dyadic_ratio m e).trans (same.symm.trans (dyadic_ratio _ _).symm)
    rw [div_eq_div_iff (by positivity) (by positivity)] at ratios
    exact_mod_cast ratios
  rw [bits]
  exact roundWithAccuracy_eq s longer (by omega) (by rwa [same]) (by omega)

end Rounding

section Packing

variable {m : ℕ} {e : ℤ}

/-- A double is packed from what it is unpacked to. -/
theorem pack_unpack_float (x : Float) : (⟨Float.Model.pack x.toModel.unpack⟩ : Float) = x :=
  ofBits_toBits x

/-- A positive dyadic number with a sign is rounded to the double with that sign and the bits of the
nearest magnitude. -/
theorem pack_round (negative : Bool) {bits : ℕ} (positive : 0 < m) (lowest : -1074 ≤ e)
    (nearest : magnitudeBits (m * 2 ^ e.toNat) (2 ^ (-e).toNat) = bits)
    (finite : bits < infinityBits) :
    (⟨Float.Model.pack (UnpackedFloat.round Format.binary64 (sign negative) m e)⟩ : Float) =
      ofSignedBits negative bits := by
  subst nearest
  obtain ⟨some, rounded⟩ := round_eq (sign negative) positive lowest
  -- The pair has a mantissa, so its bits are not those of a zero.
  have nonzero : 0 < magnitudeBits (m * 2 ^ e.toNat) (2 ^ (-e).toNat) := by
    by_contra none
    rw [Nat.eq_zero_of_not_pos none] at some
    exact absurd some (lt_irrefl 0)
  obtain ⟨some', unpacked⟩ := unpack_ofSignedBits negative nonzero finite
  rw [rounded, ← unpacked]
  exact pack_unpack_float _

/-- A dyadic number that is an integer is rounded to the double of the integer. -/
theorem pack_normalize {a n : ℤ} {z : Float} (lowest : -1074 ≤ e)
    (integer : (a : ℚ) * 2 ^ e = n) (rounded : ofInt? n = some z) :
    (⟨Float.Model.pack (UnpackedFloat.normalize Format.binary64 a e .positive)⟩ : Float) = z := by
  have unit : (0 : ℚ) < 2 ^ e := by positivity
  rw [ofInt?, Option.ite_none_right_eq_some, Option.some.injEq] at rounded
  obtain ⟨finite, rfl⟩ := rounded
  have nearest (m : ℕ) (magnitude : (m : ℚ) * 2 ^ e = n.natAbs) :
      magnitudeBits (m * 2 ^ e.toNat) (2 ^ (-e).toNat) = magnitudeBits n.natAbs 1 := by
    refine magnitudeBits_congr (Nat.two_pow_pos _) one_pos ?_
    rw [← dyadic_ratio, div_eq_iff (by positivity)] at magnitude
    rw [mul_one]
    exact_mod_cast magnitude
  rw [UnpackedFloat.normalize]
  -- The sign of the mantissa is that of the integer.
  rcases lt_trichotomy a 0 with below | rfl | above
  · have product : (n : ℚ) < 0 := integer ▸ mul_neg_of_neg_of_pos (by exact_mod_cast below) unit
    have negative : n < 0 := by exact_mod_cast product
    rw [Int.compare_eq_lt.mpr below, decide_eq_true negative]
    refine pack_round true (by omega) lowest (nearest _ ?_) finite
    have mantissa : ((-a).toNat : ℚ) = -a := by
      exact_mod_cast (by omega : ((-a).toNat : ℤ) = -a)
    rw [mantissa, neg_mul, integer, Nat.cast_natAbs, abs_of_neg negative, Int.cast_neg]
  · have zero : n = 0 := by
      rw [Int.cast_zero, zero_mul] at integer
      exact_mod_cast integer.symm
    subst zero
    rfl
  · have product : (0 : ℚ) < n := integer ▸ mul_pos (by exact_mod_cast above) unit
    have positive : 0 < n := by exact_mod_cast product
    rw [Int.compare_eq_gt.mpr above, decide_eq_false (by omega)]
    refine pack_round false (by omega) lowest (nearest _ ?_) finite
    have mantissa : (a.toNat : ℚ) = a := by
      exact_mod_cast (by omega : (a.toNat : ℤ) = a)
    rw [mantissa, integer, Nat.cast_natAbs, abs_of_pos positive]

end Packing

end ClenshawCode.Binary64
