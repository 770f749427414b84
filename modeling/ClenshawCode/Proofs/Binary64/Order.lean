import ClenshawCode.Proofs.Binary64.Rounding

/-!
# Rounding keeps the order

A larger quotient is not rounded to a smaller integer, nor to a smaller double: on one grid the
steps are rounded in order, and a coarser grid begins where a finer one ends. So the magnitude of a
finite double grows with its bits, and two magnitudes are in the order of their bits.

## Main definitions

* `magnitude`: the magnitude that bits without a sign stand for
* `withSign`: a magnitude with a sign
* `nearestTo`: a number rounded to a double
-/

namespace ClenshawCode.Binary64

section RoundDiv

/-- A larger numerator is not rounded to less. -/
theorem roundDiv_mono_left {num num' : ℕ} (den : ℕ) (order : num ≤ num') :
    roundDiv num den ≤ roundDiv num' den := by
  have split := Nat.div_add_mod num den
  have split' := Nat.div_add_mod num' den
  have floor : num / den ≤ num' / den := Nat.div_le_div_right order
  have below (n : ℕ) : n / den ≤ roundDiv n den := by
    rw [roundDiv]
    split
    · exact le_rfl
    · exact Nat.le_succ _
    · split
      · exact le_rfl
      · exact Nat.le_succ _
  have above (n : ℕ) : roundDiv n den ≤ n / den + 1 := by
    rw [roundDiv]
    split
    · exact Nat.le_succ _
    · exact le_rfl
    · split
      · exact Nat.le_succ _
      · exact le_rfl
  rcases floor.lt_or_eq with less | same
  · -- With two quotients rounding up leads at most to the larger one.
    exact (above num).trans (Nat.succ_le_of_lt less |>.trans (below num'))
  · -- With one quotient the remainders are in order.
    have rest : num % den ≤ num' % den := by
      rw [same] at split
      omega
    rw [roundDiv, roundDiv, same]
    rcases lt_trichotomy (2 * (num % den)) den with small | half | large
    · rw [Nat.compare_eq_lt.mpr small]
      exact below num'
    · rcases (Nat.mul_le_mul_left 2 rest).lt_or_eq with more | equal
      · rw [Nat.compare_eq_eq.mpr half, Nat.compare_eq_gt.mpr (half.symm.trans_lt more)]
        dsimp only
        split
        · exact Nat.le_succ _
        · exact le_rfl
      · rw [equal]
    · rw [Nat.compare_eq_gt.mpr large,
        Nat.compare_eq_gt.mpr (large.trans_le (Nat.mul_le_mul_left 2 rest))]

/-- A larger quotient is not rounded to less. -/
theorem roundDiv_mono {num den num' den' : ℕ} (positive : 0 < den) (positive' : 0 < den')
    (order : num * den' ≤ num' * den) : roundDiv num den ≤ roundDiv num' den' := by
  rw [← roundDiv_mul_left den' num den positive', ← roundDiv_mul_left den num' den' positive,
    Nat.mul_comm den' den]
  exact roundDiv_mono_left _ (by rwa [Nat.mul_comm den' num, Nat.mul_comm den num'])

/-- Rounding goes no higher than an integer that is no smaller. -/
theorem roundDiv_le {m num den : ℕ} (positive : 0 < den) (order : num ≤ m * den) :
    roundDiv num den ≤ m :=
  (roundDiv_mono_left den order).trans_eq (roundDiv_mul_self m positive)

end RoundDiv

section Magnitude

/-- The grid of a larger ratio is not finer. -/
theorem IsGrid.mono {ratio ratio' : ℚ} {e e' : ℤ} (grid : IsGrid ratio e) (grid' : IsGrid ratio' e')
    (order : ratio ≤ ratio') : e ≤ e' := by
  rcases grid.tight with lowest | reached
  · rw [lowest]
    exact grid'.lowest
  · have between : (2 : ℚ) ^ (e + 52) < 2 ^ (e' + 53) :=
      (reached.trans order).trans_lt grid'.below
    rw [zpow_lt_zpow_iff_right₀ one_lt_two] at between
    omega

/-- The steps of a ratio on its grid are at most `2 ^ 53`, and at least `2 ^ 52` unless the grid is
the finest. -/
theorem roundDiv_bounds {num den : ℕ} {e : ℤ} (positive : 0 < den)
    (grid : IsGrid ((num : ℚ) / den) e) :
    roundDiv (num * 2 ^ (-e).toNat) (den * 2 ^ e.toNat) ≤ 2 ^ 53 ∧
      (e = -1074 ∨ 2 ^ 52 ≤ roundDiv (num * 2 ^ (-e).toNat) (den * 2 ^ e.toNat)) := by
  have steps : 0 < den * 2 ^ e.toNat := Nat.mul_pos positive (Nat.two_pow_pos _)
  constructor
  · have below := (ratio_lt_two_zpow_iff positive e 53).mp (by exact_mod_cast grid.below)
    exact roundDiv_le steps (below.le.trans_eq (Nat.mul_comm _ _))
  · refine grid.tight.imp_right fun reached => le_roundDiv steps ?_
    have least := mt (ratio_lt_two_zpow_iff positive e 52).mpr (by exact_mod_cast reached.not_gt)
    exact (Nat.mul_comm _ _).trans_le (Nat.not_lt.mp least)

/-- A larger quotient is not rounded to a smaller double. -/
theorem magnitudeBits_mono {num den num' den' : ℕ} (positive : 0 < den) (positive' : 0 < den')
    (order : (num : ℚ) / den ≤ num' / den') :
    magnitudeBits num den ≤ magnitudeBits num' den' := by
  rcases Nat.eq_zero_or_pos num with rfl | some
  · rw [magnitudeBits, if_pos rfl]
    exact Nat.zero_le _
  have ratio : (0 : ℚ) < num / den := by positivity
  have some' : 0 < num' := by
    rcases Nat.eq_zero_or_pos num' with rfl | positive
    · rw [Nat.cast_zero, zero_div] at order
      exact absurd ratio order.not_gt
    · exact positive
  have grid := gridExponent_isGrid some positive
  have grid' := gridExponent_isGrid some' positive'
  rw [magnitudeBits_eq some.ne', magnitudeBits_eq some'.ne']
  generalize gridExponent num den = e at *
  generalize gridExponent num' den' = e' at *
  have lowest := grid.lowest
  rcases (grid.mono grid' order).lt_or_eq with coarser | rfl
  · -- The finer grid ends where the coarser one begins.
    have finer := (roundDiv_bounds positive grid).1
    have begun := (roundDiv_bounds positive' grid').2.resolve_left (by omega)
    omega
  · -- On one grid the steps are rounded in order.
    refine Nat.add_le_add_left (roundDiv_mono ?_ ?_ ?_) _
    · exact Nat.mul_pos positive (Nat.two_pow_pos _)
    · exact Nat.mul_pos positive' (Nat.two_pow_pos _)
    · have cross : num * den' ≤ num' * den := by
        rw [div_le_div_iff₀ (by exact_mod_cast positive) (by exact_mod_cast positive')] at order
        exact_mod_cast order
      calc num * 2 ^ (-e).toNat * (den' * 2 ^ e.toNat)
          = num * den' * (2 ^ (-e).toNat * 2 ^ e.toNat) := by ring
        _ ≤ num' * den * (2 ^ (-e).toNat * 2 ^ e.toNat) := Nat.mul_le_mul_right _ cross
        _ = num' * 2 ^ (-e).toNat * (den * 2 ^ e.toNat) := by ring

end Magnitude

/-- The magnitude that bits without a sign stand for. -/
def magnitude (bits : ℕ) : ℚ := (ofMagnitudeBits bits).1 * 2 ^ (ofMagnitudeBits bits).2

/-- A magnitude with a sign. -/
def withSign (negative : Bool) (q : ℚ) : ℚ := if negative then -q else q

section Exact

variable {bits bits' : ℕ}

/-- The bits that are nearest to a magnitude are its own. -/
theorem le_of_magnitude_le (order : magnitude bits ≤ magnitude bits') : bits ≤ bits' := by
  rw [← magnitudeBits_ofMagnitudeBits bits, ← magnitudeBits_ofMagnitudeBits bits']
  refine magnitudeBits_mono (Nat.two_pow_pos _) (Nat.two_pow_pos _) ?_
  rw [dyadic_ratio, dyadic_ratio]
  exact order

theorem magnitude_lt_iff : magnitude bits < magnitude bits' ↔ bits < bits' := by
  constructor
  · intro less
    rcases lt_trichotomy bits bits' with before | same | behind
    · exact before
    · exact absurd (same ▸ less) (lt_irrefl _)
    · exact absurd (le_of_magnitude_le less.le) behind.not_ge
  · intro before
    by_contra order
    exact before.not_ge (le_of_magnitude_le (not_lt.mp order))

theorem monotone_magnitude : Monotone magnitude := by
  intro bits bits' order
  rcases order.lt_or_eq with before | rfl
  · exact (magnitude_lt_iff.mpr before).le
  · exact le_rfl

theorem magnitude_nonneg (bits : ℕ) : 0 ≤ magnitude bits := by
  rw [magnitude]
  positivity

theorem magnitude_zero : magnitude 0 = 0 := by
  have mantissa : (ofMagnitudeBits 0).1 = 0 := rfl
  rw [magnitude, mantissa, Nat.cast_zero, zero_mul]

theorem scaled_eq (m : ℕ) (e : ℤ) : scaled m e = m * 2 ^ e := by
  rw [scaled, Nat.pow_eq, Nat.pow_eq, Rat.mkRat_eq_div, ← dyadic_ratio, Int.cast_natCast]

/-- The number that a finite double is. -/
theorem exact_ofSignedBits (negative : Bool) (finite : bits < infinityBits) :
    exact (ofSignedBits negative bits) = .finite (withSign negative (magnitude bits)) := by
  rw [exact, view_ofSignedBits negative finite]
  dsimp only
  rw [scaled_eq]
  rfl

end Exact

section Signs

variable {negative negative' : Bool} {bits bits' : ℕ} {f : ℕ → ℚ}

/-- What grows strictly with the bits and begins at zero keeps the order of finite doubles, whatever
their signs are. -/
theorem withSign_lt (grows : StrictMono f) (zero : f 0 = 0)
    (order : withSign negative (magnitude bits) < withSign negative' (magnitude bits')) :
    withSign negative (f bits) < withSign negative' (f bits') := by
  have least (n : ℕ) : 0 ≤ f n := zero.symm.trans_le (grows.monotone (Nat.zero_le n))
  have low := magnitude_nonneg bits
  have high := magnitude_nonneg bits'
  cases negative <;> cases negative' <;>
    simp only [withSign, if_true, Bool.false_eq_true, if_false] at order ⊢
  · exact grows (magnitude_lt_iff.mp order)
  · exact absurd order (by linarith)
  · -- Zero is not below zero, so one of the two is positive.
    rcases Nat.eq_zero_or_pos bits with rfl | some
    · rcases Nat.eq_zero_or_pos bits' with rfl | some'
      · simp [magnitude_zero] at order
      · linarith [grows some', zero]
    · linarith [grows some, least bits']
  · exact neg_lt_neg (grows (magnitude_lt_iff.mp (neg_lt_neg_iff.mp order)))

/-- What grows with the bits and begins at zero does not turn the order of finite doubles. -/
theorem withSign_le (grows : Monotone f) (zero : f 0 = 0)
    (order : withSign negative (magnitude bits) < withSign negative' (magnitude bits')) :
    withSign negative (f bits) ≤ withSign negative' (f bits') := by
  have least (n : ℕ) : 0 ≤ f n := zero.symm.trans_le (grows (Nat.zero_le n))
  have low := magnitude_nonneg bits
  have high := magnitude_nonneg bits'
  cases negative <;> cases negative' <;>
    simp only [withSign, if_true, Bool.false_eq_true, if_false] at order ⊢
  · exact grows (magnitude_lt_iff.mp order).le
  · exact absurd order (by linarith)
  · linarith [least bits, least bits']
  · exact neg_le_neg (grows (magnitude_lt_iff.mp (neg_lt_neg_iff.mp order)).le)

theorem abs_withSign (negative : Bool) {q : ℚ} (nonneg : 0 ≤ q) : |withSign negative q| = q := by
  cases negative <;> simp [withSign, abs_of_nonneg nonneg]

end Signs

section Nearest

/-- The number that is the double nearest to a rational, if it is not too large. -/
def nearestTo (q : ℚ) : ℚ :=
  withSign (q < 0) (magnitude (magnitudeBits q.num.natAbs q.den))

theorem natAbs_num_div_den (q : ℚ) : (q.num.natAbs : ℚ) / q.den = |q| := by
  rw [Nat.cast_natAbs, Int.cast_abs]
  conv_rhs => rw [← Rat.num_div_den q, abs_div, Nat.abs_cast]

/-- Rounding does not turn the order of two numbers. -/
theorem monotone_nearestTo : Monotone nearestTo := by
  intro p q order
  have larger {p q : ℚ} (order : |p| ≤ |q|) : magnitude (magnitudeBits p.num.natAbs p.den) ≤
      magnitude (magnitudeBits q.num.natAbs q.den) := by
    refine monotone_magnitude (magnitudeBits_mono p.den_pos q.den_pos ?_)
    rwa [natAbs_num_div_den, natAbs_num_div_den]
  have nonneg := magnitude_nonneg
  rw [nearestTo, nearestTo]
  by_cases below : p < 0
  · rw [decide_eq_true below]
    by_cases below' : q < 0
    · -- Below zero the larger magnitude is the smaller number.
      rw [decide_eq_true below']
      refine neg_le_neg (larger ?_)
      rw [abs_of_neg below, abs_of_neg below']
      exact neg_le_neg order
    · rw [decide_eq_false below']
      exact (neg_nonpos.mpr (nonneg _)).trans (nonneg _)
  · have above : 0 ≤ p := not_lt.mp below
    rw [decide_eq_false below, decide_eq_false (not_lt.mpr (above.trans order))]
    refine larger ?_
    rwa [abs_of_nonneg above, abs_of_nonneg (above.trans order)]

/-- A double is nearest to itself. -/
theorem nearestTo_withSign (negative : Bool) (bits : ℕ) :
    nearestTo (withSign negative (magnitude bits)) = withSign negative (magnitude bits) := by
  have size := abs_withSign negative (magnitude_nonneg bits)
  -- In lowest terms it is another quotient than the pair gives, but of the same ratio.
  have same : magnitudeBits (withSign negative (magnitude bits)).num.natAbs
      (withSign negative (magnitude bits)).den = bits := by
    refine Eq.trans ?_ (magnitudeBits_ofMagnitudeBits bits)
    refine magnitudeBits_congr (Rat.den_pos _) (Nat.two_pow_pos _) ?_
    have ratio := (natAbs_num_div_den (withSign negative (magnitude bits))).trans
      (size.trans (dyadic_ratio _ _).symm)
    rw [div_eq_div_iff (by exact_mod_cast (Rat.den_pos _).ne') (by positivity)] at ratio
    exact_mod_cast ratio
  rw [nearestTo, same]
  rcases (magnitude_nonneg bits).eq_or_lt with zero | positive
  · rw [← zero]
    cases negative <;> simp [withSign]
  · cases negative with
    | false =>
      have above : ¬ withSign false (magnitude bits) < 0 := not_lt.mpr positive.le
      rw [decide_eq_false above]
    | true =>
      have below : withSign true (magnitude bits) < 0 := neg_lt_zero.mpr positive
      rw [decide_eq_true below]

/-- An integer has no denominator. -/
theorem nearestTo_intCast (n : ℤ) :
    nearestTo n = withSign (n < 0) (magnitude (magnitudeBits n.natAbs 1)) := by
  have negative : ((n : ℚ) < 0) = (n < 0) := by
    rw [Int.cast_lt_zero]
  rw [nearestTo, Rat.num_intCast, Rat.den_intCast]
  simp only [negative]

end Nearest

end ClenshawCode.Binary64
