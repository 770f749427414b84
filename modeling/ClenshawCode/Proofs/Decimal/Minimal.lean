import ClenshawCode.Proofs.Binary64.Correct
import ClenshawCode.Proofs.Decimal.Value

/-!
# No shorter decimal reads back

A decimal with `k` significant digits that reads back as a double may lie below or above the powers
of ten around the double. Then one of these powers lies between the two and reads back as well,
since rounding keeps the order. So there is a decimal that reads back on the grid on which the
double has `k` digits, and one of the neighbours of the double on that grid does too. With seventeen
digits the nearest of them always does, as it is less than half as far away as the next double is.

## Main definitions

* `Decimal.significant`: the number of significant digits
* `Decimal.ReadsBack`: the decimals that are rounded like a ratio

## Main results

* `significant_shortest_le`: the shortest decimal has the fewest digits
-/

namespace ClenshawCode.Decimal

open Binary64

section Significant

/-- The number of significant digits of a decimal, which do not include zeros at its end. -/
def significant (d : Decimal) : ℕ := digitCount d.strip.digits

variable {d d' : Decimal} {n k : ℕ}

/-- What is left without the zeros does not end in one. -/
theorem dropZeros_mod (positive : 0 < n) : (dropZeros n).1 % 10 ≠ 0 := by
  induction n using Nat.strongRecOn with
  | ind n ih =>
    rw [dropZeros, dif_neg positive.ne']
    split
    · exact ih (n / 10) (by omega) (by omega)
    · assumption

/-- What is not zero keeps a digit. -/
theorem strip_digits_pos (positive : 0 < d.digits) : 0 < d.strip.digits := by
  refine Nat.pos_of_ne_zero fun zero => dropZeros_mod positive ?_
  have none : (dropZeros d.digits).1 = 0 := zero
  rw [none]

theorem significant_pos (positive : 0 < d.digits) : 0 < d.significant :=
  (Text.digitCount_bounds (strip_digits_pos positive)).2.2

theorem digitCount_le (few : n < 10 ^ k) : digitCount n ≤ k := by
  rcases Nat.eq_zero_or_pos n with rfl | positive
  · have none : digitCount 0 = 0 := by
      rw [digitCount, Text.digitsReversed_eq_digits, Nat.digits_zero]
      rfl
    rw [none]
    exact Nat.zero_le k
  · obtain ⟨lower, -, -⟩ := Text.digitCount_bounds positive
    have power := (Nat.pow_lt_pow_iff_right (by norm_num)).mp (lower.trans_lt few)
    omega

/-- Whatever way a decimal is written, it has no fewer digits than are significant. -/
theorem significant_le_of_value {z : ℤ} (same : d.value = n * 10 ^ z) (few : n < 10 ^ k) :
    d.significant ≤ k := by
  rw [← value_strip] at same
  refine digitCount_le (lt_of_le_of_lt ?_ few)
  rcases Nat.eq_zero_or_pos d.digits with zero | positive
  · have none : d.strip.digits = 0 := by
      rw [strip, zero, dropZeros, dif_pos rfl]
    rw [none]
    exact Nat.zero_le n
  · have last : d.strip.digits % 10 ≠ 0 := dropZeros_mod positive
    have power : (0 : ℚ) < 10 ^ z := by positivity
    have ten : (10 : ℚ) ≠ 0 := by norm_num
    rw [value] at same
    -- The grid of the stripped decimal is the coarsest one on which it lies.
    have coarser : z ≤ d.strip.exponent := by
      by_contra finer
      obtain ⟨j, shift⟩ : ∃ j : ℕ, z = d.strip.exponent + (j + 1 : ℕ) :=
        ⟨(z - d.strip.exponent - 1).toNat, by omega⟩
      rw [shift, zpow_add₀ ten, mul_comm ((10 : ℚ) ^ d.strip.exponent), ← mul_assoc, zpow_natCast]
        at same
      have whole : d.strip.digits = n * 10 ^ (j + 1) := by
        exact_mod_cast mul_right_cancel₀ (zpow_ne_zero _ ten) same
      apply last
      rw [whole, pow_succ, ← mul_assoc, Nat.mul_mod_left]
    obtain ⟨j, shift⟩ : ∃ j : ℕ, d.strip.exponent = z + j :=
      ⟨(d.strip.exponent - z).toNat, by omega⟩
    rw [shift, zpow_add₀ ten, mul_comm ((10 : ℚ) ^ z), ← mul_assoc, zpow_natCast] at same
    have whole : d.strip.digits * 10 ^ j = n := by
      exact_mod_cast mul_right_cancel₀ power.ne' same
    rw [← whole]
    exact Nat.le_mul_of_pos_right _ (Nat.pow_pos (by norm_num))

/-- The significant digits of a decimal depend on its value alone. -/
theorem significant_eq_of_value (same : d.value = d'.value) : d.significant = d'.significant := by
  have le {d d' : Decimal} (same : d.value = d'.value) : d.significant ≤ d'.significant := by
    refine significant_le_of_value (same.trans (value_strip d').symm) ?_
    rw [significant]
    rcases Nat.eq_zero_or_pos d'.strip.digits with zero | positive
    · rw [zero]
      exact Nat.pow_pos (by norm_num)
    · exact (Text.digitCount_bounds positive).2.1
  exact le_antisymm (le same) (le same.symm)

/-- The next power of ten has one significant digit. -/
theorem significant_le (positive : 0 < k) (few : d.digits ≤ 10 ^ k) : d.significant ≤ k := by
  rcases few.lt_or_eq with less | power
  · exact significant_le_of_value (z := d.exponent) rfl less
  · have one : d.value = (1 : ℕ) * 10 ^ ((k : ℤ) + d.exponent) := by
      rw [value, power, zpow_add₀ (by norm_num), zpow_natCast]
      push_cast
      ring
    exact (significant_le_of_value (k := 1) one (by norm_num)).trans positive

end Significant

section Scale

variable {num den : ℕ}

/-- The scale of a ratio is the power of ten just above it. -/
theorem scaleOf_bounds (some : 0 < num) (positive : 0 < den) :
    (10 : ℚ) ^ (scaleOf num den - 1) ≤ num / den ∧ (num : ℚ) / den < 10 ^ scaleOf num den := by
  have units : (0 : ℚ) < den := by exact_mod_cast positive
  have units' : (0 : ℚ) < num := by exact_mod_cast some
  have ten : (10 : ℚ) ≠ 0 := by norm_num
  rw [scaleOf]
  split
  · rename_i large
    obtain ⟨lower, upper, digits⟩ := Text.digitCount_bounds (Nat.div_pos large positive)
    obtain ⟨c, count⟩ : ∃ c, digitCount (num / den) = c + 1 := ⟨_, (Nat.sub_add_cancel digits).symm⟩
    rw [count] at lower upper ⊢
    have least : 10 ^ c * den ≤ num := (Nat.le_div_iff_mul_le positive).mp lower
    have most : num < 10 ^ (c + 1) * den := (Nat.div_lt_iff_lt_mul positive).mp upper
    rw [Nat.cast_add_one, add_sub_cancel_right, ← Nat.cast_add_one, zpow_natCast, zpow_natCast,
      le_div_iff₀ units, div_lt_iff₀ units]
    exact ⟨by exact_mod_cast least, by exact_mod_cast most⟩
  · rename_i small
    -- Below one it is the inverse whose digits are counted.
    have whole : 0 < (den - 1) / num := Nat.div_pos (by omega) some
    obtain ⟨lower, upper, digits⟩ := Text.digitCount_bounds whole
    obtain ⟨c, count⟩ : ∃ c, digitCount ((den - 1) / num) = c + 1 :=
      ⟨_, (Nat.sub_add_cancel digits).symm⟩
    rw [count] at lower upper ⊢
    rw [Nat.add_sub_cancel] at lower
    have least : 10 ^ c * num < den := by
      have bound := (Nat.le_div_iff_mul_le some).mp lower
      omega
    have most : den ≤ 10 ^ (c + 1) * num := by
      have bound := (Nat.div_lt_iff_lt_mul some).mp upper
      omega
    have low : (1 : ℤ) - ((c + 1 : ℕ) : ℤ) - 1 = -((c + 1 : ℕ) : ℤ) := by ring
    have high : (1 : ℤ) - ((c + 1 : ℕ) : ℤ) = -(c : ℤ) := by
      push_cast
      ring
    have least' : (10 : ℚ) ^ c * num < den := by exact_mod_cast least
    have most' : (den : ℚ) ≤ 10 ^ (c + 1) * num := by exact_mod_cast most
    rw [low, high, zpow_neg, zpow_neg, zpow_natCast, zpow_natCast, inv_eq_one_div, inv_eq_one_div,
      div_le_div_iff₀ (by positivity) units, div_lt_div_iff₀ units (by positivity)]
    constructor <;> linarith

/-- A ratio lies between its two neighbours on a grid of powers of ten. -/
theorem stepsBelow_bounds (num : ℕ) (positive : 0 < den) (exponent : ℤ) :
    (stepsBelow num den exponent : ℚ) * 10 ^ exponent ≤ num / den ∧
      (num : ℚ) / den < (stepsBelow num den exponent + 1) * 10 ^ exponent := by
  have units : (0 : ℚ) < den := by exact_mod_cast positive
  have steps : 0 < den * 10 ^ exponent.toNat := Nat.mul_pos positive (Nat.pow_pos (by norm_num))
  have power : (10 : ℚ) ^ exponent * 10 ^ (-exponent).toNat = 10 ^ exponent.toNat := by
    rw [← zpow_natCast, ← zpow_natCast, ← zpow_add₀ (by norm_num)]
    congr 1
    omega
  have factor : (0 : ℚ) < 10 ^ (-exponent).toNat := by positivity
  have below : stepsBelow num den exponent * (den * 10 ^ exponent.toNat) ≤
      num * 10 ^ (-exponent).toNat := Nat.div_mul_le_self _ _
  have above : num * 10 ^ (-exponent).toNat <
      (stepsBelow num den exponent + 1) * (den * 10 ^ exponent.toNat) := Nat.lt_mul_of_div_lt
    (Nat.lt_succ_self _) steps
  have below' : (stepsBelow num den exponent : ℚ) * (den * 10 ^ exponent.toNat) ≤
      num * 10 ^ (-exponent).toNat := by exact_mod_cast below
  have above' : (num : ℚ) * 10 ^ (-exponent).toNat <
      (stepsBelow num den exponent + 1) * (den * 10 ^ exponent.toNat) := by exact_mod_cast above
  rw [← power] at below' above'
  rw [le_div_iff₀ units, div_lt_iff₀ units, ← mul_le_mul_iff_left₀ factor,
    ← mul_lt_mul_iff_left₀ factor]
  constructor <;> linarith

end Scale

/-- The decimals that are rounded like a ratio. -/
def ReadsBack (num den : ℕ) (d : Decimal) : Prop :=
  d.magnitudeBits = Binary64.magnitudeBits num den

section ReadsBack

variable {num den : ℕ} {d d' : Decimal}

/-- What lies between a ratio and a larger decimal that reads back does so too. -/
theorem ReadsBack.of_le (back : ReadsBack num den d') (positive : 0 < den)
    (above : (num : ℚ) / den ≤ d.value) (below : d.value ≤ d'.value) : ReadsBack num den d := by
  rw [← num_div_den d] at above below
  rw [← num_div_den d'] at below
  exact le_antisymm ((magnitudeBits_mono d.den_pos d'.den_pos below).trans_eq back)
    (magnitudeBits_mono positive d.den_pos above)

/-- What lies between a ratio and a smaller decimal that reads back does so too. -/
theorem ReadsBack.of_ge (back : ReadsBack num den d') (positive : 0 < den)
    (below : d.value ≤ num / den) (above : d'.value ≤ d.value) : ReadsBack num den d := by
  rw [← num_div_den d] at above below
  rw [← num_div_den d'] at above
  exact le_antisymm (magnitudeBits_mono d.den_pos positive below)
    (back.symm.trans_le (magnitudeBits_mono d'.den_pos d.den_pos above))

/-- If a decimal on a grid reads back, so does one of the two neighbours of the ratio. -/
theorem ReadsBack.exists_onGrid (back : ReadsBack num den d) (positive : 0 < den) :
    ∃ found, onGrid? num den (Binary64.magnitudeBits num den) d.exponent = some found := by
  obtain ⟨lower, upper⟩ := stepsBelow_bounds num positive d.exponent
  have power : (0 : ℚ) < 10 ^ d.exponent := by positivity
  have neighbour : ReadsBack num den ⟨stepsBelow num den d.exponent, d.exponent⟩ ∨
      ReadsBack num den ⟨stepsBelow num den d.exponent + 1, d.exponent⟩ := by
    rcases le_or_gt d.digits (stepsBelow num den d.exponent) with below | above
    · refine .inl (back.of_ge positive lower (mul_le_mul_of_nonneg_right ?_ power.le))
      exact_mod_cast below
    · refine .inr (back.of_le positive ?_ (mul_le_mul_of_nonneg_right ?_ power.le))
      · rw [value, Nat.cast_add_one]
        exact upper.le
      · exact_mod_cast above
  rw [onGrid?]
  dsimp only
  split
  · exact ⟨_, rfl⟩
  · exact ⟨_, rfl⟩
  · exact ⟨_, rfl⟩
  · rename_i notLower notUpper
    exact absurd neighbour
      (not_or.mpr ⟨beq_eq_false_iff_ne.mp notLower, beq_eq_false_iff_ne.mp notUpper⟩)

/-- A neighbour on a grid is at most a step above the ratio. -/
theorem digits_le_of_onGrid {bits : ℕ} {exponent : ℤ}
    (found : onGrid? num den bits exponent = some d) :
    d.digits ≤ stepsBelow num den exponent + 1 := by
  rw [onGrid?] at found
  dsimp only at found
  split at found
  · rw [Option.some.injEq] at found
    rw [← found]
    split
    · exact Nat.le_succ _
    · exact le_rfl
  · rw [← Option.some.inj found]
    exact Nat.le_succ _
  · rw [← Option.some.inj found]
  · cases found

/-- A decimal that reads back has a companion on the grid on which the ratio has as many digits. -/
theorem ReadsBack.exists_onScale (back : ReadsBack num den d) (some : 0 < num) (positive : 0 < den)
    (digits : 0 < d.digits) :
    ∃ d', ReadsBack num den d' ∧ d'.exponent = scaleOf num den - d.significant := by
  obtain ⟨low, high⟩ := scaleOf_bounds some positive
  have positive' := strip_digits_pos digits
  obtain ⟨least, most⟩ := value_bounds positive'
  obtain ⟨-, -, count⟩ := Text.digitCount_bounds positive'
  have same := magnitudeBits_eq_of_value (value_strip d)
  have back' : ReadsBack num den d.strip := same.trans back
  have tens (k : ℕ) (z : ℤ) : (⟨10 ^ k, z⟩ : Decimal).value = 10 ^ (z + k) := by
    rw [value, add_comm, zpow_add₀ (by norm_num), zpow_natCast]
    push_cast
    rfl
  have step {a b : ℤ} (order : a ≤ b) : (10 : ℚ) ^ a ≤ 10 ^ b :=
    zpow_le_zpow_right₀ (by norm_num) order
  change ∃ d', ReadsBack num den d' ∧ d'.exponent = scaleOf num den - digitCount d.strip.digits
  rcases lt_trichotomy (d.strip.exponent + digitCount d.strip.digits) (scaleOf num den) with
    before | same | behind
  · -- Below the scale the power of ten at its lower end is between the decimal and the ratio.
    refine ⟨⟨10 ^ (digitCount d.strip.digits - 1), _⟩, back'.of_ge positive ?_ ?_, rfl⟩
    · rw [tens]
      exact (step (by omega)).trans low
    · rw [tens]
      exact most.le.trans (step (by omega))
  · exact ⟨d.strip, back', by omega⟩
  · -- Above it this is the power of ten at its upper end.
    refine ⟨⟨10 ^ digitCount d.strip.digits, _⟩, back'.of_le positive ?_ ?_, rfl⟩
    · rw [tens]
      exact high.le.trans (step (by omega))
    · rw [tens]
      exact (step (by omega)).trans least

/-- Seventeen digits are enough for a double. -/
theorem exists_readsBack_seventeen (some : 0 < num) (positive : 0 < den)
    (double : (num : ℚ) / den = magnitude (Binary64.magnitudeBits num den)) :
    ∃ d, ReadsBack num den d ∧ d.exponent = scaleOf num den - 17 := by
  obtain ⟨least, -⟩ := scaleOf_bounds some positive
  have leading : (10 : ℚ) ^ (scaleOf num den - 1) = 10 ^ 16 * 10 ^ (scaleOf num den - 17) := by
    rw [← zpow_natCast, ← zpow_add₀ (by norm_num)]
    congr 1
    push_cast
    ring
  rw [leading] at least
  generalize scaleOf num den - 17 = exponent at *
  obtain ⟨lower, upper⟩ := stepsBelow_bounds num positive exponent
  have unit : (0 : ℚ) < 10 ^ exponent := by positivity
  -- One of the neighbours is at most half a step away.
  obtain ⟨n, near⟩ : ∃ n : ℕ, |(n : ℚ) * 10 ^ exponent - num / den| ≤ 10 ^ exponent / 2 := by
    rcases le_total ((num : ℚ) / den) ((stepsBelow num den exponent + 1 / 2) * 10 ^ exponent) with
      first | second
    · refine ⟨stepsBelow num den exponent, abs_le.mpr ?_⟩
      constructor <;> linarith
    · refine ⟨stepsBelow num den exponent + 1, abs_le.mpr ?_⟩
      push_cast
      constructor <;> linarith
  refine ⟨⟨n, exponent⟩, ?_, rfl⟩
  by_contra different
  obtain ⟨nearest, -⟩ := magnitudeBits_nearest (Decimal.num ⟨n, exponent⟩)
    (den_pos ⟨n, exponent⟩) (Ne.symm different)
  have back : Binary64.magnitudeBits (Decimal.num ⟨n, exponent⟩) (Decimal.den ⟨n, exponent⟩) =
      Decimal.magnitudeBits ⟨n, exponent⟩ := rfl
  rw [num_div_den, back, ← double] at nearest
  have gap := magnitude_le_gap different
  rw [← double] at gap
  -- The double that is read instead is a whole step away, which is too far from the neighbour.
  have low := abs_le.mp near
  have high := abs_le.mp (nearest.trans near)
  have close : |magnitude (Decimal.magnitudeBits ⟨n, exponent⟩) - num / den| ≤ 10 ^ exponent := by
    have worth : (⟨n, exponent⟩ : Decimal).value = n * 10 ^ exponent := rfl
    rw [worth] at high
    exact abs_le.mpr (by constructor <;> linarith [low.1, low.2, high.1, high.2])
  have far := gap.trans (mul_le_mul_of_nonneg_left close (by positivity))
  linarith

end ReadsBack

section Shortest

variable {m : ℕ} {e : ℤ} {d : Decimal}

/-- A decimal that reads back on the grid of `k` digits leaves no more than `k` of them to the
shortest one. -/
theorem significant_shortest_le_of_onScale {k : ℕ} (some : 0 < m) (least : 0 < k) (most : k ≤ 17)
    (back : ReadsBack (m * 2 ^ e.toNat) (2 ^ (-e).toNat) d)
    (scale : d.exponent = scaleOf (m * 2 ^ e.toNat) (2 ^ (-e).toNat) - k) :
    (shortest m e).significant ≤ k := by
  have some' : 0 < m * 2 ^ e.toNat := Nat.mul_pos some (Nat.two_pow_pos _)
  have positive : 0 < 2 ^ (-e).toNat := Nat.two_pow_pos _
  obtain ⟨found, onGrid⟩ := back.exists_onGrid positive
  obtain ⟨-, high⟩ := scaleOf_bounds some' positive
  obtain ⟨i, count⟩ : ∃ i, k = i + 1 := ⟨k - 1, by omega⟩
  rw [scale, count] at onGrid
  rw [shortest]
  simp only [Nat.pow_eq]
  generalize m * 2 ^ e.toNat = num at *
  generalize 2 ^ (-e).toNat = den at *
  split
  · rename_i first selected
    -- The search has stopped at this count or before.
    obtain ⟨before, j, after, range, onGrid', missed⟩ := List.findSome?_eq_some_iff.mp selected
    have member : i ∈ before ++ j :: after := range ▸ List.mem_range.mpr (by omega)
    have ordered : (before ++ j :: after).Pairwise (· < ·) := range ▸ List.pairwise_lt_range
    have reached : j ≤ i := by
      rcases List.mem_append.mp member with early | here
      · have none := missed i early
        rw [onGrid] at none
        cases none
      · rcases List.mem_cons.mp here with rfl | late
        · exact le_rfl
        · exact ((List.pairwise_cons.mp (List.pairwise_append.mp ordered).2.1).1 i late).le
    rw [significant_eq_of_value (value_strip first)]
    refine (significant_le (Nat.succ_pos j) ((digits_le_of_onGrid onGrid').trans ?_)).trans
      (by omega)
    obtain ⟨lower, -⟩ := stepsBelow_bounds num positive (scaleOf num den - (j + 1 : ℕ))
    have power : (0 : ℚ) < 10 ^ (scaleOf num den - (j + 1 : ℕ)) := by positivity
    have split : (10 : ℚ) ^ scaleOf num den =
        (10 ^ (j + 1) : ℕ) * 10 ^ (scaleOf num den - (j + 1 : ℕ)) := by
      rw [Nat.cast_pow, Nat.cast_ofNat, ← zpow_natCast, ← zpow_add₀ (by norm_num)]
      congr 1
      ring
    rw [split] at high
    have below := lt_of_mul_lt_mul_right (lower.trans_lt high) power.le
    exact Nat.succ_le_of_lt (by exact_mod_cast below)
  · rename_i missed
    rw [List.findSome?_eq_none_iff] at missed
    have none := missed i (List.mem_range.mpr (by omega))
    rw [onGrid] at none
    cases none

/-- No decimal that reads back as a double has fewer digits than the shortest one. -/
theorem significant_shortest_le {bits : ℕ} (some : (ofMagnitudeBits bits).1 ≠ 0)
    (back : d.magnitudeBits = bits) :
    (shortest (ofMagnitudeBits bits).1 (ofMagnitudeBits bits).2).significant ≤ d.significant := by
  have whole := magnitudeBits_ofMagnitudeBits bits
  have ratio := dyadic_ratio (ofMagnitudeBits bits).1 (ofMagnitudeBits bits).2
  change _ = magnitude bits at ratio
  have positive := Nat.pos_of_ne_zero some
  have some' := Nat.mul_pos positive (Nat.two_pow_pos (ofMagnitudeBits bits).2.toNat)
  have den_pos := Nat.two_pow_pos (-(ofMagnitudeBits bits).2).toNat
  have readsBack : ReadsBack ((ofMagnitudeBits bits).1 * 2 ^ (ofMagnitudeBits bits).2.toNat)
      (2 ^ (-(ofMagnitudeBits bits).2).toNat) d := back.trans whole.symm
  have digits : 0 < d.digits := by
    refine Nat.pos_of_ne_zero fun zero => some ?_
    rw [Decimal.magnitudeBits, num, zero, Nat.zero_mul, Binary64.magnitudeBits, if_pos rfl] at back
    rw [← back]
    rfl
  have least := significant_pos digits
  rcases le_or_gt d.significant 17 with few | many
  · obtain ⟨d', back', scale⟩ := readsBack.exists_onScale some' den_pos digits
    exact significant_shortest_le_of_onScale positive least few back' scale
  · obtain ⟨d', back', scale⟩ := exists_readsBack_seventeen some' den_pos
      (ratio.trans (congrArg magnitude whole.symm))
    exact (significant_shortest_le_of_onScale positive (by norm_num) le_rfl back' scale).trans
      many.le

end Shortest

end ClenshawCode.Decimal
