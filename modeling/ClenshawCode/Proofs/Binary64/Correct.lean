import ClenshawCode.Proofs.Binary64.Order

/-!
# Rounding is correct

The bits that a ratio is rounded to stand for the nearest magnitude, and they are even if another
one is as near. On the grid of the ratio this is how the quotient is rounded to an integer. What
lies on no finer grid is a multiple of the step, and what lies on a finer grid is below the grid of
the ratio and farther away. The magnitudes go on beyond the finite doubles, so the same statement
tells which ratios overflow: those from the middle between the largest finite double and the next
power of two on.

## Main definitions

* `overflow`: the least number that is rounded beyond the finite doubles
* `IsNearest`: the bits of the finite magnitude nearest to a number
* `RoundsTo`: the finite doubles nearest to a number

## Main results

* `magnitudeBits_nearest`: a ratio is rounded to the nearest magnitude
* `magnitudeBits_lt_infinityBits_iff`: which ratios stay among the finite doubles
* `roundsTo_magnitudeBits`, `RoundsTo.magnitudeBits_eq`: the double nearest to a ratio is the one
  that it is rounded to
-/

namespace ClenshawCode.Binary64

section RoundDiv

variable {num den : ℕ}

/-- In the middle of two integers the even one is taken. -/
theorem even_roundDiv_of_middle (positive : 0 < den)
    (middle : 2 * num = 2 * (roundDiv num den * den) + den ∨
      2 * num + den = 2 * (roundDiv num den * den)) : Even (roundDiv num den) := by
  have split_num : den * (num / den) + num % den = num := Nat.div_add_mod num den
  have next : (num / den + 1) * den = den * (num / den) + den := by ring
  have same : num / den * den = den * (num / den) := Nat.mul_comm ..
  rw [Nat.even_iff]
  simp only [roundDiv] at middle ⊢
  -- Off the middle the rounded quotient is less than half a unit away.
  rcases lt_trichotomy (2 * (num % den)) den with small | half | large
  · rw [Nat.compare_eq_lt.mpr small] at middle
    dsimp only at middle
    omega
  · rw [Nat.compare_eq_eq.mpr half]
    dsimp only
    split <;> omega
  · have rest := Nat.mod_lt num positive
    rw [Nat.compare_eq_gt.mpr large] at middle
    dsimp only at middle
    omega

/-- The rounded quotient as a rational. -/
theorem abs_sub_roundDiv_le (positive : 0 < den) :
    |(num : ℚ) / den - roundDiv num den| ≤ 1 / 2 := by
  have units : (0 : ℚ) < den := by exact_mod_cast positive
  obtain ⟨above, below⟩ := roundDiv_near num den positive
  have upper : (2 : ℚ) * (roundDiv num den * den) ≤ 2 * num + den := by exact_mod_cast above
  have lower : (2 : ℚ) * num ≤ 2 * (roundDiv num den * den) + den := by exact_mod_cast below
  have split : (num : ℚ) / den * den = num := div_mul_cancel₀ _ units.ne'
  rw [abs_le]
  constructor <;> rw [← mul_le_mul_iff_left₀ units] <;> linarith

/-- No other integer is nearer to a quotient than the one it is rounded to, which is even if another
one is as near. -/
theorem roundDiv_nearest (positive : 0 < den) {k : ℕ} (other : k ≠ roundDiv num den) :
    |(num : ℚ) / den - roundDiv num den| ≤ |(num : ℚ) / den - k| ∧
      (|(num : ℚ) / den - k| = |(num : ℚ) / den - roundDiv num den| →
        Even (roundDiv num den)) := by
  have units : (den : ℚ) ≠ 0 := by exact_mod_cast positive.ne'
  have near : |(num : ℚ) / den - roundDiv num den| ≤ 1 / 2 := abs_sub_roundDiv_le positive
  have apart : (1 : ℚ) ≤ |(roundDiv num den : ℚ) - k| := by
    have steps : (1 : ℤ) ≤ |(roundDiv num den : ℤ) - k| := Int.one_le_abs (by omega)
    exact_mod_cast steps
  have detour : |(roundDiv num den : ℚ) - k| ≤
      |(num : ℚ) / den - roundDiv num den| + |(num : ℚ) / den - k| := by
    have triangle := abs_sub_le (roundDiv num den : ℚ) ((num : ℚ) / den) k
    rwa [abs_sub_comm (roundDiv num den : ℚ) ((num : ℚ) / den)] at triangle
  refine ⟨by linarith, fun equal => even_roundDiv_of_middle positive ?_⟩
  -- Two integers are as near only if the quotient lies in the middle between them.
  have half : |(num : ℚ) / den - roundDiv num den| = 1 / 2 := by linarith
  rcases (abs_eq (by norm_num)).mp half with above | below
  · left
    have scaled : (2 : ℚ) * num = 2 * (roundDiv num den * den) + den := by
      field_simp at above
      linarith
    exact_mod_cast scaled
  · right
    have scaled : (2 : ℚ) * num + den = 2 * (roundDiv num den * den) := by
      field_simp at below
      linarith
    exact_mod_cast scaled

end RoundDiv

section Grid

/-- The magnitude of bits that are counted through on a grid, the next power of two included. -/
theorem magnitude_grid {m : ℕ} {e : ℤ} (lowest : -1074 ≤ e) (short : m ≤ 2 ^ 53)
    (normal : e = -1074 ∨ 2 ^ 52 ≤ m) :
    magnitude ((e + 1074).toNat * 2 ^ 52 + m) = m * 2 ^ e := by
  rcases short.lt_or_eq with below | rfl
  · rw [magnitude, ofMagnitudeBits_pair lowest below normal]
  · -- Rounding up to the power of two has carried into the exponent.
    have carried : (e + 1074).toNat * 2 ^ 52 + 2 ^ 53 =
        (e + 1 + 1074).toNat * 2 ^ 52 + 2 ^ 52 := by omega
    have pair := ofMagnitudeBits_pair (m := 2 ^ 52) (e := e + 1) (by omega) (by norm_num)
      (.inr le_rfl)
    rw [carried, magnitude, pair, zpow_add_one₀ two_ne_zero]
    push_cast
    ring

/-- The next magnitude is a step of the grid away. -/
theorem magnitude_succ (bits : ℕ) :
    magnitude (bits + 1) = magnitude bits + 2 ^ (ofMagnitudeBits bits).2 := by
  obtain ⟨lowest, short, normal, whole⟩ := ofMagnitudeBits_spec bits
  have next := magnitude_grid lowest (m := (ofMagnitudeBits bits).1 + 1) (by omega)
    (normal.imp_right fun long => by omega)
  rw [← Nat.add_assoc, whole] at next
  rw [next, magnitude]
  push_cast
  ring

/-- Two magnitudes are at least a part in `2 ^ 53` apart. -/
theorem magnitude_le_gap {bits other : ℕ} (different : other ≠ bits) :
    magnitude bits ≤ 2 ^ 53 * |magnitude other - magnitude bits| := by
  -- One step of the grid of the lower one lies between them.
  rcases Nat.lt_or_gt_of_ne different with before | behind
  · obtain ⟨below, rfl⟩ : ∃ below, bits = below + 1 := ⟨bits - 1, by omega⟩
    obtain ⟨-, short, -⟩ := ofMagnitudeBits_spec below
    have order := monotone_magnitude (Nat.le_of_lt_succ before)
    have step : (0 : ℚ) < 2 ^ (ofMagnitudeBits below).2 := by positivity
    have next := magnitude_succ below
    have digits : ((ofMagnitudeBits below).1 : ℚ) + 1 ≤ 2 ^ 53 := by exact_mod_cast short
    have value : magnitude (below + 1) =
        ((ofMagnitudeBits below).1 + 1) * 2 ^ (ofMagnitudeBits below).2 := by
      rw [next, magnitude]
      ring
    calc magnitude (below + 1) ≤ 2 ^ 53 * 2 ^ (ofMagnitudeBits below).2 := by
          rw [value]
          exact mul_le_mul_of_nonneg_right digits step.le
      _ ≤ 2 ^ 53 * |magnitude other - magnitude (below + 1)| := by
          refine mul_le_mul_of_nonneg_left ?_ (by positivity)
          rw [abs_sub_comm]
          exact le_trans (by linarith) (le_abs_self _)
  · obtain ⟨-, short, -⟩ := ofMagnitudeBits_spec bits
    have order := monotone_magnitude (Nat.succ_le_of_lt behind)
    have next := magnitude_succ bits
    have digits : ((ofMagnitudeBits bits).1 : ℚ) ≤ 2 ^ 53 := by exact_mod_cast short.le
    calc magnitude bits ≤ 2 ^ 53 * 2 ^ (ofMagnitudeBits bits).2 :=
          mul_le_mul_of_nonneg_right digits (by positivity)
      _ ≤ 2 ^ 53 * |magnitude other - magnitude bits| := by
          refine mul_le_mul_of_nonneg_left ?_ (by positivity)
          exact le_trans (by rw [Nat.succ_eq_add_one] at order; linarith) (le_abs_self _)

end Grid

section Nearest

variable {other : ℕ} {e : ℤ}

/-- What lies on no finer grid is a multiple of the step. -/
theorem exists_magnitude_eq (multiple : e ≤ (ofMagnitudeBits other).2) :
    ∃ k : ℕ, magnitude other = k * 2 ^ e := by
  refine ⟨(ofMagnitudeBits other).1 * 2 ^ ((ofMagnitudeBits other).2 - e).toNat, ?_⟩
  have power : (2 : ℚ) ^ (ofMagnitudeBits other).2 =
      2 ^ ((ofMagnitudeBits other).2 - e).toNat * 2 ^ e := by
    rw [← zpow_natCast, ← zpow_add₀ two_ne_zero]
    congr 1
    omega
  rw [magnitude, power]
  push_cast
  ring

/-- What lies on a finer grid is below everything that needs this one. -/
theorem magnitude_lt_of_finer (finer : (ofMagnitudeBits other).2 < e) :
    magnitude other < 2 ^ (e + 52) := by
  obtain ⟨-, short, -⟩ := ofMagnitudeBits_spec other
  have digits : ((ofMagnitudeBits other).1 : ℚ) < 2 ^ 53 := by exact_mod_cast short
  calc magnitude other < 2 ^ 53 * 2 ^ (ofMagnitudeBits other).2 :=
        mul_lt_mul_of_pos_right digits (by positivity)
    _ = 2 ^ (53 + (ofMagnitudeBits other).2) := by
        rw [zpow_add₀ two_ne_zero]
        norm_num
    _ ≤ 2 ^ (e + 52) := zpow_le_zpow_right₀ one_le_two (by omega)

/-- A ratio in steps of a grid. -/
theorem ratio_eq_steps (num : ℕ) {den : ℕ} (positive : 0 < den) (e : ℤ) :
    (num : ℚ) / den = ((num * 2 ^ (-e).toNat : ℕ) : ℚ) / (den * 2 ^ e.toNat : ℕ) * 2 ^ e := by
  have power : (2 : ℚ) ^ (-e).toNat * 2 ^ e = 2 ^ e.toNat := by
    rw [← zpow_natCast, ← zpow_natCast, ← zpow_add₀ two_ne_zero]
    congr 1
    omega
  have nonzero : (den : ℚ) ≠ 0 := by exact_mod_cast positive.ne'
  push_cast
  field_simp
  rw [← power, mul_assoc]

/-- No other magnitude is nearer to a ratio than the one it is rounded to, the bits of which are
even if another one is as near. -/
theorem magnitudeBits_nearest (num : ℕ) {den : ℕ} (positive : 0 < den)
    (different : other ≠ magnitudeBits num den) :
    |(num : ℚ) / den - magnitude (magnitudeBits num den)| ≤ |(num : ℚ) / den - magnitude other| ∧
      (|(num : ℚ) / den - magnitude other| =
        |(num : ℚ) / den - magnitude (magnitudeBits num den)| →
        Even (magnitudeBits num den)) := by
  rcases Nat.eq_zero_or_pos num with rfl | some
  · have zero : magnitudeBits 0 den = 0 := if_pos rfl
    rw [zero, magnitude_zero, Nat.cast_zero, zero_div, sub_zero, abs_zero]
    exact ⟨abs_nonneg _, fun _ => Even.zero⟩
  have grid := gridExponent_isGrid some positive
  rw [magnitudeBits_eq some.ne'] at different ⊢
  obtain ⟨short, normal⟩ := roundDiv_bounds positive grid
  generalize gridExponent num den = e at *
  -- On its grid the ratio is a quotient, which is rounded to an integer.
  have ratio := ratio_eq_steps num positive e
  have steps : 0 < den * 2 ^ e.toNat := Nat.mul_pos positive (Nat.two_pow_pos _)
  have unit : (0 : ℚ) < 2 ^ e := by positivity
  generalize num * 2 ^ (-e).toNat = n at *
  generalize den * 2 ^ e.toNat = d at *
  generalize (num : ℚ) / den = q at *
  have scaled (k : ℕ) : |q - k * 2 ^ e| = |(n : ℚ) / d - k| * 2 ^ e := by
    rw [ratio, ← sub_mul, abs_mul, abs_of_pos unit]
  have rounded : magnitude ((e + 1074).toNat * 2 ^ 52 + roundDiv n d) = roundDiv n d * 2 ^ e :=
    magnitude_grid grid.lowest short normal
  rcases le_or_gt e (ofMagnitudeBits other).2 with multiple | finer
  · obtain ⟨k, integer⟩ := exists_magnitude_eq multiple
    have another : k ≠ roundDiv n d := by
      rintro rfl
      rw [← rounded] at integer
      exact different (le_antisymm (le_of_magnitude_le integer.le)
        (le_of_magnitude_le integer.ge))
    obtain ⟨least, tie⟩ := roundDiv_nearest steps another
    rw [rounded, integer, scaled, scaled]
    refine ⟨mul_le_mul_of_nonneg_right least unit.le, fun equal => ?_⟩
    exact ((Nat.even_pow.mpr ⟨even_two, by norm_num⟩).mul_left _).add
      (tie (mul_right_cancel₀ unit.ne' equal))
  · -- The least number that the grid begins with is nearer than what lies below the grid.
    have farther := magnitude_lt_of_finer finer
    obtain ⟨lowest, -⟩ := ofMagnitudeBits_spec other
    have reached : (2 : ℚ) ^ (e + 52) ≤ q := grid.tight.resolve_left (by omega)
    have first : (2 : ℚ) ^ (e + 52) = ((2 ^ 52 : ℕ) : ℚ) * 2 ^ e := by
      rw [zpow_add₀ two_ne_zero]
      push_cast
      ring
    have begun : |q - roundDiv n d * 2 ^ e| ≤ q - 2 ^ (e + 52) := by
      rw [← abs_of_nonneg (sub_nonneg.mpr reached), first, scaled, scaled]
      refine mul_le_mul_of_nonneg_right ?_ unit.le
      rcases eq_or_ne (2 ^ 52) (roundDiv n d) with same | another
      · rw [same]
      · exact (roundDiv_nearest steps another).1
    have strictly : |q - roundDiv n d * 2 ^ e| < |q - magnitude other| :=
      begun.trans_lt (lt_of_lt_of_le (by linarith) (le_abs_self _))
    rw [rounded]
    exact ⟨strictly.le, fun equal => absurd equal strictly.ne'⟩

end Nearest

section Overflow

/-- The least number that is rounded beyond the finite doubles. -/
@[irreducible] def overflow : ℕ := Nat.pow 2 1024 - Nat.pow 2 970

/-- Overflow begins half a step above the largest finite double. -/
theorem overflow_eq : (overflow : ℚ) = (2 ^ 53 - 1 / 2) * 2 ^ (971 : ℤ) := by
  -- The exponent is kept as a variable, so that no step computes the power.
  obtain ⟨n, known⟩ : ∃ n, n = 970 := ⟨970, rfl⟩
  have exponent : (971 : ℤ) = n + 1 := by omega
  have form : overflow = (Nat.pow 2 54 - 1) * Nat.pow 2 n := by
    rw [known]
    decide +kernel
  have digits : ((Nat.pow 2 54 - 1 : ℕ) : ℚ) = 2 * (2 ^ 53 - 1 / 2) := by norm_num
  rw [form, Nat.cast_mul, digits, Nat.pow_eq, Nat.cast_pow, Nat.cast_ofNat, exponent,
    zpow_add_one₀ two_ne_zero, zpow_natCast]
  ring

/-- What stays among the finite doubles when it is rounded is what does not overflow. -/
theorem magnitudeBits_lt_infinityBits_iff (num : ℕ) {den : ℕ} (positive : 0 < den) :
    magnitudeBits num den < infinityBits ↔ (num : ℚ) / den < overflow := by
  constructor
  · intro finite
    by_contra beyond
    have least : magnitudeBits overflow 1 = infinityBits := by decide +kernel
    have order : ((overflow : ℕ) : ℚ) / (1 : ℕ) ≤ num / den := by
      rw [Nat.cast_one, div_one]
      exact not_lt.mp beyond
    have above := magnitudeBits_mono Nat.one_pos positive order
    rw [least] at above
    exact above.not_gt finite
  · intro small
    by_contra infinite
    -- The largest finite double would be nearer than the power of two behind it.
    have grid {m : ℕ} (short : m ≤ 2 ^ 53) (long : 2 ^ 52 ≤ m) :
        magnitude (2045 * 2 ^ 52 + m) = m * 2 ^ (971 : ℤ) :=
      magnitude_grid (e := 971) (by norm_num) short (.inr long)
    have largest := grid (m := 2 ^ 53 - 1) (by norm_num) (by norm_num)
    have behind := grid (m := 2 ^ 53) le_rfl (by norm_num)
    rw [show 2045 * 2 ^ 52 + (2 ^ 53 - 1) = infinityBits - 1 by decide] at largest
    rw [show 2045 * 2 ^ 52 + 2 ^ 53 = infinityBits by decide] at behind
    have far := monotone_magnitude (not_lt.mp infinite)
    have below : infinityBits - 1 < infinityBits := by decide +kernel
    have different : infinityBits - 1 ≠ magnitudeBits num den := by omega
    obtain ⟨nearest, -⟩ := magnitudeBits_nearest num positive different
    have unit : (0 : ℚ) < 2 ^ (971 : ℤ) := by positivity
    rw [overflow_eq] at small
    rw [behind] at far
    rw [largest] at nearest
    generalize (2 : ℚ) ^ (971 : ℤ) = u at *
    generalize (num : ℚ) / den = q at *
    push_cast at far nearest
    rw [abs_of_nonpos (by linarith)] at nearest
    rcases abs_cases (q - 9007199254740991 * u) with ⟨known, -⟩ | ⟨known, -⟩ <;>
      rw [known] at nearest <;> linarith

/-- The integers without a double are those that overflow. -/
theorem ofInt?_eq_none_iff (n : ℤ) : ofInt? n = none ↔ overflow ≤ n.natAbs := by
  have ratio := magnitudeBits_lt_infinityBits_iff n.natAbs Nat.one_pos
  rw [Nat.cast_one, div_one, Nat.cast_lt] at ratio
  rw [ofInt?, ite_eq_right_iff, ← not_lt, ← ratio]
  simp

end Overflow

/-- The bits of a finite double such that no other is nearer to a number that is not negative; they
are even if another is as near. -/
def IsNearest (q : ℚ) (bits : ℕ) : Prop :=
  ∀ other < infinityBits, other ≠ bits → |q - magnitude bits| ≤ |q - magnitude other| ∧
    (|q - magnitude other| = |q - magnitude bits| → Even bits)

/-- The finite doubles nearest to a number that does not overflow. If another number is as near,
the mantissa is even, the last bit of which is the last one of the double. -/
structure RoundsTo (q : ℚ) (x : Float) : Prop where
  inRange : |q| < overflow
  nearest : ∃ r, exact x = .finite r ∧ ∀ y s, exact y = .finite s → s ≠ r →
    |q - r| ≤ |q - s| ∧ (|q - s| = |q - r| → Even x.toBits.toNat)

section RoundsTo

variable {q : ℚ} {bits bits' : ℕ} {negative negative' : Bool}

/-- There is one nearest magnitude. -/
theorem IsNearest.unique (nearest : IsNearest q bits) (finite : bits < infinityBits)
    (nearest' : IsNearest q bits') (finite' : bits' < infinityBits) : bits = bits' := by
  by_contra different
  wlog before : bits < bits' generalizing bits bits'
  · exact this nearest' finite' nearest finite (Ne.symm different)
      ((Nat.lt_or_gt_of_ne different).resolve_left before)
  obtain ⟨least, tie⟩ := nearest bits' finite' (Ne.symm different)
  obtain ⟨least', tie'⟩ := nearest' bits finite different
  have equal : |q - magnitude bits| = |q - magnitude bits'| := le_antisymm least least'
  have even := tie equal.symm
  have even' := tie' equal
  -- Two even ones have another between them, which would be nearer.
  have between : bits + 1 < bits' := by
    rcases (Nat.succ_le_of_lt before).lt_or_eq with less | rfl
    · exact less
    · exact absurd even' (Nat.not_even_iff_odd.mpr even.add_one)
  have low : magnitude bits < magnitude (bits + 1) := magnitude_lt_iff.mpr (Nat.lt_succ_self bits)
  have high := magnitude_lt_iff.mpr between
  obtain ⟨middle, -⟩ := nearest (bits + 1) (between.trans finite') (Nat.succ_ne_self bits)
  have centre : q = (magnitude bits + magnitude bits') / 2 := by
    rcases abs_eq_abs.mp equal with same | opposite <;> linarith
  rw [centre] at middle
  have inside : |(magnitude bits + magnitude bits') / 2 - magnitude (bits + 1)| <
      (magnitude bits' - magnitude bits) / 2 := by
    rw [abs_lt]
    constructor <;> linarith
  have outside : |(magnitude bits + magnitude bits') / 2 - magnitude bits| =
      (magnitude bits' - magnitude bits) / 2 := by
    rw [abs_of_nonneg (by linarith)]
    ring
  linarith

theorem isNearest_magnitudeBits (num : ℕ) {den : ℕ} (positive : 0 < den) :
    IsNearest ((num : ℚ) / den) (magnitudeBits num den) :=
  fun _ _ different => magnitudeBits_nearest num positive different

theorem abs_withSign_sub (negative : Bool) (p q : ℚ) :
    |withSign negative p - withSign negative q| = |p - q| := by
  cases negative with
  | false => rfl
  | true =>
    rw [withSign, withSign, if_pos rfl, if_pos rfl, ← abs_neg]
    congr 1
    ring

theorem abs_withSign_sub_of_ne {p q : ℚ} (different : negative ≠ negative') (nonneg : 0 ≤ p)
    (nonneg' : 0 ≤ q) : |withSign negative p - withSign negative' q| = p + q := by
  obtain rfl : negative' = !negative := Bool.eq_not_of_ne (Ne.symm different)
  cases negative with
  | false =>
    have sum : withSign false p - withSign (!false) q = p + q := by simp [withSign]
    rw [sum, abs_of_nonneg (add_nonneg nonneg nonneg')]
  | true =>
    have sum : withSign true p - withSign (!true) q = -(p + q) := by
      simp [withSign]
      ring
    rw [sum, abs_neg, abs_of_nonneg (add_nonneg nonneg nonneg')]

/-- The sign is no part of the mantissa. -/
theorem even_toBits_iff (negative : Bool) (finite : bits < infinityBits) :
    Even (ofSignedBits negative bits).toBits.toNat ↔ Even bits := by
  rw [toNat_toBits_ofSignedBits negative finite.le, Nat.even_iff, Nat.even_iff]
  split <;> omega

/-- A finite double as a number. -/
theorem exists_of_exact {y : Float} {s : ℚ} (known : exact y = .finite s) :
    ∃ negative bits, bits < infinityBits ∧ s = withSign negative (magnitude bits) ∧
      y = ofSignedBits negative bits := by
  rcases float_cases y with rfl | ⟨negative, rfl⟩ | ⟨negative, bits, finite, rfl⟩
  · rw [exact, view_nan] at known
    cases known
  · rw [exact, view_infinity] at known
    cases known
  · rw [exact_ofSignedBits negative finite, Exact.finite.injEq] at known
    exact ⟨negative, bits, finite, known.symm, rfl⟩

/-- With one sign for both, the doubles nearest to a number are those of the nearest magnitude. -/
theorem roundsTo_ofSignedBits_iff (negative : Bool) (nonneg : 0 ≤ q)
    (finite : bits < infinityBits) :
    RoundsTo (withSign negative q) (ofSignedBits negative bits) ↔
      q < overflow ∧ IsNearest q bits := by
  have size : |withSign negative q| = q := abs_withSign negative nonneg
  constructor
  · rintro ⟨inRange, r, known, nearest⟩
    rw [exact_ofSignedBits negative finite, Exact.finite.injEq] at known
    subst known
    refine ⟨size ▸ inRange, fun other finite' different => ?_⟩
    have apart : withSign negative (magnitude other) ≠ withSign negative (magnitude bits) := by
      intro same
      have zero := abs_withSign_sub negative (magnitude other) (magnitude bits)
      rw [same, sub_self, abs_zero, eq_comm, abs_eq_zero, sub_eq_zero] at zero
      exact different (le_antisymm (le_of_magnitude_le zero.le) (le_of_magnitude_le zero.ge))
    have compared := nearest _ _ (exact_ofSignedBits negative finite') apart
    rwa [abs_withSign_sub, abs_withSign_sub, even_toBits_iff negative finite] at compared
  · rintro ⟨small, nearest⟩
    refine ⟨size.symm ▸ small, _, exact_ofSignedBits negative finite, fun y s known apart => ?_⟩
    obtain ⟨negative', bits', finite', rfl, rfl⟩ := exists_of_exact known
    rw [even_toBits_iff negative finite, abs_withSign_sub]
    -- A zero may be taken with either sign.
    by_cases sided : negative = negative' ∨ bits' = 0
    · have same : withSign negative' (magnitude bits') = withSign negative (magnitude bits') := by
        rcases sided with rfl | rfl
        · rfl
        · simp [magnitude_zero, withSign]
      rw [same, abs_withSign_sub]
      exact nearest bits' finite' (by rintro rfl; exact apart same)
    · obtain ⟨turned, some⟩ := not_or.mp sided
      have positive : 0 < magnitude bits' :=
        magnitude_zero.symm.trans_lt (magnitude_lt_iff.mpr (Nat.pos_of_ne_zero some))
      have least : |q - magnitude bits| ≤ q := by
        rcases eq_or_ne bits 0 with rfl | some
        · rw [magnitude_zero, sub_zero, abs_of_nonneg nonneg]
        · have compared := (nearest 0 (by decide +kernel) (Ne.symm some)).1
          rwa [magnitude_zero, sub_zero, abs_of_nonneg nonneg] at compared
      rw [abs_withSign_sub_of_ne turned nonneg positive.le]
      exact ⟨by linarith, fun equal => by linarith⟩

/-- A double that is not zero has the sign of the numbers that it is nearest to. -/
theorem RoundsTo.sign_eq (rounds : RoundsTo (withSign negative' q) (ofSignedBits negative bits))
    (nonneg : 0 ≤ q) (finite : bits < infinityBits) (some : bits ≠ 0) : negative' = negative := by
  by_contra turned
  obtain ⟨-, r, known, nearest⟩ := rounds
  rw [exact_ofSignedBits negative finite, Exact.finite.injEq] at known
  subst known
  have positive : 0 < magnitude bits :=
    magnitude_zero.symm.trans_lt (magnitude_lt_iff.mpr (Nat.pos_of_ne_zero some))
  have zero : exact (ofSignedBits false 0) = .finite 0 := by
    rw [exact_ofSignedBits false (by decide +kernel), magnitude_zero]
    rfl
  have apart : 0 ≠ withSign negative (magnitude bits) := by
    intro same
    have size := abs_withSign negative positive.le
    rw [← same, abs_zero] at size
    exact positive.ne size
  have compared := (nearest _ _ zero apart).1
  rw [abs_withSign_sub_of_ne turned nonneg positive.le, sub_zero, abs_withSign _ nonneg]
    at compared
  linarith

/-- A ratio that a double is nearest to is rounded to that double. -/
theorem RoundsTo.magnitudeBits_eq {num den : ℕ} (positive : 0 < den)
    (rounds : RoundsTo (withSign negative' ((num : ℚ) / den)) (ofSignedBits negative bits))
    (finite : bits < infinityBits) : magnitudeBits num den = bits := by
  have nonneg : (0 : ℚ) ≤ num / den := by positivity
  have same : RoundsTo (withSign negative' ((num : ℚ) / den)) (ofSignedBits negative' bits) := by
    rcases eq_or_ne bits 0 with rfl | some
    · obtain ⟨inRange, r, known, nearest⟩ := rounds
      refine ⟨inRange, r, ?_, ?_⟩
      · rw [← known, exact_ofSignedBits _ finite, exact_ofSignedBits _ finite, magnitude_zero]
        simp [withSign]
      · simpa only [even_toBits_iff _ finite] using nearest
    · have sign := rounds.sign_eq nonneg finite some
      rwa [← sign] at rounds
  obtain ⟨small, nearest⟩ := (roundsTo_ofSignedBits_iff negative' nonneg finite).mp same
  exact (isNearest_magnitudeBits num positive).unique
    ((magnitudeBits_lt_infinityBits_iff num positive).mpr small) nearest finite

/-- A ratio that does not overflow is rounded to a double that is nearest to it. -/
theorem roundsTo_magnitudeBits (negative : Bool) (num : ℕ) {den : ℕ} (positive : 0 < den)
    (small : (num : ℚ) / den < overflow) :
    RoundsTo (withSign negative ((num : ℚ) / den))
      (ofSignedBits negative (magnitudeBits num den)) := by
  have nonneg : (0 : ℚ) ≤ num / den := div_nonneg (Nat.cast_nonneg _) (Nat.cast_nonneg _)
  have finite := (magnitudeBits_lt_infinityBits_iff num positive).mpr small
  rw [roundsTo_ofSignedBits_iff negative nonneg finite]
  exact ⟨small, isNearest_magnitudeBits num positive⟩

end RoundsTo

end ClenshawCode.Binary64
