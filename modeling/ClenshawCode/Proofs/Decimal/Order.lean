import ClenshawCode.Proofs.Binary64.Order
import ClenshawCode.Proofs.Decimal.Fixed

/-!
# Written doubles keep their order

What a numeral denotes is an exact decimal. Shortest decimals of different doubles are in the order
of the doubles, as the decimal of the larger one would otherwise be rounded to the smaller one. With
a fixed number of places a double is off by half a unit of the last place at most, so the order is
never turned, and it is kept where the doubles are more than a unit apart.

## Main definitions

* `Decimal.textValue?`: the decimal that a numeral denotes
* `Decimal.shortestOf`: the shortest decimal of a magnitude
* `Decimal.fixedUnits`: a magnitude in units of the last place
-/

namespace ClenshawCode.Decimal

open Binary64

/-- The decimal that a numeral denotes. -/
def textValue? (s : String) : Option ℚ :=
  (unsigned? (takeSign s.toList).2).map fun d => withSign (takeSign s.toList).1 d.value

/-- The shortest decimal of a magnitude. -/
def shortestOf (bits : ℕ) : Decimal :=
  if (ofMagnitudeBits bits).1 = 0 then ⟨0, -1⟩
  else shortest (ofMagnitudeBits bits).1 (ofMagnitudeBits bits).2

/-- A magnitude in units of the last of a fixed number of places. -/
def fixedUnits (places bits : ℕ) : ℕ :=
  roundedUnits (ofMagnitudeBits bits).1 (ofMagnitudeBits bits).2 places

/-- The units are a quotient, rounded to an integer. -/
theorem fixedUnits_eq (places bits : ℕ) : fixedUnits places bits =
    roundDiv ((ofMagnitudeBits bits).1 * 2 ^ (ofMagnitudeBits bits).2.toNat * 10 ^ places)
      (2 ^ (-(ofMagnitudeBits bits).2).toNat) := rfl

section Shortest

/-- The shortest decimal of a magnitude reads back as its bits. -/
theorem magnitudeBits_shortestOf (bits : ℕ) : (shortestOf bits).magnitudeBits = bits := by
  have whole := magnitudeBits_ofMagnitudeBits bits
  rw [shortestOf]
  split
  · rename_i zero
    rw [zero, Nat.zero_mul, Binary64.magnitudeBits, if_pos rfl] at whole
    rw [← whole]
    rfl
  · rw [magnitudeBits_shortest, whole]

/-- Shortest decimals grow with the bits. -/
theorem strictMono_shortestOf : StrictMono fun bits => (shortestOf bits).value := by
  intro bits bits' before
  by_contra order
  -- Both read back as what they were made from, and reading keeps the order.
  have back : bits' ≤ bits := by
    rw [← magnitudeBits_shortestOf bits, ← magnitudeBits_shortestOf bits']
    refine magnitudeBits_mono (den_pos _) (den_pos _) ?_
    rw [num_div_den, num_div_den]
    exact not_lt.mp order
  exact before.not_ge back

theorem shortestOf_zero : (shortestOf 0).value = 0 := by
  have none : (ofMagnitudeBits 0).1 = 0 := rfl
  rw [shortestOf, if_pos none, value, Nat.cast_zero, zero_mul]

/-- What is written for a finite double, but for its sign, denotes its shortest decimal. -/
theorem unsigned?_magnitudeChars_value (pointBeforeExponent : Bool) (bits : ℕ) :
    ∃ d, unsigned? (magnitudeChars pointBeforeExponent bits) = some d ∧
      d.value = (shortestOf bits).value := by
  -- The zero is written by itself; it is no shortest decimal.
  rw [magnitudeChars, shortestOf]
  split
  · have read : unsigned? ['0', '.', '0'] = some ⟨0, -1⟩ := rfl
    exact ⟨_, read, rfl⟩
  · exact unsigned?_written pointBeforeExponent _

/-- The text of a finite double denotes its shortest decimal. -/
theorem textValue?_render (negative : Bool) {bits : ℕ} (finite : bits < infinityBits) :
    textValue? (Value.floatLayout.render (ofSignedBits negative bits)) =
      some (withSign negative (shortestOf bits).value) := by
  obtain ⟨d, read, same⟩ :=
    unsigned?_magnitudeChars_value Value.floatLayout.pointBeforeExponent bits
  rw [render_ofSignedBits _ negative finite]
  cases body : magnitudeChars Value.floatLayout.pointBeforeExponent bits with
  | nil =>
    rw [body] at read
    cases read
  | cons c rest =>
    rw [body] at read
    have sign := takeSign_signed negative rest (head_of_unsigned? read)
    rw [textValue?, String.toList_ofList, sign, read, Option.map_some, same]

end Shortest

section Fixed

variable {places bits : ℕ}

/-- A magnitude in units of the last place is a quotient, which is then rounded. -/
theorem fixedUnits_ratio (places bits : ℕ) :
    (((ofMagnitudeBits bits).1 * 2 ^ (ofMagnitudeBits bits).2.toNat * 10 ^ places : ℕ) : ℚ) /
      (2 ^ (-(ofMagnitudeBits bits).2).toNat : ℕ) = magnitude bits * 10 ^ places := by
  rw [magnitude, ← dyadic_ratio]
  push_cast
  ring

/-- Units do not shrink when the bits grow. -/
theorem monotone_fixedUnits (places : ℕ) : Monotone (fixedUnits places) := by
  intro bits bits' order
  have larger := monotone_magnitude order
  have scale : magnitude bits * 10 ^ places ≤ magnitude bits' * 10 ^ places :=
    mul_le_mul_of_nonneg_right larger (by positivity)
  rw [← fixedUnits_ratio, ← fixedUnits_ratio,
    div_le_div_iff₀ (by exact_mod_cast Nat.two_pow_pos _) (by exact_mod_cast Nat.two_pow_pos _)]
    at scale
  refine roundDiv_mono (Nat.two_pow_pos _) (Nat.two_pow_pos _) ?_
  exact_mod_cast scale

/-- A magnitude is off by half a unit at most. -/
theorem fixedUnits_near (places bits : ℕ) :
    |(fixedUnits places bits : ℚ) - magnitude bits * 10 ^ places| ≤ 1 / 2 := by
  have positive : 0 < 2 ^ (-(ofMagnitudeBits bits).2).toNat := Nat.two_pow_pos _
  have steps : (0 : ℚ) < (2 ^ (-(ofMagnitudeBits bits).2).toNat : ℕ) := by exact_mod_cast positive
  obtain ⟨above, below⟩ := roundDiv_near
    ((ofMagnitudeBits bits).1 * 2 ^ (ofMagnitudeBits bits).2.toNat * 10 ^ places) _ positive
  rw [← fixedUnits_ratio, fixedUnits_eq]
  generalize 2 ^ (-(ofMagnitudeBits bits).2).toNat = den at *
  generalize (ofMagnitudeBits bits).1 * 2 ^ (ofMagnitudeBits bits).2.toNat * 10 ^ places = num at *
  have upper : (2 : ℚ) * (roundDiv num den * den) ≤ 2 * num + den := by exact_mod_cast above
  have lower : (2 : ℚ) * num ≤ 2 * (roundDiv num den * den) + den := by exact_mod_cast below
  have split : (num : ℚ) = num / den * den := by field_simp
  -- Both bounds are cleared of the denominator.
  rw [abs_le]
  constructor
  · rw [← mul_le_mul_iff_left₀ steps]
    linarith
  · rw [← mul_le_mul_iff_left₀ steps]
    linarith

theorem fixedUnits_zero (places : ℕ) : fixedUnits places 0 = 0 := by
  have near := fixedUnits_near places 0
  rw [magnitude_zero, zero_mul, sub_zero, abs_of_nonneg (Nat.cast_nonneg _)] at near
  have below : (fixedUnits places 0 : ℚ) < 1 := near.trans_lt (by norm_num)
  exact Nat.lt_one_iff.mp (by exact_mod_cast below)

/-- With a fixed number of places the order of finite doubles is not turned. -/
theorem withSign_fixedUnits_le {negative negative' : Bool} {bits bits' : ℕ}
    (order : withSign negative (magnitude bits) < withSign negative' (magnitude bits')) :
    withSign negative (fixedUnits places bits / 10 ^ places) ≤
      withSign negative' (fixedUnits places bits' / 10 ^ places) := by
  refine withSign_le (f := fun n => (fixedUnits places n : ℚ) / 10 ^ places) ?_ ?_ order
  · intro bits bits' below
    have units : (fixedUnits places bits : ℚ) ≤ fixedUnits places bits' := by
      exact_mod_cast monotone_fixedUnits places below
    exact div_le_div_of_nonneg_right units (by positivity)
  · simp [fixedUnits_zero]

/-- Doubles that are more than a unit of the last place apart stay apart. -/
theorem withSign_fixedUnits_lt {negative negative' : Bool} {bits bits' : ℕ}
    (apart : 1 / 10 ^ places <
      withSign negative' (magnitude bits') - withSign negative (magnitude bits)) :
    withSign negative (fixedUnits places bits / 10 ^ places) <
      withSign negative' (fixedUnits places bits' / 10 ^ places) := by
  have unit : (0 : ℚ) < 10 ^ places := by positivity
  have near (negative : Bool) (bits : ℕ) :
      |withSign negative (fixedUnits places bits / 10 ^ places) * 10 ^ places -
        withSign negative (magnitude bits) * 10 ^ places| ≤ 1 / 2 := by
    have off := fixedUnits_near places bits
    cases negative
    · simpa [withSign, div_mul_cancel₀ _ unit.ne'] using off
    · rw [← abs_neg]
      simpa [withSign, div_mul_cancel₀ _ unit.ne', neg_mul, add_comm, ← sub_eq_neg_add] using off
  have low := abs_le.mp (near negative bits)
  have high := abs_le.mp (near negative' bits')
  rw [div_lt_iff₀ unit, sub_mul] at apart
  rw [← mul_lt_mul_iff_left₀ unit]
  -- Each is off by half a unit, so together they are off by less than they are apart.
  linarith [low.2, high.1]

end Fixed

end ClenshawCode.Decimal
