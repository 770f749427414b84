import ClenshawCode.Proofs.Binary64.Difference
import ClenshawCode.Proofs.Expansion.Literals

/-!
# The default reference value

Without a reference of its own an expansion is evaluated by the recurrence. With a double among its
operands an operation never fails unless it divides, so all that can fail for an accepted expansion
is the division by the width of the interval. The check compares the bounds exactly, and so does a
difference of two integers; but a difference of an integer and a double is one of doubles, and two
numbers that differ may be rounded to one. Then the width is zero.

## Main definitions

* `Value.Converts`: the numbers that an operation on doubles can use
* `Value.isInteger`: integers and truth values
* `clenshawDoubles`: the recurrence on doubles
* `Expansion.BoundsCoincide`: the bounds whose difference is rounded to zero
-/

namespace ClenshawCode

open Binary64

namespace Value

/-- A number that an operation on doubles can use. -/
def Converts (v : Value) : Prop := ∃ n, v.number? = some n ∧ n.toDouble = .ok v.nearest

/-- Whether a value is an integer or a truth value. -/
def isInteger : Value → Bool
  | int _ => true
  | bool _ => true
  | _ => false

section Converts

variable {v w : Value}

@[simp] theorem nearest_float (x : Float) : (float x).nearest = x := rfl

theorem number?_float (x : Float) : (float x).number? = some (.float x) := rfl

theorem converts_float (x : Float) : (float x).Converts := ⟨_, rfl, rfl⟩

theorem converts_int {n : ℤ} {x : Float} (rounded : ofInt? n = some x) : (int n).Converts := by
  refine ⟨_, rfl, ?_⟩
  rw [nearest, toFloat, Number.toDouble, rounded]

/-- A number within single precision is a double or an integer. -/
theorem Fits.cases (fits : v.Fits) : (∃ x, v = float x) ∨ ∃ n x, v.number? = some (.int n) ∧
    v.isInteger = true ∧ ofInt? n = some x ∧ v.nearest = x := by
  have tested := fits.isFinite_eq
  cases v with
  | float x => exact .inl ⟨x, rfl⟩
  | int n =>
    cases rounded : ofInt? n with
    | none =>
      rw [isFinite, rounded] at tested
      cases tested
    | some x => exact .inr ⟨n, x, rfl, rfl, rounded, by rw [nearest, toFloat, rounded]⟩
  | bool b => cases b <;> exact .inr ⟨_, _, rfl, rfl, rfl, rfl⟩
  | _ => cases tested

theorem Fits.converts (fits : v.Fits) : v.Converts := by
  rcases fits.cases with ⟨x, rfl⟩ | ⟨n, x, number, -, rounded, nearest⟩
  · exact converts_float x
  · exact ⟨_, number, by rw [Number.toDouble, rounded, nearest]⟩

/-- An operation on a double and a number is one of doubles. -/
theorem combine_float (exactly : ℤ → ℤ → ℤ) (rounded : Float → Float → Float) (x : Float)
    {n : Number} {y : Float} (converted : n.toDouble = .ok y) :
    (Number.float x).combine exactly rounded n = .ok (.float (rounded x y)) := by
  rw [Number.combine]
  · rw [converted]
    rfl
  · intro a b impossible
    cases impossible

theorem combine_float_right (exactly : ℤ → ℤ → ℤ) (rounded : Float → Float → Float) (y : Float)
    {n : Number} {x : Float} (converted : n.toDouble = .ok x) :
    n.combine exactly rounded (.float y) = .ok (.float (rounded x y)) := by
  rw [Number.combine]
  · rw [converted]
    rfl
  · intro a b _ impossible
    cases impossible

/-- The sum of two values that are numbers. -/
theorem add_of_number? {a b : Number} (number : v.number? = some a) (number' : w.number? = some b) :
    Value.add v w = a.combine (· + ·) (· + ·) b := by
  rw [Value.add]
  · rw [number, number']
  -- Texts and lists are no numbers.
  all_goals
    intros
    subst v
    cases number

/-- The difference of two values that are numbers. -/
theorem sub_of_number? {a b : Number} (number : v.number? = some a) (number' : w.number? = some b) :
    Value.sub v w = a.combine (· - ·) (· - ·) b := by
  rw [Value.sub, number, number']

theorem add_float (x : Float) (converts : w.Converts) :
    Value.add (float x) w = .ok (float (x + w.nearest)) := by
  obtain ⟨n, number, converted⟩ := converts
  rw [add_of_number? (number?_float x) number]
  exact combine_float _ _ x converted

theorem sub_float (x : Float) (converts : w.Converts) :
    Value.sub (float x) w = .ok (float (x - w.nearest)) := by
  obtain ⟨n, number, converted⟩ := converts
  rw [sub_of_number? (number?_float x) number]
  exact combine_float _ _ x converted

theorem mul_float (x : Float) (converts : w.Converts) :
    Value.mul (float x) w = .ok (float (x * w.nearest)) := by
  obtain ⟨n, number, converted⟩ := converts
  rw [Value.mul, number?_float, number]
  exact combine_float _ _ x converted

theorem div_float (x : Float) (converts : w.Converts) :
    Value.div (float x) w =
      if w.nearest == 0 then .error .zeroDivision else .ok (float (x / w.nearest)) := by
  obtain ⟨n, number, converted⟩ := converts
  rw [Value.div, number?_float, number]
  simp only [converted]
  rfl

end Converts

section Bounds

variable {v w : Value}

/-- The integers within single precision. -/
theorem natAbs_le_of_fitsSingle {n : ℤ} (fits : v.fitsSingle = .ok true)
    (number : v.number? = some (.int n)) : n.natAbs ≤ singleMax := by
  rw [fitsSingle, exactly?, number] at fits
  obtain ⟨finite, -, within⟩ := ok_of_bind_ok fits
  split at within
  · have bounded := Except.ok.inj within
    simp only [Number.exact, withinSingle, Bool.and_eq_true, decide_eq_true_eq] at bounded
    have low : -(singleMax : ℤ) ≤ n := by exact_mod_cast bounded.1
    have high : n ≤ (singleMax : ℤ) := by exact_mod_cast bounded.2
    omega
  · cases within

/-- Twice the range of single precision is far within that of doubles. -/
theorem ofInt?_of_natAbs_le {n : ℤ} (small : n.natAbs ≤ 2 * singleMax) :
    ofInt? n = some (ofSignedBits (n < 0) (magnitudeBits n.natAbs 1)) ∧
      magnitudeBits n.natAbs 1 < infinityBits := by
  have within : magnitudeBits (2 * singleMax) 1 < infinityBits := by decide +kernel
  have below : magnitudeBits n.natAbs 1 < infinityBits := by
    refine (magnitudeBits_mono one_pos one_pos ?_).trans_lt within
    rw [Nat.cast_one, div_one, div_one]
    exact_mod_cast small
  exact ⟨if_pos below, below⟩

/-- The sum of two bounds is a number that an operation on doubles can use. -/
theorem exists_add (fits : v.Fits) (single : v.fitsSingle = .ok true) (fits' : w.Fits)
    (single' : w.fitsSingle = .ok true) : ∃ s, Value.add v w = .ok s ∧ s.Converts := by
  rcases fits.cases with ⟨x, rfl⟩ | ⟨n, x, number, -, rounded, -⟩
  · exact ⟨_, add_float x fits'.converts, converts_float _⟩
  · rcases fits'.cases with ⟨y, rfl⟩ | ⟨m, y, number', -, rounded', -⟩
    · have converted : (Number.int n).toDouble = .ok x := by rw [Number.toDouble, rounded]
      rw [add_of_number? number (number?_float y)]
      exact ⟨_, combine_float_right _ _ y converted, converts_float _⟩
    · rw [add_of_number? number number']
      have low := natAbs_le_of_fitsSingle single number
      have high := natAbs_le_of_fitsSingle single' number'
      exact ⟨_, rfl, converts_int (ofInt?_of_natAbs_le (n := n + m) (by omega)).1⟩

/-- A number within single precision as a sign and bits. -/
theorem Fits.exists_bits (fits : v.Fits) : ∃ negative bits, bits < infinityBits ∧
    v.nearest = ofSignedBits negative bits ∧
      Binary64.exact v.nearest = .finite (withSign negative (magnitude bits)) := by
  obtain ⟨negative, bits, small, same⟩ := exists_ofSignedBits fits.finite
  exact ⟨negative, bits, small, same, by rw [same, exact_ofSignedBits _ small]⟩

/-- The difference of two rounded bounds is zero if they are rounded to one number. -/
theorem sub_nearest_beq_zero (fits : v.Fits) (fits' : w.Fits) :
    (w.nearest - v.nearest == 0) = true ↔
      Binary64.exact v.nearest = Binary64.exact w.nearest := by
  obtain ⟨negative, bits, small, same, exact⟩ := fits.exists_bits
  obtain ⟨negative', bits', small', same', exact'⟩ := fits'.exists_bits
  rw [exact, exact', same, same', sub_beq_zero small' small, Exact.finite.injEq, eq_comm]

/-- An integer that is not zero is not rounded to zero. -/
theorem ofInt?_beq_zero {n : ℤ} (nonzero : n ≠ 0) (small : n.natAbs ≤ 2 * singleMax) :
    ∃ x, ofInt? n = some x ∧ (x == 0) = false := by
  obtain ⟨rounded, finite⟩ := ofInt?_of_natAbs_le small
  refine ⟨_, rounded, ?_⟩
  rw [Bool.eq_false_iff, Ne, ofSignedBits_beq_zero _ finite]
  intro none
  have one : magnitudeBits 1 1 ≤ magnitudeBits n.natAbs 1 := by
    refine magnitudeBits_mono one_pos one_pos ?_
    rw [Nat.cast_one, div_one, div_one]
    exact_mod_cast Nat.one_le_iff_ne_zero.mpr (Int.natAbs_ne_zero.mpr nonzero)
  rw [none] at one
  revert one
  decide +kernel

/-- The width of an interval that is not empty can always be formed. It is zero as a double if one
bound is an integer, the other one is none, and both are rounded to one number. -/
theorem exists_width (fits : v.Fits) (single : v.fitsSingle = .ok true) (fits' : w.Fits)
    (single' : w.fitsSingle = .ok true) (ordered : v.isBelow w = true) :
    ∃ width, Value.sub w v = .ok width ∧ width.Converts ∧
      ((width.nearest == 0) = true ↔ v.isInteger ≠ w.isInteger ∧
        Binary64.exact v.nearest = Binary64.exact w.nearest) := by
  have rounded := sub_nearest_beq_zero fits fits'
  rcases fits'.cases with ⟨y, rfl⟩ | ⟨m, y, number', integer', converted', nearest'⟩
  · refine ⟨_, sub_float y fits.converts, converts_float _, ?_⟩
    rcases fits.cases with ⟨x, rfl⟩ | ⟨n, x, -, integer, -, -⟩
    · -- Two doubles are compared as they are subtracted.
      have apart : Binary64.exact x ≠ Binary64.exact y := by
        intro same
        obtain ⟨negative, bits, -, -, exact⟩ := fits.exists_bits
        have exact : Binary64.exact x = .finite (withSign negative (magnitude bits)) := exact
        have below : (Binary64.exact x).lt (Binary64.exact y) = true := ordered
        rw [← same, exact] at below
        exact lt_irrefl _ (of_decide_eq_true below)
      exact ⟨fun zero => absurd (rounded.mp zero) apart, fun both => absurd both.2 apart⟩
    · have other : v.isInteger ≠ (Value.float y).isInteger := by
        rw [integer]
        exact Bool.false_ne_true.symm
      exact ⟨fun zero => ⟨other, rounded.mp zero⟩, fun both => rounded.mpr both.2⟩
  · rcases fits.cases with ⟨x, rfl⟩ | ⟨n, x, number, integer, -, -⟩
    · have double : (Number.int m).toDouble = .ok w.nearest := by
        rw [Number.toDouble, converted', nearest']
      have other : (Value.float x).isInteger ≠ w.isInteger := by
        rw [integer']
        exact Bool.false_ne_true
      rw [sub_of_number? number' (number?_float x)]
      refine ⟨_, combine_float_right _ _ x double, converts_float _, ?_⟩
      exact ⟨fun zero => ⟨other, rounded.mp zero⟩, fun both => rounded.mpr both.2⟩
    · -- Integers are subtracted exactly.
      have low := natAbs_le_of_fitsSingle single number
      have high := natAbs_le_of_fitsSingle single' number'
      have below : n < m := by
        rw [isBelow, exactly?, exactly?, number, number'] at ordered
        have rational : (n : ℚ) < m := of_decide_eq_true ordered
        exact_mod_cast rational
      obtain ⟨z, converted, nonzero⟩ := ofInt?_beq_zero (by omega : m - n ≠ 0) (by omega)
      rw [sub_of_number? number' number]
      refine ⟨_, rfl, converts_int converted, ?_⟩
      have nearest : (Value.int (m - n)).nearest = z := by rw [Value.nearest, toFloat, converted]
      rw [nearest, nonzero, integer, integer']
      simp

end Bounds

end Value

section Recurrence

/-- The turns of the loop with the coefficients `i, …, 1`, all of them doubles. -/
def sweepDoubles (xs : List Float) (twice : Float) : ℕ → Float → Float → Float × Float
  | 0, d, dd => (d, dd)
  | i + 1, d, dd => sweepDoubles xs twice i (twice * d - dd + xs.getD (i + 1) 0) d

/-- The recurrence at `x` on doubles, with the width of the interval. -/
def clenshawDoubles (xs : List Float) (x low width : Float) : Float :=
  let twice := Float.ofInt (-2) + Float.ofInt 4 * (x - low) / width
  let last := sweepDoubles xs twice (xs.length - 1) (Float.ofInt 0) (Float.ofInt 0)
  0.5 * twice * last.1 - last.2 + 0.5 * xs.getD 0 0

open Arithmetic

variable {low high : Value} {coeffs : List Value}

/-- The mapping of the argument fails only if the width of the interval is zero. Otherwise it is
computed from the doubles of the lower bound and of the width. -/
theorem remap_eq (x : Float) {width : Value} (converts : low.Converts)
    (subtracted : Value.sub high low = .ok width) (converts' : width.Converts) :
    remap (.float x) low high =
      if width.nearest == 0 then .error .zeroDivision
      else .ok (.float (Float.ofInt (-2) +
        Float.ofInt 4 * (x - low.nearest) / width.nearest)) := by
  have mapped : remap (.float x) low high = (do
      let fromLow ← Value.sub (.float x) low
      let numerator ← Value.mul (.float (Float.ofInt 4)) fromLow
      let width ← Value.sub high low
      let quotient ← Value.div numerator width
      Value.add (.float (Float.ofInt (-2))) quotient) := rfl
  -- The constants are kept closed, so that no step computes with them.
  generalize Float.ofInt 4 = four at mapped ⊢
  generalize Float.ofInt (-2) = shift at mapped ⊢
  rw [mapped, Value.sub_float x converts, except_ok_bind,
    Value.mul_float _ (Value.converts_float _), except_ok_bind, subtracted,
    except_ok_bind, Value.div_float _ converts']
  cases width.nearest == 0 with
  | true => rfl
  | false =>
    simp only [Bool.false_eq_true, if_false, except_ok_bind]
    exact Value.add_float _ (Value.converts_float _)

/-- A turn of the loop on doubles is computed from the double of the coefficient. -/
theorem turn_eq (numbers : ∀ c ∈ coeffs, c.Converts) {i : ℕ} (inside : i < coeffs.length)
    (twice d dd : Float) :
    turn (Table.ofList "tuple" coeffs) (.float twice) i (.float d, .float dd) =
      .ok (.float (twice * d - dd + (coeffs.map Value.nearest).getD i 0), .float d) := by
  have item : (Table.ofList "tuple" coeffs).item i = .ok coeffs[i] := by
    simp [Table.ofList, inside]
  have double : (coeffs.map Value.nearest).getD i 0 = coeffs[i].nearest := by
    simp [inside]
  have converts := numbers coeffs[i] (List.getElem_mem inside)
  change (do
    let product ← Value.mul (.float twice) (.float d)
    let difference ← Value.sub product (.float dd)
    let c ← (Table.ofList "tuple" coeffs).item i
    let d' ← Value.add difference c
    return (d', Value.float d)) = _
  rw [Value.mul_float _ (Value.converts_float _), except_ok_bind,
    Value.sub_float _ (Value.converts_float _), except_ok_bind, item, except_ok_bind,
    Value.add_float _ converts, double]
  rfl

/-- So are all turns of the loop. -/
theorem sweep_eq (numbers : ∀ c ∈ coeffs, c.Converts) {i : ℕ} (inside : i < coeffs.length)
    (twice d dd : Float) :
    sweep (Table.ofList "tuple" coeffs) (.float twice) i (.float d, .float dd) =
      .ok (.float (sweepDoubles (coeffs.map Value.nearest) twice i d dd).1,
        .float (sweepDoubles (coeffs.map Value.nearest) twice i d dd).2) := by
  induction i generalizing d dd with
  | zero => rfl
  | succ i ih =>
    rw [sweep, turn_eq numbers inside, except_ok_bind, ih (Nat.lt_of_succ_lt inside)]
    rfl

/-- The recurrence on numbers fails only if the width of the interval is zero. Otherwise it computes
with the doubles of the numbers. -/
theorem clenshaw_eq (nonempty : coeffs ≠ []) (numbers : ∀ c ∈ coeffs, c.Converts) (x : Float)
    {width : Value} (converts : low.Converts) (subtracted : Value.sub high low = .ok width)
    (converts' : width.Converts) :
    clenshaw (Table.ofList "tuple" coeffs) (.float x) low high =
      if width.nearest == 0 then .error .zeroDivision
      else .ok (.float
        (clenshawDoubles (coeffs.map Value.nearest) x low.nearest width.nearest)) := by
  rw [clenshaw, remap_eq x converts subtracted converts', clenshawDoubles]
  cases width.nearest == 0 with
  | true => rfl
  | false =>
    rw [if_neg Bool.false_ne_true, if_neg Bool.false_ne_true, except_ok_bind]
    generalize Float.ofInt (-2) + Float.ofInt 4 * (x - low.nearest) / width.nearest = twice
    have positive : 0 < coeffs.length := List.length_pos_iff.mpr nonempty
    have item : (Table.ofList "tuple" coeffs).item 0 = .ok coeffs[0] := by
      simp [Table.ofList, positive]
    have double : (coeffs.map Value.nearest).getD 0 0 = coeffs[0].nearest := by
      simp [positive]
    have first := numbers coeffs[0] (List.getElem_mem positive)
    change (do
      let (d, dd) ← sweep (Table.ofList "tuple" coeffs) (.float twice) (coeffs.length - 1)
        (.float (Float.ofInt 0), .float (Float.ofInt 0))
      finish (Table.ofList "tuple" coeffs) (.float twice) (.ok d) (.ok dd)) = _
    rw [sweep_eq numbers (by omega), except_ok_bind, List.length_map]
    dsimp only
    generalize sweepDoubles (coeffs.map Value.nearest) twice (coeffs.length - 1) (Float.ofInt 0)
      (Float.ofInt 0) = last
    change (do
      let halfTwice ← Value.mul (.float 0.5) (.float twice)
      let product ← Value.mul halfTwice (.float last.1)
      let difference ← Value.sub product (.float last.2)
      let c ← (Table.ofList "tuple" coeffs).item 0
      let constant ← Value.mul (.float 0.5) c
      Value.add difference constant) = _
    rw [Value.mul_float _ (Value.converts_float _), except_ok_bind,
      Value.mul_float _ (Value.converts_float _), except_ok_bind,
      Value.sub_float _ (Value.converts_float _), except_ok_bind, item, except_ok_bind,
      Value.mul_float _ first, except_ok_bind, Value.add_float _ (Value.converts_float _), double]
    simp only [Value.nearest_float]

end Recurrence

namespace Expansion

/-- One bound is an integer and the other one is none, and both are rounded to one number. -/
def BoundsCoincide (e : Expansion) : Prop :=
  e.xMin.isInteger ≠ e.xMax.isInteger ∧
    Binary64.exact e.xMin.nearest = Binary64.exact e.xMax.nearest

variable {e : Expansion}

/-- Without a reference of its own an accepted expansion has the recurrence for its reference value.
It is computed with doubles, from the sum and the difference of the bounds. -/
theorem midpointValue_of_bounds (accepted : e.Accepted) (bare : e.reference = none)
    {sum width : Value} (added : Value.add e.xMin e.xMax = .ok sum) (converts : sum.Converts)
    (subtracted : Value.sub e.xMax e.xMin = .ok width) (converts' : width.Converts) :
    e.midpointValue =
      if width.nearest == 0 then .error .zeroDivision
      else .ok (.float (clenshawDoubles (e.coeffs.map Value.nearest) (0.5 * sum.nearest)
        e.xMin.nearest width.nearest)) := by
  have middle : e.midpoint = .ok (.float (0.5 * sum.nearest)) := by
    rw [midpoint, added, except_ok_bind, Value.mul_float _ converts]
  have evaluated (x : Value) : e.evaluate x = clenshaw e.table x e.xMin e.xMax := by
    rw [evaluate, bare]
  rw [midpointValue, middle, except_ok_bind, evaluated]
  exact clenshaw_eq accepted.nonempty (fun c member => (accepted.coeffs c member).converts) _
    accepted.low.converts subtracted converts'

/-- Without a reference of its own an accepted expansion has a double as its reference value, unless
its bounds coincide as doubles. -/
theorem midpointValue_eq (valid : e.validate = .ok ()) (bare : e.reference = none) :
    (e.BoundsCoincide → e.midpointValue = .error .zeroDivision) ∧
      (¬ e.BoundsCoincide → ∃ x, e.midpointValue = .ok (.float x)) := by
  have accepted := accepted_of_validate valid
  have low := fitsSingle_of_validate valid (v := e.xMin) (by simp)
  have high := fitsSingle_of_validate valid (v := e.xMax) (by simp)
  obtain ⟨sum, added, converts⟩ := Value.exists_add accepted.low low accepted.high high
  obtain ⟨width, subtracted, converts', zero⟩ :=
    Value.exists_width accepted.low low accepted.high high accepted.ordered
  rw [midpointValue_of_bounds accepted bare added converts subtracted converts']
  constructor
  · intro coincide
    exact if_pos (zero.mpr coincide)
  · intro apart
    rw [if_neg fun none => apart (zero.mp none)]
    exact ⟨_, rfl⟩

end Expansion

end ClenshawCode
