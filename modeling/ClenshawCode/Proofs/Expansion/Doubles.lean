import ClenshawCode.Proofs.Binary64.Integers
import ClenshawCode.Proofs.Expansion.Reference

/-!
# Doubles in place of numbers

An expansion is saved with the nearest double in place of each of its numbers. Rounding does not
turn the order of two numbers and does not leave single precision, so an accepted expansion stays
accepted with doubles, unless both bounds are rounded to one double. The recurrence computes with
doubles anyway. Only the sum and the difference of two integers are exact, so the reference value is
the same with doubles if at most one bound is an integer, or if no bound changes when it is rounded.

## Main definitions

* `Value.asDouble`, `Expansion.asDoubles`: the nearest doubles in place of the numbers
* `Value.KeepsIntegers`: two numbers that are added and subtracted alike as doubles
* `singleMaxBits`: the bits of the largest finite number of single precision as a double

## Main results

* `validate_asDoubles`: which accepted expansions stay accepted
* `midpointValue_asDoubles`: the reference value with doubles
-/

namespace ClenshawCode

open Binary64

/-- The bits of the largest finite number of single precision as a double. -/
def singleMaxBits : ℕ := magnitudeBits singleMax 1

/-- The largest finite number of single precision is a double. -/
theorem magnitude_singleMaxBits : magnitude singleMaxBits = singleMax := by
  have pair : ofMagnitudeBits singleMaxBits = (9007198717870080, 75) := by decide +kernel
  have largest : singleMax = 340282346638528859811704183484516925440 := by decide +kernel
  rw [magnitude, pair, largest]
  norm_num

namespace Value

/-- The double nearest to a value as a value. -/
def asDouble (v : Value) : Value := .float v.nearest

variable {v w : Value}

/-- A number within single precision and the double nearest to it, as exact numbers. -/
theorem Fits.exists_exact (fits : v.Fits) :
    ∃ p, v.exactly? = some (.finite p) ∧ Binary64.exact v.nearest = .finite (nearestTo p) := by
  rcases fits.cases with ⟨x, rfl⟩ | ⟨n, x, number, -, rounded, nearest⟩
  · obtain ⟨negative, bits, -, -, exact⟩ := fits.exists_bits
    refine ⟨_, congrArg some exact, ?_⟩
    rw [exact, nearestTo_withSign]
  · refine ⟨n, by rw [exactly?, number]; rfl, ?_⟩
    rw [ofInt?, Option.ite_none_right_eq_some, Option.some.injEq] at rounded
    obtain ⟨finite, rfl⟩ := rounded
    rw [nearest, exact_ofSignedBits _ finite, nearestTo_intCast]

/-- Rounding does not leave single precision. -/
theorem abs_nearestTo_le {p : ℚ} (small : |p| ≤ singleMax) : |nearestTo p| ≤ singleMax := by
  have kept (negative : Bool) := nearestTo_withSign negative singleMaxBits
  rw [magnitude_singleMaxBits] at kept
  -- Rounding is monotone and keeps the two ends of single precision, which are doubles.
  obtain ⟨low, high⟩ := abs_le.mp small
  exact abs_le.mpr ⟨(kept true).symm.trans_le (monotone_nearestTo low),
    (monotone_nearestTo high).trans_eq (kept false)⟩

theorem abs_le_of_fitsSingle {p : ℚ} (single : v.fitsSingle = .ok true)
    (exact : v.exactly? = some (.finite p)) : |p| ≤ singleMax := by
  rw [fitsSingle, exact] at single
  obtain ⟨finite, -, within⟩ := ok_of_bind_ok single
  cases finite with
  | false => cases within
  | true =>
    have bounded := Except.ok.inj within
    simp only [withinSingle, Bool.and_eq_true, decide_eq_true_eq] at bounded
    exact abs_le.mpr bounded

/-- A number within single precision stays there as a double. -/
theorem fitsSingle_asDouble (single : v.fitsSingle = .ok true) :
    v.asDouble.fitsSingle = .ok true := by
  have fits := fits_of_fitsSingle single
  obtain ⟨p, exact, rounded⟩ := fits.exists_exact
  obtain ⟨low, high⟩ := abs_le.mp (abs_nearestTo_le (abs_le_of_fitsSingle single exact))
  have exact' : v.asDouble.exactly? = some (.finite (nearestTo p)) := congrArg some rounded
  have finite : v.asDouble.isFinite = .ok true := congrArg Except.ok fits.finite
  rw [fitsSingle, exact']
  simp only [finite, except_ok_bind, if_true, withinSingle, low, high, decide_true, Bool.and_self]

/-- Two bounds in order stay so as doubles, unless they are rounded to one. -/
theorem isBelow_asDouble (fits : v.Fits) (fits' : w.Fits) (ordered : v.isBelow w = true) :
    v.asDouble.isBelow w.asDouble = true ↔
      Binary64.exact v.nearest ≠ Binary64.exact w.nearest := by
  obtain ⟨p, exact, rounded⟩ := fits.exists_exact
  obtain ⟨q, exact', rounded'⟩ := fits'.exists_exact
  have below : p < q := by
    rw [isBelow, exact, exact'] at ordered
    exact of_decide_eq_true ordered
  have order : nearestTo p ≤ nearestTo q := monotone_nearestTo below.le
  have asked : v.asDouble.isBelow w.asDouble =
      (Binary64.exact v.nearest).lt (Binary64.exact w.nearest) := rfl
  rw [asked, rounded, rounded', Ne, Exact.finite.injEq]
  exact decide_eq_true_iff.trans order.lt_iff_ne

/-- The double nearest to a number is the number itself. -/
def IsKept (v : Value) : Prop := v.exactly? = some (Binary64.exact v.nearest)

/-- Not both values are integers, or both are kept when they are rounded. -/
def KeepsIntegers (v w : Value) : Prop :=
  v.isInteger = true → w.isInteger = true → v.IsKept ∧ w.IsKept

theorem isInteger_of_number? {n : ℤ} (integer : v.number? = some (.int n)) :
    v.isInteger = true := by
  cases v with
  | int _ => rfl
  | bool _ => rfl
  | _ => cases integer

/-- A number that is no integer is a double. -/
theorem Fits.isKept (fits : v.Fits) (double : v.isInteger = false) : v.IsKept := by
  -- What passes the check is a double or an integer.
  rcases fits.cases with ⟨x, rfl⟩ | ⟨n, x, integer, -⟩
  · rfl
  · rw [isInteger_of_number? integer] at double
    cases double

theorem Fits.keeps (fits : v.Fits) (kept : v.IsKept) {n : ℤ}
    (integer : v.number? = some (.int n)) : Keeps n v.nearest := by
  have exact : some (Exact.finite n) = some (Binary64.exact v.nearest) := by
    rw [IsKept, exactly?, integer] at kept
    exact kept
  rcases fits.cases with ⟨x, rfl⟩ | ⟨m, x, integer', -, rounded, rfl⟩
  · cases integer
  · obtain rfl : m = n := Number.int.inj (Option.some.inj (integer'.symm.trans integer))
    exact ⟨rounded, (Option.some.inj exact).symm⟩

/-- If it does so for integers, an operation gives the double nearest to its result from the doubles
nearest to the numbers. -/
theorem nearest_combine (fits : v.Fits) (fits' : w.Fits) {exactly : ℤ → ℤ → ℤ}
    {rounded : Float → Float → Float} (integers : ∀ n m, v.number? = some (.int n) →
      w.number? = some (.int m) → (Value.int (exactly n m)).nearest = rounded v.nearest w.nearest)
    {a b : Number} {r : Value} (number : v.number? = some a) (number' : w.number? = some b)
    (result : a.combine exactly rounded b = .ok r) : r.nearest = rounded v.nearest w.nearest := by
  rcases fits.cases with ⟨x, rfl⟩ | ⟨n, x, integer, -, converted, nearest⟩
  · -- The other number is rounded first.
    obtain ⟨b', known, converted⟩ := fits'.converts
    obtain rfl : .float x = a := Option.some.inj number
    obtain rfl : b' = b := Option.some.inj (known.symm.trans number')
    rw [combine_float exactly rounded x converted] at result
    rw [← Except.ok.inj result]
    rfl
  · obtain rfl : .int n = a := Option.some.inj (integer.symm.trans number)
    rcases fits'.cases with ⟨y, rfl⟩ | ⟨m, y, integer', -, converted', nearest'⟩
    · obtain rfl : .float y = b := Option.some.inj number'
      have double : (Number.int n).toDouble = .ok v.nearest := by
        rw [Number.toDouble, converted, nearest]
      rw [combine_float_right exactly rounded y double] at result
      rw [← Except.ok.inj result]
      rfl
    · obtain rfl : .int m = b := Option.some.inj (integer'.symm.trans number')
      rw [← Except.ok.inj result]
      exact integers n m integer integer'

/-- The double nearest to a sum is the sum of the doubles. -/
theorem nearest_add (fits : v.Fits) (single : v.fitsSingle = .ok true) (fits' : w.Fits)
    (single' : w.fitsSingle = .ok true) (keeps : KeepsIntegers v w) {s : Value}
    (added : Value.add v w = .ok s) : s.nearest = v.nearest + w.nearest := by
  obtain ⟨a, number, -⟩ := fits.converts
  obtain ⟨b, number', -⟩ := fits'.converts
  rw [add_of_number? number number'] at added
  refine nearest_combine fits fits' (fun n m integer integer' => ?_) number number' added
  obtain ⟨kept, kept'⟩ := keeps (isInteger_of_number? integer) (isInteger_of_number? integer')
  have low := natAbs_le_of_fitsSingle single integer
  have high := natAbs_le_of_fitsSingle single' integer'
  obtain ⟨rounded, -⟩ := ofInt?_of_natAbs_le (n := n + m) (by omega)
  rw [add_ofInt? (fits.keeps kept integer) (fits'.keeps kept' integer') rounded, nearest, toFloat,
    rounded]

/-- The double nearest to a difference is the difference of the doubles. -/
theorem nearest_sub (fits : v.Fits) (single : v.fitsSingle = .ok true) (fits' : w.Fits)
    (single' : w.fitsSingle = .ok true) (keeps : KeepsIntegers v w) {r : Value}
    (subtracted : Value.sub v w = .ok r) : r.nearest = v.nearest - w.nearest := by
  obtain ⟨a, number, -⟩ := fits.converts
  obtain ⟨b, number', -⟩ := fits'.converts
  rw [sub_of_number? number number'] at subtracted
  refine nearest_combine fits fits' (fun n m integer integer' => ?_) number number' subtracted
  obtain ⟨kept, kept'⟩ := keeps (isInteger_of_number? integer) (isInteger_of_number? integer')
  have low := natAbs_le_of_fitsSingle single integer
  have high := natAbs_le_of_fitsSingle single' integer'
  obtain ⟨rounded, -⟩ := ofInt?_of_natAbs_le (n := n - m) (by omega)
  rw [sub_ofInt? (fits.keeps kept integer) (fits'.keeps kept' integer') rounded, nearest, toFloat,
    rounded]

end Value

namespace Expansion

variable {e : Expansion}

/-- An expansion with the nearest doubles in place of its numbers and without a reference. -/
def asDoubles (e : Expansion) (cells : Cells) : Expansion where
  coeffs := e.coeffs.map Value.asDouble
  xMin := e.xMin.asDouble
  xMax := e.xMax.asDouble
  description := e.description
  cells := cells

/-- With doubles an accepted expansion stays accepted, unless its bounds are rounded to one number.
-/
theorem validate_asDoubles (valid : e.validate = .ok ()) (cells : Cells) :
    (e.asDoubles cells).validate =
      if Binary64.exact e.xMin.nearest = Binary64.exact e.xMax.nearest then
        .error (.invalid (.domain e.xMin.asDouble e.xMax.asDouble))
      else .ok () := by
  obtain ⟨nonempty, single, ordered⟩ := checks_of_validateWithin valid
  have accepted := accepted_of_validate valid
  have below : (e.asDoubles cells).xMin.isBelow (e.asDoubles cells).xMax = true ↔
      Binary64.exact e.xMin.nearest ≠ Binary64.exact e.xMax.nearest :=
    Value.isBelow_asDouble accepted.low accepted.high ordered
  have numbers : ∀ v ∈ (e.asDoubles cells).xMin :: (e.asDoubles cells).xMax ::
      (e.asDoubles cells).coeffs, v.fitsSingle = .ok true := by
    intro v member
    -- The bounds and coefficients are mapped as one list.
    have mapped : v ∈ (e.xMin :: e.xMax :: e.coeffs).map Value.asDouble := member
    obtain ⟨c, inside, rfl⟩ := List.mem_map.mp mapped
    exact Value.fitsSingle_asDouble (single c inside)
  rw [validate, validateWithin_of_fitsSingle _ (by simpa [asDoubles] using nonempty) numbers]
  by_cases same : Binary64.exact e.xMin.nearest = Binary64.exact e.xMax.nearest
  · rw [if_pos same, if_neg fun order => below.mp order same]
    rfl
  · rw [if_neg same, if_pos (below.mpr same)]

/-- If at most one bound is an integer, or both are kept when they are rounded, the reference value
is the same with doubles. -/
theorem midpointValue_asDoubles (valid : e.validate = .ok ()) (bare : e.reference = none)
    (keeps : Value.KeepsIntegers e.xMin e.xMax)
    (apart : Binary64.exact e.xMin.nearest ≠ Binary64.exact e.xMax.nearest) (cells : Cells) :
    (e.asDoubles cells).midpointValue = e.midpointValue := by
  have accepted := accepted_of_validate valid
  have low := fitsSingle_of_validate valid (v := e.xMin) (by simp)
  have high := fitsSingle_of_validate valid (v := e.xMax) (by simp)
  have accepted' : (e.asDoubles cells).Accepted := by
    refine accepted_of_validate ?_
    rw [validate_asDoubles valid, if_neg apart]
  obtain ⟨sum, added, converts⟩ := Value.exists_add accepted.low low accepted.high high
  obtain ⟨width, subtracted, converts', -⟩ :=
    Value.exists_width accepted.low low accepted.high high accepted.ordered
  have middle := Value.nearest_add accepted.low low accepted.high high keeps added
  have wide := Value.nearest_sub accepted.high high accepted.low low
    (fun integer integer' => (keeps integer' integer).symm) subtracted
  rw [midpointValue_of_bounds accepted bare added converts subtracted converts', middle, wide]
  refine (midpointValue_of_bounds accepted' rfl (Value.add_float _ (Value.converts_float _))
    (Value.converts_float _) (Value.sub_float _ (Value.converts_float _))
    (Value.converts_float _)).trans ?_
  have coeffs : (e.asDoubles cells).coeffs.map Value.nearest = e.coeffs.map Value.nearest := by
    rw [asDoubles, List.map_map]
    rfl
  rw [coeffs]
  rfl

end Expansion

end ClenshawCode
