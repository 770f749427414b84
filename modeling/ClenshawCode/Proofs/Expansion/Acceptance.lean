import ClenshawCode.Expansion.Samples
import ClenshawCode.Expansion.Validation
import ClenshawCode.Proofs.Binary64.Bits
import ClenshawCode.Proofs.Results

/-!
# What acceptance grants

An expansion is accepted when its coefficients and bounds are numbers within single precision and
its interval is not empty. Each of these numbers is then rounded to a finite double, so nothing that
writes it as a literal can fail.

## Main definitions

* `Value.nearest`: the double that a value is rounded to
* `Value.Fits`: the numbers within single precision
* `Expansion.Accepted`: what the checks of an expansion establish
-/

namespace ClenshawCode

namespace Value

/-- The double that a value is rounded to; a value that has none counts as what is no number. -/
def nearest (v : Value) : Float :=
  match v.toFloat with
  | .ok x => x
  | .error _ => Binary64.nan

/-- A number within single precision, which has a finite double nearest to it. -/
structure Fits (v : Value) : Prop where
  toFloat_eq : v.toFloat = .ok v.nearest
  isFinite_eq : v.isFinite = .ok true
  finite : Binary64.isFinite v.nearest = true

/-- An integer that does not round beyond the finite doubles is rounded to one of them. -/
theorem isFinite_of_ofInt? {n : Int} {x : Float} (rounded : Binary64.ofInt? n = some x) :
    Binary64.isFinite x = true := by
  simp only [Binary64.ofInt?, Option.ite_none_right_eq_some, Option.some.injEq] at rounded
  obtain ⟨small, rfl⟩ := rounded
  exact Binary64.isFinite_ofSignedBits _ small

theorem fits_of_toFloat {v : Value} {x : Float} (rounded : v.toFloat = .ok x)
    (tested : v.isFinite = .ok true) (finite : Binary64.isFinite x = true) : v.Fits := by
  have same : v.nearest = x := by rw [nearest, rounded]
  exact ⟨by rw [same, rounded], tested, by rw [same, finite]⟩

/-- What passes the check of a number within single precision has a finite double nearest to it. -/
theorem fits_of_fitsSingle {v : Value} (fits : v.fitsSingle = .ok true) : v.Fits := by
  -- The cases are the kinds of values: only numbers pass, and of the doubles only finite ones.
  cases v with
  | bool b =>
    refine fits_of_toFloat (x := if b then 1 else 0) rfl rfl ?_
    cases b <;> decide +kernel
  | int n =>
    cases rounded : Binary64.ofInt? n with
    | some x =>
      refine fits_of_toFloat (x := x) ?_ ?_ (isFinite_of_ofInt? rounded)
      · rw [toFloat, rounded]
      · rw [isFinite, rounded]
    | none => simp [fitsSingle, exactly?, number?, isFinite, rounded, bind, Except.bind] at fits
  | float x =>
    cases finite : Binary64.isFinite x with
    | true => exact fits_of_toFloat rfl (by rw [isFinite, finite]) finite
    | false =>
      simp [fitsSingle, exactly?, number?, isFinite, finite, bind, Except.bind] at fits
  | nan _ => simp [fitsSingle, exactly?, number?, isFinite, bind, Except.bind] at fits
  | _ => simp [fitsSingle, exactly?, number?] at fits

end Value

namespace Expansion

/-- What the checks of an expansion establish. -/
structure Accepted (e : Expansion) : Prop where
  nonempty : e.coeffs ≠ []
  coeffs : ∀ c ∈ e.coeffs, c.Fits
  low : e.xMin.Fits
  high : e.xMax.Fits
  ordered : e.xMin.isBelow e.xMax = true

/-- Without misfits all values are within single precision. -/
theorem fitsSingle_of_misfits {start : ℕ} {values : List Value}
    (none : misfits start values = .ok []) : ∀ c ∈ values, c.fitsSingle = .ok true := by
  induction values generalizing start with
  | nil => simp
  | cons v rest ih =>
    intro c member
    obtain ⟨good, fits, none⟩ := ok_of_bind_ok none
    obtain ⟨indices, others, none⟩ := ok_of_bind_ok none
    -- A misfit would have put its index into the list.
    cases good with
    | false => cases none
    | true =>
      obtain rfl : indices = [] := Except.ok.inj none
      rcases List.mem_cons.mp member with rfl | later
      · exact fits
      · exact ih others c later

variable {levels : ℕ}

theorem fitsSingle_of_validateBound {name : String} {v : Value}
    (valid : validateBound levels name v = .ok ()) : v.fitsSingle = .ok true := by
  obtain ⟨good, fits, valid⟩ := ok_of_bind_ok valid
  cases good with
  | false => cases valid
  | true => exact fits

variable {e : Expansion}

/-- An expansion that passes all checks has coefficients, all its numbers are within single
precision, and its interval is not empty. -/
theorem checks_of_validateWithin (valid : e.validateWithin levels = .ok ()) :
    e.coeffs ≠ [] ∧ (∀ v ∈ e.xMin :: e.xMax :: e.coeffs, v.fitsSingle = .ok true) ∧
      e.xMin.isBelow e.xMax = true := by
  rw [validateWithin] at valid
  cases some : e.coeffs.isEmpty with
  | true => rw [some] at valid; cases valid
  | false =>
    rw [some] at valid
    obtain ⟨bad, found, valid⟩ := ok_of_bind_ok valid
    cases none : bad.isEmpty with
    | false => simp only [none] at valid; cases valid
    | true =>
      simp only [none] at valid
      obtain ⟨_, low, valid⟩ := ok_of_bind_ok valid
      obtain ⟨_, high, valid⟩ := ok_of_bind_ok valid
      cases ordered : e.xMin.isBelow e.xMax with
      | false => rw [ordered] at valid; cases valid
      | true =>
        rw [List.isEmpty_iff] at none
        subst none
        refine ⟨by simpa using some, ?_, rfl⟩
        rw [List.forall_mem_cons, List.forall_mem_cons]
        exact ⟨fitsSingle_of_validateBound low, fitsSingle_of_validateBound high,
          fitsSingle_of_misfits found⟩

/-- The coefficients and the bounds of an accepted expansion are within single precision. -/
theorem fitsSingle_of_validate (valid : e.validate = .ok ()) {v : Value}
    (member : v ∈ e.xMin :: e.xMax :: e.coeffs) : v.fitsSingle = .ok true :=
  (checks_of_validateWithin valid).2.1 v member

/-- An expansion that passes all checks has been accepted. -/
theorem accepted_of_validate (valid : e.validate = .ok ()) : e.Accepted := by
  obtain ⟨nonempty, single, ordered⟩ := checks_of_validateWithin valid
  have fits : ∀ v ∈ e.xMin :: e.xMax :: e.coeffs, v.Fits := fun v member =>
    Value.fits_of_fitsSingle (single v member)
  exact ⟨nonempty, fun c member => fits c (by simp [member]), fits _ (by simp), fits _ (by simp),
    ordered⟩

/-- Values that are all within single precision are no misfits. -/
theorem misfits_eq_nil {values : List Value} (fits : ∀ c ∈ values, c.fitsSingle = .ok true)
    (start : ℕ) : misfits start values = .ok [] := by
  induction values generalizing start with
  | nil => rfl
  | cons v rest ih =>
    rw [misfits, fits v List.mem_cons_self, except_ok_bind,
      ih fun c member => fits c (List.mem_cons_of_mem v member)]
    rfl

/-- With coefficients and bounds within single precision only the order of the bounds is left to be
checked. -/
theorem validateWithin_of_fitsSingle (levels : ℕ) (nonempty : e.coeffs ≠ [])
    (single : ∀ v ∈ e.xMin :: e.xMax :: e.coeffs, v.fitsSingle = .ok true) :
    e.validateWithin levels = if e.xMin.isBelow e.xMax then .ok ()
      else .error (.invalid (.domain e.xMin e.xMax)) := by
  have some : e.coeffs.isEmpty = false := by simpa using nonempty
  rw [List.forall_mem_cons, List.forall_mem_cons] at single
  obtain ⟨low, high, coeffs⟩ := single
  rw [validateWithin, some, misfits_eq_nil coeffs, validateBound, validateBound, low, high]
  rfl

theorem validate_quadratic : quadratic.validate = .ok () :=
  eq_ok_of_isOk (by decide +kernel)

end Expansion

end ClenshawCode
