import ClenshawCode.Proofs.Binary64.Correct
import ClenshawCode.Proofs.Expansion.Acceptance
import ClenshawCode.Proofs.Value.Hindrance

/-!
# What the checks say of every input

The checks of an expansion come to one of four ends. They accept exactly the expansions whose
numbers are within single precision and whose bounds are in order. Otherwise they name a defect, of
which the list of coefficients is exact, unless they come to a number that cannot be tested, which
is an integer that rounds beyond the finite doubles, or to a bound that cannot be shown, because it
is nested too deeply or holds an integer with too many digits.

## Main definitions

* `Value.IsSingle`: the numbers within single precision, compared exactly
* `Value.IsOversized`: the integers that round beyond the finite doubles
* `Value.IsUnshowable`, `Value.IsHidden`: the values that fail the test and cannot be shown, and
  those of them that a given failure hides
* `Expansion.ComesToBound`, `Expansion.ComesToOversized`: the expansions of which the checks come to
  a bound of some kind, and to an oversized integer
* `Expansion.Verdict`: the ends of the checks

## Main results

* `Expansion.validate_classifies`: what the checks say
-/

namespace ClenshawCode

open Binary64

/-- The largest finite number of single precision as a double is that number. -/
theorem exact_float32Max : exact float32Max = .finite singleMax := by
  have stored : float32Max = ofSignedBits false (magnitudeBits singleMax 1) :=
    congrArg (ofSignedBits false) (Nat.min_eq_left (by decide +kernel))
  have pair : ofMagnitudeBits (magnitudeBits singleMax 1) = (9007198717870080, 75) := by
    decide +kernel
  have largest : singleMax = 340282346638528859811704183484516925440 := by decide +kernel
  rw [stored, exact_ofSignedBits false (by decide +kernel), withSign, if_neg Bool.false_ne_true,
    magnitude, pair, largest]
  norm_num

namespace Value

/-- A number whose magnitude is at most the largest finite one of single precision. -/
def IsSingle (v : Value) : Prop :=
  ∃ q m : ℚ, v.exactly? = some (.finite q) ∧ exact float32Max = .finite m ∧ |q| ≤ m

/-- An integer that rounds beyond the finite doubles. -/
def IsOversized (v : Value) : Prop := ∃ n : ℤ, v = .int n ∧ overflow ≤ n.natAbs

/-- What is tested and rejected, but is deeper than can be shown or holds an integer with too many
digits. -/
structure IsUnshowable (levels : ℕ) (v : Value) : Prop where
  tested : ¬ v.IsOversized
  rejected : ¬ v.IsSingle
  hidden : levels < v.height ∨ v.isShort = false

/-- What is tested and rejected, but cannot be shown for some reason. -/
structure IsHidden (levels : ℕ) (failure : Failure) (v : Value) : Prop where
  tested : ¬ v.IsOversized
  rejected : ¬ v.IsSingle
  hidden : v.hindrance? levels = some failure

variable {v : Value}

theorem IsHidden.isHindrance {levels : ℕ} {failure : Failure}
    (hidden : v.IsHidden levels failure) : IsHindrance failure :=
  isHindrance_of_hindrance? levels v hidden.hidden

theorem isUnshowable_iff {levels : ℕ} : v.IsUnshowable levels ↔
    ∃ failure, IsHindrance failure ∧ v.IsHidden levels failure := by
  constructor
  · rintro ⟨tested, rejected, hidden⟩
    cases shown : v.hindrance? levels with
    | none =>
      obtain ⟨low, short⟩ := (hindrance?_eq_none_iff levels v).mp shown
      rcases hidden with deep | long
      · exact absurd low (Nat.not_le.mpr deep)
      · exact absurd short (Bool.eq_false_iff.mp long)
    | some failure =>
      exact ⟨failure, isHindrance_of_hindrance? levels v shown, tested, rejected, shown⟩
  · rintro ⟨failure, -, tested, rejected, shown⟩
    refine ⟨tested, rejected, ?_⟩
    by_contra neither
    rw [not_or, Nat.not_lt, Bool.not_eq_false] at neither
    rw [(hindrance?_eq_none_iff levels v).mpr neither] at shown
    cases shown

theorem isSingle_iff : v.IsSingle ↔ ∃ q : ℚ, v.exactly? = some (.finite q) ∧ |q| ≤ singleMax := by
  simp only [IsSingle, exact_float32Max, Exact.finite.injEq]
  constructor
  · rintro ⟨q, m, exactly, rfl, within⟩
    exact ⟨q, exactly, within⟩
  · rintro ⟨q, exactly, within⟩
    exact ⟨q, singleMax, exactly, rfl, within⟩

/-- Single precision ends before the doubles do. -/
theorem IsSingle.not_isOversized (single : v.IsSingle) : ¬ v.IsOversized := by
  rintro ⟨n, rfl, large⟩
  obtain ⟨q, exactly, within⟩ := isSingle_iff.mp single
  obtain rfl : (n : ℚ) = q := Exact.finite.inj (Option.some.inj exactly)
  have order : singleMax < overflow := by decide +kernel
  have small : n.natAbs ≤ singleMax := by
    have cast : ((n.natAbs : ℕ) : ℚ) ≤ singleMax := by
      rw [Nat.cast_natAbs, Int.cast_abs]
      exact within
    exact_mod_cast cast
  omega

theorem fitsSingle_of_isOversized (large : v.IsOversized) :
    v.fitsSingle = .error .intTooLarge := by
  obtain ⟨n, rfl, large⟩ := large
  have none := (ofInt?_eq_none_iff n).mpr large
  have number : (Value.int n).exactly? = some (.finite n) := rfl
  rw [fitsSingle, number]
  simp only [isFinite, none]
  rfl

/-- A finite number is compared exactly. -/
theorem fitsSingle_of_exactly {q : ℚ} (exactly : v.exactly? = some (.finite q))
    (tested : v.isFinite = .ok true) : v.fitsSingle = .ok (decide (|q| ≤ singleMax)) := by
  rw [fitsSingle, exactly]
  simp only [tested, except_ok_bind, if_true, withinSingle]
  simp only [abs_le, Bool.decide_and]

/-- What is a double but not finite fails the test. -/
theorem fitsSingle_of_not_finite {x : Exact} (exactly : v.exactly? = some x)
    (tested : v.isFinite = .ok false) : v.fitsSingle = .ok false := by
  rw [fitsSingle, exactly]
  simp only [tested, except_ok_bind]
  rfl

/-- Every value that is not oversized is tested without failing. -/
theorem exists_fitsSingle (sized : ¬ v.IsOversized) :
    ∃ fits, v.fitsSingle = .ok fits ∧ (fits = true ↔ v.IsSingle) := by
  -- What is no finite number is not within single precision.
  have other (none : ∀ q, v.exactly? ≠ some (.finite q)) (tested : v.fitsSingle = .ok false) :
      ∃ fits, v.fitsSingle = .ok fits ∧ (fits = true ↔ v.IsSingle) := by
    refine ⟨false, tested, iff_of_false Bool.false_ne_true fun single => ?_⟩
    obtain ⟨q, exactly, -⟩ := isSingle_iff.mp single
    exact none q exactly
  have double {x : Exact} (exactly : v.exactly? = some x) (none : ∀ q, x ≠ .finite q)
      (tested : v.isFinite = .ok false) :
      ∃ fits, v.fitsSingle = .ok fits ∧ (fits = true ↔ v.IsSingle) :=
    other (fun q exactly' => none q (Option.some.inj (exactly.symm.trans exactly')))
      (fitsSingle_of_not_finite exactly tested)
  have finite {q : ℚ} (exactly : v.exactly? = some (.finite q)) (tested : v.isFinite = .ok true) :
      ∃ fits, v.fitsSingle = .ok fits ∧ (fits = true ↔ v.IsSingle) := by
    refine ⟨_, fitsSingle_of_exactly exactly tested, ?_⟩
    rw [decide_eq_true_eq, isSingle_iff]
    refine ⟨fun within => ⟨q, exactly, within⟩, ?_⟩
    rintro ⟨p, exactly', within⟩
    obtain rfl : q = p := Exact.finite.inj (Option.some.inj (exactly.symm.trans exactly'))
    exact within
  have exact_nan : exact Binary64.nan = .nan := by rw [exact, view_nan]
  cases v with
  | bool b => exact finite rfl rfl
  | int n =>
    cases rounded : ofInt? n with
    | some x => exact finite rfl (by rw [isFinite, rounded])
    | none => exact absurd ⟨n, rfl, (ofInt?_eq_none_iff n).mp rounded⟩ sized
  | float x =>
    rcases float_cases x with rfl | ⟨negative, rfl⟩ | ⟨negative, bits, below, rfl⟩
    · refine double (congrArg some exact_nan) (fun q => by simp) ?_
      rw [isFinite, Binary64.isFinite, view_nan]
    · have infinite : exact (infinity negative) = .infinite negative := by
        rw [exact, view_infinity]
      refine double (congrArg some infinite) (fun q => by simp) ?_
      rw [isFinite, Binary64.isFinite, view_infinity]
    · refine finite (congrArg some (exact_ofSignedBits negative below)) ?_
      rw [isFinite, isFinite_ofSignedBits negative below]
  | nan _ => exact double (congrArg some exact_nan) (fun q => by simp) rfl
  | _ => exact other (fun q exactly => by cases exactly) rfl

theorem fitsSingle_of_isSingle (single : v.IsSingle) : v.fitsSingle = .ok true := by
  obtain ⟨fits, tested, iff⟩ := exists_fitsSingle single.not_isOversized
  rwa [iff.mpr single] at tested

theorem fitsSingle_of_not_isSingle (sized : ¬ v.IsOversized) (outside : ¬ v.IsSingle) :
    v.fitsSingle = .ok false := by
  obtain ⟨fits, tested, iff⟩ := exists_fitsSingle sized
  rwa [Bool.eq_false_iff.mpr fun fits => outside (iff.mp fits)] at tested

theorem isSingle_of_fitsSingle (fits : v.fitsSingle = .ok true) : v.IsSingle := by
  by_cases sized : v.IsOversized
  · rw [fitsSingle_of_isOversized sized] at fits
    cases fits
  · by_contra outside
    rw [fitsSingle_of_not_isSingle sized outside] at fits
    cases fits

end Value

namespace Expansion

section Coefficients

variable {values : List Value}

/-- An oversized integer among the coefficients is found, whatever the others are. -/
theorem misfits_of_isOversized (large : ∃ c ∈ values, c.IsOversized) (start : ℕ) :
    misfits start values = .error .intTooLarge := by
  induction values generalizing start with
  | nil =>
    obtain ⟨c, member, -⟩ := large
    cases member
  | cons v rest ih =>
    obtain ⟨c, member, large⟩ := large
    rw [misfits]
    by_cases first : v.IsOversized
    · rw [Value.fitsSingle_of_isOversized first]
      rfl
    · -- The test of the first one gives some answer, and the integer is found behind it.
      obtain ⟨fits, tested, -⟩ := Value.exists_fitsSingle first
      have behind : c ∈ rest := by
        rcases List.mem_cons.mp member with rfl | behind
        · exact absurd large first
        · exact behind
      rw [tested, except_ok_bind, ih ⟨c, behind, large⟩]
      rfl

/-- Without oversized integers the misfits are listed in ascending order, each of them and no other.
-/
theorem exists_misfits (sized : ∀ c ∈ values, ¬ c.IsOversized) (start : ℕ) :
    ∃ indices, misfits start values = .ok indices ∧ indices.Pairwise (· < ·) ∧
      ∀ i, i ∈ indices ↔ ∃ k c, i = start + k ∧ values[k]? = some c ∧ ¬ c.IsSingle := by
  induction values generalizing start with
  | nil => exact ⟨[], rfl, List.Pairwise.nil, fun i => by simp⟩
  | cons v rest ih =>
    obtain ⟨others, found, ascending, exactly⟩ :=
      ih (fun c member => sized c (List.mem_cons_of_mem v member)) (start + 1)
    obtain ⟨fits, tested, single⟩ := Value.exists_fitsSingle (sized v List.mem_cons_self)
    -- The places behind the first one are counted one higher.
    have behind (i : ℕ) : (∃ k c, i = start + 1 + k ∧ rest[k]? = some c ∧ ¬ c.IsSingle) ↔
        ∃ k c, i = start + (k + 1) ∧ (v :: rest)[k + 1]? = some c ∧ ¬ c.IsSingle := by
      simp only [List.getElem?_cons_succ, show ∀ k, start + 1 + k = start + (k + 1) by omega]
    have split (i : ℕ) : (∃ k c, i = start + k ∧ (v :: rest)[k]? = some c ∧ ¬ c.IsSingle) ↔
        (i = start ∧ ¬ v.IsSingle) ∨ i ∈ others := by
      rw [exactly, behind]
      constructor
      · rintro ⟨k, c, rfl, here, outside⟩
        cases k with
        | zero =>
          obtain rfl : v = c := Option.some.inj here
          exact .inl ⟨rfl, outside⟩
        | succ k => exact .inr ⟨k, c, rfl, here, outside⟩
      · rintro (⟨rfl, outside⟩ | ⟨k, c, place, here, outside⟩)
        · exact ⟨0, v, rfl, rfl, outside⟩
        · exact ⟨k + 1, c, place, here, outside⟩
    rw [misfits, tested, except_ok_bind, found, except_ok_bind]
    cases fits with
    | true =>
      refine ⟨others, rfl, ascending, fun i => ?_⟩
      rw [split]
      simp [single.mp rfl]
    | false =>
      have outside : ¬ v.IsSingle := fun inside => Bool.false_ne_true (single.mpr inside)
      refine ⟨start :: others, rfl, List.pairwise_cons.mpr ⟨fun i member => ?_, ascending⟩,
        fun i => ?_⟩
      · obtain ⟨k, -, rfl, -⟩ := (exactly i).mp member
        omega
      · rw [split, List.mem_cons]
        simp [outside]

end Coefficients

section Bounds

variable {levels : ℕ} {name : String} {v : Value}

theorem validateBound_of_isSingle (single : v.IsSingle) : validateBound levels name v = .ok () := by
  rw [validateBound, Value.fitsSingle_of_isSingle single]
  rfl

theorem validateBound_of_isOversized (large : v.IsOversized) :
    validateBound levels name v = .error .intTooLarge := by
  rw [validateBound, Value.fitsSingle_of_isOversized large]
  rfl

theorem validateBound_of_not_isSingle (sized : ¬ v.IsOversized) (outside : ¬ v.IsSingle) :
    validateBound levels name v = .error (boundFailure levels name v) := by
  rw [validateBound, Value.fitsSingle_of_not_isSingle sized outside]
  rfl

theorem validateBound_of_isHidden {failure : Failure} (hidden : v.IsHidden levels failure) :
    validateBound levels name v = .error failure := by
  rw [validateBound_of_not_isSingle hidden.tested hidden.rejected, boundFailure,
    Value.failureShowing, hidden.hidden]
  rfl

/-- A rejected bound is named, unless something hides it. -/
theorem validateBound_cases (levels : ℕ) (name : String) (sized : ¬ v.IsOversized)
    (outside : ¬ v.IsSingle) :
    validateBound levels name v = .error (.invalid (.bound name v)) ∨
      ∃ failure, v.IsHidden levels failure ∧ validateBound levels name v = .error failure := by
  cases shown : v.hindrance? levels with
  | none =>
    left
    rw [validateBound_of_not_isSingle sized outside, boundFailure, Value.failureShowing, shown]
    rfl
  | some failure =>
    have hidden : v.IsHidden levels failure := ⟨sized, outside, shown⟩
    exact .inr ⟨failure, hidden, validateBound_of_isHidden hidden⟩

end Bounds

/-- The bounds are finite numbers in order, compared exactly. -/
def Ordered (e : Expansion) : Prop :=
  ∃ p q : ℚ, e.xMin.exactly? = some (.finite p) ∧ e.xMax.exactly? = some (.finite q) ∧ p < q

/-- The checks come to a bound of some kind: the coefficients are fine, and so is the lower bound if
this is the upper one. -/
def ComesToBound (e : Expansion) (kind : Value → Prop) : Prop :=
  e.coeffs ≠ [] ∧ (∀ c ∈ e.coeffs, c.IsSingle) ∧ (kind e.xMin ∨ e.xMin.IsSingle ∧ kind e.xMax)

/-- The checks come to an integer that rounds beyond the finite doubles. -/
def ComesToOversized (e : Expansion) : Prop :=
  (∃ c ∈ e.coeffs, c.IsOversized) ∨ e.ComesToBound Value.IsOversized

variable {levels : ℕ} {e : Expansion}

/-- Two numbers within single precision are compared exactly. -/
theorem isBelow_iff_ordered (low : e.xMin.IsSingle) (high : e.xMax.IsSingle) :
    e.xMin.isBelow e.xMax = true ↔ e.Ordered := by
  obtain ⟨p, exactly, -⟩ := Value.isSingle_iff.mp low
  obtain ⟨q, exactly', -⟩ := Value.isSingle_iff.mp high
  rw [Value.isBelow, exactly, exactly']
  refine decide_eq_true_iff.trans ⟨fun order => ⟨p, q, exactly, exactly', order⟩, ?_⟩
  rintro ⟨p', q', same, same', order⟩
  obtain rfl : p = p' := Exact.finite.inj (Option.some.inj (exactly.symm.trans same))
  obtain rfl : q = q' := Exact.finite.inj (Option.some.inj (exactly'.symm.trans same'))
  exact order

section Ends

/-- The coefficients are looked at first, all of them. -/
theorem validateWithin_eq_bind (nonempty : e.coeffs ≠ []) :
    e.validateWithin levels = misfits 0 e.coeffs >>= fun bad =>
      if bad ≠ [] then .error (.invalid (.coefficients bad))
      else validateBound levels "x_min" e.xMin >>= fun _ =>
        validateBound levels "x_max" e.xMax >>= fun _ =>
          if e.xMin.isBelow e.xMax then .ok () else .error (.invalid (.domain e.xMin e.xMax)) := by
  have some : e.coeffs.isEmpty = false := by simpa using nonempty
  rw [validateWithin, some]
  cases misfits 0 e.coeffs with
  | error failure => rfl
  | ok bad => cases bad <;> rfl

theorem validateWithin_of_nil (none : e.coeffs = []) :
    e.validateWithin levels = .error (.invalid .noCoefficients) := by
  rw [validateWithin, none]
  rfl

/-- An oversized coefficient ends the checks without a message of their own. -/
theorem validateWithin_of_isOversized (large : ∃ c ∈ e.coeffs, c.IsOversized) :
    e.validateWithin levels = .error .intTooLarge := by
  have nonempty : e.coeffs ≠ [] := by
    obtain ⟨c, member, -⟩ := large
    exact List.ne_nil_of_mem member
  rw [validateWithin_eq_bind nonempty, misfits_of_isOversized large]
  rfl

/-- Without oversized ones, the coefficients out of range are listed. -/
theorem exists_validateWithin_coefficients (outside : ∃ c ∈ e.coeffs, ¬ c.IsSingle)
    (sized : ∀ c ∈ e.coeffs, ¬ c.IsOversized) :
    ∃ indices, e.validateWithin levels = .error (.invalid (.coefficients indices)) ∧
      indices.Pairwise (· < ·) ∧
      ∀ i, i ∈ indices ↔ ∃ c, e.coeffs[i]? = some c ∧ ¬ c.IsSingle := by
  obtain ⟨c, member, bad⟩ := outside
  obtain ⟨indices, found, ascending, exactly⟩ := exists_misfits sized 0
  have listed (i : ℕ) : i ∈ indices ↔ ∃ c, e.coeffs[i]? = some c ∧ ¬ c.IsSingle := by
    rw [exactly]
    simp
  obtain ⟨k, place⟩ := List.mem_iff_getElem?.mp member
  have some : indices ≠ [] := List.ne_nil_of_mem ((listed k).mpr ⟨c, place, bad⟩)
  refine ⟨indices, ?_, ascending, listed⟩
  rw [validateWithin_eq_bind (List.ne_nil_of_mem member), found, except_ok_bind, if_pos some]

/-- With good coefficients the bounds decide. -/
theorem validateWithin_of_coefficients (nonempty : e.coeffs ≠ [])
    (single : ∀ c ∈ e.coeffs, c.IsSingle) :
    e.validateWithin levels = validateBound levels "x_min" e.xMin >>= fun _ =>
      validateBound levels "x_max" e.xMax >>= fun _ =>
        if e.xMin.isBelow e.xMax then .ok () else .error (.invalid (.domain e.xMin e.xMax)) := by
  have found := misfits_eq_nil (fun c member => Value.fitsSingle_of_isSingle (single c member)) 0
  rw [validateWithin_eq_bind nonempty, found, except_ok_bind, if_neg (not_not.mpr rfl)]

/-- A bound that the checks come to and that fails ends them. -/
theorem validateWithin_of_comesToBound {kind : Value → Prop} {failure : Failure}
    (fails : ∀ name v, kind v → validateBound levels name v = .error failure)
    (comes : e.ComesToBound kind) : e.validateWithin levels = .error failure := by
  obtain ⟨nonempty, single, lower | ⟨low, upper⟩⟩ := comes
  · rw [validateWithin_of_coefficients nonempty single, fails _ _ lower]
    rfl
  · rw [validateWithin_of_coefficients nonempty single, validateBound_of_isSingle low,
      except_ok_bind, fails _ _ upper]
    rfl

end Ends

/-- The ends to which the checks come, in the order of the checks. -/
inductive Verdict (levels : ℕ) (e : Expansion) : Except Failure Unit → Prop
  | empty (none : e.coeffs = []) : Verdict levels e (.error (.invalid .noCoefficients))
  | oversized (comes : e.ComesToOversized) : Verdict levels e (.error .intTooLarge)
  | coefficients (indices : List ℕ) (outside : ∃ c ∈ e.coeffs, ¬ c.IsSingle) :
    Verdict levels e (.error (.invalid (.coefficients indices)))
  | hidden (failure : Failure) (hinders : Value.IsHindrance failure)
    (comes : e.ComesToBound (Value.IsHidden levels failure)) : Verdict levels e (.error failure)
  | bound (name : String) (v : Value) (comes : e.ComesToBound fun v => ¬ v.IsSingle) :
    Verdict levels e (.error (.invalid (.bound name v)))
  | domain (reversed : ¬ e.Ordered) : Verdict levels e (.error (.invalid (.domain e.xMin e.xMax)))
  | accepted : Verdict levels e (.ok ())

/-- The checks of an expansion come to one of these ends. -/
theorem verdict_validateWithin (levels : ℕ) (e : Expansion) :
    Verdict levels e (e.validateWithin levels) := by
  by_cases none : e.coeffs = []
  · rw [validateWithin_of_nil none]
    exact .empty none
  by_cases large : ∃ c ∈ e.coeffs, c.IsOversized
  · rw [validateWithin_of_isOversized large]
    exact .oversized (.inl large)
  by_cases single : ∀ c ∈ e.coeffs, c.IsSingle
  · have lower {kind : Value → Prop} (here : kind e.xMin) : e.ComesToBound kind :=
      ⟨none, single, .inl here⟩
    rw [validateWithin_of_coefficients none single]
    by_cases largeMin : e.xMin.IsOversized
    · rw [validateBound_of_isOversized largeMin]
      exact .oversized (.inr (lower largeMin))
    by_cases low : e.xMin.IsSingle
    · have upper {kind : Value → Prop} (here : kind e.xMax) : e.ComesToBound kind :=
        ⟨none, single, .inr ⟨low, here⟩⟩
      rw [validateBound_of_isSingle low, except_ok_bind]
      by_cases largeMax : e.xMax.IsOversized
      · rw [validateBound_of_isOversized largeMax]
        exact .oversized (.inr (upper largeMax))
      by_cases high : e.xMax.IsSingle
      · rw [validateBound_of_isSingle high, except_ok_bind]
        split
        · exact .accepted
        · rename_i reversed
          exact .domain fun ordered => reversed ((isBelow_iff_ordered low high).mpr ordered)
      · rcases validateBound_cases levels "x_max" largeMax high with
          named | ⟨failure, hidden, failed⟩
        · rw [named]
          exact .bound "x_max" e.xMax (upper high)
        · rw [failed]
          exact .hidden failure hidden.isHindrance (upper hidden)
    · rcases validateBound_cases levels "x_min" largeMin low with named | ⟨failure, hidden, failed⟩
      · rw [named]
        exact .bound "x_min" e.xMin (lower low)
      · rw [failed]
        exact .hidden failure hidden.isHindrance (lower hidden)
  · have outside : ∃ c ∈ e.coeffs, ¬ c.IsSingle := by simpa using single
    obtain ⟨indices, found, -⟩ :=
      exists_validateWithin_coefficients outside fun c member sized => large ⟨c, member, sized⟩
    rw [found]
    exact .coefficients indices outside

theorem validateWithin_eq_ok_iff : e.validateWithin levels = .ok () ↔ e.coeffs ≠ [] ∧
    (∀ v ∈ e.xMin :: e.xMax :: e.coeffs, v.IsSingle) ∧ e.Ordered := by
  constructor
  · intro valid
    obtain ⟨nonempty, fits, below⟩ := checks_of_validateWithin valid
    have single := fun v member => Value.isSingle_of_fitsSingle (fits v member)
    exact ⟨nonempty, single,
      (isBelow_iff_ordered (single _ (by simp)) (single _ (by simp))).mp below⟩
  · rintro ⟨nonempty, single, ordered⟩
    rw [validateWithin_of_fitsSingle levels nonempty
      fun v member => Value.fitsSingle_of_isSingle (single v member)]
    exact if_pos ((isBelow_iff_ordered (single _ (by simp)) (single _ (by simp))).mpr ordered)

theorem validateWithin_eq_intTooLarge_iff :
    e.validateWithin levels = .error .intTooLarge ↔ e.ComesToOversized := by
  constructor
  · intro failed
    have verdict := verdict_validateWithin levels e
    rw [failed] at verdict
    cases verdict with
    | oversized comes => exact comes
    | hidden _ hinders => rcases hinders with impossible | impossible <;> cases impossible
  · rintro (large | comes)
    · exact validateWithin_of_isOversized large
    · exact validateWithin_of_comesToBound (fun _ _ => validateBound_of_isOversized) comes

theorem validateWithin_eq_hindrance_iff {failure : Failure} (hinders : Value.IsHindrance failure) :
    e.validateWithin levels = .error failure ↔
      e.ComesToBound (Value.IsHidden levels failure) := by
  constructor
  · intro failed
    have verdict := verdict_validateWithin levels e
    rw [failed] at verdict
    cases verdict with
    | hidden _ _ comes => exact comes
    | _ => rcases hinders with impossible | impossible <;> cases impossible
  · exact validateWithin_of_comesToBound fun _ _ => validateBound_of_isHidden

/-- The checks come to a bound that has one of some properties if they come to one for one of them.
-/
theorem comesToBound_exists_iff {ι : Type} {kind : ι → Value → Prop} :
    (e.ComesToBound fun v => ∃ i, kind i v) ↔ ∃ i, e.ComesToBound (kind i) := by
  constructor
  · rintro ⟨nonempty, single, ⟨i, lower⟩ | ⟨low, i, upper⟩⟩
    · exact ⟨i, nonempty, single, .inl lower⟩
    · exact ⟨i, nonempty, single, .inr ⟨low, upper⟩⟩
  · rintro ⟨i, nonempty, single, lower | ⟨low, upper⟩⟩
    · exact ⟨nonempty, single, .inl ⟨i, lower⟩⟩
    · exact ⟨nonempty, single, .inr ⟨low, i, upper⟩⟩

theorem comesToBound_and_iff {condition : Prop} {kind : Value → Prop} :
    (e.ComesToBound fun v => condition ∧ kind v) ↔ condition ∧ e.ComesToBound kind := by
  simp only [ComesToBound]
  tauto

/-- A bound is hidden exactly if the checks come to one that cannot be shown. -/
theorem exists_validateWithin_eq_hindrance_iff :
    (∃ failure, Value.IsHindrance failure ∧ e.validateWithin levels = .error failure) ↔
      e.ComesToBound (Value.IsUnshowable levels) := by
  have kinds : Value.IsUnshowable levels =
      fun v => ∃ failure, Value.IsHindrance failure ∧ v.IsHidden levels failure := by
    funext v
    exact propext Value.isUnshowable_iff
  rw [kinds, comesToBound_exists_iff]
  refine exists_congr fun failure => ?_
  rw [comesToBound_and_iff]
  exact and_congr_right validateWithin_eq_hindrance_iff

/-- The checks accept an expansion exactly if it has coefficients, all its numbers are within single
precision, and its bounds are in order. They overflow exactly if they come to an integer beyond the
doubles. They fail to show a bound exactly if they come to a rejected one that has more levels than
a message can show or an integer with too many digits, and of these the one that is met first is the
failure. Any other failure names a defect. If they list coefficients, these are all coefficients out
of range, in ascending order. -/
theorem validate_classifies (levels : ℕ) (e : Expansion) :
    (e.validateWithin levels = .ok () ↔ e.coeffs ≠ [] ∧
      (∀ v ∈ e.xMin :: e.xMax :: e.coeffs, v.IsSingle) ∧ e.Ordered) ∧
    (e.validateWithin levels = .error .intTooLarge ↔ e.ComesToOversized) ∧
    ((∃ failure, Value.IsHindrance failure ∧ e.validateWithin levels = .error failure) ↔
      e.ComesToBound (Value.IsUnshowable levels)) ∧
    (∀ failure, Value.IsHindrance failure → (e.validateWithin levels = .error failure ↔
      e.ComesToBound (Value.IsHidden levels failure))) ∧
    (∀ failure, e.validateWithin levels = .error failure →
      failure = .intTooLarge ∨ Value.IsHindrance failure ∨ ∃ defect, failure = .invalid defect) ∧
    ((∃ c ∈ e.coeffs, ¬ c.IsSingle) → (∀ c ∈ e.coeffs, ¬ c.IsOversized) →
      ∃ indices, e.validateWithin levels = .error (.invalid (.coefficients indices)) ∧
        (Failure.invalid (.coefficients indices)).message =
          "Coefficients not representable as finite float32 at indices: [" ++
            Text.join ", " (indices.map Text.natText) ++ "]" ∧
        indices.Pairwise (· < ·) ∧
        ∀ i, i ∈ indices ↔ ∃ c, e.coeffs[i]? = some c ∧ ¬ c.IsSingle) := by
  refine ⟨validateWithin_eq_ok_iff, validateWithin_eq_intTooLarge_iff,
    exists_validateWithin_eq_hindrance_iff, fun failure => validateWithin_eq_hindrance_iff,
    fun failure failed => ?_, fun outside sized => ?_⟩
  · have verdict := verdict_validateWithin levels e
    rw [failed] at verdict
    cases verdict with
    | oversized => exact .inl rfl
    | hidden _ hinders => exact .inr (.inl hinders)
    | _ => exact .inr (.inr ⟨_, rfl⟩)
  · obtain ⟨indices, found, ascending, exactly⟩ := exists_validateWithin_coefficients outside sized
    exact ⟨indices, found, rfl, ascending, exactly⟩

/-- A coefficient of four hundred digits is not named as a defect. -/
theorem validate_of_huge_coefficient :
    let e : Expansion := { coeffs := [.int (10 ^ 400)], xMin := .float 0, xMax := .float 1 }
    e.validate = .error .intTooLarge ∧ ∀ defect, e.validate ≠ .error (.invalid defect) := by
  intro e
  have large : overflow ≤ (10 ^ 400 : ℤ).natAbs := by decide +kernel
  have failed : e.validate = .error .intTooLarge :=
    validateWithin_of_isOversized ⟨_, List.mem_singleton_self _, _, rfl, large⟩
  refine ⟨failed, fun defect named => ?_⟩
  rw [failed] at named
  cases named

end Expansion

end ClenshawCode
