import ClenshawCode.Proofs.Program.Range

/-!
# The notation of numbers in a program

In a language with loops coefficients and bounds are written with a point or an exponent, so that no
target takes one of them for an integer. A shader writes as many places as it is asked for, and the
point belongs to the places: if there are none there is no point, and the suffix follows an integer.

## Main definitions

* `Literal.HasPointOrExponent`: the literals of the languages with loops
* `Literal.HasPlaces`: the literals of a shader
* `Literal.HasPointAndSuffix`: those of them that are no integers with a suffix
* `Language.WritesNumbers`: a text in which all coefficients and bounds have a notation

## Main results

* `numbers_are_floating_literals_with_places`: the notation of all coefficients and bounds
-/

namespace ClenshawCode

open Text Binary64 Decimal

namespace Literal

/-- Digits on both sides of a point, or an exponent, maybe behind a minus sign. -/
def HasPointOrExponent (literal : String) : Prop :=
  ∃ negative body, literal = String.ofList (signed negative body) ∧ IsMagnitude false body

/-- Digits, a point with as many digits behind it as there are places, and the suffix, maybe behind
a minus sign. Without places there is no point. -/
def HasPlaces (places : ℕ) (literal : String) : Prop :=
  ∃ negative whole fraction, Digits whole ∧ whole ≠ [] ∧ Digits fraction ∧
    fraction.length = places ∧
    literal = String.ofList (signed negative
      (whole ++ (if places = 0 then [] else '.' :: fraction) ++ ['f']))

/-- Digits, a point, maybe more digits, and the suffix, maybe behind a minus sign. -/
def HasPointAndSuffix (literal : String) : Prop :=
  ∃ negative whole fraction, Digits whole ∧ whole ≠ [] ∧ Digits fraction ∧
    literal = String.ofList (signed negative (whole ++ '.' :: fraction ++ ['f']))

/-- The point belongs to the places. -/
theorem HasPlaces.hasPointAndSuffix_iff {places : ℕ} {literal : String}
    (has : HasPlaces places literal) : HasPointAndSuffix literal ↔ 0 < places := by
  obtain ⟨negative, whole, fraction, digits, nonempty, more, -, text⟩ := has
  constructor
  · rintro ⟨negative', whole', fraction', -, -, -, same⟩
    by_contra none
    obtain rfl : places = 0 := by omega
    -- Neither a sign nor a digit is a point, and neither is the suffix.
    have point : '.' ∈ signed negative (whole ++ [] ++ ['f']) := by
      have lists := String.ofList_injective (text.symm.trans same)
      rw [if_pos rfl] at lists
      rw [lists]
      cases negative' <;> simp [signed]
    have digit : '.' ∉ whole := fun member => absurd (digits '.' member) (by decide)
    cases negative <;> simp [signed, digit] at point
  · intro some
    rw [if_neg some.ne'] at text
    exact ⟨negative, whole, fraction, digits, nonempty, more, text⟩

variable {v : Value}

theorem hasPointOrExponent_shortest (fits : v.Fits) : HasPointOrExponent v.shortest := by
  obtain ⟨negative, bits, finite, double, -⟩ := fits.exists_bits
  refine ⟨negative, magnitudeChars false bits, ?_, isMagnitude_magnitudeChars false bits⟩
  rw [Value.shortest, double]
  exact render_ofSignedBits Value.floatLayout negative finite

theorem hasPlaces_fixedLiteral (fits : v.Fits) {places : ℕ} (few : places < 2 ^ 31) :
    HasPlaces places (Shader.fixedLiteral places v) := by
  obtain ⟨negative, bits, finite, double, -⟩ := fits.exists_bits
  obtain ⟨whole, fraction, fixed⟩ := isFixed_fixedLiteral few negative finite
  have same : Shader.fixedLiteral places v =
      Shader.fixedLiteral places (.float (ofSignedBits negative bits)) :=
    congrArg (fun x => String.ofList (Decimal.fixed x places ++ ['f'])) double
  have point : (if places = 0 then [] else '.' :: fraction) = fractionChars fraction := by
    rw [fractionChars, ← fixed.count]
    simp only [List.length_eq_zero_iff]
  refine ⟨negative, whole, fraction,
    fun c member => fixed.digits c (List.mem_append_left _ member), fixed.nonempty,
    fun c member => fixed.digits c (List.mem_append_right _ member), fixed.count, ?_⟩
  rw [same, point]
  exact fixed.text

end Literal

/-- A text in which the coefficients, each on its line, and the bounds, in their declarations, are
written by a rule, and all of them in one notation. -/
structure Language.WritesNumbers (l : Language) (text : String) (e : Expansion)
    (rule : Value → Except Failure String) (Notation : String → Prop) : Prop where
  coefficient : ∀ i (inside : i < e.coeffs.length), ∃ s, rule e.coeffs[i] = .ok s ∧
    (Text.lines text)[l.firstCoefficient + i]? = some (l.coefficientLine i s) ∧ Notation s
  bound : ∀ upper : Bool, ∃ s, rule (if upper then e.xMax else e.xMin) = .ok s ∧
    (l.boundSlot upper).contents (Text.lines text) = List.replicate l.boundCount (some s) ∧
    Notation s

theorem Language.WritesNumbers.imp {l : Language} {text : String} {e : Expansion}
    {rule : Value → Except Failure String} {Notation Other : String → Prop}
    (writes : l.WritesNumbers text e rule Notation) (each : ∀ s, Notation s → Other s) :
    l.WritesNumbers text e rule Other where
  coefficient i inside := by
    obtain ⟨s, written, line, noted⟩ := writes.coefficient i inside
    exact ⟨s, written, line, each s noted⟩
  bound upper := by
    obtain ⟨s, written, line, noted⟩ := writes.bound upper
    exact ⟨s, written, line, each s noted⟩

section Programs

variable {l : Language} {f : LoopTemplate} {e : Expansion} {text : String}

theorem Expansion.Accepted.bound (accepted : e.Accepted) (upper : Bool) :
    (if upper then e.xMax else e.xMin).Fits := by
  cases upper with
  | false => exact accepted.low
  | true => exact accepted.high

theorem writesNumbers_of_template? (known : l.template? = some f)
    (generated : (generate l e).result = .ok text) :
    l.WritesNumbers text e l.literal Literal.HasPointOrExponent := by
  have accepted := Expansion.accepted_of_validate (validate_of_generate generated).1
  have literal {v : Value} (fits : v.Fits) :
      l.literal v = .ok (l.coefficientLiteral v) ∧
        Literal.HasPointOrExponent (l.coefficientLiteral v) := by
    refine ⟨Language.literal_coefficient fits, ?_⟩
    rw [Language.coefficientLiteral_of_template? known]
    exact Literal.hasPointOrExponent_shortest fits
  constructor
  · intro i inside
    obtain ⟨written, floating⟩ := literal (accepted.coeffs _ (List.getElem_mem inside))
    exact ⟨_, written, getElem?_coefficientLine generated inside, floating⟩
  · intro upper
    obtain ⟨written, floating⟩ := literal (accepted.bound upper)
    exact ⟨_, written, contents_bound_of_generate generated upper, floating⟩

theorem writesNumbers_shader {places : ℕ} (accepted : e.Accepted)
    (rendered : (Shader.renderWith (.int places) e).result = .ok text) :
    Language.shader.WritesNumbers text e (fun v => Literal.fixedSingle v (.int places))
      (Literal.HasPlaces places) := by
  obtain ⟨few, description, -, rfl⟩ := Shader.exists_of_renderWith accepted rendered
  have literal {v : Value} (fits : v.Fits) :
      Literal.fixedSingle v (.int places) = .ok (Shader.fixedLiteral places v) ∧
        Literal.HasPlaces places (Shader.fixedLiteral places v) :=
    ⟨Literal.fixedSingle_eq fits few, Literal.hasPlaces_fixedLiteral fits few⟩
  constructor
  · intro i inside
    obtain ⟨written, suffixed⟩ := literal (accepted.coeffs _ (List.getElem_mem inside))
    exact ⟨_, written, Shader.getElem?_coefficientText accepted places description inside, suffixed⟩
  · intro upper
    obtain ⟨written, suffixed⟩ := literal (accepted.bound upper)
    exact ⟨_, written, contents_bound_shader accepted places description upper, suffixed⟩

/-- A shader has a point in each of its numbers exactly if it was asked for some places. -/
theorem writesNumbers_shader_iff {places : ℕ} {rule : Value → Except Failure String}
    (writes : Language.shader.WritesNumbers text e rule (Literal.HasPlaces places)) :
    Language.shader.WritesNumbers text e rule Literal.HasPointAndSuffix ↔ 0 < places := by
  constructor
  · intro points
    -- There is a lower bound in every program, and it has one literal.
    obtain ⟨s, written, -, suffixed⟩ := writes.bound false
    obtain ⟨t, same, -, point⟩ := points.bound false
    obtain rfl : s = t := Except.ok.inj (written.symm.trans same)
    exact suffixed.hasPointAndSuffix_iff.mp point
  · exact fun some => writes.imp fun s suffixed => suffixed.hasPointAndSuffix_iff.mpr some

end Programs

/-- In a generated program of a language with loops all coefficients and bounds have a point or an
exponent; in Rust the bounds are followed by their type. In a shader they have as many places as it
was asked for and the suffix of single precision. They have a point exactly if it was asked for some
places; without places they are integers with a suffix. -/
theorem numbers_are_floating_literals_with_places (l : Language) (e : Expansion) (places : ℕ)
    (text : String) :
    (l ≠ .shader → (generate l e).result = .ok text →
      l.WritesNumbers text e l.literal Literal.HasPointOrExponent) ∧
    (∀ upper, (Language.rust.boundSlot upper).after = "_f32;") ∧
    (e.validate = .ok () → (Shader.renderWith (.int places) e).result = .ok text →
      Language.shader.WritesNumbers text e (fun v => Literal.fixedSingle v (.int places))
        (Literal.HasPlaces places) ∧
      (Language.shader.WritesNumbers text e (fun v => Literal.fixedSingle v (.int places))
        Literal.HasPointAndSuffix ↔ 0 < places)) := by
  refine ⟨fun loop generated => ?_, ?_, fun valid rendered => ?_⟩
  · cases known : l.template? with
    | some f => exact writesNumbers_of_template? known generated
    | none => exact absurd (Language.eq_shader_of_template? known) loop
  · intro upper
    cases upper <;> rfl
  · have writes := writesNumbers_shader (Expansion.accepted_of_validate valid) rendered
    exact ⟨writes, writesNumbers_shader_iff writes⟩

/-- The quadratic sample in Rust, and as a shader with three places. -/
theorem numbers_are_floating_literals_with_places_quadratic :
    Expansion.quadratic.validate = .ok () ∧ Language.rust ≠ .shader ∧
      ∃ text text', (generate .rust Expansion.quadratic).result = .ok text ∧
        (Shader.renderWith (.int 3) Expansion.quadratic).result = .ok text' ∧
        Language.rust.WritesNumbers text Expansion.quadratic Language.rust.literal
          Literal.HasPointOrExponent ∧
        Language.shader.WritesNumbers text' Expansion.quadratic
          (fun v => Literal.fixedSingle v (.int 3)) Literal.HasPointAndSuffix := by
  have valid := Expansion.validate_quadratic
  have accepted := Expansion.accepted_of_validate valid
  obtain ⟨x, middle⟩ : ∃ x, Expansion.quadratic.midpointValue = .ok (.float x) := ⟨_, rfl⟩
  have renderable : Expansion.quadratic.Renderable "quadratic" (.float x) :=
    ⟨valid, rfl, middle, trivial⟩
  have generated := Language.generate_eq .rust renderable
  have rendered := @Shader.renderWith_eq _ _ 3 accepted rfl (by decide)
  obtain ⟨loop, -, -⟩ := numbers_are_floating_literals_with_places .rust Expansion.quadratic 3 _
  obtain ⟨-, -, shader⟩ := numbers_are_floating_literals_with_places .rust Expansion.quadratic 3 _
  exact ⟨valid, by decide, _, _, generated, rendered, loop (by decide) generated,
    (shader valid rendered).2.mpr (by decide)⟩

/-- Without places the shader of the quadratic sample writes the coefficient two as an integer with
a suffix. -/
theorem coefficient_of_shader_without_places :
    Expansion.quadratic.validate = .ok () ∧
      ∃ text, (Shader.renderWith (.int (0 : ℕ)) Expansion.quadratic).result = .ok text ∧
        (Text.lines text)[6]? = some "    const float c0 = 2f;" ∧ '.' ∉ "2f".toList := by
  have valid := Expansion.validate_quadratic
  have accepted := Expansion.accepted_of_validate valid
  have rendered := @Shader.renderWith_eq _ _ 0 accepted rfl (by decide)
  have first := Shader.getElem?_coefficientText accepted 0 "quadratic" (i := 0) (by decide)
  have literal : Shader.coefficientText 0 (Shader.fixedLiteral 0 (.float 2)) =
      "    const float c0 = 2f;" := by decide +kernel
  exact ⟨valid, _, rendered, first.trans (congrArg some literal), by decide⟩

end ClenshawCode
