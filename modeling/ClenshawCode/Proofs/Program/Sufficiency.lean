import ClenshawCode.Proofs.Expansion.Reference
import ClenshawCode.Proofs.Program.Isolation

/-!
# When accepted expansions can be rendered

An accepted expansion with a text as its description and without a reference of its own has a shader
in any case. In the other languages it has a program unless its bounds coincide as doubles: then the
default reference value divides by zero, though the check has found the interval not to be empty.

## Main definitions

* `Expansion.adjacent`: an expansion whose bounds coincide as doubles
-/

namespace ClenshawCode

open Text

/-- Where the bounds coincide a language with loops has no program. -/
theorem generate_of_boundsCoincide {l : Language} {f : LoopTemplate} (known : l.template? = some f)
    {e : Expansion} (valid : e.validate = .ok ()) (bare : e.reference = none)
    (coincide : e.BoundsCoincide) : (generate l e).result = .error .zeroDivision := by
  have middle := (e.midpointValue_eq valid bare).1 coincide
  have parts : (LoopParts.of l.literal e).result = .error .zeroDivision := by
    rw [LoopParts.of, middle, Outcome.bind_failure _ rfl]
  rw [generate, valid, Outcome.bind_result _ rfl, Language.render_of_template? known,
    Outcome.bind_failure _ parts]

/-- An accepted expansion without a reference can be rendered in every language, but for one case:
in a language with loops it fails by a division by zero if one bound is an integer, the other one is
none, and both are rounded to one double. -/
theorem accepted_renders_unless_bounds_coincide (e : Expansion) (description : String)
    (valid : e.validate = .ok ()) (textual : e.description = .text description)
    (bare : e.reference = none) (l : Language) :
    (l ≠ .shader ∧ e.BoundsCoincide → (generate l e).result = .error .zeroDivision) ∧
      (¬ (l ≠ .shader ∧ e.BoundsCoincide) → ∃ text, (generate l e).result = .ok text) := by
  cases known : l.template? with
  | some f =>
    have loop : l ≠ .shader := by
      rintro rfl
      cases known
    constructor
    · rintro ⟨-, coincide⟩
      exact generate_of_boundsCoincide known valid bare coincide
    · intro apart
      obtain ⟨x, middle⟩ :=
        (e.midpointValue_eq valid bare).2 fun coincide => apart ⟨loop, coincide⟩
      exact ⟨_, Language.generate_eq l ⟨valid, textual, middle, trivial⟩⟩
  | none =>
    obtain rfl : l = .shader := by
      cases l with
      | shader => rfl
      | _ => cases known
    refine ⟨fun impossible => absurd rfl impossible.1, fun _ => ?_⟩
    rw [generate, valid, Outcome.bind_result _ rfl]
    exact ⟨_, Shader.renderWith_eq (Expansion.accepted_of_validate valid) textual (by decide)⟩

/-- The quadratic sample without its reference, in a language with loops. -/
theorem accepted_renders_unless_bounds_coincide_quadratic :
    ∃ e : Expansion, e = { Expansion.quadratic with reference := none } ∧ e.validate = .ok () ∧
      e.description = .text "quadratic" ∧ e.reference = none ∧
      ∃ text, (generate .go e).result = .ok text := by
  let e : Expansion := { Expansion.quadratic with reference := none }
  have valid : e.validate = .ok () := eq_ok_of_isOk (by decide +kernel)
  obtain ⟨-, renders⟩ := accepted_renders_unless_bounds_coincide e "quadratic" valid rfl rfl .go
  exact ⟨e, rfl, valid, rfl, rfl, renders fun both => both.2.1 rfl⟩

/-- One term on an interval of width one, from a double to the integer above it. -/
def Expansion.adjacent : Expansion where
  coeffs := [.float 1]
  xMin := .float 9007199254740992
  xMax := .int 9007199254740993
  description := .text "x"

/-- The interval is not empty, but the double nearest to its upper bound is the lower one. -/
theorem render_of_adjacent :
    Expansion.adjacent.validate = .ok () ∧ Expansion.adjacent.BoundsCoincide ∧
      (generate .c Expansion.adjacent).result = .error .zeroDivision := by
  have valid : Expansion.adjacent.validate = .ok () := eq_ok_of_isOk (by decide +kernel)
  have coincide : Expansion.adjacent.BoundsCoincide :=
    ⟨Bool.false_ne_true, by decide +kernel⟩
  exact ⟨valid, coincide, generate_of_boundsCoincide (l := .c) rfl valid rfl coincide⟩

end ClenshawCode
