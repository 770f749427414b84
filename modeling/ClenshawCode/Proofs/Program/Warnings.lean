import ClenshawCode.Proofs.Program.Generated

/-!
# A warning comes with a program

The one warning is given in the middle of a rendering, while the comment is written, and literals
are still to be written behind it. They are those of the coefficients and bounds, which cannot fail
for an accepted expansion. Everything that can fail comes before the warning: the checks, the
reference value with its literal, and the description itself if it is no text. So a user who was
warned has a program, and a failure leaves nothing but itself.

## Main definitions

* `Outcome.WarnsIfDone`: certain warnings with a result, and none with a failure
* `Comment.warningsOf`: the warnings that a description calls for

## Main results

* `failed_generate_leaves_no_warning`: the warnings of a program in any language
-/

namespace ClenshawCode

open Text

namespace Outcome

variable {α β : Type} {o : Outcome α} {ws : List Warning}

/-- Certain warnings come with a result, and none with a failure. -/
def WarnsIfDone (o : Outcome α) (ws : List Warning) : Prop :=
  (∃ a, o = ⟨ws, .ok a⟩) ∨ ∃ failure, o = ⟨[], .error failure⟩

/-- Before the first warning an operation may fail. -/
theorem WarnsIfDone.behind {r : Except Failure α} {next : α → Outcome β}
    (each : ∀ a, r = .ok a → (next a).WarnsIfDone ws) :
    (ofExcept r >>= next).WarnsIfDone ws := by
  cases r with
  | error failure => exact .inr ⟨failure, rfl⟩
  | ok a => exact each a rfl

/-- Behind a warning nothing may fail. -/
theorem WarnsIfDone.before (first : o.WarnsIfDone ws) {next : α → Outcome β}
    (done : ∀ a, ∃ b, next a = pure b) : (o >>= next).WarnsIfDone ws := by
  rcases first with ⟨a, rfl⟩ | ⟨failure, rfl⟩
  · obtain ⟨b, same⟩ := done a
    refine .inl ⟨b, ?_⟩
    change (⟨ws ++ (next a).warnings, (next a).result⟩ : Outcome β) = _
    rw [same, pure_warnings, pure_result, List.append_nil]
  · exact .inr ⟨failure, rfl⟩

end Outcome

open Outcome

namespace Comment

/-- The warnings that a description calls for. -/
def warningsOf : Value → List Warning
  | .text s => if s.toList.any isLineBreak then [.joinedLines s] else []
  | _ => []

theorem warnsIfDone_sanitize (v : Value) : (sanitize v).WarnsIfDone (warningsOf v) := by
  cases v with
  | text s =>
    refine .inl ⟨sanitized s, ?_⟩
    rw [sanitize, warningsOf, sanitized]
    split <;> rfl
  | _ => exact .inr ⟨_, rfl⟩

variable {e : Expansion}

/-- The bounds stand behind the description, and they can be written. -/
theorem warnsIfDone_coefficientLines (accepted : e.Accepted) :
    (coefficientLines e).WarnsIfDone (warningsOf e.description) := by
  rw [coefficientLines, Literal.fullPrecision_eq accepted.low.toFloat_eq,
    Literal.fullPrecision_eq accepted.high.toFloat_eq]
  exact (warnsIfDone_sanitize e.description).before fun _ => ⟨_, rfl⟩

end Comment

section Programs

variable {e : Expansion} {l : Language} {f : LoopTemplate}

/-- The reference value comes before the comment, the coefficients and bounds behind it. -/
theorem warnsIfDone_of_template? (known : l.template? = some f) (accepted : e.Accepted) :
    (l.render e).WarnsIfDone (Comment.warningsOf e.description) := by
  have parts : (LoopParts.of l.literal e).WarnsIfDone (Comment.warningsOf e.description) := by
    rw [LoopParts.of, Language.mapM_literal known accepted,
      Language.literal_of_fits known accepted.low, Language.literal_of_fits known accepted.high]
    refine .behind fun reference _ => .behind fun literal _ => ?_
    exact (Comment.warnsIfDone_coefficientLines accepted).before fun _ => ⟨_, rfl⟩
  rw [Language.render_of_template? known]
  exact parts.before fun _ => ⟨_, rfl⟩

/-- The bounds come before the comment, the coefficients behind it. -/
theorem warnsIfDone_shader (accepted : e.Accepted) {places : ℕ} (few : places < 2 ^ 31) :
    (Shader.renderWith (.int places) e).WarnsIfDone (Comment.warningsOf e.description) := by
  rw [Shader.renderWith, Shader.mapM_fixedSingle accepted few]
  refine .behind fun low _ => .behind fun high _ => ?_
  exact (Comment.warnsIfDone_coefficientLines accepted).before fun _ => ⟨_, rfl⟩

theorem warnsIfDone_generate (l : Language) (e : Expansion) :
    (generate l e).WarnsIfDone (Comment.warningsOf e.description) := by
  refine .behind fun _ valid => ?_
  have accepted := Expansion.accepted_of_validate valid
  cases known : l.template? with
  | some f => exact warnsIfDone_of_template? known accepted
  | none =>
    obtain rfl := Language.eq_shader_of_template? known
    exact warnsIfDone_shader accepted (by decide)

/-- A generated program of a language with loops has a literal for the reference value. -/
theorem exists_literal_of_generate (known : l.template? = some f) {text : String}
    (generated : (generate l e).result = .ok text) :
    ∃ reference literal, e.midpointValue = .ok reference ∧ l.literal reference = .ok literal := by
  obtain ⟨-, rendered⟩ := validate_of_generate generated
  rw [Language.render_of_template? known] at rendered
  obtain ⟨parts, made, -⟩ := Outcome.ok_of_bind_result rendered
  obtain ⟨reference, middle, made⟩ := Outcome.ok_of_bind_result made
  obtain ⟨literal, spelled, -⟩ := Outcome.ok_of_bind_result made
  exact ⟨reference, literal, middle, spelled⟩

/-- An expansion has a program exactly if it is accepted, its description is a text and, in a
language with loops, its reference value has a literal. -/
theorem exists_generate_iff (l : Language) (e : Expansion) :
    (∃ text, (generate l e).result = .ok text) ↔
      e.validate = .ok () ∧ (∃ description, e.description = .text description) ∧
        (l = .shader ∨ ∃ reference literal,
          e.midpointValue = .ok reference ∧ l.literal reference = .ok literal) := by
  cases known : l.template? with
  | some f =>
    have loop : l ≠ .shader := by
      rintro rfl
      cases known
    constructor
    · rintro ⟨text, generated⟩
      obtain ⟨valid, description, -, -, textual, -⟩ := exists_of_generate known generated
      exact ⟨valid, ⟨description, textual⟩, .inr (exists_literal_of_generate known generated)⟩
    · rintro ⟨valid, ⟨description, textual⟩, shader | ⟨reference, literal, middle, spelled⟩⟩
      · exact absurd shader loop
      · exact ⟨_, generate_of_template? known valid textual middle spelled⟩
  | none =>
    obtain rfl := Language.eq_shader_of_template? known
    constructor
    · rintro ⟨text, generated⟩
      obtain ⟨valid, description, textual, -⟩ := exists_of_generate_shader generated
      exact ⟨valid, ⟨description, textual⟩, .inl rfl⟩
    · rintro ⟨valid, ⟨description, textual⟩, -⟩
      exact ⟨_, Shader.generate_eq valid textual⟩

end Programs

/-- Whatever an expansion holds and whatever its reference function does: either there is a program,
its description is a text, and the user is warned once if that has a line break and not at all
otherwise; or there is a failure and no warning. There is a program exactly if the expansion is
accepted, its description is a text and, but for a shader, its reference value has a literal. -/
theorem failed_generate_leaves_no_warning (l : Language) (e : Expansion) :
    ((∃ text description, (generate l e).result = .ok text ∧ e.description = .text description ∧
        (generate l e).warnings =
          if description.toList.any isLineBreak then [.joinedLines description] else []) ∨
      ∃ failure, (generate l e).result = .error failure ∧ (generate l e).warnings = []) ∧
    ((∃ text, (generate l e).result = .ok text) ↔
      e.validate = .ok () ∧ (∃ description, e.description = .text description) ∧
        (l = .shader ∨ ∃ reference literal,
          e.midpointValue = .ok reference ∧ l.literal reference = .ok literal)) := by
  have program := exists_generate_iff l e
  refine ⟨?_, program⟩
  rcases warnsIfDone_generate l e with ⟨text, same⟩ | ⟨failure, same⟩
  · obtain ⟨-, ⟨description, textual⟩, -⟩ := program.mp ⟨text, by rw [same]⟩
    refine .inl ⟨text, description, by rw [same], textual, ?_⟩
    rw [same, textual]
    rfl
  · exact .inr ⟨failure, by rw [same], by rw [same]⟩

end ClenshawCode
