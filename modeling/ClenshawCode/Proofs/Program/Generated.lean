import ClenshawCode.Proofs.Program.Targets
import ClenshawCode.Proofs.Program.Variation
import ClenshawCode.Proofs.Shader.Written

/-!
# What a generated program tells

If a program has been generated, the expansion was accepted, its description is a text, and for a
language with loops its reference value could be written. So the lines of the program are known, and
they are found again in its text.

## Main definitions

* `Shader.written`: the lines of the shader of an expansion
-/

namespace ClenshawCode

open Text

namespace Shader

/-- The lines of the shader of an expansion with a count of places. -/
def written (places : ℕ) (e : Expansion) (description : String) : List String :=
  lines (Comment.coefficientText e description) (e.coeffs.map (fixedLiteral places))
    (fixedLiteral places e.xMin) (fixedLiteral places e.xMax)

variable {e : Expansion} {description : String}

/-- Every line of the shader of an accepted expansion is one line of its text. -/
theorem isOneLine_of_mem_written (accepted : e.Accepted) (places : ℕ) {s : String}
    (member : s ∈ written places e description) : isOneLine s = true := by
  have number {v : Value} (fits : v.Fits) : isLiteral (fixedLiteral places v) = true :=
    (fixedLiteral_spec fits places).1
  refine isOneLine_lines (fun s => Comment.isOneLine_of_mem_coefficientText) ?_
    (number accepted.low) (number accepted.high) s member
  intro s member
  obtain ⟨v, inside, rfl⟩ := List.mem_map.mp member
  exact number (accepted.coeffs v inside)

/-- The lines of its text. -/
theorem lines_text (accepted : e.Accepted) (places : ℕ) :
    Text.lines (join "\n" (written places e description)) = written places e description :=
  lines_join (by simp [written, lines]) fun _ => isOneLine_of_mem_written accepted places

theorem brokenLines_text (accepted : e.Accepted) (places : ℕ) :
    brokenLines (join "\n" (written places e description)) = written places e description := by
  refine brokenLines_join (fun _ => isOneLine_of_mem_written accepted places) fun s last => ?_
  have closing : s = "#endif" := Option.some.inj (last.symm.trans getLast?_lines)
  rw [closing]
  decide

/-- The shader of an accepted expansion with a text as its description. -/
theorem generate_eq (valid : e.validate = .ok ()) (textual : e.description = .text description) :
    (generate .shader e).result = .ok (join "\n" (written defaultPlaces e description)) := by
  rw [generate, valid, Outcome.bind_result _ rfl]
  exact renderWith_eq (Expansion.accepted_of_validate valid) textual (by decide)

end Shader

section Inversion

variable {e : Expansion} {l : Language} {f : LoopTemplate} {text : String}

/-- Only a text becomes part of a comment. -/
theorem textual_of_sanitize {v : Value} {s : String}
    (written : (Comment.sanitize v).result = .ok s) : ∃ description, v = .text description := by
  cases v with
  | text description => exact ⟨description, rfl⟩
  | _ => cases written

theorem textual_of_coefficientLines {ls : List String}
    (written : (Comment.coefficientLines e).result = .ok ls) :
    ∃ description, e.description = .text description := by
  obtain ⟨s, sanitized, -⟩ := Outcome.ok_of_bind_result written
  exact textual_of_sanitize sanitized

/-- A literal of a language with loops is the shortest decimal of its double, perhaps in a
conversion. -/
theorem literal_inv (known : l.template? = some f) {v : Value} {s : String}
    (written : l.literal v = .ok s) : ∃ finite, s = Literal.script finite v.shortest := by
  have rounded {r : String} (spelled : Literal.fullPrecision v = .ok r) : r = v.shortest := by
    obtain ⟨x, converted, same⟩ := ok_of_bind_ok spelled
    rw [Value.shortest, Value.nearest, converted]
    exact (Except.ok.inj same).symm
  cases l with
  | shader => cases known
  | python =>
    obtain ⟨r, spelled, rest⟩ := ok_of_bind_ok written
    obtain ⟨finite, -, same⟩ := ok_of_bind_ok rest
    exact ⟨finite, by rw [← rounded spelled]; exact (Except.ok.inj same).symm⟩
  | _ => exact ⟨true, rounded written⟩

theorem validate_of_generate (generated : (generate l e).result = .ok text) :
    e.validate = .ok () ∧ (l.render e).result = .ok text := by
  obtain ⟨_, valid, rendered⟩ := Outcome.ok_of_bind_result generated
  exact ⟨valid, rendered⟩

/-- A generated program of a language with loops. -/
theorem exists_of_generate (known : l.template? = some f)
    (generated : (generate l e).result = .ok text) :
    e.validate = .ok () ∧ ∃ description reference finite, e.description = .text description ∧
      e.midpointValue = .ok reference ∧
      text = join "\n"
        (f.lines (.written e description (Literal.script finite reference.shortest))) := by
  obtain ⟨valid, rendered⟩ := validate_of_generate generated
  have accepted := Expansion.accepted_of_validate valid
  rw [Language.render_of_template? known] at rendered
  obtain ⟨parts, made, same⟩ := Outcome.ok_of_bind_result rendered
  obtain ⟨reference, middle, made⟩ := Outcome.ok_of_bind_result made
  obtain ⟨literal, spelled, made⟩ := Outcome.ok_of_bind_result made
  obtain ⟨comment, commented, made⟩ := Outcome.ok_of_bind_result made
  obtain ⟨description, textual⟩ := textual_of_coefficientLines commented
  obtain ⟨finite, rfl⟩ := literal_inv known spelled
  refine ⟨valid, description, reference, finite, textual, middle, ?_⟩
  rw [Comment.coefficientLines_eq accepted textual] at commented
  -- The texts that were written are those of an accepted expansion.
  rw [Language.mapM_literal known accepted, Language.literal_of_fits known accepted.low,
    Language.literal_of_fits known accepted.high] at made
  rw [← Except.ok.inj same, ← Except.ok.inj made, ← Except.ok.inj commented]
  rfl

/-- A shader that has been written, with any count of places. -/
theorem Shader.exists_of_renderWith {places : ℕ} (accepted : e.Accepted)
    (rendered : (Shader.renderWith (.int places) e).result = .ok text) :
    places < 2 ^ 31 ∧ ∃ description, e.description = .text description ∧
      text = join "\n" (Shader.written places e description) := by
  have few : places < 2 ^ 31 := by
    by_contra many
    obtain ⟨failure, refused⟩ := Shader.renderWith_of_many accepted (not_lt.mp many)
    cases refused.symm.trans rendered
  have steps := rendered
  obtain ⟨low, -, rest⟩ := Outcome.ok_of_bind_result steps
  obtain ⟨high, -, rest⟩ := Outcome.ok_of_bind_result rest
  obtain ⟨comment, commented, -⟩ := Outcome.ok_of_bind_result rest
  obtain ⟨description, textual⟩ := textual_of_coefficientLines commented
  refine ⟨few, description, textual, ?_⟩
  exact Except.ok.inj (rendered.symm.trans (Shader.renderWith_eq accepted textual few))

/-- A generated shader. -/
theorem exists_of_generate_shader (generated : (generate .shader e).result = .ok text) :
    e.validate = .ok () ∧ ∃ description, e.description = .text description ∧
      text = join "\n" (Shader.written Shader.defaultPlaces e description) := by
  obtain ⟨valid, rendered⟩ := validate_of_generate generated
  have accepted := Expansion.accepted_of_validate valid
  exact ⟨valid, (Shader.exists_of_renderWith accepted rendered).2⟩

end Inversion

end ClenshawCode
