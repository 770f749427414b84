import ClenshawCode.Proofs.Json.Record
import ClenshawCode.Proofs.Program.Sufficiency

/-!
# Programs of expansions that were read

What is read from a document has been converted: its coefficients and bounds are doubles, and it has
no reference of its own. So its bounds differ as doubles if they differ at all, and once it is
accepted only its description can stand in the way. The description is kept as it was found. If it
is a text there is a program in every language, and otherwise there is none in any of them.

## Main definitions

* `Value.textFailure`: the failure of a value where a text is asked for
* `Json.numbered`: a document with a number for its description

## Main results

* `loaded_renders_unless_description_is_no_text`: which accepted expansions from documents have
  programs
-/

namespace ClenshawCode

open Value

namespace Value

/-- The failure of a value that is no text where one is asked for. -/
def textFailure : Value → Failure
  | bytes _ => .bytesForText
  | v => .notText v.kind

/-- A double is no integer. -/
theorem Stores.isInteger {v : Value} {x : Float} (is : Stores v x) : v.isInteger = false := by
  cases is <;> rfl

end Value

namespace Expansion

variable {e : Expansion}

/-- No bound of an expansion that was read is an integer, so they do not coincide by rounding. -/
theorem Loaded.not_boundsCoincide (loaded : e.Loaded) : ¬ e.BoundsCoincide := by
  obtain ⟨_, low⟩ := loaded.low
  obtain ⟨_, high⟩ := loaded.high
  -- Bounds coincide only if one of them is an integer and the other one is not.
  rintro ⟨apart, -⟩
  exact apart (low.isInteger.trans high.isInteger.symm)

end Expansion

section Programs

variable {e : Expansion} {description : String}

/-- An expansion whose default reference value is a double has programs in all languages. -/
theorem exists_generate (valid : e.validate = .ok ()) (textual : e.description = .text description)
    (bare : e.reference = none) (apart : ¬ e.BoundsCoincide) (l : Language) :
    ∃ text, (generate l e).result = .ok text := by
  obtain ⟨x, middle⟩ := (e.midpointValue_eq valid bare).2 apart
  exact ⟨_, Language.generate_eq l ⟨valid, textual, middle, trivial⟩⟩

theorem sanitize_of_no_text {v : Value} (other : ∀ s, v ≠ .text s) :
    (Comment.sanitize v).result = .error v.textFailure := by
  cases v with
  | text s => exact absurd rfl (other s)
  | _ => rfl

/-- An expansion whose description is no text has a program in no language. -/
theorem generate_of_no_text (valid : e.validate = .ok ()) (other : ∀ s, e.description ≠ .text s)
    (bare : e.reference = none) (apart : ¬ e.BoundsCoincide) (l : Language) :
    (generate l e).result = .error e.description.textFailure := by
  have accepted := Expansion.accepted_of_validate valid
  have comment : (Comment.coefficientLines e).result = .error e.description.textFailure := by
    rw [Comment.coefficientLines, Outcome.bind_failure _ (sanitize_of_no_text other)]
  rw [generate, valid, Outcome.bind_result _ rfl]
  -- In a language with loops the reference value is written before the comment.
  cases known : l.template? with
  | some f =>
    obtain ⟨x, middle⟩ := (e.midpointValue_eq valid bare).2 apart
    obtain ⟨finite, literal⟩ := Language.literal_of_isDouble known (v := .float x) trivial
    have parts : (LoopParts.of l.literal e).result = .error e.description.textFailure := by
      rw [LoopParts.of, middle, Outcome.bind_result _ rfl, literal, Outcome.bind_result _ rfl,
        Outcome.bind_failure _ comment]
    rw [Language.render_of_template? known, Outcome.bind_failure _ parts]
  | none =>
    obtain rfl := Language.eq_shader_of_template? known
    change (Shader.renderWith (.int Shader.defaultPlaces) e).result = _
    rw [Shader.renderWith, Literal.fixedSingle_eq accepted.low (by decide),
      Literal.fixedSingle_eq accepted.high (by decide), Outcome.bind_result _ rfl,
      Outcome.bind_result _ rfl, Outcome.bind_failure _ comment]

end Programs

/-- An accepted expansion that was read from a text in JSON or in YAML, or from a table, has
programs in all languages if its description is a text. Otherwise it has none in any language. -/
theorem loaded_renders_unless_description_is_no_text (e : Expansion)
    (read : (∃ s, Expansion.ofJson s = .ok e) ∨ (∃ s, Expansion.ofYaml s = .ok e) ∨
      ∃ record, Expansion.ofRecord record = .ok e)
    (valid : e.validate = .ok ()) (l : Language) :
    (∀ description, e.description = .text description → ∃ text, (generate l e).result = .ok text) ∧
      ((∀ description, e.description ≠ .text description) →
        (generate l e).result = .error e.description.textFailure) := by
  have loaded : e.Loaded := by
    rcases read with ⟨_, read⟩ | ⟨_, read⟩ | ⟨_, read⟩
    exacts [Expansion.loaded_of_ofJson read, Expansion.loaded_of_ofYaml read,
      Expansion.loaded_of_ofRecord read]
  have apart := loaded.not_boundsCoincide
  exact ⟨fun _ textual => exists_generate valid textual loaded.bare apart l,
    fun other => generate_of_no_text valid other loaded.bare apart l⟩

/-- The quadratic sample saved in JSON and read back, in a language with loops. -/
theorem loaded_renders_unless_description_is_no_text_quadratic :
    ∃ s e, Expansion.ofJson s = .ok e ∧ e.validate = .ok () ∧
      ∃ text, (generate .rust e).result = .ok text := by
  let e := Expansion.rereadFrom .json {} "quadratic" (-1) 1 [2, 0, -1]
  have read : Expansion.ofJson (Json.savedText "quadratic" (-1) 1 [2, 0, -1]) = .ok e :=
    Expansion.ofJson_savedText ..
  have valid : e.validate = .ok () := eq_ok_of_isOk (by decide +kernel)
  obtain ⟨renders, -⟩ :=
    loaded_renders_unless_description_is_no_text e (.inl ⟨_, read⟩) valid .rust
  exact ⟨_, e, read, valid, renders "quadratic" rfl⟩

namespace Json

/-- An expansion in JSON that has a number for its description. -/
def numbered : String :=
  "\x7b\"coeffs\": [1], \"description\": 5, \"x_max\": 1, \"x_min\": 0\x7d"

theorem read_numbered (depth : ℕ) : read (depth + 2) numbered =
    .ok (.dict (Expansion.savedEntries (.list [.int 1]) (.int 5) (.int 1) (.int 0))) := by
  have number {n : ℕ} (small : n < 10) := spells_digit small (depth + 1)
  have coeffs : Spells (depth + 1) (.list [.int 1]) _ :=
    .list (.last (spells_digit (by decide : 1 < 10) depth))
  have spelled : Spells (depth + 2)
      (.dict (Expansion.savedEntries (.list [.int 1]) (.int 5) (.int 1) (.int 0))) _ :=
    .table (.more "coeffs" coeffs (.more "description" (number (by decide : 5 < 10))
      (.more "x_max" (number (by decide : 1 < 10))
        (.last "x_min" (number (by decide : 0 < 10)))))) (Expansion.pairwise_savedEntries _ _ _ _)
  rw [← read_of_spells spelled]
  exact congrArg (read (depth + 2)) (by decide)

end Json

/-- An expansion with a number for its description is read and accepted, but it has no program. -/
theorem render_of_numbered :
    ∃ e, Expansion.ofJson Json.numbered = .ok e ∧ e.validate = .ok () ∧
      (generate .c e).result = .error (.notText .int) := by
  let e : Expansion :=
    { coeffs := [.float 1], xMin := .float 0, xMax := .float 1, description := .int 5 }
  have read : Expansion.ofJson Json.numbered = .ok e := by
    have table := Json.read_numbered 992
    rw [Expansion.ofJson, Expansion.ofJsonWithin, Json.maxDepth, table]
    rfl
  have valid : e.validate = .ok () := eq_ok_of_isOk (by decide +kernel)
  have loaded := Expansion.loaded_of_ofJson read
  have failed : (generate .c e).result = .error e.description.textFailure :=
    generate_of_no_text valid (by simp [e]) loaded.bare loaded.not_boundsCoincide .c
  exact ⟨e, read, valid, failed⟩

end ClenshawCode
