import ClenshawCode.Proofs.Program.Generated

/-!
# Free text and data on lines of their own

The lines of a program are found again in its text, by its line feeds and by everything that breaks
lines. How many there are is known from the target and the number of coefficients, and exactly one
of them holds the description. So two programs whose expansions differ in the description, in the
reference or in one coefficient differ at most on the line that holds it.

## Main definitions

* `Language.descriptionSlot`: the line of a comment that holds the description
* `Language.lineCount`, `Language.firstCoefficient`: how many lines a program has, and which of them
  holds the first coefficient
* `Language.coefficientLine`: the line that holds a coefficient
* `Language.programLines`: the lines of a program
* `Language.Confines`: a text that keeps the description of an expansion on one line
* `Text.DifferOn`: texts that differ on one line at most
-/

namespace ClenshawCode

open Text

/-- Two texts that differ on one line at most, which is `line` in one and `line'` in the other. -/
def Text.DifferOn (k : ℕ) (text text' line line' : String) : Prop :=
  DifferAt k (Text.lines text) (Text.lines text') ∧
    (Text.lines text)[k]? = some line ∧ (Text.lines text')[k]? = some line'

namespace Language

/-- The line of a comment that holds the description. -/
def descriptionSlot : Language → Slot
  | shader => Shader.descriptionSlot
  | python => ⟨"# f(x)=", ""⟩
  | _ => ⟨"// f(x)=", ""⟩

/-- The number of lines of a program with `n` coefficients. -/
def lineCount : Language → ℕ → ℕ
  | c, n => n + 34
  | go, n => n + 39
  | shader, n => 2 * n + 39
  | python, n => n + 27
  | rust, n => n + 30

/-- The number of lines before the one that holds the first coefficient. -/
def firstCoefficient : Language → ℕ
  | c => 22
  | go => 25
  | shader => 6
  | python => 18
  | rust => 19

/-- The line that holds the coefficient of an index. -/
def coefficientLine (l : Language) (i : ℕ) (literal : String) : String :=
  match l.template? with
  | some f => f.entry literal
  | none => Shader.coefficientText i literal

/-- The literal of a reference value. -/
def referenceLiteral : Language → Value → String
  | python, v => Literal.script (Binary64.isFinite v.nearest) v.shortest
  | _, v => v.shortest

/-- The literal of a coefficient. -/
def coefficientLiteral : Language → Value → String
  | shader, v => Shader.fixedLiteral Shader.defaultPlaces v
  | _, v => v.shortest

/-- The lines of a program. -/
def programLines (l : Language) (e : Expansion) (description : String) (reference : Value) :
    List String :=
  match l.template? with
  | some f => f.lines (.written e description (l.referenceLiteral reference))
  | none => Shader.written Shader.defaultPlaces e description

/-- A text keeps the description of an expansion on one line. Everything that breaks its lines is a
line feed, the number of its lines is known, and exactly one line begins as the description's does;
what follows there is the description fit for a comment. -/
structure Confines (l : Language) (text : String) (e : Expansion) : Prop where
  unbroken : Text.brokenLines text = Text.lines text
  count : (Text.lines text).length = l.lineCount e.numCoeffs
  description : ∃ s, (Comment.sanitize e.description).result = .ok s ∧
    l.descriptionSlot.contents (Text.lines text) = [some s]

section Literals

variable {l : Language} {f : LoopTemplate} {v : Value}

theorem literal_reference (known : l.template? = some f) (double : v.IsDouble) :
    l.literal v = .ok (l.referenceLiteral v) := by
  have tested : v.isFinite = .ok (Binary64.isFinite v.nearest) := by
    cases v with
    | float x => rfl
    | nan _ =>
      have infinite : Binary64.isFinite Binary64.nan = false := by decide +kernel
      exact congrArg Except.ok infinite.symm
    | _ => exact double.elim
  -- Only scripts ask whether the double is finite.
  cases l with
  | shader => cases known
  | python => exact Literal.scriptFloat_eq double.toFloat_eq tested
  | _ => exact Literal.fullPrecision_eq double.toFloat_eq

theorem literal_coefficient (fits : v.Fits) : l.literal v = .ok (l.coefficientLiteral v) := by
  cases l with
  | shader => exact Literal.fixedSingle_eq fits (by decide)
  | python => exact Literal.scriptFloat_eq fits.toFloat_eq fits.isFinite_eq
  | _ => exact Literal.fullPrecision_eq fits.toFloat_eq

/-- In a language with loops coefficients and bounds are written as shortest decimals. -/
theorem coefficientLiteral_of_template? (known : l.template? = some f) (v : Value) :
    l.coefficientLiteral v = v.shortest := by
  cases l with
  | shader => cases known
  | _ => rfl

/-- The literal of a reference value is that of its double. -/
theorem referenceLiteral_congr {v' : Value} (same : v.nearest = v'.nearest) :
    l.referenceLiteral v = l.referenceLiteral v' := by
  have shortest : v.shortest = v'.shortest := by rw [Value.shortest, Value.shortest, same]
  cases l <;> simp only [referenceLiteral, same, shortest]

end Literals

section Templates

variable {l : Language} {f : LoopTemplate}

theorem descriptionSlot_of_template? (known : l.template? = some f) :
    l.descriptionSlot = f.description := by
  cases l with
  | shader => cases known
  | _ =>
    cases known
    decide

theorem lineCount_of_template? (known : l.template? = some f) {e : Expansion}
    {description reference : String} :
    (f.lines (.written e description reference)).length = l.lineCount e.numCoeffs := by
  rw [LoopTemplate.length_lines]
  cases l with
  | shader => cases known
  | _ =>
    cases known
    simp [LoopParts.written, Comment.coefficientText, LoopTemplate.sizeFill, lineCount,
      Program.C.template, Program.Go.template, Program.Python.template, Program.Rust.template,
      Comment.block, Comment.evaluatorLines, Comment.exampleLines, Expansion.numCoeffs]
    omega

/-- The first coefficient stands behind the line that opens the table. -/
theorem firstCoefficient_of_template? (known : l.template? = some f) {e : Expansion}
    {description reference : String} :
    l.firstCoefficient =
      f.head.length + (LoopParts.written e description reference).comment.length +
      (f.sizeFill (.written e description reference)).length + 1 := by
  cases l with
  | shader => cases known
  | _ =>
    cases known
    rfl

end Templates

section Programs

variable {l : Language} {f : LoopTemplate} {e : Expansion} {description : String}
  {reference : Value}

theorem programLines_of_template? (known : l.template? = some f) :
    l.programLines e description reference =
      f.lines (.written e description (l.referenceLiteral reference)) := by
  rw [programLines, known]

theorem isPlain_programLines (known : l.template? = some f) (double : reference.IsDouble) :
    (LoopParts.written e description (l.referenceLiteral reference)).IsPlain := by
  obtain ⟨finite, spelled⟩ := literal_of_isDouble known double
  rw [literal_reference known double] at spelled
  rw [Except.ok.inj spelled]
  exact isPlain_written finite

/-- The text of a renderable expansion consists of the lines of its program. -/
theorem generate_eq (l : Language) (renderable : e.Renderable description reference) :
    (generate l e).result = .ok (join "\n" (l.programLines e description reference)) := by
  cases known : l.template? with
  | some f =>
    rw [programLines_of_template? known]
    exact generate_of_template? known renderable.valid renderable.textual renderable.midpoint
      (literal_reference known renderable.double)
  | none =>
    obtain rfl := eq_shader_of_template? known
    exact Shader.generate_eq renderable.valid renderable.textual

/-- The lines of a program are found again in its text by its line feeds. -/
theorem lines_programLines (l : Language) (renderable : e.Renderable description reference) :
    Text.lines (join "\n" (l.programLines e description reference)) =
      l.programLines e description reference := by
  cases known : l.template? with
  | some f =>
    rw [programLines_of_template? known]
    exact LoopFrame.lines_text (f := ⟨f, separate_of_template? known⟩)
      (isPlain_programLines known renderable.double)
  | none =>
    obtain rfl := eq_shader_of_template? known
    exact Shader.lines_text renderable.accepted _

/-- They are also found by everything that breaks lines. -/
theorem brokenLines_programLines (l : Language) (renderable : e.Renderable description reference) :
    brokenLines (join "\n" (l.programLines e description reference)) =
      l.programLines e description reference := by
  cases known : l.template? with
  | some f =>
    rw [programLines_of_template? known]
    exact LoopFrame.brokenLines_text (f := ⟨f, separate_of_template? known⟩)
      (isPlain_programLines known renderable.double)
  | none =>
    obtain rfl := eq_shader_of_template? known
    exact Shader.brokenLines_text renderable.accepted _

theorem length_programLines (l : Language) (e : Expansion) (description : String)
    (reference : Value) :
    (l.programLines e description reference).length = l.lineCount e.numCoeffs := by
  cases known : l.template? with
  | some f => rw [programLines_of_template? known, lineCount_of_template? known]
  | none =>
    obtain rfl := eq_shader_of_template? known
    simp only [programLines, known, Shader.written, Shader.length_lines, List.length_map, lineCount,
      Comment.coefficientText, Expansion.numCoeffs, List.length_cons, List.length_nil]
    omega

/-- The description is found once among the lines of a program. -/
theorem contents_programLines (l : Language) (renderable : e.Renderable description reference) :
    l.descriptionSlot.contents (l.programLines e description reference) =
      [some (Comment.sanitized description)] := by
  cases known : l.template? with
  | some f =>
    rw [programLines_of_template? known, descriptionSlot_of_template? known]
    exact LoopFrame.contents_description (f := ⟨f, separate_of_template? known⟩)
      (isPlain_programLines known renderable.double) rfl
  | none =>
    obtain rfl := eq_shader_of_template? known
    exact Shader.contents_descriptionSlot e description

/-- The program of a renderable expansion keeps its description on one line. -/
theorem confines_programLines (l : Language) (renderable : e.Renderable description reference) :
    l.Confines (join "\n" (l.programLines e description reference)) e where
  unbroken := by rw [brokenLines_programLines l renderable, lines_programLines l renderable]
  count := by rw [lines_programLines l renderable, length_programLines]
  description := by
    refine ⟨Comment.sanitized description, ?_, ?_⟩
    · rw [renderable.textual, Comment.sanitize_text]
    · rw [lines_programLines l renderable, contents_programLines l renderable]

end Programs

section Runs

variable {f : LoopTemplate} {e : Expansion} {description : String} {reference : Value}

/-- Programs of which only the description varies. -/
theorem variesAt_description (l : Language) (e : Expansion) (reference : Value) :
    ∃ k, VariesAt k (fun description => l.programLines e description reference)
      (fun description => l.descriptionSlot.fill (Comment.sanitized description)) := by
  cases known : l.template? with
  | some f =>
    have varies := Comment.variesAt_coefficientText e (f.token ++ " ")
    simp only [← Comment.block_eq_map] at varies
    obtain ⟨k, whole⟩ := f.variesAt_comment
      (.written e "" (l.referenceLiteral reference)) varies
    rw [descriptionSlot_of_template? known]
    exact ⟨k, whole.congr fun description => programLines_of_template? known⟩
  | none =>
    obtain rfl := eq_shader_of_template? known
    exact Shader.variesAt_comment (Comment.variesAt_coefficientText e "    // ")

/-- Programs of which only the reference value varies. -/
theorem variesAt_reference (l : Language) (known : l.template? = some f) (e : Expansion)
    (description : String) :
    ∃ k, VariesAt k (fun reference => l.programLines e description reference)
      (fun reference => f.reference.fill (l.referenceLiteral reference)) := by
  obtain ⟨k, before, after, length, split⟩ :=
    f.variesAt_reference (.written e description "")
  refine ⟨k, before, after, length, fun reference => ?_⟩
  exact (programLines_of_template? known).trans (split _)

/-- Programs of which only a coefficient varies. -/
theorem variesAt_coefficient (l : Language) (e : Expansion) (description : String)
    (reference : Value) {i : ℕ} (inside : i < e.coeffs.length) :
    VariesAt (l.firstCoefficient + i)
      (fun c => l.programLines { e with coeffs := e.coeffs.set i c } description reference)
      (fun c => l.coefficientLine i (l.coefficientLiteral c)) := by
  -- The comment shows how many coefficients there are, but none of them.
  have comment (c : Value) :
      Comment.coefficientText { e with coeffs := e.coeffs.set i c } description =
        Comment.coefficientText e description := by
    simp only [Comment.coefficientText, Expansion.numCoeffs, List.length_set]
  cases known : l.template? with
  | some f =>
    have count (c : Value) : Expansion.numCoeffs { e with coeffs := e.coeffs.set i c } =
        e.numCoeffs := List.length_set
    obtain ⟨before, after, length, split⟩ :=
      f.variesAt_entry (.written e description (l.referenceLiteral reference))
        (by simpa [LoopParts.written] using inside)
    refine ⟨before, after, length.trans (by rw [firstCoefficient_of_template? known]), fun c => ?_⟩
    have line : l.coefficientLine i (l.coefficientLiteral c) = f.entry c.shortest := by
      rw [coefficientLine, known, coefficientLiteral_of_template? known]
    change _ = before ++ l.coefficientLine i (l.coefficientLiteral c) :: after
    rw [line, ← split]
    simp only [programLines_of_template? known, LoopParts.written, comment, count, List.map_set]
  | none =>
    obtain rfl := eq_shader_of_template? known
    have varies : VariesAt ((Comment.coefficientText e description).length + 3 + i)
        (fun s => Shader.lines (Comment.coefficientText e description)
          ((e.coeffs.map shader.coefficientLiteral).set i s) (shader.coefficientLiteral e.xMin)
          (shader.coefficientLiteral e.xMax)) (Shader.coefficientText i) :=
      Shader.variesAt_coefficient (by simpa using inside)
    obtain ⟨before, after, length, split⟩ := varies
    refine ⟨before, after, length, fun c => Eq.trans ?_ (split _)⟩
    simp only [programLines, known, Shader.written, comment, List.map_set]
    rfl

end Runs

end Language

/-- Free text and data stay on their own lines. Every renderable expansion has a program in every
language, which keeps the description on one line. Programs of two expansions that differ only in
the description differ at most on its line; if only the references differ, shaders are equal and
loop programs differ at most on the line with the reference value; and if only a coefficient differs
and the reference values are the same double, the programs differ only on its line. -/
theorem program_text_stays_in_place (l : Language) :
    (∀ e description reference, e.Renderable description reference →
      ∃ text, (generate l e).result = .ok text ∧ l.Confines text e) ∧
    ∀ e e' description description' reference reference' text text',
      e.Renderable description reference → e'.Renderable description' reference' →
      (generate l e).result = .ok text → (generate l e').result = .ok text' →
      (e' = { e with description := e'.description, cells := e'.cells } →
        ∃ k, DifferOn k text text' (l.descriptionSlot.fill (Comment.sanitized description))
          (l.descriptionSlot.fill (Comment.sanitized description'))) ∧
      (e' = { e with reference := e'.reference } →
        match l.template? with
        | none => text = text'
        | some f => ∃ k s s', l.literal reference = .ok s ∧ l.literal reference' = .ok s' ∧
          DifferOn k text text' (f.reference.fill s) (f.reference.fill s')) ∧
      (∀ i (inside : i < e.coeffs.length) c, reference.toFloat = reference'.toFloat →
        e' = { e with coeffs := e.coeffs.set i c } →
        ∃ s s', l.literal e.coeffs[i] = .ok s ∧ l.literal c = .ok s' ∧
          DifferOn (l.firstCoefficient + i) text text' (l.coefficientLine i s)
            (l.coefficientLine i s')) := by
  refine ⟨fun e description reference renderable =>
    ⟨_, Language.generate_eq l renderable, Language.confines_programLines l renderable⟩, ?_⟩
  intro e e' description description' reference reference' text text' renderable renderable'
    rendered rendered'
  obtain rfl : _ = text := Except.ok.inj ((Language.generate_eq l renderable).symm.trans rendered)
  obtain rfl : _ = text' :=
    Except.ok.inj ((Language.generate_eq l renderable').symm.trans rendered')
  have found := Language.lines_programLines l renderable
  have found' := Language.lines_programLines l renderable'
  refine ⟨fun same => ?_, fun same => ?_, fun i inside c equal same => ?_⟩
  · -- The middle of the interval and the reference value there are the same.
    have middle : e'.midpointValue = e.midpointValue := by rw [same]; rfl
    obtain rfl : reference = reference' := by
      have values := renderable'.midpoint
      rw [middle, renderable.midpoint] at values
      exact Except.ok.inj values
    obtain ⟨k, varies⟩ := Language.variesAt_description l e reference
    refine ⟨k, ?_⟩
    have program : l.programLines e' description' reference =
        l.programLines e description' reference := by
      rw [same]
      rfl
    rw [DifferOn, found, found', program]
    exact varies.differAt description description'
  · obtain rfl : description = description' := by
      have textual := renderable'.textual
      rw [same] at textual
      exact Value.text.inj (renderable.textual.symm.trans textual)
    have program : l.programLines e' description reference' =
        l.programLines e description reference' := by
      rw [same]
      rfl
    split
    · rename_i known
      rw [program]
      simp only [Language.programLines, known]
    · rename_i f known
      obtain ⟨k, varies⟩ := Language.variesAt_reference l known e description
      refine ⟨k, _, _, Language.literal_reference known renderable.double,
        Language.literal_reference known renderable'.double, ?_⟩
      rw [DifferOn, found, found', program]
      exact varies.differAt reference reference'
  · obtain rfl : description = description' := by
      have textual := renderable'.textual
      rw [same] at textual
      exact Value.text.inj (renderable.textual.symm.trans textual)
    have nearest : reference.nearest = reference'.nearest := by
      rw [Value.nearest, Value.nearest, equal]
    have fits : e.coeffs[i].Fits := renderable.accepted.coeffs _ (List.getElem_mem inside)
    have fits' : c.Fits := by
      refine renderable'.accepted.coeffs c ?_
      rw [same]
      exact List.mem_set inside c
    refine ⟨_, _, Language.literal_coefficient fits, Language.literal_coefficient fits', ?_⟩
    have program : l.programLines e' description reference' =
        l.programLines { e with coeffs := e.coeffs.set i c } description reference := by
      rw [same]
      simp only [Language.programLines, Language.referenceLiteral_congr nearest]
    have unchanged : ({ e with coeffs := e.coeffs.set i e.coeffs[i] } : Expansion) = e := by
      rw [List.set_getElem_self]
    have varies := (Language.variesAt_coefficient l e description reference inside).differAt
      e.coeffs[i] c
    rw [unchanged] at varies
    rw [DifferOn, found, found', program]
    exact varies

/-- The quadratic sample and the same with another coefficient of index one, as C programs. -/
theorem program_text_stays_in_place_quadratic :
    ∃ e' reference text text', e' = { Expansion.quadratic with
        coeffs := Expansion.quadratic.coeffs.set 1 (.float 3) } ∧
      Expansion.quadratic.Renderable "quadratic" reference ∧ e'.Renderable "quadratic" reference ∧
      (generate .c Expansion.quadratic).result = .ok text ∧ (generate .c e').result = .ok text' ∧
      ∃ s s', Language.c.literal (.float 0) = .ok s ∧ Language.c.literal (.float 3) = .ok s' ∧
        DifferOn 23 text text' ("    " ++ s ++ ",") ("    " ++ s' ++ ",") := by
  obtain ⟨x, middle⟩ : ∃ x, Expansion.quadratic.midpointValue = .ok (.float x) := ⟨_, rfl⟩
  let e' : Expansion := { Expansion.quadratic with
    coeffs := Expansion.quadratic.coeffs.set 1 (.float 3) }
  have renderable : Expansion.quadratic.Renderable "quadratic" (.float x) :=
    ⟨Expansion.validate_quadratic, rfl, middle, trivial⟩
  have renderable' : e'.Renderable "quadratic" (.float x) :=
    ⟨eq_ok_of_isOk (by decide +kernel), rfl, middle, trivial⟩
  obtain ⟨confined, isolated⟩ := program_text_stays_in_place .c
  obtain ⟨text, rendered, -⟩ := confined _ _ _ renderable
  obtain ⟨text', rendered', -⟩ := confined _ _ _ renderable'
  obtain ⟨-, -, coefficient⟩ :=
    isolated _ _ _ _ _ _ _ _ renderable renderable' rendered rendered'
  exact ⟨e', _, text, text', rfl, renderable, renderable', rendered, rendered',
    coefficient 1 (by decide) _ rfl rfl⟩

end ClenshawCode
