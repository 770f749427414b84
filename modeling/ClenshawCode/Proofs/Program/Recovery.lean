import ClenshawCode.Proofs.Program.Targets

/-!
# Reading an expansion back from a program

A program with a loop holds the coefficients in a table, the two bounds in a declaration each, and
the reference value in the line that prints it. Whoever knows the frame of the language finds them
by the beginnings of these lines, and reads the doubles that the expansion was rendered from. The
text of the description cannot mislead such a reader.

## Main definitions

* `entryValue?`, `literalValue?`: the double that an entry or a literal stands for
* `Recovered`: the numbers of a program
* `LoopTemplate.decode?`: the numbers that are read from the text of a program
* `LoopTemplate.Embeds`: a text from which an expansion is recovered
-/

namespace ClenshawCode

open Text Decimal

/-- The double that a line of a table stands for: without the blanks around it and the comma behind
it the line is a numeral. -/
def entryValue? (l : String) : Option Float :=
  let cs := trim l.toList
  readNumeral? (String.ofList (if cs.getLast? = some ',' then cs.dropLast else cs))

/-- The conversion of a text to a double. -/
def conversion : Slot := ⟨"float('", "')"⟩

/-- The double that a literal stands for, be it a numeral or the conversion of one. -/
def literalValue? (s : String) : Option Float :=
  if conversion.begins s then (conversion.content? s).bind readNumeral? else readNumeral? s

/-- The numbers of a program. -/
structure Recovered where
  coeffs : List Float
  low : Float
  high : Float
  reference : Float

/-- The content of a line with a hole that has been found once. -/
def onlyOne? : List (Option String) → Option String
  | [content?] => content?
  | _ => none

namespace LoopTemplate

variable (f : LoopTemplate)

/-- The lines of the table in the text of a program. -/
def table? (text : String) : Option (List String) :=
  between? f.opening.begins (· = f.closing) (Text.lines text)

/-- The numbers that are read from the text of a program. -/
def decode? (text : String) : Option Recovered := do
  let ls := Text.lines text
  let table ← f.table? text
  let coeffs ← table.mapM entryValue?
  let low ← (onlyOne? (f.low.contents ls)).bind readNumeral?
  let high ← (onlyOne? (f.high.contents ls)).bind readNumeral?
  let reference ← (onlyOne? (f.reference.contents ls)).bind literalValue?
  return { coeffs, low, high, reference }

/-- The lines that hold the number of coefficients. -/
def sizeSlots : List Slot := f.size.toList ++ if f.sizeInOpening then [f.opening] else []

/-- A text embeds an expansion and its reference value. Its table has a line for each coefficient,
the numbers that are read from it are the doubles of the coefficients, of the bounds and of the
reference value, and it holds the number of coefficients wherever one is expected. -/
structure Embeds (text : String) (e : Expansion) (reference : Value) : Prop where
  table : ∃ table, f.table? text = some table ∧ table.length = e.numCoeffs
  numbers : ∃ numbers, f.decode? text = some numbers ∧
    e.coeffs.mapM Value.toFloat = .ok numbers.coeffs ∧
    e.xMin.toFloat = .ok numbers.low ∧ e.xMax.toFloat = .ok numbers.high ∧
    reference.toFloat = .ok numbers.reference
  size : ∀ slot ∈ f.sizeSlots, slot.contents (Text.lines text) = [some (natText e.numCoeffs)]

end LoopTemplate

section Literals

variable {v : Value}

/-- No character of a literal is a blank. -/
theorem isBlank_of_literal {c : Char} (literal : c ∈ literalChars) : isBlank c = false :=
  List.all_iff_forall_prop.mp
    (by decide : literalChars.all fun c => decide (isBlank c = false)) c literal

theorem dropWhile_isBlank {cs : List Char} (solid : ∀ c ∈ cs, isBlank c = false) :
    cs.dropWhile isBlank = cs := by
  cases cs with
  | nil => rfl
  | cons c rest => exact List.dropWhile_cons_of_neg (by simp [solid c List.mem_cons_self])

/-- Blanks before a text that has none are dropped. -/
theorem trim_blanks_append {blanks cs : List Char} (blank : ∀ c ∈ blanks, isBlank c = true)
    (solid : ∀ c ∈ cs, isBlank c = false) : trim (blanks ++ cs) = cs := by
  have behind : ∀ c ∈ cs.reverse, isBlank c = false := fun c member =>
    solid c (List.mem_reverse.mp member)
  rw [trim, trimStart, List.dropWhile_append_of_pos blank, dropWhile_isBlank solid, trimEnd,
    dropWhile_isBlank behind, List.reverse_reverse]

/-- An entry stands for the double that it was written from. -/
theorem entryValue?_entry (f : LoopFrame) (v : Value) :
    entryValue? (f.entry v.shortest) = some v.nearest := by
  have blank : ∀ c ∈ f.indent.toList, isBlank c = true := by
    intro c member
    rcases f.separate.indent c member with rfl | rfl <;> rfl
  have solid : ∀ c ∈ v.shortest.toList ++ [','], isBlank c = false := by
    intro c member
    rcases List.mem_append.mp member with inNumber | comma
    · exact isBlank_of_literal (mem_literalChars_render inNumber)
    · rw [List.mem_singleton.mp comma]
      rfl
  have chars : (f.entry v.shortest).toList = f.indent.toList ++ (v.shortest.toList ++ [',']) := by
    simp [LoopTemplate.entry]
  rw [entryValue?, chars, trim_blanks_append blank solid]
  simp only [List.getLast?_concat, if_true, List.dropLast_concat, String.ofList_toList]
  exact readNumeral?_render v.nearest

/-- A literal stands for the double that it was written from, and so does its conversion. -/
theorem literalValue?_script (finite : Bool) (v : Value) :
    literalValue? (Literal.script finite v.shortest) = some v.nearest := by
  have read : readNumeral? v.shortest = some v.nearest := readNumeral?_render v.nearest
  cases finite with
  | true =>
    -- No literal has an opening parenthesis.
    have bare : conversion.begins v.shortest = false := by
      rw [Slot.begins, Bool.eq_false_iff, Ne, List.isPrefixOf_iff_prefix]
      intro starts
      have inLiteral : '(' ∈ v.shortest.toList := starts.subset (by decide)
      have none : '(' ∉ literalChars := by decide
      exact none (mem_literalChars_render inLiteral)
    rw [Literal.script, if_pos rfl, literalValue?, bare, if_neg Bool.false_ne_true, read]
  | false =>
    have spelled : Literal.script false v.shortest = conversion.fill v.shortest := rfl
    rw [spelled, literalValue?, Slot.begins_fill, if_pos rfl, Slot.content?_fill, Option.bind_some,
      read]

end Literals

section Programs

variable {f : LoopFrame} {e : Expansion} {description : String} {v : Value} {finite : Bool}

/-- The table of a program holds the coefficients. -/
theorem table?_written :
    f.table? (join "\n" (f.lines (.written e description (Literal.script finite v.shortest)))) =
      some (e.coeffs.map fun c => f.entry c.shortest) := by
  have plain : (LoopParts.written e description (Literal.script finite v.shortest)).IsPlain :=
    isPlain_written finite
  rw [LoopTemplate.table?, f.lines_text plain, f.between?_lines]
  simp [LoopParts.written]

theorem mapM_entryValue? (coeffs : List Value) :
    (coeffs.map fun c => f.entry c.shortest).mapM entryValue? =
      some (coeffs.map Value.nearest) := by
  induction coeffs with
  | nil => rfl
  | cons c rest ih =>
    rw [List.map_cons, List.mapM_cons, entryValue?_entry, ih]
    rfl

/-- From the text of a program the numbers are read that it was rendered from. -/
theorem decode?_written :
    f.decode? (join "\n" (f.lines (.written e description (Literal.script finite v.shortest)))) =
      some ⟨e.coeffs.map Value.nearest, e.xMin.nearest, e.xMax.nearest, v.nearest⟩ := by
  -- With its name instead of its text the program is not unfolded by the tactics below.
  generalize program : LoopParts.written e description (Literal.script finite v.shortest) = p
  have plain : p.IsPlain := program ▸ isPlain_written finite
  have low : f.low.contents (f.lines p) = [some e.xMin.shortest] :=
    LoopFrame.contents_lines plain (by simp [← program, LoopTemplate.fills, LoopParts.written])
  have high : f.high.contents (f.lines p) = [some e.xMax.shortest] :=
    LoopFrame.contents_lines plain (by simp [← program, LoopTemplate.fills, LoopParts.written])
  have reference : f.reference.contents (f.lines p) = [some (Literal.script finite v.shortest)] :=
    LoopFrame.contents_lines plain (by simp [← program, LoopTemplate.fills, LoopParts.written])
  have table : f.table? (join "\n" (f.lines p)) = some (e.coeffs.map fun c => f.entry c.shortest) :=
    program ▸ table?_written
  have number (v : Value) : readNumeral? v.shortest = some v.nearest :=
    readNumeral?_render v.nearest
  simp only [LoopTemplate.decode?, table, f.lines_text plain, low, high, reference,
    onlyOne?, Option.bind_eq_bind, Option.bind_some, Option.pure_def, mapM_entryValue?, number,
    literalValue?_script]

/-- A program that holds the number of coefficients holds it once. -/
theorem contents_sizeSlots {slot : Slot} (member : slot ∈ f.sizeSlots) {literal : String}
    (plain : (LoopParts.written e description literal).IsPlain) :
    slot.contents (f.lines (.written e description literal)) = [some (natText e.numCoeffs)] := by
  refine LoopFrame.contents_lines plain ?_
  rw [LoopTemplate.sizeSlots, List.mem_append] at member
  -- The number stands in a line of its own, in the line that opens the table, or in both.
  rcases member with size | opening
  · refine List.mem_append_left _ ?_
    simpa [LoopTemplate.sizeFill, LoopParts.written] using size
  · cases held : f.sizeInOpening with
    | false => simp [held] at opening
    | true =>
      have same : slot = f.opening := by simpa [held] using opening
      refine List.mem_append_right _ ?_
      simp [same, LoopTemplate.openingFill, held, LoopParts.written]

/-- The program of a renderable expansion embeds it. -/
theorem exists_program {l : Language} {f : LoopTemplate} (known : l.template? = some f)
    {reference : Value} (renderable : e.Renderable description reference) :
    ∃ text, (generate l e).result = .ok text ∧ f.Embeds text e reference := by
  have accepted := renderable.accepted
  obtain ⟨finite, spelled⟩ := l.literal_of_isDouble known renderable.double
  let frame : LoopFrame := ⟨f, l.separate_of_template? known⟩
  have plain :
      (LoopParts.written e description (Literal.script finite reference.shortest)).IsPlain :=
    isPlain_written finite
  have generated := generate_of_template? known renderable.valid renderable.textual
    renderable.midpoint spelled
  refine ⟨_, generated, ?_, ?_, ?_⟩
  · refine ⟨_, table?_written (f := frame), ?_⟩
    simp [Expansion.numCoeffs]
  · have coeffs : e.coeffs.mapM Value.toFloat = .ok (e.coeffs.map Value.nearest) :=
      mapM_eq_ok fun c member => (accepted.coeffs c member).toFloat_eq
    exact ⟨_, decode?_written (f := frame), coeffs, accepted.low.toFloat_eq,
      accepted.high.toFloat_eq, renderable.double.toFloat_eq⟩
  · intro slot member
    rw [frame.lines_text plain]
    exact contents_sizeSlots (f := frame) member plain

end Programs

/-- The loop programs embed an expansion, and it can be recovered. In each language with loops every
renderable expansion has a program, which embeds it; so expansions with the same program have the
same doubles. -/
theorem loop_program_recovers (l : Language) (loop : l ≠ .shader) :
    ∃ f, l.template? = some f ∧
      (∀ e description reference, e.Renderable description reference →
        ∃ text, (generate l e).result = .ok text ∧ f.Embeds text e reference) ∧
      (∀ e e' description description' reference reference',
        e.Renderable description reference → e'.Renderable description' reference' →
        (generate l e).result = (generate l e').result →
          e.coeffs.mapM Value.toFloat = e'.coeffs.mapM Value.toFloat ∧
          e.xMin.toFloat = e'.xMin.toFloat ∧ e.xMax.toFloat = e'.xMax.toFloat ∧
          reference.toFloat = reference'.toFloat) := by
  obtain ⟨f, known⟩ : ∃ f, l.template? = some f := by
    cases l with
    | shader => exact absurd rfl loop
    | _ => exact ⟨_, rfl⟩
  refine ⟨f, known, fun _ _ _ renderable => exists_program known renderable, ?_⟩
  intro e e' description description' reference reference' renderable renderable' same
  obtain ⟨text, rendered, -, ⟨numbers, read, coeffs, low, high, value⟩, -⟩ :=
    exists_program known renderable
  obtain ⟨text', rendered', -, ⟨numbers', read', coeffs', low', high', value'⟩, -⟩ :=
    exists_program known renderable'
  -- Equal texts are decoded to equal numbers.
  obtain rfl : text = text' := by
    rw [rendered, rendered'] at same
    exact Except.ok.inj same
  obtain rfl : numbers = numbers' := by
    rw [read] at read'
    exact Option.some.inj read'
  rw [coeffs, coeffs', low, low', high, high', value, value']
  exact ⟨rfl, rfl, rfl, rfl⟩

/-- The quadratic sample as a C program. -/
theorem loop_program_recovers_quadratic :
    Language.c ≠ .shader ∧ ∃ reference, Expansion.quadratic.Renderable "quadratic" reference ∧
      ∃ text, (generate .c Expansion.quadratic).result = .ok text ∧
        Program.C.template.Embeds text Expansion.quadratic reference := by
  have loop : Language.c ≠ .shader := by decide
  obtain ⟨x, middle⟩ : ∃ x, Expansion.quadratic.midpointValue = .ok (.float x) := ⟨_, rfl⟩
  have renderable : Expansion.quadratic.Renderable "quadratic" (.float x) :=
    ⟨Expansion.validate_quadratic, rfl, middle, trivial⟩
  obtain ⟨f, known, recovers, -⟩ := loop_program_recovers .c loop
  cases known
  exact ⟨loop, _, renderable, recovers _ _ _ renderable⟩

end ClenshawCode
