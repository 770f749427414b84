import ClenshawCode.Generate
import ClenshawCode.Proofs.Program.Frame

/-!
# The frames of the loop programs

Each of the four languages with loops has a frame, and its programs are those of the frame. For an
accepted expansion with a text as its description and a double as its reference value the program
exists, and what varies in it is known.

## Main definitions

* `Language.template?`: the frame of a language with loops
* `Language.literal`: the rule for literals of a language
* `Expansion.Renderable`: the expansions that have programs in all languages
* `LoopParts.written`: the varying texts of their programs
-/

namespace ClenshawCode

namespace Program

/-- The fixed parts of C programs. -/
def C.template : LoopTemplate where
  token := token
  head :=
    ["#include <stdio.h>", ""] ++ Comment.block Comment.evaluatorLines token "" ++
    ["float chebyshevEval(const float* coeffs, int num_coeffs, float x, float x_min, " ++
        "float x_max) \x7b",
      "    float x_rel_2 = -2.0f + 4.0f * (x - x_min) / (x_max - x_min);",
      "    float d = 0.0f;",
      "    float dd = 0.0f;",
      "    float temp = 0.0f;",
      "    for (int i = num_coeffs - 1; i > 0; i--) \x7b",
      "        temp = d;",
      "        d = x_rel_2 * d - dd + coeffs[i];",
      "        dd = temp;",
      "    \x7d",
      "    return 0.5f * x_rel_2 * d - dd + 0.5f * coeffs[0];",
      "\x7d",
      ""]
  size := some ⟨"#define NUM_COEFFS ", ""⟩
  opening := ⟨"float coeffs[NUM_COEFFS] = \x7b", ""⟩
  sizeInOpening := false
  indent := "    "
  closing := "\x7d;"
  gap := []
  low := ⟨"float x_min = ", ";"⟩
  high := ⟨"float x_max = ", ";"⟩
  middle :=
    ["", "int main() \x7b"] ++ Comment.block Comment.exampleLines token "    " ++
    ["    float x_mid = 0.5f * (x_min + x_max);",
      "    float value_at_x_mid = chebyshevEval(coeffs, NUM_COEFFS, x_mid, x_min, x_max);",
      "    printf(\"Approximated value at x=%f is %f (single precision)\\n\", x_mid, " ++
        "value_at_x_mid);"]
  reference := ⟨"    printf(\"Should be ", " (double precision)\\n\");"⟩
  tail := ["    return 0;", "\x7d"]

/-- The fixed parts of Go programs. -/
def Go.template : LoopTemplate where
  token := token
  head :=
    ["package main", "", "import (", "\t\"fmt\"", ")", ""] ++
    Comment.block Comment.evaluatorLines token "" ++
    ["func chebyshevEval(coeffs []float32, x, xMin, xMax float32) float32 \x7b",
      "\txRel2 := -2.0 + 4.0*(x-xMin)/(xMax-xMin)",
      "\tvar (",
      "\t\td, dd, temp float32",
      "\t)",
      "\tfor i := len(coeffs) - 1; i > 0; i-- \x7b",
      "\t\ttemp = d",
      "\t\td = xRel2*d - dd + coeffs[i]",
      "\t\tdd = temp",
      "\t\x7d",
      "\treturn 0.5*xRel2*d - dd + 0.5*coeffs[0]",
      "\x7d",
      ""]
  size := none
  opening := ⟨"var coeffs = []float32\x7b", ""⟩
  sizeInOpening := false
  indent := "\t"
  closing := "\x7d"
  gap := ["", "const ("]
  low := ⟨"\txMin float32 = ", ""⟩
  high := ⟨"\txMax float32 = ", ""⟩
  middle :=
    [")", "", "func main() \x7b"] ++ Comment.block Comment.exampleLines token "\t" ++
    ["\tvar xMid float32 = 0.5 * (xMin + xMax)",
      "\tvar valueAtXMid float32 = chebyshevEval(coeffs, xMid, xMin, xMax)",
      "\tfmt.Printf(\"Approximated value at x=%f is %f (single precision)\\n\", xMid, valueAtXMid)"]
  reference := ⟨"\tfmt.Printf(\"Should be ", " (double precision)\\n\")"⟩
  tail := ["\x7d"]

/-- The fixed parts of Python scripts. -/
def Python.template : LoopTemplate where
  token := token
  head :=
    Comment.block Comment.evaluatorLines token "" ++
    ["def chebyshev_eval(coeffs, x, x_min, x_max):",
      "    x_rel_2 = -2 + 4 * (x - x_min) / float(x_max - x_min)",
      "    d = 0",
      "    dd = 0",
      "    temp = 0",
      "    for ci in coeffs[-1:0:-1]:",
      "        temp = d",
      "        d = x_rel_2 * d - dd + ci",
      "        dd = temp",
      "    return 0.5 * x_rel_2 * d - dd + 0.5 * coeffs[0]",
      "",
      ""]
  size := none
  opening := ⟨"coeffs = [", ""⟩
  sizeInOpening := false
  indent := "    "
  closing := "]"
  gap := []
  low := ⟨"x_min = ", ""⟩
  high := ⟨"x_max = ", ""⟩
  middle :=
    [""] ++ Comment.block Comment.exampleLines token "" ++
    ["x_mid = 0.5 * (x_min + x_max)",
      "value_at_x_mid = chebyshev_eval(coeffs, x_mid, x_min, x_max)",
      "print(\"Value at\", x_mid, \"is\", value_at_x_mid)"]
  reference := ⟨"print(\"Should be\", ", ", \"(double precision)\")"⟩
  tail := []

/-- The fixed parts of Rust programs. -/
def Rust.template : LoopTemplate where
  token := token
  head :=
    Comment.block Comment.evaluatorLines token "" ++
    ["fn chebyshev_eval(coeffs: &[f32], x: f32, x_min: f32, x_max: f32) -> f32 \x7b",
      "    let x_rel_2 = -2.0 + 4.0 * (x - x_min) / (x_max - x_min);",
      "    let mut d = 0.0;",
      "    let mut dd = 0.0;",
      "    let mut temp;",
      "    for cj in coeffs.iter().skip(1).rev() \x7b",
      "        temp = d;",
      "        d = x_rel_2 * d - dd + cj;",
      "        dd = temp;",
      "    \x7d",
      "    0.5 * x_rel_2 * d - dd + 0.5 * coeffs[0]",
      "\x7d",
      ""]
  size := none
  opening := ⟨"const COEFFS: [f32; ", "] = ["⟩
  sizeInOpening := true
  indent := "    "
  closing := "];"
  gap := []
  low := ⟨"const X_MIN: f32 = ", "_f32;"⟩
  high := ⟨"const X_MAX: f32 = ", "_f32;"⟩
  middle :=
    ["", "fn main() \x7b"] ++ Comment.block Comment.exampleLines token "    " ++
    ["    let x_mid = 0.5 * (X_MIN + X_MAX);",
      "    let value_at_x_mid = chebyshev_eval(&COEFFS, x_mid, X_MIN, X_MAX);",
      "    println!(\"Approximated value at x=\x7b\x7d is \x7b\x7d (single precision)\", x_mid, " ++
        "value_at_x_mid);"]
  reference := ⟨"    println!(\"Should be ", " (double precision)\");"⟩
  tail := ["\x7d"]

section Lines

theorem C.lines_eq (p : LoopParts) : lines p = template.lines p := by
  simp [lines, LoopTemplate.lines, LoopTemplate.beforeTable, LoopTemplate.sizeFill,
    LoopTemplate.openingFill, LoopTemplate.entry, Slot.fill, template]

theorem Go.lines_eq (p : LoopParts) : lines p = template.lines p := by
  simp [lines, LoopTemplate.lines, LoopTemplate.beforeTable, LoopTemplate.sizeFill,
    LoopTemplate.openingFill, LoopTemplate.entry, Slot.fill, template]

theorem Python.lines_eq (p : LoopParts) : lines p = template.lines p := by
  simp [lines, LoopTemplate.lines, LoopTemplate.beforeTable, LoopTemplate.sizeFill,
    LoopTemplate.openingFill, LoopTemplate.entry, Slot.fill, template]

theorem Rust.lines_eq (p : LoopParts) : lines p = template.lines p := by
  simp [lines, LoopTemplate.lines, LoopTemplate.beforeTable, LoopTemplate.sizeFill,
    LoopTemplate.openingFill, LoopTemplate.entry, Slot.fill, template]

end Lines

end Program

namespace Language

/-- The template of a language with loops. -/
def template? : Language → Option LoopTemplate
  | c => some Program.C.template
  | go => some Program.Go.template
  | shader => none
  | python => some Program.Python.template
  | rust => some Program.Rust.template

/-- The shader is the only language without loops. -/
theorem eq_shader_of_template? {l : Language} (none : l.template? = none) : l = .shader := by
  cases l with
  | shader => rfl
  | _ => cases none

/-- No part of a template can be taken for another one. -/
theorem separate_of_template? {l : Language} {f : LoopTemplate} (known : l.template? = some f) :
    f.Separate := by
  cases l with
  | shader => cases known
  | _ =>
    cases known
    -- The texts are spelled out, and the spelling is tested.
    refine LoopTemplate.separate_of_isSeparate _ (by repeat constructor) (by repeat constructor)
      (by repeat constructor) (by
        simp only [LoopTemplate.fixedLines, Program.C.template, Program.Go.template,
          Program.Python.template, Program.Rust.template, Comment.block, Comment.evaluatorLines,
          Comment.exampleLines, Program.C.token, Program.Go.token, Program.Python.token,
          Program.Rust.token, List.map_cons, List.map_nil, List.cons_append, List.nil_append,
          List.append_nil, String.reduceAppend]
        repeat constructor) ?_
    decide +kernel

/-- The rule for literals of a language. -/
def literal : Language → Value → Except Failure String
  | shader, v => Literal.fixedSingle v (.int Shader.defaultPlaces)
  | python, v => Literal.scriptFloat v
  | _, v => Literal.fullPrecision v

section Programs

variable {l : Language} {f : LoopTemplate}

/-- The programs of a language with loops are those of its template. -/
theorem render_of_template? (known : l.template? = some f) (e : Expansion) :
    l.render e = (do
      let parts ← LoopParts.of l.literal e
      return Text.join "\n" (f.lines parts)) := by
  cases l with
  | c =>
    cases known
    simp only [← Program.C.lines_eq]
    rfl
  | go =>
    cases known
    simp only [← Program.Go.lines_eq]
    rfl
  | shader => cases known
  | python =>
    cases known
    simp only [← Program.Python.lines_eq]
    rfl
  | rust =>
    cases known
    simp only [← Program.Rust.lines_eq]
    rfl

/-- A number within single precision is written as its shortest decimal. -/
theorem literal_of_fits (known : l.template? = some f) {v : Value} (fits : v.Fits) :
    l.literal v = .ok v.shortest := by
  cases l with
  | shader => cases known
  | python => exact Literal.scriptFloat_eq fits.toFloat_eq fits.isFinite_eq
  | _ => exact Literal.fullPrecision_eq fits.toFloat_eq

/-- So is a double, which may stand in a conversion. -/
theorem literal_of_isDouble (known : l.template? = some f) {v : Value} (double : v.IsDouble) :
    ∃ finite, l.literal v = .ok (Literal.script finite v.shortest) := by
  cases l with
  | shader => cases known
  | python =>
    obtain ⟨finite, tested⟩ := double.isFinite_eq
    exact ⟨finite, Literal.scriptFloat_eq double.toFloat_eq tested⟩
  | _ => exact ⟨true, Literal.fullPrecision_eq double.toFloat_eq⟩

/-- The coefficients of an accepted expansion are written as their shortest decimals. -/
theorem mapM_literal (known : l.template? = some f) {e : Expansion} (accepted : e.Accepted) :
    e.coeffs.mapM l.literal = .ok (e.coeffs.map Value.shortest) :=
  mapM_eq_ok fun v member => literal_of_fits known (accepted.coeffs v member)

end Programs

end Language

section Written

/-- An expansion that has a program in every language: it is accepted, its description is a text,
and its reference value in the middle of the interval is a double. -/
structure Expansion.Renderable (e : Expansion) (description : String) (reference : Value) :
    Prop where
  valid : e.validate = .ok ()
  textual : e.description = .text description
  midpoint : e.midpointValue = .ok reference
  double : reference.IsDouble

/-- The varying texts of a loop program of an expansion. -/
def LoopParts.written (e : Expansion) (description reference : String) : LoopParts where
  reference := reference
  comment := Comment.coefficientText e description
  count := Text.natText e.numCoeffs
  coeffs := e.coeffs.map Value.shortest
  xMin := e.xMin.shortest
  xMax := e.xMax.shortest

variable {e : Expansion} {description : String} {reference : Value}

theorem Expansion.Renderable.accepted (renderable : e.Renderable description reference) :
    e.Accepted := accepted_of_validate renderable.valid

theorem isPlain_written (finite : Bool) :
    (LoopParts.written e description (Literal.script finite reference.shortest)).IsPlain where
  coeffs := by
    intro s member c inside
    obtain ⟨v, -, rfl⟩ := List.mem_map.mp member
    exact Decimal.mem_literalChars_render inside
  comment := fun s => Comment.isOneLine_of_mem_coefficientText
  holes := by
    have conversion : Text.isOneLine "float('" = true ∧ Text.isOneLine "')" = true := by decide
    have number (v : Value) : Text.isOneLine v.shortest = true := isOneLine_shortest v
    have literal : Text.isOneLine (Literal.script finite reference.shortest) = true := by
      cases finite <;> simp [Literal.script, conversion, number]
    simp [LoopParts.written, literal, number, isOneLine_natText]

/-- The varying texts of a program can all be written. -/
theorem of_result {l : Language} {f : LoopTemplate} (known : l.template? = some f)
    (accepted : e.Accepted) (textual : e.description = .text description)
    (middle : e.midpointValue = .ok reference) {literal : String}
    (spelled : l.literal reference = .ok literal) :
    (LoopParts.of l.literal e).result = .ok (LoopParts.written e description literal) := by
  rw [LoopParts.of, middle, Outcome.bind_result _ rfl, spelled, Outcome.bind_result _ rfl,
    Outcome.bind_result _ (Comment.coefficientLines_eq accepted textual),
    Language.mapM_literal known accepted,
    Language.literal_of_fits known accepted.low, Language.literal_of_fits known accepted.high]
  rfl

/-- The program of an accepted expansion in a language with loops. -/
theorem generate_of_template? {l : Language} {f : LoopTemplate} (known : l.template? = some f)
    (valid : e.validate = .ok ()) (textual : e.description = .text description)
    (middle : e.midpointValue = .ok reference) {literal : String}
    (spelled : l.literal reference = .ok literal) :
    (generate l e).result =
      .ok (Text.join "\n" (f.lines (LoopParts.written e description literal))) := by
  have parts := of_result known (Expansion.accepted_of_validate valid) textual middle spelled
  rw [generate, valid, Outcome.bind_result _ rfl, Language.render_of_template? known,
    Outcome.bind_result _ parts]
  rfl

end Written

end ClenshawCode
