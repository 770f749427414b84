import ClenshawCode.Proofs.Comment.Block
import ClenshawCode.Proofs.Decimal.Fixed
import ClenshawCode.Proofs.Shader.Scope

/-!
# The text of a shader

For an accepted expansion with a text as its description a shader is written with any count of
places that a numeral can have. Each of its lines is one line of the text, and the body of the
evaluator stands between the line that opens it and the first one that closes it, so its statements
are read back from the text.

## Main definitions

* `Shader.fixedLiteral`: the literal of a number
* `Shader.program?`: the statements of the evaluator's body, read from a text
-/

namespace ClenshawCode.Shader

open Text

/-- The literal of a number with a fixed count of places. -/
def fixedLiteral (places : ℕ) (v : Value) : String :=
  String.ofList (Decimal.fixed v.nearest places ++ ['f'])

/-- The line that opens the evaluator. -/
def evaluatorOpening : String := "float chebyshevEval(float x) \x7b"

/-- The line that closes the evaluator. -/
def evaluatorClosing : String := "\x7d"

/-- The statements of the evaluator's body, read from a text. -/
def program? (text : String) : Option (List Statement) :=
  (between? (· = evaluatorOpening) (· = evaluatorClosing) (Text.lines text)).bind statements?

section Literals

/-- No word is broken by a line break. -/
theorem isLineBreak_of_isWordChar {c : Char} (inWord : isWordChar c = true) :
    isLineBreak c = false := by
  by_contra breaks
  simp only [isWordChar, Char.isAlphanum, Char.isAlpha, Char.isUpper, Char.isLower, Char.isDigit,
    isLineBreak, Bool.not_eq_false, Bool.or_eq_true, Bool.and_eq_true, decide_eq_true_eq,
    beq_iff_eq, ge_iff_le, UInt32.le_iff_toNat_le] at inWord breaks
  have numbers : 'A'.val.toNat = 65 ∧ 'Z'.val.toNat = 90 ∧ 'a'.val.toNat = 97 ∧
      'z'.val.toNat = 122 ∧ '0'.val.toNat = 48 ∧ '9'.val.toNat = 57 := by decide
  have whole : c.toNat = c.val.toNat := rfl
  rcases inWord with (inWord | rfl) | rfl
  · omega
  · revert breaks
    decide
  · revert breaks
    decide

/-- What is written with words and a minus sign is one line. -/
theorem isOneLine_of_words {s : String}
    (words : ∀ c ∈ s.toList, isWordChar c = true ∨ c = '-') : isOneLine s = true := by
  rw [isOneLine_iff]
  intro c member
  rcases words c member with inWord | rfl
  · exact isLineBreak_of_isWordChar inWord
  · rfl

theorem isOneLine_of_isName {s : String} (named : isName s = true) : isOneLine s = true :=
  isOneLine_of_words fun c member => .inl ((isWordChar_of_isName named).2 c member)

theorem isOneLine_of_isLiteral {s : String} (number : isLiteral s = true) :
    isOneLine s = true := by
  refine isOneLine_of_words fun c member => ?_
  rcases literal_cases number with ⟨w, form, unsigned, -⟩ | ⟨unsigned, -⟩
  · rw [form, List.mem_cons] at member
    exact member.symm.imp_left ((isWordChar_of_isUnsigned unsigned).2 c)
  · exact .inl ((isWordChar_of_isUnsigned unsigned).2 c member)

/-- The sign of a number stands in front of its digits. -/
theorem takeSign_literal {s : String} {negative : Bool} {c : Char} {rest : List Char}
    (chars : s.toList = Decimal.signed negative (c :: (rest ++ ['f']))) (digit : c.isDigit = true) :
    Decimal.takeSign s.toList = (negative, (c :: rest) ++ ['f']) := by
  rw [chars]
  exact Decimal.takeSign_signed negative (rest ++ ['f']) (.inl digit)

/-- The literal of an accepted number is a number of shader code, and has a value. -/
theorem fixedLiteral_spec {v : Value} (fits : v.Fits) (places : ℕ) :
    isLiteral (fixedLiteral places v) = true ∧
      ∃ c, literalValue? (fixedLiteral places v) = some c := by
  obtain ⟨negative, c, rest, d, written, read, digit, others⟩ := Decimal.fixed_eq fits.finite places
  have chars : (fixedLiteral places v).toList =
      Decimal.signed negative (c :: (rest ++ ['f'])) := by
    rw [fixedLiteral, written, String.toList_ofList]
    cases negative <;> rfl
  have body : isUnsigned (c :: (rest ++ ['f'])) = true := by
    rw [isUnsigned, digit, Bool.true_and, List.all_eq_true]
    intro a member
    rcases List.mem_append.mp member with inRest | suffix
    · rcases others a inRest with digit' | rfl
      · exact isWordChar_of_isDigit digit'
      · rfl
    · rw [List.mem_singleton.mp suffix]
      rfl
  -- Without a minus sign of its own the literal is not taken for a negative one.
  have minus : c ≠ '-' := by
    rintro rfl
    cases digit
  refine ⟨?_, _, literalValue?_eq (takeSign_literal chars digit) read⟩
  rw [isLiteral, chars]
  cases negative with
  | true => exact body
  | false =>
    rw [Decimal.signed, if_neg Bool.false_ne_true]
    split
    · rename_i w form
      exact absurd (List.head_eq_of_cons_eq form) minus
    · exact body

end Literals

section Lines

/-- The statements of the lines of a body. -/
theorem flatMap_statements_body (comment literals : List String) (xMin xMax : String) :
    (body comment literals xMin xMax).flatMap Line.statements =
      bodyStatements literals xMin xMax := by
  have comments : (comment.map Line.comment).flatMap Line.statements = [] := by
    simp [List.flatMap_map, Line.statements]
  have steps : ((unrolledSteps literals.length).map stepLine).flatMap Line.statements =
      (unrolledSteps literals.length).map stepStatement := by
    rw [List.flatMap_map, List.map_eq_flatMap]
    rfl
  simp only [body, List.flatMap_append, comments, steps, bodyStatements, coefficientStatements,
    List.nil_append, List.append_assoc]
  rfl

/-- A number is written as a part of a word. -/
theorem isWordChar_of_mem_natChars {i : ℕ} {c : Char} (member : c ∈ natChars i) :
    isWordChar c = true :=
  isWordChar_of_isDigit (isDigit_of_mem_natChars member)

theorem isName_coefficientName (i : ℕ) : isName (coefficientName i) = true := by
  rw [isName, toList_coefficientName]
  simp only [Bool.and_eq_true, List.all_eq_true]
  exact ⟨rfl, fun _ => isWordChar_of_mem_natChars⟩

theorem isName_accumulatorName (i : ℕ) : isName (accumulatorName i) = true := by
  rw [isName, toList_accumulatorName]
  simp only [Bool.and_eq_true, List.all_cons, List.all_eq_true]
  exact ⟨rfl, rfl, rfl, fun _ => isWordChar_of_mem_natChars⟩

theorem readable_stepExpr (step : Step) : (stepExpr step).Readable := by
  have argument : isName "xRel2" = true := by decide
  have zero : isLiteral "0.0f" = true := by decide
  rw [stepExpr]
  cases step.kind <;>
    simp [plus, minus, times, Expr.Readable, Expr.isSum, Expr.isBinary, Op.isSum, argument, zero,
      isName_coefficientName, isName_accumulatorName]

/-- Every coefficient is declared under its name. -/
theorem exists_of_mem_coefficientLines {literals : List String} {line : Line} {i : ℕ}
    (member : line ∈ coefficientLines i literals) :
    ∃ j, ∃ literal ∈ literals,
      line = .declare true (coefficientName j) 0 (.literal literal) none := by
  induction literals generalizing i with
  | nil => cases member
  | cons literal literals ih =>
    rcases List.mem_cons.mp member with rfl | later
    · exact ⟨i, literal, List.mem_cons_self, rfl⟩
    · obtain ⟨j, other, inside, same⟩ := ih later
      exact ⟨j, other, List.mem_cons_of_mem literal inside, same⟩

theorem readable_coefficientLines {literals : List String} {line : Line} {i : ℕ}
    (numbers : ∀ s ∈ literals, isLiteral s = true) (member : line ∈ coefficientLines i literals) :
    line.Readable := by
  obtain ⟨j, literal, inside, rfl⟩ := exists_of_mem_coefficientLines member
  exact ⟨isName_coefficientName j, numbers literal inside⟩

theorem readable_mappingLines {xMin xMax : String} {line : Line} (lower : isLiteral xMin = true)
    (upper : isLiteral xMax = true) (member : line ∈ mappingLines xMin xMax) : line.Readable := by
  have names : ∀ s ∈ "x" :: mappingNames, isName s = true :=
    List.all_iff_forall_prop.mp (by decide)
  have numbers : ∀ s ∈ ["1.0f", "4.0f", "-4.0f", "2.0f"], isLiteral s = true :=
    List.all_iff_forall_prop.mp (by decide)
  simp only [mappingNames, List.mem_cons, List.not_mem_nil, or_false, forall_eq_or_imp,
    forall_eq] at names numbers
  simp only [mappingLines, List.mem_cons, List.not_mem_nil, or_false] at member
  rcases member with rfl | rfl | rfl | rfl | rfl | rfl | rfl <;>
    simp [Line.Readable, dividedBy, minus, times, plus, Expr.Readable, Expr.isSum, Expr.isBinary,
      Op.isSum, names, numbers, lower, upper]

/-- Every line of a body reads back. -/
theorem readable_body {comment literals : List String} {xMin xMax : String}
    (single : ∀ s ∈ comment, isOneLine s = true) (numbers : ∀ s ∈ literals, isLiteral s = true)
    (lower : isLiteral xMin = true) (upper : isLiteral xMax = true) :
    ∀ line ∈ body comment literals xMin xMax, line.Readable := by
  intro line member
  simp only [body, List.mem_append, List.mem_map, List.mem_singleton] at member
  rcases member with
    (((((⟨s, inside, rfl⟩ | coefficient) | rfl) | mapping) | rfl) | ⟨step, -, rfl⟩) | rfl
  · exact single s inside
  · exact readable_coefficientLines numbers coefficient
  · trivial
  · exact readable_mappingLines lower upper mapping
  · trivial
  · exact ⟨isName_accumulatorName step.index, readable_stepExpr step⟩
  · have argument : isName "xRel2" = true := by decide
    have half : isLiteral "0.5f" = true := by decide
    simp [resultLine, Line.Readable, minus, times, plus, Expr.Readable, Expr.isSum, Expr.isBinary,
      Op.isSum, argument, half, isName_coefficientName, isName_accumulatorName]

/-- An expression that reads back is one line. -/
theorem isOneLine_text (e : Expr) (readable : e.Readable) : isOneLine e.text = true := by
  -- The text of an expression consists of its parts and fixed signs.
  induction e with
  | name s => exact isOneLine_of_isName readable
  | literal s => exact isOneLine_of_isLiteral readable
  | group e ih =>
    have fixed : isOneLine "(" = true ∧ isOneLine ")" = true := by decide
    simp [Expr.text, fixed, ih readable]
  | binary op left right ihLeft ihRight =>
    have fixed : isOneLine " " = true ∧ isOneLine op.sign = true := by cases op <;> decide
    simp [Expr.text, fixed, ihLeft readable.1, ihRight readable.2.1]

/-- A line that reads back is one line of the text. -/
theorem isOneLine_line {line : Line} (readable : line.Readable) :
    isOneLine line.text = true := by
  cases line with
  | blank => decide
  | comment s =>
    have fixed : isOneLine "    // " = true := by decide
    have single : isOneLine s = true := readable
    simp [Line.text, fixed, single]
  | declare constant name padding value note =>
    have fixed : isOneLine "    " = true ∧ isOneLine (if constant then "const " else "") = true ∧
        isOneLine "float " = true ∧ isOneLine " = " = true ∧ isOneLine ";" = true := by
      cases constant <;> decide
    have spaces : isOneLine (String.ofList (List.replicate padding ' ')) = true := by
      have space : isLineBreak ' ' = false := by decide
      simp [isOneLine, space]
    have noted : isOneLine (noteText note) = true := by
      have start : isOneLine "  // i = " = true := by decide
      cases note with
      | none => decide
      | some i => simp [noteText, start, isOneLine_natText]
    have written : (Line.declare constant name padding value note).text =
        "    " ++ (if constant then "const " else "") ++ "float " ++ name ++
          String.ofList (List.replicate padding ' ') ++ " = " ++ value.text ++ ";" ++
            noteText note := by
      cases note <;> rfl
    simp [written, fixed, spaces, noted, isOneLine_of_isName readable.1,
      isOneLine_text value readable.2]
  | result value =>
    have fixed : isOneLine "    return " = true ∧ isOneLine ";" = true := by decide
    simp [Line.text, fixed, isOneLine_text value readable]

/-- A line of a body begins with a space unless it is empty. -/
theorem text_cases (line : Line) : line.text = "" ∨ line.text.toList.head? = some ' ' := by
  cases line with
  | blank => exact .inl rfl
  | comment s => simp [Line.text]
  | declare constant name padding value note => simp [Line.text]
  | result value => simp [Line.text]

end Lines

section Text

variable {comment literals : List String} {xMin xMax : String}

/-- The snippet that plots the function breaks no line. -/
theorem isOneLine_plotLines (lower : isOneLine xMin = true) (upper : isOneLine xMax = true) :
    ∀ l ∈ plotLines xMin xMax, isOneLine l = true := by
  rw [← List.all_eq_true]
  simp only [plotLines, List.all_cons, isOneLine_append, lower, upper]
  decide +kernel

/-- Every line of a shader is one line of its text. -/
theorem isOneLine_lines (single : ∀ s ∈ comment, isOneLine s = true)
    (numbers : ∀ s ∈ literals, isLiteral s = true) (lower : isLiteral xMin = true)
    (upper : isLiteral xMax = true) :
    ∀ l ∈ lines comment literals xMin xMax, isOneLine l = true := by
  intro l member
  have fixed : ∀ l ∈ Comment.block Comment.evaluatorLines "//" "" ++
      ["float chebyshevEval(float x) \x7b", "\x7d", ""], isOneLine l = true :=
    List.all_iff_forall_prop.mp (by decide)
  simp only [lines, List.mem_append] at member
  rcases member with (((evaluator | opening) | inBody) | closing) | plot
  · exact fixed l (List.mem_append_left _ evaluator)
  · exact fixed l (List.mem_append_right _ (List.mem_cons.mpr (.inl (by simpa using opening))))
  · obtain ⟨line, inside, rfl⟩ := List.mem_map.mp inBody
    exact isOneLine_line (readable_body single numbers lower upper line inside)
  · exact fixed l (List.mem_append_right _ (List.mem_cons_of_mem _ closing))
  · exact isOneLine_plotLines (isOneLine_of_isLiteral lower) (isOneLine_of_isLiteral upper) l plot

/-- The program that is read from a shader consists of the statements of its body. -/
theorem program?_join (single : ∀ s ∈ comment, isOneLine s = true)
    (numbers : ∀ s ∈ literals, isLiteral s = true) (lower : isLiteral xMin = true)
    (upper : isLiteral xMax = true) :
    program? (join "\n" (lines comment literals xMin xMax)) =
      some (bodyStatements literals xMin xMax) := by
  have found : Text.lines (join "\n" (lines comment literals xMin xMax)) =
      lines comment literals xMin xMax :=
    lines_join (by simp [lines]) (isOneLine_lines single numbers lower upper)
  -- The body is found between the line that opens the evaluator and the one that closes it.
  have between : between? (· = evaluatorOpening) (· = evaluatorClosing)
      (lines comment literals xMin xMax) =
        some ((body comment literals xMin xMax).map Line.text) := by
    have split : lines comment literals xMin xMax =
        Comment.block Comment.evaluatorLines "//" "" ++ evaluatorOpening ::
          ((body comment literals xMin xMax).map Line.text ++ evaluatorClosing ::
            ("" :: plotLines xMin xMax)) := by
      simp [lines, evaluatorOpening, evaluatorClosing]
    rw [split]
    refine between?_eq _ ?_ (by simp) ?_ (by simp)
    · exact List.all_iff_forall_prop.mp (by decide)
    · intro l member
      obtain ⟨line, -, rfl⟩ := List.mem_map.mp member
      rw [decide_eq_false_iff_not]
      rcases text_cases line with empty | indented
      · rw [empty]
        decide
      · intro same
        rw [same] at indented
        revert indented
        decide
  rw [program?, found, between, Option.bind_some,
    statements?_lines _ (readable_body single numbers lower upper), flatMap_statements_body]

end Text

section Render

variable {e : Expansion} {description : String} {places : ℕ}

theorem mapM_fixedSingle (accepted : e.Accepted) (few : places < 2 ^ 31) :
    (e.coeffs.mapM fun c => Literal.fixedSingle c (.int places)) =
      .ok (e.coeffs.map (fixedLiteral places)) :=
  mapM_eq_ok fun c member => Literal.fixedSingle_eq (accepted.coeffs c member) few

/-- The shader of an accepted expansion. -/
theorem renderWith_eq (accepted : e.Accepted) (textual : e.description = .text description)
    (few : places < 2 ^ 31) :
    (renderWith (.int places) e).result =
      .ok (join "\n" (lines (Comment.coefficientText e description)
        (e.coeffs.map (fixedLiteral places)) (fixedLiteral places e.xMin)
        (fixedLiteral places e.xMax))) := by
  have comment := Comment.coefficientLines_eq accepted textual
  rw [renderWith, Literal.fixedSingle_eq accepted.low few, Literal.fixedSingle_eq accepted.high few,
    Outcome.bind_result _ rfl, Outcome.bind_result _ rfl, Outcome.bind_result _ comment,
    mapM_fixedSingle accepted few]
  rfl

/-- No shader has more places. -/
theorem renderWith_of_many (accepted : e.Accepted) (many : 2 ^ 31 ≤ places) :
    ∃ failure, (renderWith (.int places) e).result = .error failure := by
  obtain ⟨failure, refused⟩ :
      ∃ failure, Literal.fixedSingle e.xMin (.int places) = .error failure :=
    ⟨_, Literal.fixedSingle_of_many accepted.low.toFloat_eq many⟩
  refine ⟨failure, ?_⟩
  rw [renderWith, refused]
  rfl

end Render

end ClenshawCode.Shader
