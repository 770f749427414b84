import ClenshawCode.Proofs.Comment.Sanitize
import ClenshawCode.Proofs.Expansion.Literals

/-!
# The comment on the coefficients

For an accepted expansion with a text as its description the three lines of the comment can always
be written, and each of them is one line.

## Main definitions

* `Comment.coefficientText`: the three lines
-/

namespace ClenshawCode

section Characters

open Text

/-- What is written with the characters of literals is one line. -/
theorem isOneLine_of_literal {s : String} (literal : ∀ c ∈ s.toList, c ∈ Decimal.literalChars) :
    isOneLine s = true := by
  have unbroken : ∀ c ∈ Decimal.literalChars, isLineBreak c = false :=
    List.all_iff_forall_prop.mp (by decide)
  exact isOneLine_iff.mpr fun c member => unbroken c (literal c member)

theorem isOneLine_natText (n : ℕ) : isOneLine (natText n) = true := by
  refine isOneLine_of_literal fun c member => ?_
  rw [natText, String.toList_ofList] at member
  exact Decimal.mem_literalChars_of_isDigit (isDigit_of_mem_natChars member)

theorem isOneLine_shortest (v : Value) : isOneLine v.shortest = true :=
  isOneLine_of_literal fun _ => Decimal.mem_literalChars_render

end Characters

namespace Comment

open Text

/-- The comment on the coefficients of an expansion with a description. -/
def coefficientText (e : Expansion) (description : String) : List String :=
  [natText e.numCoeffs ++ " term expansion coefficients for",
    "f(x)=" ++ sanitized description,
    "x_min=" ++ e.xMin.shortest ++ ", x_max=" ++ e.xMax.shortest]

variable {e : Expansion} {description : String}

theorem coefficientLines_eq (accepted : e.Accepted) (textual : e.description = .text description) :
    (coefficientLines e).result = .ok (coefficientText e description) := by
  rw [coefficientLines, textual, Outcome.bind_result _ (sanitize_text description),
    Literal.fullPrecision_eq accepted.low.toFloat_eq,
    Literal.fullPrecision_eq accepted.high.toFloat_eq]
  rfl

theorem isOneLine_of_mem_coefficientText {l : String}
    (member : l ∈ coefficientText e description) : isOneLine l = true := by
  have numbers := isOneLine_natText e.numCoeffs
  have low := isOneLine_shortest e.xMin
  have high := isOneLine_shortest e.xMax
  have text := isOneLine_sanitized description
  -- The fixed words are closed texts, the numbers and the description are not.
  have fixed : isOneLine " term expansion coefficients for" = true ∧
      isOneLine "f(x)=" = true ∧ isOneLine "x_min=" = true ∧ isOneLine ", x_max=" = true := by
    decide
  simp only [coefficientText, List.mem_cons, List.not_mem_nil, or_false] at member
  rcases member with rfl | rfl | rfl <;> simp [numbers, low, high, text, fixed]

end Comment

end ClenshawCode
