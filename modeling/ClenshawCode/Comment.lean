import ClenshawCode.Expansion.Basic
import ClenshawCode.Literal
import ClenshawCode.Outcome

/-!
# Comments

The comments of generated programs say the same in every target language; only the comment token and
the indentation differ. There are three blocks of fixed shape: three lines on the coefficients, two
on the evaluator and one on the example.

A description becomes part of a line comment, so a line break in it would end the comment. Such a
description is joined into one line, with a warning; any other is kept as it is.

## Main definitions

* `Comment.joinLines`: every run of blanks with a line break becomes one space
* `Comment.sanitize`: a description fit for a line comment
* `Comment.coefficientLines`, `Comment.evaluatorLines`, `Comment.exampleLines`: the three blocks
* `Comment.block`: lines as comments
-/

namespace ClenshawCode.Comment

open Text

/-- Every run of blanks that holds a line break becomes one space. The first argument holds the
blanks read so far of the current run, the last one first. -/
def joinRuns : (run : List Char) → List Char → List Char
  | run, [] => if run.any isLineBreak then [' '] else run.reverse
  | run, c :: rest =>
    if isBlank c then joinRuns (c :: run) rest
    else (if run.any isLineBreak then [' '] else run.reverse) ++ c :: joinRuns [] rest

/-- Every run of blanks that holds a line break becomes one space. -/
def joinLines (cs : List Char) : List Char := joinRuns [] cs

/-- A description fit for a line comment. If it holds a line break, its lines are joined, blanks at
its ends are dropped and the user is warned. -/
def sanitize (description : Value) : Outcome String :=
  match description with
  | .text s => do
    -- Blanks at the ends are dropped only where there is a line break to join.
    if s.toList.any isLineBreak then
      Outcome.warn (.joinedLines s)
      return String.ofList (trim (joinLines s.toList))
    else return s
  | .bytes _ => Outcome.ofExcept (.error .bytesForText)
  | v => Outcome.ofExcept (.error (.notText v.kind))

/-- Three lines on the coefficients of an expansion. -/
def coefficientLines (e : Expansion) : Outcome (List String) := do
  let description ← sanitize e.description
  let low ← Literal.fullPrecision e.xMin
  let high ← Literal.fullPrecision e.xMax
  return [natText e.numCoeffs ++ " term expansion coefficients for",
    "f(x)=" ++ description,
    "x_min=" ++ low ++ ", x_max=" ++ high]

/-- Two lines on the evaluator. -/
def evaluatorLines : List String :=
  ["Evaluates a Chebyshev expansion at a given", "x value using the Clenshaw algorithm."]

/-- One line on the example. -/
def exampleLines : List String :=
  ["Evaluate the approximation at the interval midpoint"]

/-- Lines as comments. -/
def block (lines : List String) (token indent : String) : List String :=
  lines.map fun line => indent ++ token ++ " " ++ line

end ClenshawCode.Comment
