import ClenshawCode.Program.Loop

/-!
# Go programs

A complete Go program over a slice of single-precision coefficients.

## Main definitions

* `Program.Go.lines`: the lines of the program around the varying texts
* `Program.Go.render`: the program of an expansion
-/

namespace ClenshawCode.Program.Go

/-- The comment token. -/
def token : String := "//"

/-- The lines of the program. -/
def lines (p : LoopParts) : List String :=
  ["package main", "", "import (", "\t\"fmt\"", ")", ""] ++
  Comment.block Comment.evaluatorLines token "" ++
  ["func chebyshevEval(coeffs []float32, x, xMin, xMax float32) float32 \x7b",
    "\txRel2 := -2.0 + 4.0*(x-xMin)/(xMax-xMin)",
    "\tvar (",
    "\t\td, dd, temp float32",
    "\t)",
    "\tfor i := len(coeffs) - 1; i > 0; i-- \x7b",
    "\t\ttemp = d",
    "\t\td = xRel2*d - dd + coeffs[i]",
    "\t\tdd = temp",
    "\t\x7d",
    "\treturn 0.5*xRel2*d - dd + 0.5*coeffs[0]",
    "\x7d",
    ""] ++
  Comment.block p.comment token "" ++
  ["var coeffs = []float32\x7b"] ++
  p.coeffs.map (fun c => "\t" ++ c ++ ",") ++
  ["\x7d",
    "",
    "const (",
    "\txMin float32 = " ++ p.xMin,
    "\txMax float32 = " ++ p.xMax,
    ")",
    "",
    "func main() \x7b"] ++
  Comment.block Comment.exampleLines token "\t" ++
  ["\tvar xMid float32 = 0.5 * (xMin + xMax)",
    "\tvar valueAtXMid float32 = chebyshevEval(coeffs, xMid, xMin, xMax)",
    "\tfmt.Printf(\"Approximated value at x=%f is %f (single precision)\\n\", xMid, valueAtXMid)",
    "\tfmt.Printf(\"Should be " ++ p.reference ++ " (double precision)\\n\")",
    "\x7d"]

/-- The program of an expansion. -/
def render (e : Expansion) : Outcome String := do
  let parts ← LoopParts.of Literal.fullPrecision e
  return Text.join "\n" (lines parts)

end ClenshawCode.Program.Go
