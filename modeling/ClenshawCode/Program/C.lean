import ClenshawCode.Program.Loop

/-!
# C programs

A complete C program: the evaluator, the coefficients, the bounds, and a main function that prints
the value in the middle of the interval beside the reference value.

## Main definitions

* `Program.C.lines`: the lines of the program around the varying texts
* `Program.C.render`: the program of an expansion
-/

namespace ClenshawCode.Program.C

/-- The comment token. -/
def token : String := "//"

/-- The lines of the program. -/
def lines (p : LoopParts) : List String :=
  ["#include <stdio.h>", ""] ++
  Comment.block Comment.evaluatorLines token "" ++
  ["float chebyshevEval(const float* coeffs, int num_coeffs, float x, float x_min, " ++
      "float x_max) \x7b",
    "    float x_rel_2 = -2.0f + 4.0f * (x - x_min) / (x_max - x_min);",
    "    float d = 0.0f;",
    "    float dd = 0.0f;",
    "    float temp = 0.0f;",
    "    for (int i = num_coeffs - 1; i > 0; i--) \x7b",
    "        temp = d;",
    "        d = x_rel_2 * d - dd + coeffs[i];",
    "        dd = temp;",
    "    \x7d",
    "    return 0.5f * x_rel_2 * d - dd + 0.5f * coeffs[0];",
    "\x7d",
    ""] ++
  Comment.block p.comment token "" ++
  ["#define NUM_COEFFS " ++ p.count,
    "float coeffs[NUM_COEFFS] = \x7b"] ++
  p.coeffs.map (fun c => "    " ++ c ++ ",") ++
  ["\x7d;",
    "float x_min = " ++ p.xMin ++ ";",
    "float x_max = " ++ p.xMax ++ ";",
    "",
    "int main() \x7b"] ++
  Comment.block Comment.exampleLines token "    " ++
  ["    float x_mid = 0.5f * (x_min + x_max);",
    "    float value_at_x_mid = chebyshevEval(coeffs, NUM_COEFFS, x_mid, x_min, x_max);",
    "    printf(\"Approximated value at x=%f is %f (single precision)\\n\", x_mid, " ++
      "value_at_x_mid);",
    "    printf(\"Should be " ++ p.reference ++ " (double precision)\\n\");",
    "    return 0;",
    "\x7d"]

/-- The program of an expansion. -/
def render (e : Expansion) : Outcome String := do
  let parts ← LoopParts.of Literal.fullPrecision e
  return Text.join "\n" (lines parts)

end ClenshawCode.Program.C
