import ClenshawCode.Program.Loop

/-!
# Python programs

A plain script: the evaluator walks the list of coefficients backwards, and two lines print the
value in the middle of the interval and the reference value.

## Main definitions

* `Program.Python.lines`: the lines of the script around the varying texts
* `Program.Python.render`: the script of an expansion
-/

namespace ClenshawCode.Program.Python

/-- The comment token. -/
def token : String := "#"

/-- The lines of the script. -/
def lines (p : LoopParts) : List String :=
  Comment.block Comment.evaluatorLines token "" ++
  ["def chebyshev_eval(coeffs, x, x_min, x_max):",
    "    x_rel_2 = -2 + 4 * (x - x_min) / float(x_max - x_min)",
    "    d = 0",
    "    dd = 0",
    "    temp = 0",
    "    for ci in coeffs[-1:0:-1]:",
    "        temp = d",
    "        d = x_rel_2 * d - dd + ci",
    "        dd = temp",
    "    return 0.5 * x_rel_2 * d - dd + 0.5 * coeffs[0]",
    "",
    ""] ++
  Comment.block p.comment token "" ++
  ["coeffs = ["] ++
  p.coeffs.map (fun c => "    " ++ c ++ ",") ++
  ["]",
    "x_min = " ++ p.xMin,
    "x_max = " ++ p.xMax,
    ""] ++
  Comment.block Comment.exampleLines token "" ++
  ["x_mid = 0.5 * (x_min + x_max)",
    "value_at_x_mid = chebyshev_eval(coeffs, x_mid, x_min, x_max)",
    "print(\"Value at\", x_mid, \"is\", value_at_x_mid)",
    "print(\"Should be\", " ++ p.reference ++ ", \"(double precision)\")"]

/-- The script of an expansion. -/
def render (e : Expansion) : Outcome String := do
  let parts ← LoopParts.of Literal.scriptFloat e
  return Text.join "\n" (lines parts)

end ClenshawCode.Program.Python
