import ClenshawCode.Program.Loop

/-!
# Rust programs

The main file of a binary crate, with the coefficients in a constant array.

## Main definitions

* `Program.Rust.lines`: the lines of the program around the varying texts
* `Program.Rust.render`: the program of an expansion
-/

namespace ClenshawCode.Program.Rust

/-- The comment token. -/
def token : String := "//"

/-- The lines of the program. -/
def lines (p : LoopParts) : List String :=
  Comment.block Comment.evaluatorLines token "" ++
  ["fn chebyshev_eval(coeffs: &[f32], x: f32, x_min: f32, x_max: f32) -> f32 \x7b",
    "    let x_rel_2 = -2.0 + 4.0 * (x - x_min) / (x_max - x_min);",
    "    let mut d = 0.0;",
    "    let mut dd = 0.0;",
    "    let mut temp;",
    "    for cj in coeffs.iter().skip(1).rev() \x7b",
    "        temp = d;",
    "        d = x_rel_2 * d - dd + cj;",
    "        dd = temp;",
    "    \x7d",
    "    0.5 * x_rel_2 * d - dd + 0.5 * coeffs[0]",
    "\x7d",
    ""] ++
  Comment.block p.comment token "" ++
  ["const COEFFS: [f32; " ++ p.count ++ "] = ["] ++
  p.coeffs.map (fun c => "    " ++ c ++ ",") ++
  ["];",
    "const X_MIN: f32 = " ++ p.xMin ++ "_f32;",
    "const X_MAX: f32 = " ++ p.xMax ++ "_f32;",
    "",
    "fn main() \x7b"] ++
  Comment.block Comment.exampleLines token "    " ++
  ["    let x_mid = 0.5 * (X_MIN + X_MAX);",
    "    let value_at_x_mid = chebyshev_eval(&COEFFS, x_mid, X_MIN, X_MAX);",
    "    println!(\"Approximated value at x=\x7b\x7d is \x7b\x7d (single precision)\", x_mid, " ++
      "value_at_x_mid);",
    "    println!(\"Should be " ++ p.reference ++ " (double precision)\");",
    "\x7d"]

/-- The program of an expansion. -/
def render (e : Expansion) : Outcome String := do
  let parts ← LoopParts.of Literal.fullPrecision e
  return Text.join "\n" (lines parts)

end ClenshawCode.Program.Rust
