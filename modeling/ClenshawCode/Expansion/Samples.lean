import ClenshawCode.Expansion.Basic

/-!
# Sample expansions

Two expansions for demonstrations. Their coefficients are written by hand, so each brings its own
reference function instead of being a fit of one.

## Main definitions

* `Expansion.quadratic`: three terms on the interval from `-1` to `1`
* `Expansion.constant`: one term
-/

namespace ClenshawCode.Expansion

/-- The function `1 - 2 * x * x`. -/
def quadraticReference : Reference := fun x => do
  let twice ← Value.mul (.float 2) x
  let square ← Value.mul twice x
  Value.sub (.float 1) square

/-- Three terms on the interval from `-1` to `1`. The reference is a formula of its own: at the
middle it gives `1`, while the expansion gives `2`. -/
def quadratic : Expansion where
  coeffs := [.float 2, .float 0, .float (-1)]
  xMin := .float (-1)
  xMax := .float 1
  description := .text "quadratic"
  reference := some quadraticReference

/-- A constant function as an expansion; the constant coefficient counts half. -/
def constant (value xMin xMax : Value) : Except Failure Expansion := do
  let c ← Value.mul (.float 2) value
  return { coeffs := [c], xMin, xMax, description := .text value.plainText,
           reference := some fun _ => .ok value }

/-- A constant function of which the value and the bounds may be left open: they are then the
value `1` and the interval from `0` to `1`. -/
def constantWith (value xMin xMax : Option Value) : Except Failure Expansion :=
  constant (value.getD (.float 1)) (xMin.getD (.float 0)) (xMax.getD (.float 1))

end ClenshawCode.Expansion
