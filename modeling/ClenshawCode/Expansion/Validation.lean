import ClenshawCode.Expansion.Basic
import ClenshawCode.Value.Hindrance

/-!
# Which expansions can be rendered

A program computes in single precision, so every coefficient and both bounds have to be finite
numbers within its range. The interval must not be empty, and there has to be a coefficient.

## Main definitions

* `singleMax`, `float32Max`: the largest finite number of single precision
* `Value.fitsSingle`: whether a value is a number within the range of single precision
* `Expansion.validateWithin`, `Expansion.validate`: the first reason why an expansion cannot be
  rendered, if there is one
-/

namespace ClenshawCode

/-- The largest finite number of single precision. -/
def singleMax : Nat := Nat.pow 2 128 - Nat.pow 2 104

/-- The largest finite number of single precision as a double. -/
def float32Max : Float := Binary64.ofRatio false singleMax 1

namespace Value

/-- Whether a number is finite and its magnitude is at most that of single precision. -/
def withinSingle : Binary64.Exact → Bool
  | .finite a => -(singleMax : Rat) ≤ a && a ≤ (singleMax : Rat)
  | _ => false

/-- Whether a value is a finite number within the range of single precision. What is not a number
at all is not; an integer beyond the range of doubles fails. -/
def fitsSingle (v : Value) : Except Failure Bool :=
  match v.exactly? with
  | none => .ok false
  | some x => do
    if ← v.isFinite then .ok (withinSingle x) else .ok false

/-- Whether one number is below another. -/
def isBelow (v w : Value) : Bool :=
  match v.exactly?, w.exactly? with
  | some x, some y => x.lt y
  | _, _ => false

end Value

namespace Expansion

/-- The places, counted from `start`, of the values that are not within single precision. -/
def misfits : (start : Nat) → List Value → Except Failure (List Nat)
  | _, [] => .ok []
  | start, c :: rest => do
    let fits ← c.fitsSingle
    let others ← misfits (start + 1) rest
    return if fits then others else start :: others

/-- Why a bound is rejected. The message shows the bound, which may be hindered from it. -/
def boundFailure (levels : Nat) (name : String) (v : Value) : Failure :=
  v.failureShowing levels (.invalid (.bound name v))

/-- A bound has to be within single precision. -/
def validateBound (levels : Nat) (name : String) (v : Value) : Except Failure Unit := do
  if ← v.fitsSingle then .ok () else .error (boundFailure levels name v)

/-- The first reason why an expansion cannot be rendered, if there is one. The number bounds the
depth of what a message can show. -/
def validateWithin (levels : Nat) (e : Expansion) : Except Failure Unit := do
  if e.coeffs.isEmpty then .error (.invalid .noCoefficients)
  -- All coefficients are looked at, so that the message can name every misfit.
  let bad ← misfits 0 e.coeffs
  if !bad.isEmpty then .error (.invalid (.coefficients bad))
  validateBound levels "x_min" e.xMin
  validateBound levels "x_max" e.xMax
  if e.xMin.isBelow e.xMax then .ok () else .error (.invalid (.domain e.xMin e.xMax))

/-- The first reason why an expansion cannot be rendered, if there is one. -/
def validate (e : Expansion) : Except Failure Unit := e.validateWithin Value.shownLevels

end Expansion

end ClenshawCode
