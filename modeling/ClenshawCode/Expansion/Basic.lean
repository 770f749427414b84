import ClenshawCode.Recurrence
import ClenshawCode.Value.Cells

/-!
# Chebyshev expansions

The one input of the generators: coefficients, an interval, a description, and optionally a
reference function that knows better what the expansion approximates. An expansion is made elsewhere
and only read here, so its parts are values as they were supplied, and whether they make sense is
decided when the expansion is rendered. A description that is taken from a document may refer to
lists and tables of that document, which the expansion then holds as well.

## Main definitions

* `Expansion`: coefficients, interval, description and reference
* `Expansion.midpoint`: the middle of the interval
* `Expansion.evaluate`: the reference value at a point
* `Expansion.shown`: an expansion as part of a message
* `Expansion.same`: equality of expansions, which ignores the reference
-/

namespace ClenshawCode

/-- A reference function: a value for every point, or a failure. -/
abbrev Reference := Value → Except Failure Value

/-- A Chebyshev expansion over an interval. The constant coefficient counts half. -/
structure Expansion where
  coeffs : List Value
  xMin : Value
  xMax : Value
  description : Value := .text ""
  /-- A better evaluator of the approximated function; it is only used for the comparison value that
  generated programs print, and it is not saved. -/
  reference : Option Reference := none
  /-- The lists and tables that the description refers to. -/
  cells : Cells := {}

namespace Expansion

/-- The number of coefficients. -/
def numCoeffs (e : Expansion) : Nat := e.coeffs.length

/-- The coefficients for the recurrence. -/
def table (e : Expansion) : Table Value := Table.ofList "tuple" e.coeffs

/-- The middle of the interval. -/
def midpoint (e : Expansion) : Except Failure Value := do
  let sum ← Value.add e.xMin e.xMax
  Value.mul (.float 0.5) sum

/-- The value of the reference at a point, or else of the recurrence. -/
def evaluate (e : Expansion) (x : Value) : Except Failure Value :=
  match e.reference with
  | some f => f x
  | none => clenshaw e.table x e.xMin e.xMax

/-- The reference value in the middle of the interval. -/
def midpointValue (e : Expansion) : Except Failure Value := do
  let x ← e.midpoint
  e.evaluate x

/-- An expansion as part of a message. -/
def shown (e : Expansion) : String :=
  "ChebyshevExpansion(coeffs=" ++ Value.shownTuple e.coeffs ++ ", x_min=" ++ e.xMin.shown ++
    ", x_max=" ++ e.xMax.shown ++ ", description=" ++ (e.cells.unfold e.description).shown ++ ")"

/-- The depth to which two expansions are compared. -/
def comparisonDepth : Nat := 990

/-- Equality of two expansions, part by part up to the first two that differ. Doubles that are no
number are equal only if one reader made them. -/
def same (a b : Expansion) : Except Failure Bool := do
  let test := a.cells.same b.cells comparisonDepth
  if !(← allPairs test a.coeffs b.coeffs) then return false
  if !(← test a.xMin b.xMin) then return false
  if !(← test a.xMax b.xMax) then return false
  test a.description b.description

/-- An expansion from arguments of which some may be missing: the coefficients are the items of any
sequence, everything else is taken as it is. -/
def ofArguments (coeffs xMin xMax description : Option Value) (reference : Option Reference) :
    Except Failure Expansion :=
  match coeffs, xMin, xMax with
  | some coeffs, some xMin, some xMax => do
    let items ← coeffs.items
    return { coeffs := items, xMin, xMax, description := description.getD (.text ""), reference }
  | _, _, _ =>
    .error (.missingArguments "ChebyshevExpansion.__init__"
      ((if coeffs.isNone then ["coeffs"] else []) ++ (if xMin.isNone then ["x_min"] else []) ++
        (if xMax.isNone then ["x_max"] else [])))

end Expansion

end ClenshawCode
