import ClenshawCode.Comment

/-!
# What the loop programs have in common

Four of the five targets run the recurrence as a loop over a table of coefficients. Their programs
differ in syntax only: each needs the reference value in the middle of the interval, the comment on
the coefficients, the literals of the coefficients and those of the bounds, in this order, and
writes them between fixed lines.

## Main definitions

* `LoopParts`: the texts that vary from one expansion to another
* `LoopParts.of`: the varying texts of an expansion
-/

namespace ClenshawCode

/-- The texts of a loop program that vary from one expansion to another. -/
structure LoopParts where
  /-- The reference value in the middle of the interval. -/
  reference : String
  /-- The comment on the coefficients, without tokens. -/
  comment : List String
  /-- The number of coefficients. -/
  count : String
  coeffs : List String
  xMin : String
  xMax : String

/-- The varying texts of an expansion under a rule for literals. The reference comes first, so that
its failure precedes the warning that the comment may give. -/
def LoopParts.of (literal : Value → Except Failure String) (e : Expansion) : Outcome LoopParts := do
  let reference ← do literal (← e.midpointValue)
  let comment ← Comment.coefficientLines e
  let coeffs ← (e.coeffs.mapM literal : Except Failure (List String))
  let xMin ← literal e.xMin
  let xMax ← literal e.xMax
  return { reference, comment, count := Text.natText e.numCoeffs, coeffs, xMin, xMax }

end ClenshawCode
