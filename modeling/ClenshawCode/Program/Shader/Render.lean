import ClenshawCode.Comment
import ClenshawCode.Program.Shader.Syntax

/-!
# Shader programs

Classic shader dialects restrict loops that index arrays of literals, so a shader gets the straight
line of the recurrence: one accumulator per step, with the mapping of the argument folded into
constants. Every number has a fixed count of places and the suffix of single precision. A snippet
that plots the function follows, switched off.

## Main definitions

* `Shader.defaultPlaces`: the count of places unless another is asked for
* `Shader.body`: the lines of the evaluator's body
* `Shader.render`: the shader of an expansion
-/

namespace ClenshawCode.Shader

/-- The count of places unless another is asked for. -/
def defaultPlaces : Nat := 10

/-- The name of a coefficient. -/
def coefficientName (i : Nat) : String := "c" ++ Text.natText i

/-- The name of an accumulator. -/
def accumulatorName (i : Nat) : String := "d_i" ++ Text.natText i

/-- The value that a step assigns, as an expression. -/
def stepExpr (step : Step) : Expr :=
  let coefficient := Expr.name (coefficientName step.index)
  let product := times (.name "xRel2") (.name (accumulatorName (step.index + 1)))
  match step.kind with
  | .boundary => .literal "0.0f"
  | .leading => coefficient
  | .second => plus product coefficient
  | .general => minus (plus product coefficient) (.name (accumulatorName (step.index + 2)))

/-- A step as a line. -/
def stepLine (step : Step) : Line :=
  .declare false (accumulatorName step.index) 0 (stepExpr step)
    (if step.kind = .boundary then none else some step.index)

/-- The declarations of the coefficients, the first of which has index `i`. -/
def coefficientLines : (i : Nat) → (literals : List String) → List Line
  | _, [] => []
  | i, literal :: rest =>
    .declare true (coefficientName i) 0 (.literal literal) none :: coefficientLines (i + 1) rest

/-- The declarations of the bounds and of the constants that map the argument. -/
def mappingLines (xMin xMax : String) : List Line :=
  [.declare true "xMin" 0 (.literal xMin) none,
    .declare true "xMax" 0 (.literal xMax) none,
    .declare true "k" 3
      (dividedBy (.literal "1.0f") (.group (minus (.name "xMax") (.name "xMin")))) none,
    .declare true "a" 3 (times (.literal "4.0f") (.name "k")) none,
    .declare true "b" 3 (minus (times (times (.literal "-4.0f") (.name "xMin")) (.name "k"))
      (.literal "2.0f")) none,
    .blank,
    .declare false "xRel2" 0 (plus (times (.name "a") (.name "x")) (.name "b")) none]

/-- The value of the expansion from the last two accumulators. -/
def resultLine : Line :=
  .result (plus (minus (times (times (.literal "0.5f") (.name "xRel2")) (.name (accumulatorName 1)))
    (.name (accumulatorName 2))) (.group (times (.literal "0.5f") (.name (coefficientName 0)))))

/-- The lines of the evaluator's body. -/
def body (comment coeffs : List String) (xMin xMax : String) : List Line :=
  comment.map Line.comment ++ coefficientLines 0 coeffs ++ [.blank] ++ mappingLines xMin xMax ++
    [.blank] ++ (unrolledSteps coeffs.length).map stepLine ++ [resultLine]

/-- The snippet that plots the function, switched off. -/
def plotLines (xMin xMax : String) : List String :=
  ["#if 0",
    "// ShaderToy compatible function",
    "void mainImage( out vec4 fragColor, in vec2 fragCoord )",
    "\x7b",
    "    const float xMin = " ++ xMin ++ ";",
    "    const float xMax = " ++ xMax ++ ";",
    "",
    "    vec2 uv;",
    "    uv.x = (fragCoord.x - iResolution.x * 0.5f) / iResolution.y + 0.5f;",
    "    uv.y =  fragCoord.y                         / iResolution.y;",
    "",
    "    vec3 c = vec3(0.8f);",
    "    float x = uv.x * (xMax - xMin) + xMin;",
    "    if(x >= xMin && x <= xMax) \x7b",
    "        float delta = chebyshevEval(x) * 0.5f + 0.5f - fragCoord.y / iResolution.y;",
    "        c *= clamp(abs(delta * iResolution.y), 0.0f, 1.0f);",
    "    \x7d",
    "    fragColor = vec4(c, 1.0);",
    "\x7d",
    "#endif"]

/-- The lines of the shader. -/
def lines (comment coeffs : List String) (xMin xMax : String) : List String :=
  Comment.block Comment.evaluatorLines "//" "" ++ ["float chebyshevEval(float x) \x7b"] ++
    (body comment coeffs xMin xMax).map Line.text ++ ["\x7d", ""] ++ plotLines xMin xMax

/-- The shader of an expansion with a given count of places. The bounds are written first, so that
their failure precedes the warning that the comment may give. -/
def renderWith (places : Value) (e : Expansion) : Outcome String := do
  let xMin ← Literal.fixedSingle e.xMin places
  let xMax ← Literal.fixedSingle e.xMax places
  let comment ← Comment.coefficientLines e
  let coeffs ←
    (e.coeffs.mapM fun c => Literal.fixedSingle c places : Except Failure (List String))
  return Text.join "\n" (lines comment coeffs xMin xMax)

/-- The shader of an expansion. -/
def render (e : Expansion) : Outcome String := renderWith (.int defaultPlaces) e

end ClenshawCode.Shader
