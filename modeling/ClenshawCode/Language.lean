import ClenshawCode.Failure

/-!
# Target languages

The languages that an evaluator can be generated in. The set is closed: each has one renderer.

## Main definitions

* `Language`: the five targets
* `Language.all`: the targets in display order
* `Language.title`, `Language.symbol`, `Language.fileExtension`: the names of a target
* `Language.ofValue`: the target that a value names
-/

namespace ClenshawCode

/-- The languages that an evaluator can be generated in. -/
inductive Language where
  | c
  | go
  | shader
  | python
  | rust
deriving DecidableEq, Repr

namespace Language

/-- The targets in display order. -/
def all : List Language := [.c, .go, .shader, .python, .rust]

/-- The name of a target for users. -/
def title : Language → String
  | c => "C"
  | go => "Go"
  | shader => "GLSL/HLSL"
  | python => "Python"
  | rust => "Rust"

/-- The title in capitals. -/
def heading : Language → String
  | c => "C"
  | go => "GO"
  | shader => "GLSL/HLSL"
  | python => "PYTHON"
  | rust => "RUST"

/-- The name of a target as an identifier. -/
def symbol : Language → String
  | shader => "GLSL_HLSL"
  | l => l.heading

/-- The suffix of files in a target language. -/
def fileExtension : Language → String
  | c => ".c"
  | go => ".go"
  | shader => ".glsl"
  | python => ".py"
  | rust => ".rs"

/-- The target that a value names by its title. -/
def ofValue (v : Value) : Except Failure Language :=
  match v with
  | .text s => match all.find? fun l => l.title == s with
    | some l => .ok l
    | none => .error (.notLanguageValue v)
  | _ => .error (.notLanguageValue v)

end Language

end ClenshawCode
