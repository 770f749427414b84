import ClenshawCode.Expansion.Validation
import ClenshawCode.Language
import ClenshawCode.Program.C
import ClenshawCode.Program.Go
import ClenshawCode.Program.Python
import ClenshawCode.Program.Rust
import ClenshawCode.Program.Shader.Render

/-!
# Generating programs

An expansion that can be rendered is handed to the renderer of the target language.

## Main definitions

* `Language.render`: the renderer of a target
* `generate`: the program of an expansion in a target language
* `generateAll`: the programs of an expansion in all of them
-/

namespace ClenshawCode

/-- The renderer of a target; the expansion is not checked. -/
def Language.render : Language → Expansion → Outcome String
  | c => Program.C.render
  | go => Program.Go.render
  | shader => Shader.render
  | python => Program.Python.render
  | rust => Program.Rust.render

/-- The name of a target's renderer in messages about its arguments. -/
def Language.rendererName : Language → String
  | c => "generate_c_code"
  | go => "generate_go_code"
  | shader => "generate_glsl_hlsl_code"
  | python => "generate_python_code"
  | rust => "generate_rust_code"

/-- The renderer of a target called with a count of places, which only the shader takes. -/
def Language.renderWith (l : Language) (places : Option Value) (e : Expansion) : Outcome String :=
  match places with
  | none => l.render e
  | some places =>
    match l with
    | shader => Shader.renderWith places e
    | _ => Outcome.ofExcept (.error (.unexpectedArgument l.rendererName "fraction_digits"))

/-- The program of an expansion in a target language. -/
def generate (l : Language) (e : Expansion) : Outcome String := do
  let _ ← e.validate
  l.render e

/-- A target asked for by something that is no target. The message shows it. -/
def generateFor (target : Value) : Outcome String :=
  Outcome.ofExcept (.error (target.failureShowing Value.shownLevels (.notLanguage target)))

/-- The programs of an expansion in some target languages. -/
def generateEach (e : Expansion) : List Language → Outcome (List (Language × String))
  | [] => return []
  | l :: rest => do
    let code ← generate l e
    let others ← generateEach e rest
    return (l, code) :: others

/-- The programs of an expansion in all target languages, in display order. -/
def generateAll (e : Expansion) : Outcome (List (Language × String)) :=
  generateEach e Language.all

end ClenshawCode
