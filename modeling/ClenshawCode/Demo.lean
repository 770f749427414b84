import ClenshawCode.Expansion.Samples
import ClenshawCode.Generate
import ClenshawCode.Record

/-!
# The demonstration

A program that shows what the generators do: it takes an expansion from a file, or a sample when no
file is named, prints the generated program in every target language and saves each in a file of its
own. Here it is a function from its arguments and the files at hand to what it prints and saves.

## Main definitions

* `Demo.load`: the expansion that the arguments name
* `Demo.Report`: what a run prints and saves, and how it ends
* `Demo.run`: a run of the demonstration
-/

namespace ClenshawCode.Demo

/-- What a run prints and saves, in order, what it warns of, and the failure that ended it, if there
was one. -/
structure Report where
  printed : String
  files : List (String × String)
  warnings : List Warning
  failure : Option Failure

/-- A line of one character from margin to margin. -/
def rule (c : Char) : String := String.ofList (List.replicate 80 c ++ ['\n'])

/-- What is printed first. -/
def opening : String := rule '=' ++ "CHEBYSHEV CODE GENERATOR DEMO\n" ++ rule '='

/-- What is printed before the program in a target language. -/
def heading (l : Language) : String := "\n" ++ l.heading ++ ":\n" ++ rule '-'

/-- The file that the program in a target language is saved in. -/
def fileName (l : Language) : String := "chebyshev_eval" ++ l.fileExtension

/-- What is printed after the last program. -/
def closing : String :=
  "\n" ++ rule '=' ++ "To run the generated programs:\n" ++
    "  gcc chebyshev_eval.c -o chebyshev_eval && ./chebyshev_eval\n" ++
    "  go run chebyshev_eval.go\n" ++ "  python chebyshev_eval.py\n" ++
    "  rustc chebyshev_eval.rs && ./chebyshev_eval\n" ++ rule '='

/-- The programs in some target languages, one after another. -/
def showEach (e : Expansion) : List Language → Report
  | [] => ⟨closing, [], [], none⟩
  | l :: rest =>
    let outcome := generate l e
    match outcome.result with
    | .error failure => ⟨heading l, [], outcome.warnings, some failure⟩
    | .ok code =>
      let others := showEach e rest
      ⟨heading l ++ code ++ "\n\nSaved to: " ++ fileName l ++ "\n" ++ others.printed,
        (fileName l, code ++ "\n") :: others.files, outcome.warnings ++ others.warnings,
        others.failure⟩

/-- The expansion that a file holds. The suffix of its name tells the format. -/
def readFile (path content : String) : Except Failure Expansion :=
  let text := String.ofList (Text.unifyLineEnds content.toList)
  if ".json".toList.isSuffixOf path.toList then Expansion.ofJson text else Expansion.ofYaml text

/-- The expansion that the first argument names, or a sample if there is none. -/
def load (find? : String → Option String) : (args : List String) → Except Failure Expansion
  | [] => .ok Expansion.quadratic
  | path :: _ => match find? path with
    | some content => readFile path content
    | none => .error (.missingFile path)

/-- A run of the demonstration with some files at hand. -/
def run (find? : String → Option String) (args : List String) : Report :=
  match load find? args with
  | .error failure => ⟨"", [], [], some failure⟩
  | .ok e =>
    let shown := showEach e Language.all
    { shown with printed := opening ++ shown.printed }

end ClenshawCode.Demo
