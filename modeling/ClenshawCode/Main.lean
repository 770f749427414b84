import ClenshawCode.Demo

/-!
# The command line

The demonstration with the files of the current directory.
-/

namespace ClenshawCode

/-- The content of the file that the first argument names, if there is such a file. -/
def contentOf (args : List String) : IO (Option String) := do
  match args with
  | [] => return none
  | path :: _ =>
    try
      let content ← IO.FS.readFile path
      return some content
    catch _ => return none

/-- Prints and saves what a run of the demonstration asks for. -/
def carryOut (report : Demo.Report) : IO UInt32 := do
  IO.print report.printed
  for file in report.files do
    IO.FS.writeFile file.1 file.2
  for w in report.warnings do
    IO.eprintln w.message
  match report.failure with
  | none => return 0
  | some failure =>
    IO.eprintln failure.message
    return 1

end ClenshawCode

/-- Runs the demonstration. -/
def main (args : List String) : IO UInt32 := do
  let content ← ClenshawCode.contentOf args
  ClenshawCode.carryOut (ClenshawCode.Demo.run (fun _ => content) args)
