import ClenshawCode.Expansion.Basic
import ClenshawCode.Json.Reader
import ClenshawCode.Json.Writer
import ClenshawCode.Yaml.Reader
import ClenshawCode.Yaml.Writer

/-!
# Saved expansions

An expansion is saved as a table with its description, its bounds and its coefficients, in which all
numbers are doubles. A table is read back by converting everything that is to be a number; texts
that are numerals will do. The reference function is not saved.

How deep a table in JSON can be depends on what is going on around, as a caller that is itself deep
in a computation leaves fewer levels. The number of levels is an argument, and it has a name for
calls from outside of any computation.

## Main definitions

* `Expansion.toRecord`: an expansion as a table
* `Expansion.ofRecord`: the expansion that a table describes
* `Expansion.toJsonWithin`, `Expansion.ofJsonWithin`: the same in JSON down to so many levels
* `Expansion.toJson`, `Expansion.ofJson`: the same in JSON with all levels
* `Expansion.toYaml`, `Expansion.ofYaml`: the same in YAML
* `Expansion.reload`: an expansion saved and read back
-/

namespace ClenshawCode

/-- The lists and tables inside one another that are read and written in JSON. -/
def Json.maxDepth : Nat := 994

namespace Expansion

/-- Values as doubles, up to the first one that cannot be converted. -/
def doubles : List Value → Except Failure (List Value)
  | [] => .ok []
  | v :: rest => do
    let x ← v.toDouble
    let others ← doubles rest
    return x :: others

/-- An expansion as a table. -/
def toRecord (e : Expansion) : Except Failure Document := do
  let xMin ← e.xMin.toDouble
  let xMax ← e.xMax.toDouble
  let coeffs ← doubles e.coeffs
  let record := Value.ofFields [("description", e.description), ("x_min", xMin), ("x_max", xMax),
    ("coeffs", .list coeffs)]
  return ⟨record, e.cells⟩

/-- The value that a table has to hold for a name. -/
def field (name : String) (entries : List (Value × Value)) : Except Failure Value :=
  match Value.find? true (.text name) entries with
  | some v => .ok v
  | none => .error (.missingKey (.text name))

/-- The expansion that a table describes. -/
def ofRecord (record : Document) : Except Failure Expansion :=
  match record.cells.resolve record.root with
  | .dict entries => do
    let given ← (record.cells.resolve (← field "coeffs" entries)).items
    let coeffs ← doubles given
    let xMin ← (← field "x_min" entries).toDouble
    let xMax ← (← field "x_max" entries).toDouble
    -- A description is kept as it is, whatever it may be; only numbers are converted.
    let description := (Value.find? true (.text "description") entries).getD (.text "")
    return { coeffs, xMin, xMax, description, cells := record.cells }
  | v => .error (.notMapping v.kind)

/-- An expansion in JSON, down to so many levels. -/
def toJsonWithin (levels : Nat) (e : Expansion) : Except Failure String := do
  let record ← e.toRecord
  Json.write levels (record.cells.unfold record.root)

/-- An expansion in JSON. -/
def toJson (e : Expansion) : Except Failure String := e.toJsonWithin Json.maxDepth

/-- The expansion that a text in JSON describes, down to so many levels. -/
def ofJsonWithin (levels : Nat) (s : String) : Except Failure Expansion := do
  let root ← Json.read levels s
  ofRecord { root }

/-- The expansion that a text in JSON describes. -/
def ofJson (s : String) : Except Failure Expansion := ofJsonWithin Json.maxDepth s

/-- An expansion in YAML. -/
def toYaml (e : Expansion) : Except Failure String := do
  let record ← e.toRecord
  Yaml.write record

/-- The expansion that a text in YAML describes. -/
def ofYaml (s : String) : Except Failure Expansion := do
  let record ← Yaml.read s
  ofRecord record

/-- The three ways to save an expansion. -/
inductive Route where
  | record
  | json
  | yaml
deriving DecidableEq, Repr

/-- An expansion saved and read back. -/
def throughRoute (route : Route) (e : Expansion) : Except Failure Expansion :=
  match route with
  | .record => do
    let record ← e.toRecord
    ofRecord record
  | .json => do
    let text ← e.toJson
    ofJson text
  | .yaml => do
    let text ← e.toYaml
    ofYaml text

/-- Whether a value is the one that it was converted to. Every double is the very one that it was
converted to, also if it is no number. -/
def keptAs (v w : Value) : Bool :=
  match v with
  | .float _ => true
  | _ => Value.sameKey true v w

/-- Whether all parts of an expansion are those that they were converted to. The description is not
converted at all. -/
def unchanged (e loaded : Expansion) : Bool :=
  (e.coeffs.zip loaded.coeffs).all (fun pair => keptAs pair.1 pair.2) &&
    keptAs e.xMin loaded.xMin && keptAs e.xMax loaded.xMax

/-- An expansion saved and read back, and whether the result is equal to it. A table holds the parts
of the expansion themselves; everything else holds parts made anew. -/
def reload (route : Route) (e : Expansion) : Except Failure (Expansion × Bool) := do
  let loaded ← e.throughRoute route
  match route with
  | .record => return (loaded, unchanged e loaded)
  | _ =>
    let equal ← e.same loaded
    return (loaded, equal)

end Expansion

end ClenshawCode
