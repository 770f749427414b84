import ClenshawCode.Json.Text
import ClenshawCode.Value.Order
import ClenshawCode.Value.Show

/-!
# Writing JSON

A value is written on one line in ASCII, with a space after every comma and colon and with the
entries of an object by key. Keys that are numbers, truth values or absent are written as strings,
after they have been sorted as what they are. Bytes, moments and sets cannot be written, and neither
can a list or table that is met within itself, nor an integer with very many digits.

Lists and tables are followed into one another down to a number of levels. Sorting takes a level as
well, so that a table with several entries cannot stand at the last one.

## Main definitions

* `Json.floatLayout`: the layout of doubles
* `Json.keyText`: a key as a string
* `Json.write`: a value as a text
-/

namespace ClenshawCode.Json

/-- Doubles in JSON: `1e-07`, `Infinity`, `NaN`. -/
def floatLayout : Decimal.Layout where
  pointBeforeExponent := false
  infinity := "Infinity"
  nan := "NaN"

/-- A text between double quotes. -/
def quoted (s : String) : String := String.ofList (encode s.toList)

/-- A truth value as a word. -/
def boolText (b : Bool) : String := if b then "true" else "false"

/-- An integer, unless it has too many digits. -/
def intText (n : Int) : Except Failure String :=
  if Text.isWritable n then .ok (Text.intText n) else .error .tooManyWritten

/-- A key as a string. -/
def keyText : Value → Except Failure String
  | .text s => .ok (quoted s)
  | .null => .ok (quoted "null")
  | .bool b => .ok (quoted (boolText b))
  | .int n => (intText n).map quoted
  | .float x => .ok (quoted (floatLayout.render x))
  | .nan _ => .ok (quoted floatLayout.nan)
  | key => .error (.jsonKey key.kind)

/-- The items of a list between brackets, unless one of them cannot be written. -/
def bracketed (items : List (Except Failure String)) : Except Failure String := do
  let parts ← items.mapM id
  return "[" ++ Text.join ", " parts ++ "]"

/-- An entry of an object. -/
def entryText (entry : Value × Except Failure String) : Except Failure String := do
  let key ← keyText entry.1
  let v ← entry.2
  return key ++ ": " ++ v

/-- The entries of an object by key between braces, unless one of them cannot be written. -/
def braced (entries : List (Value × Except Failure String)) : Except Failure String := do
  let sorted ← insertionSort (fun a b => Value.lt a.1 b.1) entries
  let parts ← sorted.mapM entryText
  return "\x7b" ++ Text.join ", " parts ++ "\x7d"

mutual

/-- A value as a text, with lists and tables inside one another down to so many levels. A collection
that is held apart is one of those around it. -/
def write : (levels : Nat) → Value → Except Failure String
  | _, .null => .ok "null"
  | _, .bool b => .ok (boolText b)
  | _, .int n => intText n
  | _, .float x => .ok (floatLayout.render x)
  | _, .nan _ => .ok floatLayout.nan
  | _, .text s => .ok (quoted s)
  | levels + 1, .list items => bracketed (writeItems levels items)
  | levels + 1, .tuple items => bracketed (writeItems levels items)
  | levels + 1, .dict entries =>
    if levels = 0 && 2 ≤ entries.length then .error (.tooDeep .comparison)
    else braced (writeEntries levels entries)
  | _ + 1, .shared .. => .error .jsonCycle
  | 0, .list _ => .error (.tooDeep .jsonWriting)
  | 0, .tuple _ => .error (.tooDeep .jsonWriting)
  | 0, .dict _ => .error (.tooDeep .jsonWriting)
  | 0, .shared .. => .error (.tooDeep .jsonWriting)
  | _, .bytes _ => .error (.jsonValue .bytes)
  | _, .set _ => .error (.jsonValue .set)
  | _, .moment place m => .error (.jsonValue (Value.moment place m).kind)

/-- The items of a list, each as a text or a failure. -/
def writeItems (levels : Nat) : List Value → List (Except Failure String)
  | [] => []
  | v :: rest => write levels v :: writeItems levels rest

/-- The entries of a table, each with its value as a text or a failure. -/
def writeEntries (levels : Nat) : List (Value × Value) → List (Value × Except Failure String)
  | [] => []
  | (k, v) :: rest => (k, write levels v) :: writeEntries levels rest

end

end ClenshawCode.Json
