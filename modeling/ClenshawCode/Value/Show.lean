import ClenshawCode.Decimal.Layout
import ClenshawCode.Text.Quoted
import ClenshawCode.Text.Blank
import ClenshawCode.Value.Basic

/-!
# Values in words

How a value appears in a message: texts in quotes, lists in brackets, tables in braces with their
entries in order. A value that is itself the whole message appears without quotes. A collection that
is held apart appears as three dots: it is one of those around it.

## Main definitions

* `Value.floatLayout`: the layout of doubles in messages and in generated programs
* `Value.shown`: a value as part of a message
* `Value.plainText`: a value as a text of its own
-/

namespace ClenshawCode.Value

/-- Doubles in messages and in generated programs: `1e-07`, `inf`, `nan`. -/
def floatLayout : Decimal.Layout where
  pointBeforeExponent := false
  infinity := "inf"
  nan := "nan"

/-- A truth value as a word. -/
def boolText (b : Bool) : String := if b then "True" else "False"

/-- A text between braces. -/
def inBraces (s : String) : String := "\x7b" ++ s ++ "\x7d"

/-- A fixed sequence of texts; a single one is followed by a comma. -/
def tupleText : List String → String
  | [s] => "(" ++ s ++ ",)"
  | parts => "(" ++ Text.join ", " parts ++ ")"

/-- The members of a set; an empty one must not look like an empty table. -/
def setText : List String → String
  | [] => "set()"
  | parts => inBraces (Text.join ", " parts)

/-- A collection that is one of those around it. -/
def againText : Kind → String
  | .dict => inBraces "..."
  | .set => "set(...)"
  | .tuple => "(...)"
  | _ => "[...]"

mutual

/-- A value as part of a message. -/
def shown : Value → String
  | null => "None"
  | bool b => boolText b
  | int n => Text.intText n
  | float x => floatLayout.render x
  | nan _ => floatLayout.nan
  | text s => Text.quoted s
  | bytes content => Text.quotedBytes content
  | moment _ m => m.shown
  | list items => "[" ++ Text.join ", " (shownItems items) ++ "]"
  | tuple items => tupleText (shownItems items)
  | set members => setText (shownItems members)
  | dict entries => inBraces (Text.join ", " (shownEntries entries))
  | shared kind _ => againText kind

/-- The values of a list, each as part of a message. -/
def shownItems : List Value → List String
  | [] => []
  | v :: rest => shown v :: shownItems rest

/-- The entries of a table, each as part of a message. -/
def shownEntries : List (Value × Value) → List String
  | [] => []
  | (k, v) :: rest => (shown k ++ ": " ++ shown v) :: shownEntries rest

end

/-- A value as a text of its own: a text as it is, a moment in its usual form, any other value as
part of a message. -/
def plainText : Value → String
  | text s => s
  | moment _ m => m.text
  | v => v.shown

/-- A fixed sequence of values as part of a message. -/
def shownTuple (items : List Value) : String := tupleText (shownItems items)

end ClenshawCode.Value
