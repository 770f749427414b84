import ClenshawCode.Binary64
import ClenshawCode.Moment

/-!
# Values

What a caller or a file can supply where an expansion wants a number, a list of numbers or a text.
Nothing is checked on the way in, so a bound may be a text and a description a table; the operations
that need a number or a text say what they were given instead.

A document may mention one list, table or set many times, even within itself. Such a value is held
apart under a number, and everything that mentions it refers to it by that number. Moments remember
the place at which they were written instead, by which two mentions of one moment are known.

## Main definitions

* `Value`: absent, truth values, integers, doubles, texts, bytes, moments and collections
* `Value.Kind`, `Value.kind`: the kind of a value, with the two names that messages give it
* `Value.Number`, `Value.number?`: the integer or double that a value is
* `Value.exactly?`: the number that a value is exactly
-/

namespace ClenshawCode

namespace Value

/-- The kinds of values. -/
inductive Kind where
  | null
  | bool
  | int
  | float
  | text
  | bytes
  | list
  | tuple
  | set
  | dict
  | date
  | dateTime
deriving DecidableEq, Repr, Inhabited

/-- The name of a kind. -/
def Kind.name : Kind → String
  | .null => "NoneType"
  | .bool => "bool"
  | .int => "int"
  | .float => "float"
  | .text => "str"
  | .bytes => "bytes"
  | .list => "list"
  | .tuple => "tuple"
  | .set => "set"
  | .dict => "dict"
  | .date => "date"
  | .dateTime => "datetime"

/-- The name of a kind with that of the family it belongs to. -/
def Kind.fullName : Kind → String
  | .date => "datetime.date"
  | .dateTime => "datetime.datetime"
  | k => k.name

/-- Where a double that is no number comes from, if all from there are one and the same. -/
inductive Origin where
  /-- The word for it in JSON. -/
  | json
  /-- The word for it in YAML. -/
  | yaml
  /-- A scalar of a document that is read as a numeral, by the place of the scalar. -/
  | scalar (place : Nat)
deriving DecidableEq, Repr

end Value

/-- What a caller or a file can supply. -/
inductive Value where
  | null
  | bool (b : Bool)
  | int (n : Int)
  | float (x : Float)
  /-- A double that is no number and comes from a known place. -/
  | nan (origin : Value.Origin)
  | text (s : String)
  | bytes (content : List UInt8)
  | moment (place : Option Nat) (m : Moment)
  | list (items : List Value)
  | tuple (items : List Value)
  | set (members : List Value)
  | dict (entries : List (Value × Value))
  /-- A collection that is held apart under a number. -/
  | shared (kind : Value.Kind) (number : Nat)
deriving Inhabited

namespace Value

/-- The kind of a value. -/
def kind : Value → Kind
  | null => .null
  | bool _ => .bool
  | int _ => .int
  | float _ => .float
  | nan _ => .float
  | text _ => .text
  | bytes _ => .bytes
  | moment _ m => if m.time.isSome then .dateTime else .date
  | list _ => .list
  | tuple _ => .tuple
  | set _ => .set
  | dict _ => .dict
  | shared kind _ => kind

/-- An integer or a double. -/
inductive Number where
  | int (n : Int)
  | float (x : Float)

/-- The number that a value is; a truth value counts as one or zero. -/
def number? : Value → Option Number
  | bool b => some (.int (if b then 1 else 0))
  | int n => some (.int n)
  | float x => some (.float x)
  | nan _ => some (.float Binary64.nan)
  | _ => none

/-- The number that an integer or double is exactly. -/
def Number.exact : Number → Binary64.Exact
  | .int n => .finite n
  | .float x => Binary64.exact x

/-- The number that a value is exactly. -/
def exactly? (v : Value) : Option Binary64.Exact :=
  v.number?.map Number.exact

/-- A table with texts as keys. -/
def ofFields (fields : List (String × Value)) : Value :=
  dict (fields.map fun field => (text field.1, field.2))

end Value

end ClenshawCode
