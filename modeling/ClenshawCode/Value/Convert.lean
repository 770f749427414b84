import ClenshawCode.Decimal.Numeral
import ClenshawCode.Failure
import ClenshawCode.Value.Key

/-!
# Values as numbers and as sequences

Conversions that the rest of the library asks of a value, and what it says when a value does not
allow them: a double, the items of a sequence, its length and the item at a place. A sequence of
bytes can be a numeral, and its items are the numbers of its bytes.

## Main definitions

* `Value.toFloat`, `Value.toDouble`: a number or a numeral as a double
* `Value.isFinite`: whether a number is finite as a double
* `Value.items`: the items of a list, the characters of a text, the keys of a table, and so on
* `Value.length`, `Value.item`: the length of a sequence and its item at a place
-/

namespace ClenshawCode.Value

/-- Whether a byte may stand in a numeral. The separators of files, groups, records and units count
as blanks in a text, but not among bytes. -/
def isNumeralByte (b : UInt8) : Bool := b < 0x80 && !(0x1C ≤ b && b ≤ 0x1F)

/-- The double that a sequence of bytes stands for, if it is a numeral in ASCII. -/
def bytesNumeral? (content : List UInt8) : Option Float :=
  if content.all isNumeralByte then
    Decimal.readNumeral? (String.ofList (content.map fun b => Char.ofNat b.toNat))
  else none

/-- A number rounded to a double, or the double that a numeral stands for. -/
def toFloat : Value → Except Failure Float
  | float x => .ok x
  | nan _ => .ok Binary64.nan
  | int n => match Binary64.ofInt? n with
    | some x => .ok x
    | none => .error .intTooLarge
  | bool b => .ok (if b then 1 else 0)
  | text s => match Decimal.readNumeral? s with
    | some x => .ok x
    | none => .error (.notNumeral s)
  | bytes content => match bytesNumeral? content with
    | some x => .ok x
    | none => .error (.notNumeralBytes content)
  | v => .error (.notNumber v.kind)

/-- A value as a double. One that is a double already is left as it is, so that what is no number
keeps its origin. -/
def toDouble : Value → Except Failure Value
  | nan origin => .ok (nan origin)
  | v => do
    let x ← v.toFloat
    return float x

/-- Whether a number is finite as a double; an integer has to be within the range of doubles. -/
def isFinite : Value → Except Failure Bool
  | float x => .ok (Binary64.isFinite x)
  | nan _ => .ok false
  | int n => match Binary64.ofInt? n with
    | some _ => .ok true
    | none => .error .intTooLarge
  | bool _ => .ok true
  | v => .error (.notReal v.kind)

/-- The items of a list, the characters of a text, the members of a set, the keys of a table. -/
def items : Value → Except Failure (List Value)
  | list xs => .ok xs
  | tuple xs => .ok xs
  | text s => .ok (s.toList.map fun c => text (String.singleton c))
  | bytes content => .ok (content.map fun b => int b.toNat)
  | set members => .ok members
  | dict entries => .ok (entries.map Prod.fst)
  | v => .error (.notIterable v.kind)

/-- The number of items of a sequence or of entries of a table. -/
def length : Value → Except Failure Nat
  | list xs => .ok xs.length
  | tuple xs => .ok xs.length
  | text s => .ok s.toList.length
  | bytes content => .ok content.length
  | set members => .ok members.length
  | dict entries => .ok entries.length
  | v => .error (.noLength v.kind)

/-- The item of a sequence at a place, or the value of a table for that number as a key. -/
def item (v : Value) (i : Nat) : Except Failure Value :=
  match v with
  | list xs => match xs[i]? with
    | some x => .ok x
    | none => .error (.outOfRange "list")
  | tuple xs => match xs[i]? with
    | some x => .ok x
    | none => .error (.outOfRange "tuple")
  | text s => match s.toList[i]? with
    | some c => .ok (text (String.singleton c))
    | none => .error (.outOfRange "string")
  | bytes content => match content[i]? with
    | some b => .ok (int b.toNat)
    | none => .error (.outOfRange "bytes")
  | dict entries => match find? true (int i) entries with
    | some x => .ok x
    | none => .error (.missingKey (int i))
  | v => .error (.notIndexable v.kind)

/-- The integer that a value is. -/
def toInt : Value → Except Failure Int
  | int n => .ok n
  | bool b => .ok (if b then 1 else 0)
  | v => .error (.notInteger v.kind)

end ClenshawCode.Value
