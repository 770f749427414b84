import ClenshawCode.Decimal.Numeral
import ClenshawCode.Failure
import ClenshawCode.Json.Text
import ClenshawCode.Value.Key

/-!
# Reading JSON

A text holds one value with blanks around it. Besides the numerals of the standard, the words `NaN`
and `Infinity` and the word `-Infinity` are values. Numerals with a point or an exponent are doubles
and all others are integers of any size. A key that an object has twice keeps its first place and
its last value.

Lists and objects are followed into one another down to a number of levels. The words for doubles
are looked up by a call, which takes a level as well.

A text that is no value is rejected with what was expected and the place at which it was expected.

## Main definitions

* `Json.Fault`: why a text was rejected
* `Json.numeral`: the longest numeral at the front of a text
* `Json.stringUnits`: the units of a string and the text behind it
* `Json.value`: the value at the front of a text and the text behind it
* `Json.read`: the value that a text holds
-/

namespace ClenshawCode.Json

/-- Why a text was rejected. -/
inductive Fault where
  /-- Something else was expected; the number tells how many characters were left there. -/
  | malformed (problem : String) (left : Nat)
  /-- An integer with more digits than are read. -/
  | tooLong (digits : Nat)
  /-- A list or object inside more others than are followed. -/
  | tooDeep (nesting : Nesting)

/-- The characters between the parts of a text that do not count. -/
def isSpace (c : Char) : Bool :=
  c = ' ' || c = '\t' || c = '\n' || c = '\r'

/-- A text without the blanks at its front. -/
def skipSpace (cs : List Char) : List Char := cs.dropWhile isSpace

/-- The fault that something else was expected at the front of a text. -/
def expected {α : Type} (problem : String) (cs : List Char) : Except Fault α :=
  .error (.malformed problem cs.length)

section Strings

/-- The units of a string whose opening quote has been read, and the text behind its closing quote.
The first argument is the number of characters that were left at the opening quote. -/
def stringUnits (start : Nat) : List Char → Except Fault (List Nat × List Char)
  | [] => .error (.malformed "Unterminated string starting at" start)
  | ['\\'] => .error (.malformed "Unterminated string starting at" start)
  | '\\' :: 'u' :: rest =>
    match rest with
    | a :: b :: c :: d :: behind =>
      match quad? a b c d with
      | some n =>
        if behind.isEmpty then expected "Invalid \\uXXXX escape" ('u' :: rest)
        else do
          let (units, left) ← stringUnits start behind
          return (n :: units, left)
      | none => expected "Invalid \\uXXXX escape" ('u' :: rest)
    | _ => expected "Invalid \\uXXXX escape" ('u' :: rest)
  | '\\' :: letter :: rest =>
    match escapedChar? letter with
    | some c => do
      let (units, left) ← stringUnits start rest
      return (c.toNat :: units, left)
    | none => expected "Invalid \\escape" ('\\' :: letter :: rest)
  | c :: rest =>
    if c = '\x22' then .ok ([], rest)
    else if c.toNat < 0x20 then expected "Invalid control character at" (c :: rest)
    else do
      let (units, left) ← stringUnits start rest
      return (c.toNat :: units, left)

/-- A string whose opening quote has been read, and the text behind it. -/
def stringBody (cs : List Char) : Except Fault (String × List Char) := do
  let (units, left) ← stringUnits (cs.length + 1) cs
  return (String.ofList (joinUnits units), left)

end Strings

section Numerals

/-- The digits at the front of a text. -/
def digits (cs : List Char) : List Char := cs.takeWhile Char.isDigit

/-- The integral part at the front of a text: zero alone, or digits of which the first is not
zero. -/
def wholePart (cs : List Char) : List Char :=
  match cs with
  | '0' :: _ => ['0']
  | _ => digits cs

/-- The fractional part at the front of a text: a point and at least one digit, or nothing. -/
def fractionPart (cs : List Char) : List Char :=
  match cs with
  | '.' :: rest => if (digits rest).isEmpty then [] else '.' :: digits rest
  | _ => []

/-- The exponent at the front of a text: a mark, an optional sign and at least one digit, or
nothing. -/
def exponentPart (cs : List Char) : List Char :=
  match cs with
  | mark :: rest =>
    if mark = 'e' || mark = 'E' then
      let sign := rest.take 1 |>.filter fun c => c = '+' || c = '-'
      let power := digits (rest.drop sign.length)
      if power.isEmpty then [] else mark :: (sign ++ power)
    else []
  | [] => []

/-- The parts of the longest numeral at the front of a text. -/
structure Numeral where
  negative : Bool
  whole : List Char
  fraction : List Char
  exponent : List Char

/-- The longest numeral at the front of a text. -/
def numeral? (cs : List Char) : Option Numeral :=
  let negative := cs.head? == some '-'
  let body := if negative then cs.drop 1 else cs
  let whole := wholePart body
  let fraction := fractionPart (body.drop whole.length)
  let exponent := exponentPart (body.drop (whole.length + fraction.length))
  if whole.isEmpty then none else some ⟨negative, whole, fraction, exponent⟩

/-- The number of characters of a numeral. -/
def Numeral.length (n : Numeral) : Nat :=
  (if n.negative then 1 else 0) + n.whole.length + n.fraction.length + n.exponent.length

/-- The number that a numeral stands for: an integer if it has neither a point nor an exponent. -/
def Numeral.value (n : Numeral) : Except Fault Value :=
  if n.fraction.isEmpty && n.exponent.isEmpty then
    if Text.maxDigits < n.whole.length then .error (.tooLong n.whole.length)
    else
      let magnitude : Int := Decimal.digitsValue n.whole
      .ok (.int (if n.negative then -magnitude else magnitude))
  else
    match Decimal.unsigned? (n.whole ++ n.fraction ++ n.exponent) with
    | some d => .ok (.float (Decimal.toFloat n.negative d))
    | none => .ok (.float Binary64.nan)

/-- The number at the front of a text and the text behind it. -/
def number (cs : List Char) : Except Fault (Value × List Char) :=
  match numeral? cs with
  | none => expected "Expecting value" cs
  | some n => do
    let v ← n.value
    return (v, cs.drop n.length)

end Numerals

section Values

/-- The words that are values. -/
def words : List (List Char × Value) :=
  [("null".toList, .null), ("true".toList, .bool true), ("false".toList, .bool false),
    ("NaN".toList, .nan .json), ("Infinity".toList, .float (Binary64.infinity false)),
    ("-Infinity".toList, .float (Binary64.infinity true))]

/-- The word, number or string at the front of a text and the text behind it. -/
def plainValue (cs : List Char) : Except Fault (Value × List Char) :=
  match cs with
  | '\x22' :: rest => do
    let (s, left) ← stringBody rest
    return (.text s, left)
  | _ =>
    match words.find? fun word => word.1.isPrefixOf cs with
    | some word => .ok (word.2, cs.drop word.1.length)
    | none => number cs

/-- Whether a text begins with a word for a double. -/
def beginsWithDouble (cs : List Char) : Bool :=
  match words.find? fun word => word.1.isPrefixOf cs with
  | some (_, .float _) => true
  | some (_, .nan _) => true
  | _ => false

/-- The value at the front of a text that is no list and no object, and the text behind it. -/
def leafValue (depth : Nat) (cs : List Char) : Except Fault (Value × List Char) :=
  if depth = 0 && beginsWithDouble cs then .error (.tooDeep .called) else plainValue cs

mutual

/-- The value at the front of a text and the text behind it. The first argument bounds the number
of characters, the second one the lists and objects inside one another. -/
def value : (fuel depth : Nat) → List Char → Except Fault (Value × List Char)
  | _ + 1, 0, '[' :: _ => .error (.tooDeep .jsonList)
  | _ + 1, 0, '\x7b' :: _ => .error (.tooDeep .jsonTable)
  | fuel + 1, depth + 1, '[' :: rest =>
    match skipSpace rest with
    | ']' :: left => .ok (.list [], left)
    | first => do
      let (items, left) ← listItems fuel depth first
      return (.list items, left)
  | fuel + 1, depth + 1, '\x7b' :: rest =>
    match skipSpace rest with
    | '\x7d' :: left => .ok (.dict [], left)
    | first => do
      let (entries, left) ← objectEntries fuel depth first
      return (.dict (Value.ofPairs entries), left)
  | _, depth, cs => leafValue depth cs

/-- The items of a list from the first one on, and the text behind the closing bracket. -/
def listItems : (fuel depth : Nat) → List Char → Except Fault (List Value × List Char)
  | 0, _, cs => expected "Expecting value" cs
  | fuel + 1, depth, cs => do
    let (item, behind) ← value fuel depth cs
    match skipSpace behind with
    | ']' :: left => return ([item], left)
    | ',' :: next =>
      let (items, left) ← listItems fuel depth (skipSpace next)
      return (item :: items, left)
    | other => expected "Expecting ',' delimiter" other

/-- The entries of an object from the first one on, and the text behind the closing brace. -/
def objectEntries :
    (fuel depth : Nat) → List Char → Except Fault (List (Value × Value) × List Char)
  | 0, _, cs => expected "Expecting value" cs
  | fuel + 1, depth, cs =>
    match cs with
    | '\x22' :: rest => do
      let (key, behind) ← stringBody rest
      match skipSpace behind with
      | ':' :: next =>
        let (v, behind) ← value fuel depth (skipSpace next)
        match skipSpace behind with
        | '\x7d' :: left => return ([(.text key, v)], left)
        | ',' :: next =>
          let (entries, left) ← objectEntries fuel depth (skipSpace next)
          return ((.text key, v) :: entries, left)
        | other => expected "Expecting ',' delimiter" other
      | other => expected "Expecting ':' delimiter" other
    | other => expected "Expecting property name enclosed in double quotes" other

end

end Values

/-- The place behind some characters of a text: lines are ended by line feeds alone. -/
def placeAfter (cs : List Char) : Place where
  line := cs.count '\n' + 1
  column := (cs.reverse.takeWhile (· ≠ '\n')).length + 1
  index := cs.length

/-- A fault in a text as a failure. -/
def Fault.failure (cs : List Char) : Fault → Failure
  | malformed problem left => .jsonSyntax problem (placeAfter (cs.take (cs.length - left)))
  | tooLong digits => .tooManyDigits digits
  | tooDeep nesting => .tooDeep nesting

/-- The value that a text holds, and nothing behind it. -/
def readAll (depth : Nat) (cs : List Char) : Except Fault Value := do
  -- A byte order mark is no blank and has a message of its own.
  if cs.head? = some '\uFEFF' then expected "Unexpected UTF-8 BOM (decode using utf-8-sig)" cs
  let (v, behind) ← value (cs.length + 1) depth (skipSpace cs)
  let left := skipSpace behind
  if left.isEmpty then return v else expected "Extra data" left

/-- The value that a text holds, with lists and objects inside one another down to so many
levels. -/
def read (depth : Nat) (s : String) : Except Failure Value :=
  match readAll depth s.toList with
  | .ok v => .ok v
  | .error fault => .error (fault.failure s.toList)

end ClenshawCode.Json
