import ClenshawCode.Text.Base64
import ClenshawCode.Text.LowerCase
import ClenshawCode.Value.Convert
import ClenshawCode.Yaml.Scalar.Moment
import ClenshawCode.Yaml.Tag

/-!
# What scalars mean

The value of a scalar under each tag. Numbers may hold underscores, and numbers with colons are
written to base sixty. Integers may be written in base two, eight or sixteen, and bytes as letters
to base sixty-four. A scalar that does not have the form that its tag asks for fails as the reading
of such a value fails elsewhere.

## Main definitions

* `Yaml.readBool`, `Yaml.readInt`, `Yaml.readFloat`, `Yaml.readMoment`, `Yaml.readBytes`: the values
  by tag
* `Yaml.scalarValue`: the value of a scalar
-/

namespace ClenshawCode.Yaml

/-- A node that does not mean anything. -/
def meaningless {α : Type} (problem : String) : Except Failure α :=
  .error (.document .values problem)

/-- The words for truth values, in lower case. -/
def boolWords : List (String × Bool) :=
  [("yes", true), ("no", false), ("true", true), ("false", false), ("on", true), ("off", false)]

/-- A truth value. The case of letters does not count. -/
def readBool (s : String) : Except Failure Value :=
  let word := String.ofList (Text.toLowerCase [] s.toList)
  match boolWords.lookup word with
  | some b => .ok (.bool b)
  | none => .error (.missingKey (.text word))

/-- The sign and the rest of a number, in which underscores do not count. -/
def splitSign (cs : List Char) : Except Failure (Bool × List Char) :=
  match cs with
  | [] => .error (.outOfRange "string")
  | '-' :: rest => .ok (true, rest)
  | '+' :: rest => .ok (false, rest)
  | _ => .ok (false, cs)

/-- An integer in a base. -/
def readDigits (base : Nat) (cs : List Char) : Except Failure Int :=
  match Decimal.readInt? base (String.ofList cs) with
  | none => .error (.notIntegerText base (String.ofList cs))
  | some n =>
    -- Bases that are powers of two have no limit.
    let count := cs.countP fun c => (Text.digitValue? c).isSome
    if base = 10 && Text.maxDigits < count then .error (.tooManyDigits count) else .ok n

/-- The parts of a text between colons. -/
def splitColons (cs : List Char) : List (List Char) :=
  cs.foldr (fun c parts => match parts with
    | part :: rest => if c = ':' then [] :: part :: rest else (c :: part) :: rest
    | [] => [[c]]) [[]]

/-- An integer without its sign. -/
def readMagnitude (cs : List Char) : Except Failure Int :=
  match cs with
  | [] => .error (.outOfRange "string")
  | ['0'] => .ok 0
  | '0' :: 'b' :: rest => readDigits 2 rest
  | '0' :: 'x' :: rest => readDigits 16 rest
  | '0' :: _ => readDigits 8 cs
  | _ =>
    if cs.contains ':' then do
      let parts ← (splitColons cs).mapM (readDigits 10)
      return parts.foldl (fun total part => 60 * total + part) 0
    else readDigits 10 cs

/-- An integer. -/
def readInt (s : String) : Except Failure Value := do
  let (negative, magnitude) ← splitSign (s.toList.filter (· ≠ '_'))
  let n ← readMagnitude magnitude
  return .int (if negative then -n else n)

/-- The sum of doubles, last digit first, each times its power of sixty. -/
def sumSixties : (base : Nat) → (total : Float) → List Float → Except Failure Float
  | _, total, [] => .ok total
  | base, total, x :: rest =>
    match Binary64.ofInt? base with
    | some power => sumSixties (60 * base) (total + x * power) rest
    | none => .error .intTooLarge

/-- A double that a numeral stands for. -/
def readNumeral (cs : List Char) : Except Failure Float :=
  (Value.text (String.ofList cs)).toFloat

/-- A double. The case of letters does not count. The word for what is no number stands for the same
double everywhere; a numeral stands for one that is made at the place of the scalar. -/
def readFloat (place : Nat) (s : String) : Except Failure Value := do
  let (negative, magnitude) ←
    splitSign (Text.toLowerCase [] (s.toList.filter (· ≠ '_')))
  if magnitude = ".inf".toList then return .float (Binary64.infinity negative)
  else if magnitude = ".nan".toList then return .nan .yaml
  else
    let x ← if magnitude.contains ':' then do
        let parts ← (splitColons magnitude).mapM readNumeral
        sumSixties 1 0 parts.reverse
      else readNumeral magnitude
    return if Binary64.isNaN x then .nan (.scalar place) else .float (if negative then -x else x)

/-- A date or time. -/
def readMoment (place : Nat) (s : String) : Except Failure Value :=
  match Moment.read? (Tag.withoutFinalBreak s.toList) with
  | none => .error .notMoment
  | some m => match m.fault? with
    | some fault => .error (.moment fault)
    | none => .ok (.moment (some place) m)

/-- A sequence of bytes. Only ASCII is accepted, in which what is no letter does not count. -/
def readBytes (s : String) : Except Failure Value :=
  let cs := s.toList
  if cs.all (·.toNat < 0x80) then
    match Base64.decode? cs with
    | some content => .ok (.bytes content)
    | none => meaningless "failed to decode base64 data"
  else meaningless "failed to convert base64 data into ascii"

/-- The value of a scalar under a tag that scalars can have. -/
def scalarValue (tag : Tag) (place : Nat) (s : String) : Except Failure Value :=
  match tag with
  | .null => .ok .null
  | .bool => readBool s
  | .int => readInt s
  | .float => readFloat place s
  | .moment => readMoment place s
  | .text => .ok (.text s)
  | .bytes => readBytes s
  | _ => meaningless "could not determine a constructor for the tag"

end ClenshawCode.Yaml
