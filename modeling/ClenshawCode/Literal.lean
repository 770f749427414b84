import ClenshawCode.Value.Convert
import ClenshawCode.Value.Hindrance

/-!
# Numeric literals

Three rules for writing a number into a program. The general one is the shortest decimal that reads
back as the double. Shaders take a fixed number of places and a suffix. The scripting target has no
literal for infinities and for what is no number, so there they are spelled as a conversion.

## Main definitions

* `Literal.fullPrecision`: the shortest decimal
* `Literal.fixedSingle`: a fixed number of places and a suffix
* `Literal.scriptFloat`: the shortest decimal or a conversion
-/

namespace ClenshawCode.Literal

/-- A number as the shortest decimal that reads back as its double. -/
def fullPrecision (v : Value) : Except Failure String := do
  let x ← v.toFloat
  return Value.floatLayout.render x

/-- The number of places that a text asks for: its digits, of any script, and nothing after them. -/
def placesOf (s : String) : Except Failure Nat :=
  let digits := (s.toList.map Text.digitValue?).takeWhile Option.isSome
  let places := Text.ofDigits 10 (digits.filterMap id)
  if digits.isEmpty then .error .precisionMissing
  else if Nat.pow 2 63 ≤ places then .error .precisionDigits
  else if digits.length < s.toList.length then .error (.precisionJunk ("." ++ s ++ "f"))
  else if Nat.pow 2 31 ≤ places then .error .precisionTooBig
  else .ok places

/-- A number with a fixed number of places and the suffix of single precision. The number of places
is read from the text of the value that gives it, which may have too many digits for one. -/
def fixedSingle (v digits : Value) : Except Failure String := do
  let x ← v.toFloat
  let places ← placesOf (← digits.asText)
  return String.ofList (Decimal.fixed x places ++ ['f'])

/-- A number as the shortest decimal, or as a conversion of the text if it is not finite. -/
def scriptFloat (v : Value) : Except Failure String := do
  let literal ← fullPrecision v
  -- A text that is a numeral has a literal, but it is no number to be tested.
  let finite ← v.isFinite
  return if finite then literal else "float('" ++ literal ++ "')"

end ClenshawCode.Literal
