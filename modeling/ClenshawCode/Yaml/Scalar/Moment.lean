import ClenshawCode.Moment
import ClenshawCode.Text.Numeral

/-!
# Dates and times in YAML

A date is written as year, month and day with hyphens. A time may follow after a `T` or blanks, with
a fraction of the second and, after a sign, its distance from universal time in hours and minutes.
Months, days and hours may be written with one digit.

## Main definitions

* `Yaml.Moment.read?`: the moment that a text stands for, which may have parts out of range
-/

namespace ClenshawCode.Yaml.Moment

/-- The number of some digits. -/
def number (cs : List Char) : Nat := Text.ofDigits 10 (cs.map fun c => c.toNat - 48)

/-- A number of as many digits as there are, but at least `least` and at most `most`, at the front
of a text, and the text behind it. -/
def takeNumber? (least most : Nat) (cs : List Char) : Option (Nat × List Char) :=
  let digits := (cs.take most).takeWhile Char.isDigit
  if digits.length < least then none else some (number digits, cs.drop digits.length)

/-- The text behind a given character. -/
def skip? (c : Char) (cs : List Char) : Option (List Char) :=
  match cs with
  | d :: rest => if d = c then some rest else none
  | [] => none

/-- The millionths of a second that the digits of a fraction stand for. -/
def micros (digits : List Char) : Nat :=
  number (digits.take 6 ++ List.replicate (6 - digits.length) '0')

/-- The millionths of a second at the front of a text and the text behind them. -/
def takeFraction (cs : List Char) : Nat × List Char :=
  match cs with
  | '.' :: rest => (micros (rest.takeWhile Char.isDigit), rest.dropWhile Char.isDigit)
  | _ => (0, cs)

/-- The distance from universal time, in seconds, that a text consists of, if it is not empty. -/
def zone? (cs : List Char) : Option (Option Int) :=
  match cs with
  | [] => some none
  | _ =>
    match cs.dropWhile fun c => c == ' ' || c == '\t' with
    | ['Z'] => some (some 0)
    | sign :: rest =>
      if sign = '+' || sign = '-' then do
        let (hours, rest) ← takeNumber? 1 2 rest
        let minutes ← match rest with
          | [] => some 0
          | _ => do
            let (n, rest) ← takeNumber? 2 2 (← skip? ':' rest)
            if rest.isEmpty then some n else none
        let seconds : Int := (hours * 60 + minutes) * 60
        return some (if sign = '-' then -seconds else seconds)
      else none
    | [] => none

/-- The time that a text consists of. -/
def time? (cs : List Char) : Option TimeOfDay := do
  let (hour, rest) ← takeNumber? 1 2 cs
  let (minute, rest) ← takeNumber? 2 2 (← skip? ':' rest)
  let (second, rest) ← takeNumber? 2 2 (← skip? ':' rest)
  let (micro, rest) := takeFraction rest
  let offset ← zone? rest
  return { hour, minute, second, micro, offset }

/-- What is left of a text behind the mark between a date and a time. -/
def skipMark? (cs : List Char) : Option (List Char) :=
  match cs with
  | 'T' :: rest => some rest
  | 't' :: rest => some rest
  | c :: _ =>
    if c = ' ' || c = '\t' then some (cs.dropWhile fun c => c == ' ' || c == '\t') else none
  | [] => none

/-- The moment that a text stands for. Its parts may be out of range. -/
def read? (cs : List Char) : Option Moment := do
  let (year, rest) ← takeNumber? 4 4 cs
  let (month, rest) ← takeNumber? 1 2 (← skip? '-' rest)
  let (day, rest) ← takeNumber? 1 2 (← skip? '-' rest)
  match rest with
  | [] => return { year, month, day, time := none }
  | _ => return { year, month, day, time := some (← time? (← skipMark? rest)) }

end ClenshawCode.Yaml.Moment
