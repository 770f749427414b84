import ClenshawCode.Text.Numeral

/-!
# Dates and times of day

A document may hold a calendar date, with or without a time of day. The calendar is the Gregorian
one carried back to year 1, and a time of day may name its distance from universal time.

## Main definitions

* `Moment`: a date, or a date with a time of day
* `Moment.fault?`: the first part of a date or time that is out of its range
* `Moment.text`: the usual written form
* `Moment.shown`: the form that names the parts
* `Moment.lt?`: the order of two moments of one kind
-/

namespace ClenshawCode

/-- A time of day to the millionth of a second, with its distance east of universal time in
seconds, if it names one. -/
structure TimeOfDay where
  hour : Nat
  minute : Nat
  second : Nat
  micro : Nat
  offset : Option Int
deriving DecidableEq, Repr

/-- A calendar date, with a time of day or without. -/
structure Moment where
  year : Nat
  month : Nat
  day : Nat
  time : Option TimeOfDay
deriving DecidableEq, Repr

/-- The parts of a moment that can be out of range. -/
inductive Moment.Fault where
  | year (n : Nat)
  | month
  | day
  | hour
  | minute
  | second
  | offset (seconds : Int)
deriving DecidableEq, Repr

namespace Moment

/-- Whether a year has a leap day. -/
def isLeap (year : Nat) : Bool :=
  year % 4 == 0 && (year % 100 != 0 || year % 400 == 0)

/-- The number of days of a month. -/
def daysIn (year month : Nat) : Nat :=
  if month = 2 then (if isLeap year then 29 else 28)
  else if month = 4 || month = 6 || month = 9 || month = 11 then 30
  else 31

/-- The first part of a moment that is out of its range: the distance from universal time, then
the parts of the date, then those of the time. -/
def fault? (m : Moment) : Option Fault :=
  let farOff := match m.time.bind TimeOfDay.offset with
    | some seconds => if seconds.natAbs < 86400 then none else some (Fault.offset seconds)
    | none => none
  let date :=
    if m.year < 1 || 9999 < m.year then some (Fault.year m.year)
    else if m.month < 1 || 12 < m.month then some .month
    else if m.day < 1 || daysIn m.year m.month < m.day then some .day
    else none
  let time := match m.time with
    | none => none
    | some t =>
      if 23 < t.hour then some Fault.hour
      else if 59 < t.minute then some .minute
      else if 59 < t.second then some .second
      else none
  -- The distance is made before the moment, and a moment is checked from the year down.
  farOff <|> date <|> time

/-- A natural in at least `width` digits. -/
def padded (width n : Nat) : String :=
  String.ofList (Text.padZeros width (Text.natChars n))

/-- A distance from universal time as a sign, hours, minutes, and seconds if there are any. -/
def offsetText (seconds : Int) : String :=
  let n := seconds.natAbs
  (if seconds < 0 then "-" else "+") ++ padded 2 (n / 3600) ++ ":" ++ padded 2 (n / 60 % 60) ++
    (if n % 60 = 0 then "" else ":" ++ padded 2 (n % 60))

/-- A time of day with a fraction if there is one. -/
def timeText (t : TimeOfDay) : String :=
  padded 2 t.hour ++ ":" ++ padded 2 t.minute ++ ":" ++ padded 2 t.second ++
    (if t.micro = 0 then "" else "." ++ padded 6 t.micro) ++
    (match t.offset with
     | none => ""
     | some seconds => offsetText seconds)

/-- Year, month and day, and the time after a space. -/
def text (m : Moment) : String :=
  padded 4 m.year ++ "-" ++ padded 2 m.month ++ "-" ++ padded 2 m.day ++
    (match m.time with
     | none => ""
     | some t => " " ++ timeText t)

/-- A span of seconds as whole days, rounded down, and the seconds left over. -/
def spanShown (seconds : Int) : String :=
  let days := seconds.fdiv 86400
  let rest := seconds.fmod 86400
  let parts := (if days = 0 then [] else ["days=" ++ Text.intText days]) ++
    (if rest = 0 then [] else ["seconds=" ++ Text.intText rest])
  "datetime.timedelta(" ++
    (match parts with
     | [] => "0"
     | [a] => a
     | a :: rest => a ++ rest.foldl (fun s part => s ++ ", " ++ part) "") ++ ")"

/-- The parts of a moment by name; seconds and their fraction are left out when they are zero. -/
def shown (m : Moment) : String :=
  let date := Text.natText m.year ++ ", " ++ Text.natText m.month ++ ", " ++ Text.natText m.day
  match m.time with
  | none => "datetime.date(" ++ date ++ ")"
  | some t =>
    "datetime.datetime(" ++ date ++ ", " ++ Text.natText t.hour ++ ", " ++ Text.natText t.minute ++
      (if t.second = 0 ∧ t.micro = 0 then "" else ", " ++ Text.natText t.second) ++
      (if t.micro = 0 then "" else ", " ++ Text.natText t.micro) ++
      (match t.offset with
       | none => ""
       | some 0 => ", tzinfo=datetime.timezone.utc"
       | some seconds => ", tzinfo=datetime.timezone(" ++ spanShown seconds ++ ")") ++ ")"

/-- The number of days before the first of January of a year. -/
def daysBeforeYear (year : Nat) : Nat :=
  let past := year - 1
  past * 365 + past / 4 - past / 100 + past / 400

/-- The number of days before a date. -/
def daysBefore (m : Moment) : Nat :=
  daysBeforeYear m.year +
    ((List.range (m.month - 1)).map fun i => daysIn m.year (i + 1)).foldl (· + ·) 0 + (m.day - 1)

/-- The millionths of a second before a moment, counted at universal time if it names its
distance from it. -/
def microsBefore (m : Moment) : Int :=
  match m.time with
  | none => (m.daysBefore : Int) * 86400000000
  | some t =>
    (((m.daysBefore : Int) * 24 + t.hour) * 60 + t.minute) * 60000000 +
      (t.second : Int) * 1000000 + t.micro - (t.offset.getD 0) * 1000000

/-- Whether two moments are of one kind: both dates, or both times with the distance from universal
time named in both or in neither. -/
def sameKind (a b : Moment) : Bool :=
  match a.time, b.time with
  | none, none => true
  | some s, some t => s.offset.isSome == t.offset.isSome
  | _, _ => false

/-- Equality of moments: of one kind, and at the same point of time. -/
def same (a b : Moment) : Bool :=
  sameKind a b && a.microsBefore == b.microsBefore

/-- The order of two moments of one kind. -/
def lt? (a b : Moment) : Option Bool :=
  if sameKind a b then some (a.microsBefore < b.microsBefore) else none

end Moment

end ClenshawCode
