import ClenshawCode.Failure

/-!
# Values that cannot be put in words

A value cannot always be part of a message. An integer in it may have more digits than are written,
and it may hold collections inside one another that are nested too deeply to be followed: every
value takes a level, and a set takes two, as its members are listed first. What is met first is
reported.

The number of levels depends on what is going on around: a caller that is itself deep in a
computation leaves fewer of them. It is an argument here, and the numbers below are those of a call
from outside of any computation.

## Main definitions

* `Value.hindrance?`: what hinders a value from being part of a message
* `Value.failureShowing`: a failure with a value in its message, or what hinders it
* `Value.asText`: a value as a text of its own
-/

namespace ClenshawCode.Value

mutual

/-- What hinders a value from being part of a message, if something does. The number bounds the
depth of the value. -/
def hindrance? : (levels : Nat) → Value → Option Failure
  | 0, _ => some (.tooDeep .shown)
  | _ + 1, int n => if Text.isWritable n then none else some .tooManyWritten
  | levels + 1, list items => hindranceOfItems? levels items
  | levels + 1, tuple items => hindranceOfItems? levels items
  | _ + 1, set [] => none
  | 1, set (_ :: _) => some (.tooDeep .shown)
  | levels + 2, set (v :: rest) => hindranceOfItems? levels (v :: rest)
  | levels + 1, dict entries => hindranceOfEntries? levels entries
  | _ + 1, _ => none

/-- What hinders the first of some values that is hindered. -/
def hindranceOfItems? (levels : Nat) : List Value → Option Failure
  | [] => none
  | v :: rest => (hindrance? levels v).or (hindranceOfItems? levels rest)

/-- What hinders the first key or value of some entries that is hindered. -/
def hindranceOfEntries? (levels : Nat) : List (Value × Value) → Option Failure
  | [] => none
  | (k, v) :: rest =>
    ((hindrance? levels k).or (hindrance? levels v)).or (hindranceOfEntries? levels rest)

end

/-- The levels that a message leaves for a value in it. -/
def shownLevels : Nat := 998

/-- The levels that are left for a value that is a text of its own. -/
def textLevels : Nat := 997

/-- A failure with a value in its message. If the value cannot be shown, that is the failure. -/
def failureShowing (levels : Nat) (v : Value) (failure : Failure) : Failure :=
  (v.hindrance? levels).getD failure

/-- A value as a text of its own, unless something hinders that. Texts and moments need not be
shown. -/
def asText : Value → Except Failure String
  | text s => .ok s
  | moment _ m => .ok m.text
  | v => match v.hindrance? textLevels with
    | some failure => .error failure
    | none => .ok v.plainText

end ClenshawCode.Value
