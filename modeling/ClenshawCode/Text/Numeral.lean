/-!
# Decimal digits

Digits of every script stand for the numbers zero to nine. A script's ten digits are
consecutive code points, so the table lists only its zeros, as of Unicode 14. Numbers are
written with the ASCII digits alone.

## Main definitions

* `Text.digitZeros`: the zero of each script
* `Text.digitValue?`: the number that a digit of any script stands for
* `Text.natText`, `Text.intText`: a number in ASCII digits
* `Text.hexText`: a number in hexadecimal digits, padded on the left
-/

namespace ClenshawCode.Text

/-- The zero of each script that has decimal digits. -/
def digitZeros : List Nat := [
  48, 1632, 1776, 1984, 2406, 2534, 2662, 2790, 2918, 3046, 3174, 3302, 3430, 3558, 3664, 3792,
  3872, 4160, 4240, 6112, 6160, 6470, 6608, 6784, 6800, 6992, 7088, 7232, 7248, 42528, 43216,
  43264, 43472, 43504, 43600, 44016, 65296, 66720, 68912, 69734, 69872, 69942, 70096, 70384,
  70736, 70864, 71248, 71360, 71472, 71904, 72016, 72784, 73040, 73120, 92768, 92864, 93008,
  120782, 120792, 120802, 120812, 120822, 123200, 123632, 125264, 130032]

/-- The number that a digit of any script stands for. -/
def digitValue? (c : Char) : Option Nat :=
  (digitZeros.find? fun first => first ≤ c.toNat && c.toNat < first + 10).map (c.toNat - ·)

/-- The ASCII digit of a number below ten. -/
def digitChar (n : Nat) : Char :=
  Char.ofNat (48 + n % 10)

/-- The digits of a number, last digit first; zero has none. -/
def digitsReversed (n : Nat) : List Nat :=
  if h : n = 0 then [] else (n % 10) :: digitsReversed (n / 10)
termination_by n
decreasing_by omega

/-- The ASCII digits of a number, without leading zeros. -/
def natChars (n : Nat) : List Char :=
  if n = 0 then ['0'] else (digitsReversed n).reverse.map digitChar

/-- A natural number in ASCII digits. -/
def natText (n : Nat) : String :=
  String.ofList (natChars n)

/-- An integer in ASCII digits, with a minus sign when it is negative. -/
def intText (n : Int) : String :=
  if n < 0 then "-" ++ natText n.natAbs else natText n.natAbs

/-- The largest number of digits of an integer that is read or written. -/
def maxDigits : Nat := 4300

/-- Whether an integer has few enough digits to be written. -/
def isWritable (n : Int) : Bool := n.natAbs < Nat.pow 10 maxDigits

/-- The number that a list of digits, first digit first, stands for in a base. -/
def ofDigits (base : Nat) (digits : List Nat) : Nat :=
  digits.foldl (fun total digit => base * total + digit) 0

/-- Characters padded on the left with zeros to a width. -/
def padZeros (width : Nat) (cs : List Char) : List Char :=
  List.replicate (width - cs.length) '0' ++ cs

/-- The value of a hexadecimal digit in either case. -/
def hexValue? (c : Char) : Option Nat :=
  if '0' ≤ c && c ≤ '9' then some (c.toNat - 48)
  else if 'a' ≤ c && c ≤ 'f' then some (c.toNat - 87)
  else if 'A' ≤ c && c ≤ 'F' then some (c.toNat - 55)
  else none

/-- The hexadecimal digit of a number below sixteen, in lower case. -/
def hexChar (n : Nat) : Char :=
  if n < 10 then Char.ofNat (48 + n) else Char.ofNat (87 + n)

/-- The last `width` hexadecimal digits of a number, in lower case. -/
def hexChars : (width : Nat) → (n : Nat) → List Char
  | 0, _ => []
  | width + 1, n => hexChars width (n / 16) ++ [hexChar (n % 16)]

end ClenshawCode.Text
