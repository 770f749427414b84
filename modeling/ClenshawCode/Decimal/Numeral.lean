import ClenshawCode.Decimal.Shortest
import ClenshawCode.Text.Blank

/-!
# Reading numerals

The texts that stand for a number when a caller or a file gives a number as text. A numeral has
an optional sign, digits with an optional point among them or at either end, and an optional
exponent; the words `inf`, `infinity` and `nan` are numerals too, in any case. Digits of every
script count, an underscore may stand between two digits, and blanks around the numeral do not
count. The number is the double nearest to the decimal, a half to the even neighbour.

## Main definitions

* `Decimal.toFloat`: the double nearest to a decimal
* `Decimal.readNumeral?`: the double that a text stands for
* `Decimal.readInt?`: the integer that a text stands for in a base
-/

namespace ClenshawCode.Decimal

/-- The double nearest to a decimal with a sign. Exponents that put the decimal far outside the
range of doubles are settled without computing the power of ten. -/
def toFloat (negative : Bool) (d : Decimal) : Float :=
  -- The decimal lies below `10 ^ scale` and not below `10 ^ (scale - 1)`.
  let scale := d.exponent + digitCount d.digits
  if d.digits = 0 ∨ scale < -400 then Binary64.ofSignedBits negative 0
  else if 400 < scale then Binary64.infinity negative
  else Binary64.ofSignedBits negative (min d.magnitudeBits Binary64.infinityBits)

/-- A character of a numeral in plain form: a digit of any script as the ASCII digit, a blank of
any script as a space. -/
def plainChar (c : Char) : Char :=
  if c.toNat < 0x7F then c
  else if Text.isBlank c then ' '
  else match Text.digitValue? c with
    | some n => Text.digitChar n
    | none => '?'

/-- The blanks that may surround a numeral in plain form. -/
def isMargin (c : Char) : Bool :=
  c = ' ' || ('\t' ≤ c && c ≤ '\r')

/-- A numeral in plain form without the blanks around it. -/
def plain (cs : List Char) : List Char :=
  (((cs.map plainChar).dropWhile isMargin).reverse.dropWhile isMargin).reverse

/-- The text without its underscores, each of which has to stand between two digits. The first
argument tells whether the character before is a digit. -/
def dropUnderscores? : (afterDigit : Bool) → List Char → Option (List Char)
  | _, [] => some []
  | afterDigit, '_' :: rest =>
    match rest with
    | [] => none
    | c :: _ => if afterDigit && c.isDigit then dropUnderscores? false rest else none
  | _, c :: rest => (dropUnderscores? c.isDigit rest).map (c :: ·)

/-- The sign that a numeral begins with, and the rest of it. -/
def takeSign : List Char → Bool × List Char
  | '-' :: rest => (true, rest)
  | '+' :: rest => (false, rest)
  | cs => (false, cs)

/-- The number that a run of ASCII digits stands for. -/
def digitsValue (cs : List Char) : Nat :=
  Text.ofDigits 10 (cs.map fun c => c.toNat - 48)

/-- The exponent at the end of a numeral: nothing, or a mark, an optional sign and digits. -/
def exponent? : List Char → Option Int
  | [] => some 0
  | mark :: rest =>
    let (negative, digits) := takeSign rest
    if (mark = 'e' || mark = 'E') && !digits.isEmpty && digits.all Char.isDigit then
      some (if negative then -digitsValue digits else digitsValue digits)
    else none

/-- An unsigned decimal: digits, a point and digits, an exponent; at least one digit in all before
the exponent. -/
def unsigned? (cs : List Char) : Option Decimal :=
  let whole := cs.takeWhile Char.isDigit
  let rest := cs.dropWhile Char.isDigit
  let (fraction, rest) := match rest with
    | '.' :: more => (more.takeWhile Char.isDigit, more.dropWhile Char.isDigit)
    | _ => ([], rest)
  if whole.isEmpty && fraction.isEmpty then none
  else (exponent? rest).map fun e => ⟨digitsValue (whole ++ fraction), e - fraction.length⟩

/-- The double that a numeral in plain form, without underscores, stands for. -/
def readPlain? (cs : List Char) : Option Float :=
  let (negative, body) := takeSign cs
  let word := String.ofList (body.map Char.toLower)
  if word = "inf" || word = "infinity" then some (Binary64.infinity negative)
  else if word = "nan" then some Binary64.nan
  else (unsigned? body).map (toFloat negative)

/-- The double that a text stands for, if it is a numeral. -/
def readNumeral? (s : String) : Option Float :=
  (dropUnderscores? false (plain s.toList)).bind readPlain?

/-- The value of a character as a digit of a base. -/
def digitIn? (base : Nat) (c : Char) : Option Nat :=
  (Text.hexValue? c).filter (· < base)

/-- The number that a run of digits of a base stands for, if there is a digit and nothing else. -/
def readDigits? (base : Nat) (cs : List Char) : Option Nat :=
  if cs.isEmpty then none else (cs.mapM (digitIn? base)).map (Text.ofDigits base)

/-- The integer that a text stands for in a base: a sign and digits with blanks around them. A
hexadecimal, octal or binary numeral may begin with the mark of its base. -/
def readInt? (base : Nat) (s : String) : Option Int :=
  let (negative, body) := takeSign (plain s.toList)
  let body := match base, body with
    | 16, '0' :: 'x' :: rest => rest
    | 16, '0' :: 'X' :: rest => rest
    | 8, '0' :: 'o' :: rest => rest
    | 8, '0' :: 'O' :: rest => rest
    | 2, '0' :: 'b' :: rest => rest
    | 2, '0' :: 'B' :: rest => rest
    | _, _ => body
  ((dropUnderscores? false body).bind (readDigits? base)).map fun n => if negative then -n else n

end ClenshawCode.Decimal
