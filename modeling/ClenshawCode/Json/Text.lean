import ClenshawCode.Text.Numeral

/-!
# Strings in JSON

A string stands between double quotes. The writer keeps the printable ASCII characters, escapes the
quote and the backslash, has letters for five controls, and writes everything else by the numbers of
its UTF-16 units, of which a character beyond the first 65536 has two. The reader takes either half
of such a pair on its own at first, and joins the halves when the string is complete.

## Main definitions

* `Json.units`: the UTF-16 units of a character
* `Json.encode`: a text between double quotes
* `Json.joinUnits`: characters from the units of a string
-/

namespace ClenshawCode.Json

/-- The UTF-16 units of a character. -/
def units (c : Char) : List Nat :=
  if c.toNat < 0x10000 then [c.toNat]
  else [0xD800 + (c.toNat - 0x10000) / 0x400, 0xDC00 + (c.toNat - 0x10000) % 0x400]

/-- A unit in the form that names its number. -/
def unitEscape (n : Nat) : List Char :=
  '\\' :: 'u' :: Text.hexChars 4 n

/-- A character as it stands in a string. -/
def encodeChar (c : Char) : List Char :=
  if c = '\x22' then ['\\', '\x22']
  else if c = '\\' then ['\\', '\\']
  else if c = '\n' then ['\\', 'n']
  else if c = '\r' then ['\\', 'r']
  else if c = '\t' then ['\\', 't']
  else if c.toNat = 0x0C then ['\\', 'f']
  else if c.toNat = 0x08 then ['\\', 'b']
  else if 0x20 ≤ c.toNat && c.toNat ≤ 0x7E then [c]
  else (units c).flatMap unitEscape

/-- A text between double quotes. -/
def encode (cs : List Char) : List Char :=
  '\x22' :: (cs.flatMap encodeChar ++ ['\x22'])

/-- The character for which a letter stands after a backslash. -/
def escapedChar? (c : Char) : Option Char :=
  if c = '\x22' || c = '\\' || c = '/' then some c
  else if c = 'b' then some '\x08'
  else if c = 'f' then some '\x0c'
  else if c = 'n' then some '\n'
  else if c = 'r' then some '\r'
  else if c = 't' then some '\t'
  else none

/-- The number of four hexadecimal digits. -/
def quad? (a b c d : Char) : Option Nat :=
  ([a, b, c, d].mapM Text.hexValue?).map (Text.ofDigits 16)

/-- Whether a unit is the first half of a pair. -/
def isHighHalf (n : Nat) : Bool := 0xD800 ≤ n && n < 0xDC00

/-- Whether a unit is the second half of a pair. -/
def isLowHalf (n : Nat) : Bool := 0xDC00 ≤ n && n < 0xE000

/-- The character of a unit that is not part of a pair; a lone half is replaced. -/
def unitChar (n : Nat) : Char :=
  if isHighHalf n || isLowHalf n then Char.ofNat 0xFFFD else Char.ofNat n

/-- Characters from the units of a string: two halves that follow one another are one character. -/
def joinUnits : List Nat → List Char
  | [] => []
  | [n] => [unitChar n]
  | high :: low :: rest =>
    if isHighHalf high && isLowHalf low then
      Char.ofNat (0x10000 + (high - 0xD800) * 0x400 + (low - 0xDC00)) :: joinUnits rest
    else unitChar high :: joinUnits (low :: rest)

end ClenshawCode.Json
