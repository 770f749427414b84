import ClenshawCode.Text.Shown
import ClenshawCode.Text.Numeral

/-!
# Quoted text

A text is quoted so that it can be told apart from its surroundings and shown on one line:
between apostrophes, or between double quotes when it holds an apostrophe and no double quote.
The quote in use and the backslash are escaped, the three common controls have letters, and any
other character that is not shown is written by its number.

## Main definitions

* `Text.quoted`: a text in quotes
* `Text.quotedBytes`: a sequence of bytes in quotes
-/

namespace ClenshawCode.Text

/-- A character that is not shown, by its number in the narrowest of three forms. -/
def numberEscape (n : Nat) : List Char :=
  if n < 0x100 then '\\' :: 'x' :: hexChars 2 n
  else if n < 0x10000 then '\\' :: 'u' :: hexChars 4 n
  else '\\' :: 'U' :: hexChars 8 n

/-- A character as it stands between two quotes. -/
def quotedChar (quote c : Char) : List Char :=
  if c = quote || c = '\\' then ['\\', c]
  else if c = '\n' then ['\\', 'n']
  else if c = '\r' then ['\\', 'r']
  else if c = '\t' then ['\\', 't']
  else if isShown c then [c]
  else numberEscape c.toNat

/-- The quote of a text: a double quote if the text holds an apostrophe and no double quote. -/
def quoteOf (cs : List Char) : Char :=
  if cs.contains '\x27' && !cs.contains '\x22' then '\x22' else '\x27'

/-- A text in quotes, on one line. -/
def quoted (s : String) : String :=
  let quote := quoteOf s.toList
  String.ofList (quote :: (s.toList.flatMap (quotedChar quote) ++ [quote]))

/-- A byte as it stands between two quotes: only ASCII is shown. -/
def quotedByte (quote c : Char) : List Char :=
  if c.toNat < 0x80 then quotedChar quote c else numberEscape c.toNat

/-- A sequence of bytes in quotes behind its mark, each byte as the character of its number. -/
def quotedBytes (content : List UInt8) : String :=
  let cs := content.map fun b => Char.ofNat b.toNat
  let quote := quoteOf cs
  String.ofList ('b' :: quote :: (cs.flatMap (quotedByte quote) ++ [quote]))

end ClenshawCode.Text
