import ClenshawCode.Text.Numeral

/-!
# Characters of YAML

The classes of characters on which the grammar of YAML rests. A line may end with any of five
characters, of which a carriage return and a line feed together end one line. As content all line
ends are line feeds, apart from the two Unicode separators, which stand for themselves. A text ends
its last line, so the end of the text counts as a line end wherever one is expected.

## Main definitions

* `Yaml.isBreak`, `Yaml.breakContent`: line ends and what they are as content
* `Yaml.isGap`, `Yaml.atGap`: what separates words
* `Yaml.atSeparator`: whether a line separates documents
* `Yaml.takeBreak?`: the line end at the front of a text
* `Yaml.isAllowed`: the characters that a document may hold
-/

namespace ClenshawCode.Yaml

/-- The characters that end a line. -/
def isBreak (c : Char) : Bool :=
  c == '\n' || c == '\r' || c == '\x85' || c == '\u2028' || c == '\u2029'

/-- A line end as content. -/
def breakContent (c : Char) : Char :=
  if c = '\u2028' || c = '\u2029' then c else '\n'

/-- The characters that indent and separate within a line. -/
def isBlank (c : Char) : Bool := c == ' ' || c == '\t'

/-- The characters that separate words. -/
def isGap (c : Char) : Bool := isBlank c || isBreak c

/-- Whether a text is empty or begins with a character of a class. -/
def atEndOr (p : Char → Bool) : List Char → Bool
  | [] => true
  | c :: _ => p c

/-- Whether a text begins with a character of a class. -/
def startsWith (p : Char → Bool) : List Char → Bool
  | [] => false
  | c :: _ => p c

/-- Whether a word ends in front of a text. -/
def atGap (cs : List Char) : Bool := atEndOr isGap cs

/-- Whether a word that no tab may follow ends in front of a text. -/
def atSpace (cs : List Char) : Bool := atEndOr (fun c => c == ' ' || isBreak c) cs

/-- Whether a line ends in front of a text. -/
def atBreak (cs : List Char) : Bool := atEndOr isBreak cs

/-- Whether three marks of one kind are the first word of a text. -/
def startsWithMark (mark : Char) : List Char → Bool
  | a :: b :: c :: rest => a == mark && b == mark && c == mark && atGap rest
  | _ => false

/-- Whether a line separates documents. -/
def atSeparator (cs : List Char) : Bool := startsWithMark '-' cs || startsWithMark '.' cs

/-- The line end at the front of a text, as content, and the text behind it. -/
def takeBreak? : List Char → Option (Char × List Char)
  | '\r' :: '\n' :: rest => some ('\n', rest)
  | c :: rest => if isBreak c then some (breakContent c, rest) else none
  | [] => none

/-- A text without the spaces at its front. -/
def skipSpaces (cs : List Char) : List Char := cs.dropWhile (· == ' ')

/-- A text without the comment at its front, if there is one. -/
def skipComment (cs : List Char) : List Char :=
  match cs with
  | '#' :: _ => cs.dropWhile fun c => !isBreak c
  | _ => cs

/-- The characters of the names of anchors, directives and handles. -/
def isNameChar (c : Char) : Bool :=
  c.isDigit || ('a' ≤ c && c ≤ 'z') || ('A' ≤ c && c ≤ 'Z') || c == '-' || c == '_'

/-- The characters of tags, apart from escapes. -/
def isTagChar (c : Char) : Bool :=
  isNameChar c || ";/?:@&=+$,.!~*\x27()[]".toList.contains c

/-- The characters that a document may hold. -/
def isAllowed (c : Char) : Bool :=
  let n := c.toNat
  n == 0x09 || n == 0x0A || n == 0x0D || (0x20 ≤ n && n ≤ 0x7E) || n == 0x85 ||
    (0xA0 ≤ n && n ≤ 0xD7FF) || (0xE000 ≤ n && n ≤ 0xFFFD) || (0x10000 ≤ n && n ≤ 0x10FFFF)

end ClenshawCode.Yaml
