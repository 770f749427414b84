import ClenshawCode.Yaml.Char
import ClenshawCode.Yaml.Tag

/-!
# How a text is written

A text is written without quotes where that reads back as the same text, between apostrophes where
that will do, and between double quotes otherwise. This file says what each of the three admits.
Bytes are written on lines of their own below a bar.

A text without quotes would be read as something else if it began like a mark, ended or began with a
space, held a line end, a comment or the mark of a value, or were spelled like another kind of
value. Between apostrophes nothing can be escaped, so only printable ASCII and line feeds can stand
there, and no space next to a line feed, as it would not count.

## Main definitions

* `Yaml.Style`: the ways to write a text
* `Yaml.Style.isPlain`, `Yaml.Style.isSingle`: what the first two admit
* `Yaml.Style.ofText`: the way in which a text is written
-/

namespace ClenshawCode.Yaml

/-- The ways to write a text. -/
inductive Style where
  | plain
  | single
  | double
  /-- Lines below a bar. -/
  | block
deriving DecidableEq, Repr

namespace Style

/-- The characters that need no escape. -/
def isSimple (c : Char) : Bool := ' ' ≤ c && c ≤ '~'

/-- The characters with which no text without quotes begins. -/
def isMark (c : Char) : Bool := "#,[]\x7b\x7d&*!|>\x27\x22%@\x60".toList.contains c

/-- Whether a text begins like a mark. -/
def startsLikeMark (cs : List Char) : Bool :=
  match cs with
  | [] => false
  | c :: rest =>
    isMark c || ((c == '?' || c == ':' || c == '-') && atGap rest) ||
      ['-', '-', '-'].isPrefixOf cs || ['.', '.', '.'].isPrefixOf cs

/-- Whether a text holds the mark of a value or of a comment behind its first character. The first
argument is the character before the text. -/
def holdsMark : (before : Char) → List Char → Bool
  | _, [] => false
  | before, c :: rest =>
    (c == ':' && atGap rest) || (c == '#' && isGap before) || holdsMark c rest

/-- Whether a text can be written without quotes in block context, as far as its characters go. -/
def isPlain (cs : List Char) : Bool :=
  cs.all isSimple && !startsWith (· == ' ') cs && cs.getLast? != some ' ' && !startsLikeMark cs &&
    (match cs with
     | [] => true
     | c :: rest => !holdsMark c rest)

/-- Whether a space and a line feed stand next to each other in a text. -/
def spaceAtBreak : List Char → Bool
  | a :: b :: rest =>
    (a == ' ' && b == '\n') || (a == '\n' && b == ' ') || spaceAtBreak (b :: rest)
  | _ => false

/-- Whether a text can be written between apostrophes. -/
def isSingle (cs : List Char) : Bool :=
  cs.all (fun c => c == '\n' || isSimple c) && !spaceAtBreak cs

/-- The way in which a text is written that has the given tag. On the line of a key's mark no line
ends can stand, so that a text with line feeds needs double quotes there. -/
def ofText (tag : Tag) (asKey : Bool) (cs : List Char) : Style :=
  if tag = .bytes then if cs.isEmpty || asKey then .double else .block
  else if Tag.ofPlain cs = tag && isPlain cs && !(asKey && cs.isEmpty) then .plain
  else if isSingle cs && !(asKey && cs.contains '\n') then .single
  else .double

end Style

end ClenshawCode.Yaml
