import ClenshawCode.Text.Pattern

/-!
# Tags

The tag of a node tells what kind of value it stands for. A scalar that is written without quotes
and without a tag of its own gets one by its spelling: the patterns below are tried in order, and
what none of them matches is text. A line feed at the end of a scalar does not count for this.

## Main definitions

* `Yaml.Tag`: the kinds of nodes
* `Yaml.Tag.standardName?`, `Yaml.Tag.ofName`: the full names of tags
* `Yaml.Tag.ofPlain`: the tag of a scalar by its spelling
-/

namespace ClenshawCode.Yaml

open Text (Pattern)

/-- The kinds of nodes. -/
inductive Tag where
  | null
  | bool
  | int
  | float
  | moment
  | text
  | bytes
  | list
  | table
  | set
  /-- A list of tables with one entry each, which stand for pairs without equal keys. -/
  | orderedTable
  /-- A list of tables with one entry each, which stand for pairs. -/
  | pairs
  /-- The key under which the entries of other tables are taken over. -/
  | merge
  /-- The key of a table's value as a scalar. -/
  | value
  /-- Any tag without a meaning here. -/
  | other
deriving DecidableEq, Repr

namespace Tag

/-- The last part of the name of a tag. -/
def shortName : Tag → String
  | null => "null"
  | bool => "bool"
  | int => "int"
  | float => "float"
  | moment => "timestamp"
  | text => "str"
  | bytes => "binary"
  | list => "seq"
  | table => "map"
  | set => "set"
  | orderedTable => "omap"
  | pairs => "pairs"
  | merge => "merge"
  | value => "value"
  | other => "yaml"

/-- What the full names of all standard tags begin with. -/
def standard : String := "tag:yaml.org,2002:"

/-- The tags that have a meaning. -/
def all : List Tag :=
  [null, bool, int, float, moment, text, bytes, list, table, set, orderedTable, pairs, merge, value]

/-- The tag of a full name. -/
def ofName (name : String) : Tag :=
  (all.find? fun tag => standard ++ tag.shortName == name).getD other

section Patterns

open Text.Pattern

/-- Signs of numbers. -/
def sign : Pattern := optional (oneOf "+-")

/-- Digits and underscores. -/
def digitsOrUnderscores : Pattern := many (oneOf "0123456789_")

/-- A digit followed by digits and underscores. -/
def digitRun : Pattern := both digit digitsOrUnderscores

/-- An exponent, which needs its sign. -/
def exponent : Pattern := inOrder [oneOf "eE", oneOf "-+", onceOrMore digit]

/-- Further digits of a number to base sixty. -/
def sixties : Pattern := onceOrMore (inOrder [char ':', optional (oneOf "012345"), digit])

/-- The spellings of truth values. -/
def boolPattern : Pattern :=
  words ["yes", "Yes", "YES", "no", "No", "NO", "true", "True", "TRUE", "false", "False", "FALSE",
    "on", "On", "ON", "off", "Off", "OFF"]

/-- The spellings of doubles. -/
def floatPattern : Pattern :=
  anyOf [
    inOrder [sign, digitRun, char '.', digitsOrUnderscores, optional exponent],
    inOrder [char '.', digitRun, optional exponent],
    inOrder [sign, digitRun, sixties, char '.', digitsOrUnderscores],
    inOrder [sign, char '.', words ["inf", "Inf", "INF"]],
    inOrder [char '.', words ["nan", "NaN", "NAN"]]]

/-- The spellings of integers: in base two, eight, ten, sixteen and sixty. -/
def intPattern : Pattern :=
  anyOf [
    inOrder [sign, word "0b", onceOrMore (oneOf "01_")],
    inOrder [sign, char '0', onceOrMore (oneOf "01234567_")],
    inOrder [sign, either (char '0') (both (oneOf "123456789") digitsOrUnderscores)],
    inOrder [sign, word "0x", onceOrMore (oneOf "0123456789abcdefABCDEF_")],
    inOrder [sign, oneOf "123456789", digitsOrUnderscores, sixties]]

/-- The spellings of the absent value. -/
def nullPattern : Pattern := words ["~", "null", "Null", "NULL", ""]

/-- Two digits. -/
def twoDigits : Pattern := both digit digit

/-- One or two digits. -/
def shortDigits : Pattern := both digit (optional digit)

/-- Spaces and tabs. -/
def blanks : Pattern := many (oneOf " \t")

/-- The distance of a time of day from universal time. -/
def zonePattern : Pattern :=
  both blanks (either (char 'Z')
    (inOrder [oneOf "-+", shortDigits, optional (both (char ':') twoDigits)]))

/-- The spellings of dates and times. -/
def momentPattern : Pattern :=
  let year := both twoDigits twoDigits
  either (inOrder [year, char '-', twoDigits, char '-', twoDigits])
    (inOrder [year, char '-', shortDigits, char '-', shortDigits,
      either (oneOf "Tt") (onceOrMore (oneOf " \t")),
      shortDigits, char ':', twoDigits, char ':', twoDigits,
      optional (both (char '.') (many digit)), optional zonePattern])

/-- The spellings that are given a tag, in the order in which they are tried. -/
def patterns : List (Tag × Pattern) :=
  [(bool, boolPattern), (float, floatPattern), (int, intPattern), (merge, word "<<"),
    (null, nullPattern), (moment, momentPattern), (value, word "="),
    (other, oneOf "!&*")]

end Patterns

/-- A scalar without the line feed at its end, unless it is nothing but that. -/
def withoutFinalBreak (cs : List Char) : List Char :=
  if cs.length > 1 && cs.getLast? == some '\n' then cs.dropLast else cs

/-- The tag of a scalar by its spelling. -/
def ofPlain (cs : List Char) : Tag :=
  match patterns.find? fun entry => entry.2.accepts (withoutFinalBreak cs) with
  | some entry => entry.1
  | none => text

end Tag

end ClenshawCode.Yaml
