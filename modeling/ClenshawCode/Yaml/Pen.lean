import ClenshawCode.Text.Numeral
import ClenshawCode.Yaml.Style

/-!
# Writing on lines

What is written depends on where it is written: marks are separated by a space from what stands
before them on a line, and long texts go on on the next line when they have passed the margin. A pen
knows where it stands; writing gives characters and moves the pen.

## Main definitions

* `Yaml.Pen`: where the next character will stand
* `Yaml.Ink`: characters, and the pen behind them
* `Yaml.Pen.indicator`, `Yaml.Pen.toIndent`: a mark, and the beginning of an indented line
* `Yaml.Pen.scalar`: a text in one of the styles
-/

namespace ClenshawCode.Yaml

/-- Where the next character will stand. -/
structure Pen where
  column : Nat := 0
  /-- Whether a blank or nothing stands before it on its line. -/
  spaced : Bool := true
  /-- Whether nothing but indentation and marks stands before it on its line. -/
  fresh : Bool := true
deriving DecidableEq, Repr

/-- Characters, and the pen behind them. -/
structure Ink where
  chars : List Char
  pen : Pen

namespace Ink

/-- What is written next. -/
def andThen (first : Ink) (next : Pen → Ink) : Ink :=
  ⟨first.chars ++ (next first.pen).chars, (next first.pen).pen⟩

end Ink

namespace Pen

/-- The column behind which a text goes on on the next line. -/
def margin : Nat := 80

/-- Nothing. -/
def rest (pen : Pen) : Ink := ⟨[], pen⟩

/-- A mark, with a space before it if it needs one. It may count as a blank, and the line may still
count as fresh. -/
def indicator (mark : String) (needsSpace spaced fresh : Bool) (pen : Pen) : Ink :=
  let cs := if pen.spaced || !needsSpace then mark.toList else ' ' :: mark.toList
  ⟨cs, ⟨pen.column + cs.length, spaced, pen.fresh && fresh⟩⟩

/-- The beginning of a line that is indented by `indent` columns, or that column on this line if it
can still be reached. -/
def toIndent (indent : Nat) (pen : Pen) : Ink :=
  let newLine := !pen.fresh || indent < pen.column || (pen.column == indent && !pen.spaced)
  let column := if newLine then 0 else pen.column
  let spaces := List.replicate (indent - column) ' '
  ⟨(if newLine then '\n' :: spaces else spaces),
    ⟨max indent column, newLine || column < indent || pen.spaced, newLine || pen.fresh⟩⟩

/-! ### Texts -/

/-- A new line and its indentation. -/
def freshLine (indent : Nat) : List Char := '\n' :: List.replicate indent ' '

/-- A text without quotes. A single space behind the margin gives way to a new line. The number of
spaces just read and the column come first. -/
def plainChars (split : Bool) (indent : Nat) : (spaces column : Nat) → List Char → List Char
  | spaces, _, [] => List.replicate spaces ' '
  | spaces, column, c :: rest =>
    -- Spaces are held back until it is known whether they give way to a new line.
    if c = ' ' then plainChars split indent (spaces + 1) column rest
    else if spaces = 1 && margin < column && split then
      freshLine indent ++ c :: plainChars split indent 0 (indent + 1) rest
    else
      List.replicate spaces ' ' ++ c :: plainChars split indent 0 (column + spaces + 1) rest

/-- A character between apostrophes. -/
def singleChar (c : Char) : List Char := if c = '\x27' then [c, c] else [c]

/-- The line feeds that are read as the given number of them, and the indentation behind them. -/
def singleBreaks (indent breaks : Nat) : List Char :=
  if breaks = 0 then [] else List.replicate (breaks + 1) '\n' ++ List.replicate indent ' '

/-- A text between apostrophes. A single space behind the margin that neither begins nor ends the
text gives way to a new line. First come whether something other than spaces has been read, and the
numbers of line feeds and spaces just read, not both, and the column. -/
def singleChars (split : Bool) (indent : Nat) :
    (begun : Bool) → (breaks spaces column : Nat) → List Char → List Char
  | _, breaks, spaces, _, [] => singleBreaks indent breaks ++ List.replicate spaces ' '
  | begun, breaks, spaces, column, c :: rest =>
    -- What follows a line feed stands at the indentation.
    let column := if breaks = 0 then column else indent
    if c = '\n' then
      List.replicate spaces ' ' ++
        singleChars split indent true (breaks + 1) 0 (column + spaces) rest
    else if c = ' ' then
      singleBreaks indent breaks ++
        singleChars split indent (begun || breaks != 0) 0 (spaces + 1) column rest
    else if spaces = 1 && margin < column && split && begun then
      freshLine indent ++ singleChar c ++
        singleChars split indent true 0 0 (indent + (singleChar c).length) rest
    else
      singleBreaks indent breaks ++ List.replicate spaces ' ' ++ singleChar c ++
        singleChars split indent true 0 0 (column + spaces + (singleChar c).length) rest

/-- The letters of escapes, by the characters that they stand for. -/
def letters : List (Char × Char) :=
  [('\x00', '0'), ('\x07', 'a'), ('\x08', 'b'), ('\t', 't'), ('\n', 'n'), ('\x0b', 'v'),
    ('\x0c', 'f'), ('\r', 'r'), ('\x1b', 'e'), ('\x22', '\x22'), ('\\', '\\'), ('\x85', 'N'),
    ('\xa0', '_'), ('\u2028', 'L'), ('\u2029', 'P')]

/-- Hexadecimal digits in upper case. -/
def upperHex (width n : Nat) : List Char := (Text.hexChars width n).map Char.toUpper

/-- Whether a character has to be escaped between double quotes. -/
def needsEscape (c : Char) : Bool := c == '\x22' || c == '\\' || !Style.isSimple c

/-- A character as an escape. -/
def escape (c : Char) : List Char :=
  match letters.lookup c with
  | some letter => ['\\', letter]
  | none =>
    if c.toNat ≤ 0xFF then '\\' :: 'x' :: upperHex 2 c.toNat
    else if c.toNat ≤ 0xFFFF then '\\' :: 'u' :: upperHex 4 c.toNat
    else '\\' :: 'U' :: upperHex 8 c.toNat

/-- A new line in the middle of a text between double quotes, in front of some text. A space at the
beginning of the line would not count and is escaped. -/
def doubleFold (indent : Nat) (cs : List Char) : List Char :=
  '\\' :: freshLine indent ++ (if startsWith (· == ' ') cs then ['\\'] else [])

/-- A text between double quotes. Behind the margin it goes on on a new line, which may begin behind
an escape or at a space, but not next to the ends of the text. First come whether a character has
been read, whether the last one was escaped, and the column. -/
def doubleChars (split : Bool) (indent : Nat) :
    (begun escaped : Bool) → (column : Nat) → List Char → List Char
  | _, _, _, [] => []
  | begun, escaped, column, c :: rest =>
    let inside := begun && !rest.isEmpty && split
    if needsEscape c then
      let column := column + (escape c).length
      if inside && margin + 1 < column then
        -- The backslash and the line feed of the fold are not on the new line.
        let fold := doubleFold indent rest
        escape c ++ fold ++ doubleChars split indent true true (fold.length - 2) rest
      else escape c ++ doubleChars split indent true true column rest
    else if inside && (c == ' ' || escaped) && margin < column then
      let fold := doubleFold indent (c :: rest)
      fold ++ c :: doubleChars split indent true false (fold.length - 1) rest
    else c :: doubleChars split indent true false (column + 1) rest

/-- Lines of a text behind the first one's indentation, each with a line feed at its end. -/
def blockChars (indent : Nat) : List Char → List Char
  | [] => []
  | ['\n'] => ['\n']
  | '\n' :: rest => freshLine indent ++ blockChars indent rest
  | c :: rest => c :: blockChars indent rest

/-- A text in a style. A text that may be split goes on on lines that are indented by `indent`
columns. -/
def scalar (style : Style) (split : Bool) (indent : Nat) (cs : List Char) (pen : Pen) : Ink :=
  let start := if pen.spaced then [] else [' ']
  let column := pen.column + start.length
  let onLine (written : List Char) : Ink :=
    ⟨start ++ written, ⟨column + written.length, false, false⟩⟩
  match style with
  | .plain => onLine (plainChars split indent 0 column cs)
  | .single => onLine ('\x27' :: singleChars split indent false 0 0 (column + 1) cs ++ ['\x27'])
  | .double => onLine ('\x22' :: doubleChars split indent false false (column + 1) cs ++ ['\x22'])
  -- The line feed of the last line leaves the pen at the beginning of a new one.
  | .block => ⟨start ++ '|' :: freshLine indent ++ blockChars indent cs, {}⟩

end Pen

end ClenshawCode.Yaml
