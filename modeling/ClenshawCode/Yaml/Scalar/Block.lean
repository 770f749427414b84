import ClenshawCode.Yaml.Scalar.Fold

/-!
# Block scalars

A block scalar begins with a mark and goes on over the indented lines below it. The lines are kept
as they are, or folded. Behind the mark a digit may give the indentation, which is otherwise that of
the first line that is not blank, and a sign tells what becomes of the line ends at the end.

## Main definitions

* `Yaml.Block.Header`, `Yaml.Block.header`: what stands behind the mark
* `Yaml.Block.lines`: the lines of a scalar
* `Yaml.Block.read`: the scalar behind a mark
-/

namespace ClenshawCode.Yaml.Block

/-- What becomes of the line ends at the end of a scalar. -/
inductive Tail where
  | strip
  | clip
  | keep
deriving DecidableEq, Repr

/-- What stands behind the mark of a block scalar. -/
structure Header where
  tail : Tail
  increment : Option Nat

/-- The sign at the front of a text and the text behind it. -/
def takeTail (cs : List Char) : Tail × List Char :=
  match cs with
  | '+' :: rest => (.keep, rest)
  | '-' :: rest => (.strip, rest)
  | _ => (.clip, cs)

/-- The indentation at the front of a text and the text behind it. -/
def takeIncrement (cs : List Char) : Except Failure (Option Nat × List Char) :=
  match cs with
  | c :: rest =>
    if c = '0' then scanFault "expected indentation indicator in the range 1-9"
    else if c.isDigit then .ok (some (c.toNat - 48), rest)
    else .ok (none, cs)
  | [] => .ok (none, cs)

/-- The sign and the indentation at the front of a text, in either order, and the text behind. -/
def indicators (cs : List Char) : Except Failure (Header × List Char) := do
  match takeTail cs with
  | (.clip, _) =>
    let (increment, rest) ← takeIncrement cs
    if increment.isSome then
      let (tail, rest) := takeTail rest
      return (⟨tail, increment⟩, rest)
    else return (⟨.clip, none⟩, rest)
  | (tail, rest) =>
    let (increment, rest) ← takeIncrement rest
    return (⟨tail, increment⟩, rest)

/-- A line that holds nothing but spaces and a comment; the text behind it. -/
def ignoredLine (cs : List Char) : Except Failure (List Char) :=
  let behind := skipComment (skipSpaces cs)
  if atBreak behind then
    .ok (match takeBreak? behind with
      | some (_, rest) => rest
      | none => behind)
  else scanFault "expected a comment or a line break"

/-- What stands behind the mark, and the text of the lines below. -/
def header (cs : List Char) : Except Failure (Header × List Char) := do
  let (h, rest) ← indicators cs
  if atSpace rest then
    let below ← ignoredLine rest
    return (h, below)
  else scanFault "expected chomping or indentation indicators"

/-- Where a line of a scalar begins: the line ends of the blank lines before it, its column and the
text from there on. -/
structure LineStart where
  breaks : List Char
  column : Nat
  rest : List Char

/-- A line start with one more blank line before it. -/
def LineStart.below (c : Char) (s : LineStart) : LineStart := { s with breaks := c :: s.breaks }

/-- The next line that is not blank, at the given column or before it. The argument `column` is the
number of spaces read on the current line. -/
def nextLine (indent : Nat) : (column : Nat) → List Char → LineStart
  | column, [] => ⟨[], column, []⟩
  | _, '\r' :: '\n' :: rest => (nextLine indent 0 rest).below '\n'
  | column, c :: rest =>
    if c == ' ' && column < indent then nextLine indent (column + 1) rest
    else if isBreak c then (nextLine indent 0 rest).below (breakContent c)
    else ⟨[], column, c :: rest⟩

/-- The first line that is not blank, and the largest column reached on the way. -/
def firstLine : (column deepest : Nat) → List Char → LineStart × Nat
  | column, deepest, [] => (⟨[], column, []⟩, deepest)
  | _, deepest, '\r' :: '\n' :: rest =>
    let (s, d) := firstLine 0 deepest rest
    (s.below '\n', d)
  | column, deepest, c :: rest =>
    if c == ' ' then firstLine (column + 1) (max deepest (column + 1)) rest
    else if isBreak c then
      let (s, d) := firstLine 0 deepest rest
      (s.below (breakContent c), d)
    else (⟨[], column, c :: rest⟩, deepest)

/-- The lines of a scalar: their content without the line ends at the end, the last line end, the
line ends of the blank lines below it, and the text behind the scalar. -/
structure Lines where
  content : List Char
  lastBreak : List Char
  breaks : List Char
  rest : List Char

/-- What stands between two lines as content: the line end as it is, or folded. -/
def between (folded : Bool) (lastBreak : List Char) (line : List Char) (next : LineStart) :
    List Char :=
  if folded && lastBreak == ['\n'] && !startsWith isBlank line && !startsWith isBlank next.rest then
    (if next.breaks.isEmpty then [' '] else [])
  else lastBreak

/-- The lines of a scalar from a line start on. The first number bounds the lines. -/
def lines (folded : Bool) (indent : Nat) : (fuel : Nat) → LineStart → Lines
  | 0, s => ⟨[], [], s.breaks, s.rest⟩
  | fuel + 1, s =>
    if s.column = indent && !s.rest.isEmpty then
      let line := s.rest.takeWhile fun c => !isBreak c
      let behind := s.rest.dropWhile fun c => !isBreak c
      let (lastBreak, below) := match takeBreak? behind with
        | some (c, rest) => ([c], rest)
        | none => ([], behind)
      let next := nextLine indent 0 below
      -- The text ends, or goes on further left: then the last line end is up to the sign.
      if next.column = indent && !next.rest.isEmpty then
        let others := lines folded indent fuel next
        { others with
          content := s.breaks ++ line ++ between folded lastBreak line next ++ others.content }
      else ⟨s.breaks ++ line, lastBreak, next.breaks, next.rest⟩
    else ⟨[], [], s.breaks, s.rest⟩

/-- The content of lines with the line ends at the end that a sign leaves. -/
def Lines.ended (tail : Tail) (ls : Lines) : List Char :=
  ls.content ++ (if tail = .strip then [] else ls.lastBreak) ++
    (if tail = .keep then ls.breaks else [])

/-- The scalar behind a mark, and the text behind it. Its lines are indented by at least `least`
columns. -/
def read (folded : Bool) (least : Nat) (cs : List Char) :
    Except Failure (List Char × List Char) := do
  let (h, below) ← header cs
  let (indent, start) := match h.increment with
    | none =>
      -- A blank line with more spaces than the first line that is not blank counts here.
      let (s, deepest) := firstLine 0 0 below
      (max least deepest, s)
    | some n => (least + n - 1, nextLine (least + n - 1) 0 below)
  let ls := lines folded indent (below.length + 1) start
  return (ls.ended h.tail, ls.rest)

end ClenshawCode.Yaml.Block
