import ClenshawCode.Yaml.Char

/-!
# Positions in a document

The structure of a document depends on the columns at which its words stand. A cursor is the rest of
a text with the position at which that rest begins. A byte order mark takes no column.

## Main definitions

* `Yaml.Cursor`: the rest of a text and where it begins
* `Yaml.Cursor.step`, `Yaml.Cursor.moveTo`: the cursor behind a character, and at a later rest
-/

namespace ClenshawCode.Yaml

/-- The rest of a text and the position at which it begins. -/
structure Cursor where
  rest : List Char
  index : Nat := 0
  line : Nat := 0
  column : Nat := 0
deriving DecidableEq, Repr

namespace Cursor

/-- Whether a character ends a line: a carriage return does so only if no line feed follows. -/
def endsLine (c : Char) (rest : List Char) : Bool :=
  isBreak c && !(c == '\r' && startsWith (· == '\n') rest)

/-- The cursor behind a character. -/
def step (s : Cursor) : Cursor :=
  match s.rest with
  | [] => s
  | c :: rest =>
    if endsLine c rest then ⟨rest, s.index + 1, s.line + 1, 0⟩
    else ⟨rest, s.index + 1, s.line, if c = '\uFEFF' then s.column else s.column + 1⟩

/-- The cursor behind a number of characters. -/
def advance : Nat → Cursor → Cursor
  | 0, s => s
  | n + 1, s => advance n s.step

/-- The cursor at a rest of its text. -/
def moveTo (rest : List Char) (s : Cursor) : Cursor :=
  s.advance (s.rest.length - rest.length)

end Cursor

end ClenshawCode.Yaml
