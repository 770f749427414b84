import ClenshawCode.Yaml.Scalar.Fold

/-!
# Scalars without quotes

A plain scalar consists of words with spaces or folded line ends between them. It ends where a
comment, the mark of a value, a tab, or in lists and tables on one line a separator follows, and at
a line that is indented less than the scalar has to be.

## Main definitions

* `Yaml.Plain.word`: the word at the front of a text
* `Yaml.Plain.gap`: what separates words
* `Yaml.Plain.read`: the plain scalar at the front of a text
-/

namespace ClenshawCode.Yaml.Plain

/-- Whether the mark of a value, a colon, ends a word in front of a text. -/
def valueFollows (inFlow : Bool) (cs : List Char) : Bool :=
  atEndOr (fun c => isGap c || (inFlow && ",[]\x7b\x7d".toList.contains c)) cs

/-- Whether a word ends before a character, with some text behind it. -/
def endsWord (inFlow : Bool) (c : Char) (rest : List Char) : Bool :=
  isGap c || (c == ':' && valueFollows inFlow rest) ||
    (inFlow && ",?[]\x7b\x7d".toList.contains c)

/-- The word at the front of a text and the text behind it. -/
def word (inFlow : Bool) : List Char → List Char × List Char
  | [] => ([], [])
  | c :: rest =>
    if endsWord inFlow c rest then ([], c :: rest)
    else (c :: (word inFlow rest).1, (word inFlow rest).2)

/-- What separates two words. -/
structure Gap where
  /-- What the gap is as content; nothing if it ends the scalar. -/
  content : List Char
  /-- Whether there is a line end in the gap. -/
  crossed : Bool
  /-- The indentation of the line on which the gap ends, if there is a line end in it. -/
  column : Nat
  rest : List Char

/-- The blank lines at the front of a text up to the first word: their line ends, the indentation of
the word and the text from the word on. There is no word if the documents are separated there. The
first argument is the number of spaces read on the current line. -/
def blankLines : (column : Nat) → List Char → Option (List Char) × Nat × List Char
  | column, [] => (some [], column, [])
  | _, '\r' :: '\n' :: rest =>
    if atSeparator rest then (none, 0, rest)
    else
      let behind := blankLines 0 rest
      (behind.1.map ('\n' :: ·), behind.2)
  | column, c :: rest =>
    if c == ' ' then blankLines (column + 1) rest
    else if isBreak c then
      if atSeparator rest then (none, 0, rest)
      else
        let behind := blankLines 0 rest
        (behind.1.map (breakContent c :: ·), behind.2)
    else (some [], column, c :: rest)

/-- The gap at the front of a text. -/
def gap (cs : List Char) : Gap :=
  let spaces := cs.takeWhile (· == ' ')
  match takeBreak? (skipSpaces cs) with
  | none => ⟨spaces, false, 0, skipSpaces cs⟩
  | some (first, next) =>
    if atSeparator next then ⟨[], true, 0, next⟩
    else
      match blankLines 0 next with
      | (none, column, rest) => ⟨[], true, column, rest⟩
      | (some others, column, rest) => ⟨foldBreaks first others, true, column, rest⟩

/-- Whether the scalar may go on behind a gap. -/
def Gap.goesOn (inFlow : Bool) (least : Nat) (g : Gap) : Bool :=
  !g.content.isEmpty && !startsWith (· == '#') g.rest && (inFlow || !g.crossed || least ≤ g.column)

/-- A plain scalar: its content, whether a line end follows it, and the text behind it. -/
structure Scalar where
  content : List Char
  crossed : Bool
  rest : List Char

/-- The plain scalar at the front of a text. In block context its further lines are indented by at
least `least` columns. The first number bounds the words. -/
def read (inFlow : Bool) (least : Nat) : (fuel : Nat) → List Char → Scalar
  | 0, cs => ⟨[], false, cs⟩
  | fuel + 1, cs =>
    let first := (word inFlow cs).1
    let g := gap (word inFlow cs).2
    if g.goesOn inFlow least then
      let next := read inFlow least fuel g.rest
      -- Without another word the gap is no part of the scalar.
      if next.content.isEmpty then ⟨first, g.crossed, g.rest⟩
      else ⟨first ++ g.content ++ next.content, next.crossed, next.rest⟩
    else ⟨first, g.crossed, g.rest⟩

end ClenshawCode.Yaml.Plain
