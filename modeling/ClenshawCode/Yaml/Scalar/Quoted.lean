import ClenshawCode.Text.Numeral
import ClenshawCode.Yaml.Scalar.Fold

/-!
# Scalars in quotes

Between apostrophes only the apostrophe is special: two of them stand for one. Between double quotes
a backslash begins an escape: a letter for a control or a special space, a character by its number,
or a line end that does not count. Line ends are folded in both, and a line that separates documents
cannot stand in either.

## Main definitions

* `Yaml.Quoted.escape`: what an escape stands for
* `Yaml.Quoted.read`: the scalar behind an opening quote
-/

namespace ClenshawCode.Yaml.Quoted

/-- The blank lines at the front of a text: their line ends and the text from the first word on. The
first argument tells whether the text begins a line. -/
def blankLines : (lineStart : Bool) → List Char → Except Failure (List Char × List Char)
  | _, [] => .ok ([], [])
  | _, '\r' :: '\n' :: rest =>
    (blankLines true rest).map fun behind => ('\n' :: behind.1, behind.2)
  | lineStart, c :: rest =>
    if lineStart && atSeparator (c :: rest) then scanFault "found unexpected document separator"
    else if isBlank c then blankLines false rest
    else if isBreak c then
      (blankLines true rest).map fun behind => (breakContent c :: behind.1, behind.2)
    else .ok ([], c :: rest)

/-- The blanks and line ends at the front of a text as content, and the text behind them. -/
def gap (cs : List Char) : Except Failure (List Char × List Char) :=
  let blanks := cs.takeWhile isBlank
  let behind := cs.dropWhile isBlank
  match takeBreak? behind with
  | some (first, next) => do
    let (others, rest) ← blankLines true next
    return (foldBreaks first others, rest)
  | none => .ok (blanks, behind)

/-- The letters that stand for a character behind a backslash. -/
def letters : List (Char × Char) :=
  [('0', '\x00'), ('a', '\x07'), ('b', '\x08'), ('t', '\t'), ('\t', '\t'), ('n', '\n'),
    ('v', '\x0b'), ('f', '\x0c'), ('r', '\r'), ('e', '\x1b'), (' ', ' '), ('\x22', '\x22'),
    ('\\', '\\'), ('/', '/'), ('N', '\x85'), ('_', '\xa0'), ('L', '\u2028'), ('P', '\u2029')]

/-- The number of hexadecimal digits behind a letter that announces a character's number. -/
def digitCount? (c : Char) : Option Nat :=
  if c = 'x' then some 2 else if c = 'u' then some 4 else if c = 'U' then some 8 else none

/-- The character of a number. Half of a pair of UTF-16 units is replaced. -/
def ofNumber (n : Nat) : Except Failure Char :=
  if 0x10FFFF < n then .error (.codePoint (Nat.pow 2 31 ≤ n))
  else if 0xD800 ≤ n && n < 0xE000 then .ok (Char.ofNat 0xFFFD)
  else .ok (Char.ofNat n)

/-- What the escape behind a backslash stands for, and the text behind it. -/
def escape (cs : List Char) : Except Failure (List Char × List Char) :=
  match cs with
  | [] => scanFault "found unknown escape character"
  | c :: rest =>
    match letters.lookup c, digitCount? c, takeBreak? cs with
    | some d, _, _ => .ok ([d], rest)
    | _, some count, _ =>
      match (rest.take count).mapM Text.hexValue? with
      | some digits =>
        if digits.length = count then do
          let d ← ofNumber (Text.ofDigits 16 digits)
          return ([d], rest.drop count)
        else scanFault "expected hexadecimal digits"
      | none => scanFault "expected hexadecimal digits"
    -- The line end itself is dropped, those of the blank lines below it are kept.
    | _, _, some (_, next) => blankLines true next
    | _, _, none => scanFault "found unknown escape character"

/-- The scalar behind an opening quote and the text behind its closing quote. The first number
bounds the number of characters. -/
def read (quote : Char) : (fuel : Nat) → List Char → Except Failure (List Char × List Char)
  | 0, _ => scanFault "found unexpected end of stream"
  | _, [] => scanFault "found unexpected end of stream"
  | fuel + 1, c :: rest =>
    -- Two apostrophes stand for one, so they are looked for before the closing one.
    if c = '\x27' && quote = c && startsWith (· == c) rest then do
      let (content, behind) ← read quote fuel (rest.drop 1)
      return (c :: content, behind)
    else if c = quote then .ok ([], rest)
    else if c = '\\' && quote = '\x22' then do
      let (first, next) ← escape rest
      let (content, behind) ← read quote fuel next
      return (first ++ content, behind)
    else if isGap c then do
      let (first, next) ← gap (c :: rest)
      let (content, behind) ← read quote fuel next
      return (first ++ content, behind)
    else do
      let (content, behind) ← read quote fuel rest
      return (c :: content, behind)

end ClenshawCode.Yaml.Quoted
