import ClenshawCode.Text.Numeral
import ClenshawCode.Yaml.Scalar.Fold
import ClenshawCode.Yaml.Token.Basic

/-!
# Names, tags and directives

The tokens that consist of a mark and a name: anchors and aliases, tags, and the directives in front
of a document. In tags, bytes may be escaped by their hexadecimal numbers.

## Main definitions

* `Yaml.Token.readName`: the name behind the mark of an anchor or alias
* `Yaml.Token.readTag`: the tag at the front of a text
* `Yaml.Token.readDirective`: the directive behind its mark
-/

namespace ClenshawCode.Yaml.Token

/-- The name of an anchor or alias and the text behind it. -/
def readName (cs : List Char) : Except Failure (String × List Char) :=
  let name := cs.takeWhile isNameChar
  let rest := cs.dropWhile isNameChar
  if name.isEmpty then scanFault "expected alphabetic or numeric character"
  else if atEndOr (fun c => isGap c || "?:,]\x7d%@\x60".toList.contains c) rest then
    .ok (String.ofList name, rest)
  else scanFault "expected alphabetic or numeric character"

/-- Escaped bytes at the front of a text and the text behind them. -/
def takeBytes : List Char → Except Failure (List UInt8 × List Char)
  | '%' :: a :: b :: rest =>
    match Text.hexValue? a, Text.hexValue? b with
    | some high, some low => do
      let (bytes, behind) ← takeBytes rest
      return (UInt8.ofNat (16 * high + low) :: bytes, behind)
    | _, _ => scanFault "expected URI escape sequence of 2 hexadecimal numbers"
  | '%' :: _ => scanFault "expected URI escape sequence of 2 hexadecimal numbers"
  | cs => .ok ([], cs)

/-- The escaped characters at the front of a text and the text behind them. -/
def takeEscaped (cs : List Char) : Except Failure (List Char × List Char) := do
  let (bytes, rest) ← takeBytes cs
  match String.fromUTF8? ⟨bytes.toArray⟩ with
  | some s => return (s.toList, rest)
  | none => scanFault "invalid escaped text"

/-- The characters of a tag at the front of a text and the text behind them. The first number bounds
their number. -/
def takeTagChars : (fuel : Nat) → List Char → Except Failure (List Char × List Char)
  | 0, cs => .ok ([], cs)
  | _, [] => .ok ([], [])
  | fuel + 1, c :: rest =>
    if c = '%' then do
      let (first, next) ← takeEscaped (c :: rest)
      let (others, behind) ← takeTagChars fuel next
      return (first ++ others, behind)
    else if isTagChar c then do
      let (others, behind) ← takeTagChars fuel rest
      return (c :: others, behind)
    else .ok ([], c :: rest)

/-- The suffix of a tag, which is not empty, and the text behind it. -/
def readSuffix (cs : List Char) : Except Failure (String × List Char) :=
  if startsWith (fun c => c == '%' || isTagChar c) cs then do
    let (suffix, rest) ← takeTagChars cs.length cs
    return (String.ofList suffix, rest)
  else scanFault "expected URI"

/-- The handle of a tag and the text behind it: a mark, or a name between two marks. -/
def readHandle (cs : List Char) : Except Failure (String × List Char) :=
  match cs with
  | '!' :: ' ' :: _ => .ok ("!", cs.drop 1)
  | '!' :: rest =>
    match rest.dropWhile isNameChar with
    | '!' :: behind => .ok ("!" ++ String.ofList (rest.takeWhile isNameChar) ++ "!", behind)
    | _ => scanFault "expected '!'"
  | _ => scanFault "expected '!'"

/-- Whether the word at the front of a text holds the mark of a tag. -/
def holdsMark : List Char → Bool
  | [] => false
  | c :: rest => if c == '!' then true else if c == ' ' || isBreak c then false else holdsMark rest

/-- The handle and the suffix of the tag at the front of a text, and the text behind it. -/
def readTagParts (cs : List Char) : Except Failure ((Option String × String) × List Char) :=
  match cs.drop 1 with
  | '<' :: rest => do
    let (suffix, behind) ← readSuffix rest
    match behind with
    | '>' :: behind => return ((none, suffix), behind)
    | _ => scanFault "expected '>'"
  | rest =>
    if atGap rest then .ok ((none, "!"), rest)
    else if holdsMark rest then do
      let (short, behind) ← readHandle cs
      let (suffix, behind) ← readSuffix behind
      return ((some short, suffix), behind)
    else do
      let (suffix, behind) ← readSuffix rest
      return ((some "!", suffix), behind)

/-- The tag at the front of a text and the text behind it. -/
def readTag (cs : List Char) : Except Failure (Token × List Char) := do
  let ((short, suffix), rest) ← readTagParts cs
  if atSpace rest then return (.tag short suffix, rest) else scanFault "expected ' '"

/-- The number at the front of a text and the text behind it. -/
def readNumber (cs : List Char) : Except Failure (Nat × List Char) :=
  let digits := cs.takeWhile Char.isDigit
  if digits.isEmpty then scanFault "expected a digit"
  else .ok (Text.ofDigits 10 (digits.map fun c => c.toNat - 48), cs.dropWhile Char.isDigit)

/-- The version behind the name of its directive, and the text behind it. -/
def readVersion (cs : List Char) : Except Failure (Token × List Char) := do
  let (major, rest) ← readNumber (skipSpaces cs)
  match rest with
  | '.' :: rest =>
    let (minor, rest) ← readNumber rest
    if atSpace rest then return (.version major minor, rest)
    else scanFault "expected a digit or ' '"
  | _ => scanFault "expected a digit or '.'"

/-- The handle and what it stands for behind the name of their directive, and the text behind. -/
def readHandleDirective (cs : List Char) : Except Failure (Token × List Char) := do
  let (name, rest) ← readHandle (skipSpaces cs)
  if startsWith (· == ' ') rest then
    let (start, rest) ← readSuffix (skipSpaces rest)
    if atSpace rest then return (.handle name start, rest) else scanFault "expected ' '"
  else scanFault "expected ' '"

/-- The directive behind its mark, and the text of the lines below it. -/
def readDirective (cs : List Char) : Except Failure (Token × List Char) := do
  let name := cs.takeWhile isNameChar
  let rest := cs.dropWhile isNameChar
  if name.isEmpty || !atSpace rest then scanFault "expected alphabetic or numeric character"
  else
    let (token, behind) ←
      if name = "YAML".toList then readVersion rest
      else if name = "TAG".toList then readHandleDirective rest
      else .ok (directive, rest.dropWhile fun c => !isBreak c)
    let behind := skipComment (skipSpaces behind)
    match takeBreak? behind with
    | some (_, below) => return (token, below)
    | none =>
      if behind.isEmpty then return (token, behind)
      else scanFault "expected a comment or a line break"

end ClenshawCode.Yaml.Token
