import ClenshawCode.Yaml.Cursor
import ClenshawCode.Yaml.Scalar.Block
import ClenshawCode.Yaml.Scalar.Plain
import ClenshawCode.Yaml.Scalar.Quoted
import ClenshawCode.Yaml.Token.Tag

/-!
# From characters to tokens

A document is read from left to right. In block context the indentation of words decides where lists
and tables begin and end. The mark of a table's key may be left out; a word is then known to be a
key only by the colon behind it, on the same line and not more than 1024 characters away. While a
word may still turn out to be a key, the tokens from it on are kept back, and when the colon comes
the mark of the key, and that of a new table if the key begins one, are put in front of them.

Tokens are handed over one at a time, and only as much text is read as the next token needs. So a
fault in the words is met only after the tokens in front of it have been handed over.

## Main definitions

* `Yaml.Candidate`: a word that may turn out to be a key
* `Yaml.Scan`: how far a document has been read
* `Yaml.Scan.fetch`: reads the next word or mark
* `Yaml.tokens`: the tokens of a document and the fault after them
-/

namespace ClenshawCode.Yaml

/-- A word that may turn out to be a key: the number of its token, whether it has to be one, and its
position. -/
structure Candidate where
  number : Nat
  required : Bool
  index : Nat
  line : Nat
  column : Nat

/-- How far a document has been read. -/
structure Scan where
  cursor : Cursor
  /-- The number of lists and tables in flow context around the cursor. -/
  flow : Nat := 0
  /-- The column of the innermost list or table in block context, `-1` outside of all. -/
  indent : Int := -1
  /-- The columns of the others, innermost first. -/
  indents : List Int := []
  /-- Whether a key may begin at the cursor. -/
  keyAllowed : Bool := true
  /-- The candidates by flow level, at most one on each. -/
  candidates : List (Nat × Candidate) := []
  /-- The tokens that have not been handed over. -/
  queue : List Token := []
  /-- The number of tokens that have been handed over. -/
  taken : Nat := 0
  /-- Whether nothing is left to be read. -/
  finished : Bool := false

namespace Scan

/-- More tokens behind the others. -/
def push (ts : List Token) (s : Scan) : Scan := { s with queue := s.queue ++ ts }

/-- The cursor at a later rest of the text. -/
def moveTo (rest : List Char) (s : Scan) : Scan := { s with cursor := s.cursor.moveTo rest }

/-- A mark of some characters at the cursor. -/
def mark (width : Nat) (t : Token) (s : Scan) : Scan :=
  (s.moveTo (s.cursor.rest.drop width)).push [t]

/-! ### Candidates -/

/-- Whether a candidate can no longer be a key. -/
def isStale (s : Scan) (c : Candidate) : Bool :=
  c.line != s.cursor.line || c.index + 1024 < s.cursor.index

/-- Without the candidates that can no longer be keys. -/
def dropStale (s : Scan) : Except Failure Scan :=
  if s.candidates.any fun c => s.isStale c.2 && c.2.required then
    scanFault "could not find expected ':'"
  else .ok { s with candidates := s.candidates.filter fun c => !s.isStale c.2 }

/-- Without the candidate on the current flow level. -/
def dropCandidate (s : Scan) : Except Failure Scan :=
  if s.candidates.any fun c => c.1 == s.flow && c.2.required then
    scanFault "could not find expected ':'"
  else .ok { s with candidates := s.candidates.filter fun c => c.1 != s.flow }

/-- With the word at the cursor as a candidate, if a key may begin here. -/
def addCandidate (s : Scan) : Except Failure Scan :=
  if s.keyAllowed then do
    let s ← s.dropCandidate
    -- At the indentation of the innermost table nothing but a key can begin.
    let candidate := ⟨s.taken + s.queue.length, s.flow == 0 && s.indent == s.cursor.column,
      s.cursor.index, s.cursor.line, s.cursor.column⟩
    return { s with candidates := (s.flow, candidate) :: s.candidates }
  else return s

/-! ### Indentation -/

/-- The ends of the lists and tables that are indented more than a column. -/
def closeIndents (column : Int) : List Int → Int → List Token × Int × List Int
  | [], indent => if column < indent then ([.blockEnd], -1, []) else ([], indent, [])
  | outer :: rest, indent =>
    if column < indent then
      let (ts, i, is) := closeIndents column rest outer
      (.blockEnd :: ts, i, is)
    else ([], indent, outer :: rest)

/-- With the lists and tables ended that are indented more than a column. -/
def unwind (column : Int) (s : Scan) : Scan :=
  if s.flow = 0 then
    let (ts, indent, indents) := closeIndents column s.indents s.indent
    { s.push ts with indent, indents }
  else s

/-- With a list or table at a column, unless there is one at that column or further right. -/
def indentTo (column : Nat) (s : Scan) : Option Scan :=
  if s.indent < column then some { s with indents := s.indent :: s.indents, indent := column }
  else none

/-- With the mark of a new list or table at the cursor if it begins one. -/
def beginAtCursor (t : Token) (s : Scan) : Scan :=
  match s.indentTo s.cursor.column with
  | some s => s.push [t]
  | none => s

/-! ### Words and marks -/

/-- The text behind blanks, comments and line ends, and whether there is a line end among them. The
first argument tells whether a comment is being read. -/
def skipGap : (inComment : Bool) → List Char → List Char × Bool
  | _, [] => ([], false)
  | inComment, c :: rest =>
    if isBreak c then ((skipGap false rest).1, true)
    else if inComment || c == ' ' then skipGap inComment rest
    else if c == '#' then skipGap true rest
    else (c :: rest, false)

/-- At the next word or mark. A key may begin on a new line in block context. -/
def skipToWord (s : Scan) : Scan :=
  -- A byte order mark is skipped at the very beginning only.
  let s := if s.cursor.index = 0 && startsWith (· == '\uFEFF') s.cursor.rest then
      { s with cursor := s.cursor.step } else s
  let (rest, crossed) := skipGap false s.cursor.rest
  let s := s.moveTo rest
  if crossed && s.flow == 0 then { s with keyAllowed := true } else s

/-- Outside of all lists and tables, where documents begin and end. -/
def leaveBlocks (s : Scan) : Except Failure Scan := do
  let s ← (s.unwind (-1)).dropCandidate
  return { s with keyAllowed := false }

/-- At the end of the text. -/
def fetchEnd (s : Scan) : Except Failure Scan := do
  let s ← s.leaveBlocks
  return { s.push [.streamEnd] with candidates := [], finished := true }

/-- A directive. -/
def fetchDirective (s : Scan) : Except Failure Scan := do
  let s ← s.leaveBlocks
  let (t, rest) ← Token.readDirective (s.cursor.rest.drop 1)
  return (s.moveTo rest).push [t]

/-- The three characters that begin or end a document. -/
def fetchSeparator (t : Token) (s : Scan) : Except Failure Scan := do
  let s ← s.leaveBlocks
  return s.mark 3 t

/-- The beginning of a list or table in flow context. -/
def fetchFlowStart (t : Token) (s : Scan) : Except Failure Scan := do
  let s ← s.addCandidate
  return { s.mark 1 t with flow := s.flow + 1, keyAllowed := true }

/-- The end of a list or table in flow context. Outside of all of them no document can go on behind
it, so that nothing else is read. -/
def fetchFlowEnd (t : Token) (s : Scan) : Except Failure Scan := do
  let s ← s.dropCandidate
  return { s.mark 1 t with flow := s.flow - 1, keyAllowed := false, finished := s.flow == 0 }

/-- A comma. -/
def fetchFlowEntry (s : Scan) : Except Failure Scan := do
  let s ← { s with keyAllowed := true }.dropCandidate
  return s.mark 1 .flowEntry

/-- The mark of an item in block context. -/
def fetchBlockEntry (s : Scan) : Except Failure Scan := do
  if s.flow == 0 && !s.keyAllowed then scanFault "sequence entries are not allowed here"
  let s := if s.flow == 0 then s.beginAtCursor .blockListStart else s
  let s ← { s with keyAllowed := true }.dropCandidate
  return s.mark 1 .blockEntry

/-- The mark of a key. -/
def fetchKey (s : Scan) : Except Failure Scan := do
  if s.flow == 0 && !s.keyAllowed then scanFault "mapping keys are not allowed here"
  let s := if s.flow == 0 then s.beginAtCursor .blockTableStart else s
  let s ← { s with keyAllowed := s.flow == 0 }.dropCandidate
  return s.mark 1 .key

/-- The mark of a value behind a word that turns out to be a key. -/
def fetchValueOf (c : Candidate) (s : Scan) : Scan :=
  let place := c.number - s.taken
  let s := { s with candidates := s.candidates.filter fun c => c.1 != s.flow, keyAllowed := false }
  -- The table begins where the word stands, not at the colon.
  let begun := if s.flow == 0 then s.indentTo c.column else none
  let marks := if begun.isSome then [.blockTableStart, .key] else [.key]
  let s := begun.getD s
  { s with queue := s.queue.take place ++ marks ++ s.queue.drop place }.mark 1 .value

/-- The mark of a value behind a key that had a mark of its own. -/
def fetchBareValue (s : Scan) : Except Failure Scan := do
  if s.flow == 0 && !s.keyAllowed then scanFault "mapping values are not allowed here"
  -- A colon without any key begins a table whose first key is empty.
  let s := if s.flow == 0 then s.beginAtCursor .blockTableStart else s
  let s ← { s with keyAllowed := s.flow == 0 }.dropCandidate
  return s.mark 1 .value

/-- The mark of a value. -/
def fetchValue (s : Scan) : Except Failure Scan :=
  match s.candidates.lookup s.flow with
  | some c => .ok (s.fetchValueOf c)
  | none => s.fetchBareValue

/-- A word that may turn out to be a key, given how it is read from the text at the cursor. -/
def fetchWord (read : List Char → Except Failure (Token × List Char)) (s : Scan) :
    Except Failure Scan := do
  let s ← s.addCandidate
  let (t, rest) ← read s.cursor.rest
  return { (s.moveTo rest).push [t] with keyAllowed := false }

/-- A scalar in quotes. -/
def readQuoted (quote : Char) (cs : List Char) : Except Failure (Token × List Char) := do
  let (content, rest) ← Quoted.read quote cs.length (cs.drop 1)
  return (.scalar false (String.ofList content), rest)

/-- The name of an anchor or alias behind its mark. -/
def readNamed (t : String → Token) (cs : List Char) : Except Failure (Token × List Char) := do
  let (name, rest) ← Token.readName (cs.drop 1)
  return (t name, rest)

/-- The column that the lines of a scalar have to reach in block context. -/
def least (s : Scan) : Nat := (s.indent + 1).toNat

/-- A scalar in block form. -/
def fetchBlockScalar (folded : Bool) (s : Scan) : Except Failure Scan := do
  let s ← { s with keyAllowed := true }.dropCandidate
  let (content, rest) ← Block.read folded (max 1 s.least) (s.cursor.rest.drop 1)
  return (s.moveTo rest).push [.scalar false (String.ofList content)]

/-- A plain scalar. A key may begin behind it if a line ends there. -/
def fetchPlain (s : Scan) : Except Failure Scan := do
  let s ← s.addCandidate
  let scalar := Plain.read (s.flow != 0) s.least s.cursor.rest.length s.cursor.rest
  return { (s.moveTo scalar.rest).push [.scalar true (String.ofList scalar.content)] with
           keyAllowed := scalar.crossed }

/-- Whether a plain scalar may begin with a character, with some text behind it. -/
def startsPlain (inFlow : Bool) (c : Char) (rest : List Char) : Bool :=
  !(isGap c || "-?:,[]\x7b\x7d#&*!|>\x27\x22%@\x60".toList.contains c) ||
    (!atGap rest && (c == '-' || (!inFlow && (c == '?' || c == ':'))))

/-- Reads the word or mark that begins with a character. -/
def fetchAt (c : Char) (rest : List Char) (s : Scan) : Except Failure Scan :=
  let lineStart := s.cursor.column == 0
  let inFlow := s.flow != 0
  if c == '%' && lineStart then s.fetchDirective
  else if lineStart && startsWithMark '-' (c :: rest) then s.fetchSeparator .documentStart
  else if lineStart && startsWithMark '.' (c :: rest) then s.fetchSeparator .documentEnd
  else if c == '[' then s.fetchFlowStart .flowListStart
  else if c == '\x7b' then s.fetchFlowStart .flowTableStart
  else if c == ']' then s.fetchFlowEnd .flowListEnd
  else if c == '\x7d' then s.fetchFlowEnd .flowTableEnd
  else if c == ',' then s.fetchFlowEntry
  else if c == '-' && atGap rest then s.fetchBlockEntry
  else if c == '?' && (inFlow || atGap rest) then s.fetchKey
  else if c == ':' && (inFlow || atGap rest) then s.fetchValue
  else if c == '*' then s.fetchWord (readNamed .alias)
  else if c == '&' then s.fetchWord (readNamed .anchor)
  else if c == '!' then s.fetchWord Token.readTag
  else if c == '|' && !inFlow then s.fetchBlockScalar false
  else if c == '>' && !inFlow then s.fetchBlockScalar true
  else if c == '\x27' || c == '\x22' then s.fetchWord (readQuoted c)
  else if startsPlain inFlow c rest then s.fetchPlain
  else scanFault "found character that cannot start any token"

/-- Reads the next word or mark. -/
def fetch (s : Scan) : Except Failure Scan := do
  let s ← s.skipToWord.dropStale
  let s := s.unwind s.cursor.column
  match s.cursor.rest with
  | [] => s.fetchEnd
  | c :: rest => s.fetchAt c rest

/-- Whether the next token is known: it is there, and no key can be put in front of it. -/
def isReady (s : Scan) : Bool :=
  s.finished || (!s.queue.isEmpty && s.candidates.all fun c => c.2.number != s.taken)

/-- The tokens from a state of reading on and the fault after them, if there is one. The first
number bounds the tokens and words. -/
def run : (fuel : Nat) → Scan → List Token × Option Failure
  | 0, _ => ([], none)
  | fuel + 1, s =>
    -- A candidate that can no longer be a key does not hold its token back.
    match if s.finished || s.queue.isEmpty then .ok s else s.dropStale with
    | .error e => ([], some e)
    | .ok s =>
      if s.isReady then
        match s.queue with
        | [] => ([], none)
        | t :: queue =>
          let (ts, fault) := run fuel { s with queue, taken := s.taken + 1 }
          (t :: ts, fault)
      else
        match s.fetch with
        | .error e => ([], some e)
        | .ok s => run fuel s

end Scan

/-- The tokens of a document and the fault after them, if there is one. -/
def tokens (cs : List Char) : List Token × Option Failure :=
  Scan.run (8 * cs.length + 16) { cursor := { rest := cs } }

end ClenshawCode.Yaml
