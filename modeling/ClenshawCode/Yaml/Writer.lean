import ClenshawCode.Yaml.Node.OfValue
import ClenshawCode.Yaml.Pen

/-!
# Writing YAML

A table is written in block form, an entry on each line, and lists and tables within it by
indentation; the items of a list stand right below the key that they belong to. Empty lists and
tables have brackets. What is mentioned again is named by an anchor where it stands first, and an
alias stands for it from then on. Sets and bytes have their tag in front of them. A key that is
long, empty or has line feeds gets a mark of its own. Nodes inside one another are followed to some
depth only.

## Main definitions

* `Yaml.anchorsOf`: the names of what is mentioned again
* `Yaml.writeNode`: a node in its surroundings
* `Yaml.write`: a table as a document
-/

namespace ClenshawCode.Yaml

/-! ### Names -/

/-- The names of places. -/
abbrev Names := List (Nat × String)

/-- The name of the `n`th anchor. -/
def anchorName (n : Nat) : String := "id" ++ String.ofList (Text.padZeros 3 (Text.natChars n))

/-- The names of the places that are mentioned again in a node. -/
def anchorsOf (n : Node) : Names :=
  n.mentions.eraseDups.zipIdx.map fun entry => (entry.1, anchorName (entry.2 + 1))

/-- The tag of a node in its short form, if it cannot be told from the node. -/
def tagMark? (tag : Tag) : Option String :=
  match tag with
  | .bytes | .set => some ("!!" ++ tag.shortName)
  | _ => none

/-! ### Nodes -/

/-- What is needed to write the next node: where the pen is, and the characters so far, the latest
piece first. -/
structure Desk where
  pen : Pen := {}
  pieces : List (List Char) := []

/-- The characters that have been written. -/
def Desk.chars (d : Desk) : List Char := d.pieces.reverse.flatten

/-- Characters written on. -/
def Desk.put (write : Pen → Ink) (d : Desk) : Desk :=
  let ink := write d.pen
  { d with pen := ink.pen, pieces := ink.chars :: d.pieces }

/-- What is put on a desk comes behind what is there. -/
@[simp] theorem Desk.chars_put (write : Pen → Ink) (d : Desk) :
    (d.put write).chars = d.chars ++ (write d.pen).chars := by
  simp [Desk.chars, Desk.put]

/-- Where a node stands. -/
inductive Role where
  | item
  /-- The value of an entry, or a key behind its mark. -/
  | part
  /-- A key on the line of its entry. -/
  | key
deriving DecidableEq, Repr

/-- The longest key, with its tag and anchor, that is written without a mark. -/
def keyLimit : Nat := 128

/-- The number of characters that a tag in its short form takes. -/
def tagLength (tag : Tag) : Nat := 2 + tag.shortName.length

/-- The characters that make a text one of several lines. -/
def isLineEnd (c : Char) : Bool := isBreak c && c != '\r'

/-- Whether a key stands on the line of its entry without a mark. The first number is what its
anchor takes. -/
def isSimpleKey (names : Names) : (anchorLength : Nat) → Node → Bool
  | anchorLength, .scalar tag content =>
    anchorLength + tagLength tag + content.length < keyLimit && !content.isEmpty &&
      !content.toList.any isLineEnd
  | _, .list items => items.isEmpty
  | _, .table _ entries => entries.isEmpty
  | _, .placed place n => isSimpleKey names ((names.lookup place).map String.length |>.getD 0) n
  | _, .mention _ => true

/-- A mark that belongs to the node behind it. -/
def putMark (mark : String) (d : Desk) : Desk := d.put (Pen.indicator mark true false false)

/-- A tag, if it is written. -/
def putTag (tag : Tag) (d : Desk) : Desk :=
  match tagMark? tag with
  | some mark => putMark mark d
  | none => d

/-- The anchor of a place that is mentioned again. -/
def putAnchor (names : Names) (place : Nat) (d : Desk) : Desk :=
  match names.lookup place with
  | some name => putMark ("&" ++ name) d
  | none => d

/-- The alias of a place. -/
def putAlias (names : Names) (place : Nat) (d : Desk) : Desk :=
  putMark ("*" ++ (names.lookup place).getD "") d

/-- A scalar. -/
def putScalar (tag : Tag) (content : String) (role : Role) (indent : Nat) (d : Desk) : Desk :=
  let cs := content.toList
  d.put (Pen.scalar (Style.ofText tag (role = .key) cs) (role ≠ .key) (indent + 2) cs)

/-- An empty list or table. -/
def putEmpty (opening closing : String) (d : Desk) : Desk :=
  (d.put (Pen.indicator opening true true false)).put (Pen.indicator closing false false false)

/-- The indentation of the items of a list: right below the key that they belong to, unless they
begin on a line that is still fresh. -/
def listIndent (role : Role) (indent : Nat) (d : Desk) : Nat :=
  if role ≠ .item && !d.pen.fresh then indent else indent + 2

mutual

/-- A node in its surroundings, which are indented by `indent` columns. -/
def writeNode (names : Names) (role : Role) (indent : Nat) (d : Desk) : Node → Desk
  | .scalar tag content => putScalar tag content role indent (putTag tag d)
  | .list items =>
    if items.isEmpty then putEmpty "[" "]" d
    else writeItems names (listIndent role indent d) d items
  | .table tag entries =>
    let d := putTag tag d
    if entries.isEmpty then putEmpty "\x7b" "\x7d" d else writeEntries names (indent + 2) d entries
  | .placed place n => writeNode names role indent (putAnchor names place d) n
  | .mention place => putAlias names place d

/-- The items of a list at an indentation. -/
def writeItems (names : Names) (indent : Nat) (d : Desk) : List Node → Desk
  | [] => d
  | n :: rest =>
    let d := (d.put (Pen.toIndent indent)).put (Pen.indicator "-" true false true)
    writeItems names indent (writeNode names .item indent d n) rest

/-- The entries of a table at an indentation. -/
def writeEntries (names : Names) (indent : Nat) (d : Desk) : List (Node × Node) → Desk
  | [] => d
  | (k, v) :: rest =>
    let d := d.put (Pen.toIndent indent)
    let d :=
      if isSimpleKey names 0 k then
        (writeNode names .key indent d k).put (Pen.indicator ":" false false false)
      else
        -- Behind a mark of its own the key may take several lines; its value gets a line too.
        let d := writeNode names .part indent (d.put (Pen.indicator "?" true false true)) k
        (d.put (Pen.toIndent indent)).put (Pen.indicator ":" true false true)
    writeEntries names indent (writeNode names .part indent d v) rest

end

/-- The entries of a table as a document. -/
def writeTable (names : Names) (entries : List (Node × Node)) : List Char :=
  let d := if entries.isEmpty then putEmpty "\x7b" "\x7d" {} else writeEntries names 0 {} entries
  (d.put (Pen.toIndent 0)).chars

/-- The largest number of lists and tables inside one another that is followed. -/
def maxWrittenDepth : Nat := 325

/-- The table that a document is, or one that holds nothing, as a text. -/
def write (d : Document) : Except Failure String := do
  let node ← Node.ofDocument d
  if maxWrittenDepth < node.depth then throw (.tooDeep .nodes)
  match node with
  | .table _ entries => return String.ofList (writeTable (anchorsOf node) entries)
  | _ => return String.ofList (writeTable [] [])

end ClenshawCode.Yaml
