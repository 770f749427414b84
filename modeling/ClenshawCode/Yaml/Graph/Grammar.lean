import ClenshawCode.Failure
import ClenshawCode.Yaml.Graph.Basic
import ClenshawCode.Yaml.Token.Basic

/-!
# From tokens to nodes

The grammar of a document over its tokens. A node may be named by an anchor before it begins, and
from then on aliases stand for it, even within it. A document holds one node; a text holds at most
one document, which may be set off by separators and begun by directives. Lists and tables inside
one another are followed to some depth only.

## Main definitions

* `Yaml.Source`: the tokens that are left, and what has been read
* `Yaml.Reading.node`: the node at the front of the tokens
* `Yaml.Reading.document`: the only document of a text, if it has one
* `Yaml.Graph.ofTokens`: the nodes that some tokens make up
-/

namespace ClenshawCode.Yaml

/-- The tokens that are left and what those before have made up and named. -/
structure Source where
  tokens : List Token
  /-- What is wrong with the text behind the tokens, if something is. -/
  fault : Option Failure
  graph : Graph := {}
  /-- The nodes that have been named, the latest first. -/
  anchors : List (String × Nat) := []
  /-- The short forms of the beginnings of tags. -/
  handles : List (String × String) := []
  /-- The number of lists and tables around the next token. -/
  depth : Nat := 0

/-- The largest number of lists and tables inside one another that is followed. -/
def maxDepth : Nat := 490

/-- Reading from a source. -/
abbrev Reading := StateT Source (Except Failure)

namespace Reading

/-- A failure of the grammar. -/
def misplaced {α : Type} (problem : String) : Reading α :=
  throw (.document .grammar problem)

/-- A failure of names. -/
def misnamed {α : Type} (problem : String) : Reading α :=
  throw (.document .references problem)

/-- The next token, which is left where it is. -/
def peek : Reading Token := do
  let s ← get
  match s.tokens, s.fault with
  | t :: _, _ => return t
  | [], some failure => throw failure
  | [], none => return .streamEnd

/-- Past the next token. -/
def skip : Reading Unit :=
  modify fun s => { s with tokens := s.tokens.drop 1 }

/-- Past the next token if it is the given one, and whether it is. -/
def skipIf (t : Token) : Reading Bool := do
  if (← peek) == t then
    skip
    return true
  else return false

/-- One more node, which may have a name. -/
def add (name : Option String) (tag : Tag) (content : Content) : Reading Nat := do
  let n := (← get).graph.next
  modify fun s => { s with
    graph := s.graph.add tag content
    anchors := (name.toList.map fun name => (name, n)) ++ s.anchors }
  return n

/-- Nothing where a node was expected. -/
def addEmpty : Reading Nat := add none .null (.scalar "")

/-- What may stand in front of a node. -/
structure Properties where
  anchor : Option String := none
  /-- The full name of the tag. -/
  tag : Option String := none

/-- The full name of a tag. -/
def fullName (short : Option String) (suffix : String) : Reading String := do
  match short with
  | none => return suffix
  | some short =>
    match (← get).handles.lookup short with
    | some start => return start ++ suffix
    | none => misplaced "found undefined tag handle"

/-- The anchor and the tag at the front, in either order. -/
def properties : Reading Properties := do
  match ← peek with
  | .anchor name =>
    skip
    match ← peek with
    | .tag short suffix =>
      skip
      return ⟨some name, some (← fullName short suffix)⟩
    | _ => return ⟨some name, none⟩
  | .tag short suffix =>
    skip
    match ← peek with
    | .anchor name =>
      skip
      return ⟨some name, some (← fullName short suffix)⟩
    | _ => return ⟨none, some (← fullName short suffix)⟩
  | _ => return {}

/-- A name has to be new. -/
def checkNew (name : Option String) : Reading Unit := do
  match name with
  | some name =>
    if ((← get).anchors.lookup name).isSome then misnamed "found duplicate anchor"
  | none => return

/-- The node that an alias stands for. -/
def named (name : String) : Reading Nat := do
  match (← get).anchors.lookup name with
  | some n => return n
  | none => misnamed "found undefined alias"

/-- A node that may be left out, with what stands in front of it. -/
def absent (p : Properties) : Reading Nat := do
  if p.anchor.isNone && p.tag.isNone then misplaced "expected the node content"
  else
    checkNew p.anchor
    let tag := match p.tag with
      | none => Tag.null
      | some name => if name = "!" then .null else Tag.ofName name
    add p.anchor tag (.scalar "")

/-- The tag of a scalar. -/
def scalarTag (tag : Option String) (plain : Bool) (content : String) : Tag :=
  match tag with
  | none => if plain then Tag.ofPlain content.toList else .text
  | some name => if name = "!" then Tag.ofPlain content.toList else Tag.ofName name

/-- The tag of a list or table. -/
def collectionTag (tag : Option String) (otherwise : Tag) : Tag :=
  match tag with
  | none => otherwise
  | some name => if name = "!" then otherwise else Tag.ofName name

/-- Something that is read inside one more list or table. -/
def inside {α : Type} (contents : Reading α) : Reading α := do
  if maxDepth ≤ (← get).depth then throw (.tooDeep .nodes)
  modify fun s => { s with depth := s.depth + 1 }
  let a ← contents
  modify fun s => { s with depth := s.depth - 1 }
  return a

/-- A list or table whose content is yet to be read; its name stands for it already. -/
def collection (p : Properties) (otherwise : Tag) (content : Reading Content) : Reading Nat := do
  checkNew p.anchor
  -- An alias within the content refers to this very node, which holds nothing yet.
  let n ← add p.anchor (collectionTag p.tag otherwise) (.list [])
  let content ← inside content
  modify fun s => { s with graph := s.graph.setContent n content }
  return n

/-- Whether a token ends an item of a block list. -/
def endsItem (t : Token) : Bool := t == .blockEntry || t == .blockEnd

/-- Whether a token ends a key or value of a block table, or an item of a list in it that is not
indented. -/
def endsPart (t : Token) : Bool := t == .key || t == .value || t == .blockEnd

/-- Whether a token ends a key or value in flow context, within what the given token closes. -/
def endsFlowPart (close t : Token) : Bool := t == .flowEntry || t == close

/-- Where a node stands. -/
inductive Context where
  /-- In a list or table in flow context. -/
  | flow
  | block
  /-- In a block table, where a list need not be indented. -/
  | blockTable
deriving DecidableEq

mutual

/-- The node at the front. The first number bounds the number of nodes. -/
def node : (fuel : Nat) → Context → Reading Nat
  | 0, _ => misplaced "expected the node content"
  | fuel + 1, context => do
    match ← peek with
    | .alias name =>
      skip
      named name
    | _ =>
      let p ← properties
      match ← peek with
      | .scalar plain content =>
        skip
        checkNew p.anchor
        add p.anchor (scalarTag p.tag plain content) (.scalar content)
      | .flowListStart =>
        collection p .list do
          skip
          return .list (← flowItems fuel true)
      | .flowTableStart =>
        collection p .table do
          skip
          return .table (← flowEntries fuel true)
      | .blockListStart =>
        if context = .flow then absent p
        else
          collection p .list do
            skip
            return .list (← blockItems fuel)
      | .blockTableStart =>
        if context = .flow then absent p
        else
          collection p .table do
            skip
            return .table (← blockEntries fuel)
      | .blockEntry =>
        -- The items of a list right below their key have no start in front of them.
        if context = .blockTable then
          collection p .list do
            return .list (← flatItems fuel)
        else absent p
      | _ => absent p

/-- The items of a block list, to its end. -/
def blockItems : (fuel : Nat) → Reading (List Nat)
  | 0 => misplaced "expected <block end>"
  | fuel + 1 => do
    if ← skipIf .blockEntry then
      let item ← if endsItem (← peek) then addEmpty else node fuel .block
      return item :: (← blockItems fuel)
    else if ← skipIf .blockEnd then return []
    else misplaced "expected <block end>"

/-- The items of a list that is not indented in its table. -/
def flatItems : (fuel : Nat) → Reading (List Nat)
  | 0 => misplaced "expected <block end>"
  | fuel + 1 => do
    if ← skipIf .blockEntry then
      let next ← peek
      let item ← if endsItem next || endsPart next then addEmpty else node fuel .block
      return item :: (← flatItems fuel)
    else return []

/-- The entries of a block table, to its end. -/
def blockEntries : (fuel : Nat) → Reading (List (Nat × Nat))
  | 0 => misplaced "expected <block end>"
  | fuel + 1 => do
    match ← peek with
    | .key =>
      skip
      let key ← if endsPart (← peek) then addEmpty else node fuel .blockTable
      let value ← blockValue fuel
      return (key, value) :: (← blockEntries fuel)
    | .blockEnd =>
      skip
      return []
    | _ => misplaced "expected <block end>"

/-- The value of an entry of a block table. -/
def blockValue : (fuel : Nat) → Reading Nat
  | 0 => misplaced "expected <block end>"
  | fuel + 1 => do
    if ← skipIf .value then
      if endsPart (← peek) then addEmpty else node fuel .blockTable
    else addEmpty

/-- The value of an entry in flow context, within what the given token closes. -/
def flowValue (close : Token) : (fuel : Nat) → Reading Nat
  | 0 => misplaced "expected a comma or the end"
  | fuel + 1 => do
    if ← skipIf .value then
      if endsFlowPart close (← peek) then addEmpty else node fuel .flow
    else addEmpty

/-- The key of an entry behind its mark in flow context, within what the given token closes. -/
def flowKey (close : Token) : (fuel : Nat) → Reading Nat
  | 0 => misplaced "expected a comma or the end"
  | fuel + 1 => do
    let next ← peek
    if next == .value || endsFlowPart close next then addEmpty else node fuel .flow

/-- The items of a list in flow context, to its end. The second argument tells whether the first
item is next. An item may be a table with one entry. -/
def flowItems : (fuel : Nat) → (first : Bool) → Reading (List Nat)
  | 0, _ => misplaced "expected ',' or ']'"
  | fuel + 1, first => do
    if ← skipIf .flowListEnd then return []
    else
      if !first then
        if !(← skipIf .flowEntry) then misplaced "expected ',' or ']'"
      match ← peek with
      | .key =>
        -- The mark of a key makes the item a table with this one entry.
        let item ← collection {} .table do
          skip
          let key ← flowKey .flowListEnd fuel
          let value ← flowValue .flowListEnd fuel
          return .table [(key, value)]
        return item :: (← flowItems fuel false)
      | .flowListEnd =>
        skip
        return []
      | _ =>
        let item ← node fuel .flow
        return item :: (← flowItems fuel false)

/-- The entries of a table in flow context, to its end. The second argument tells whether the first
entry is next. An entry may be a key alone. -/
def flowEntries : (fuel : Nat) → (first : Bool) → Reading (List (Nat × Nat))
  | 0, _ => misplaced "expected ',' or the end of a mapping"
  | fuel + 1, first => do
    if ← skipIf .flowTableEnd then return []
    else
      if !first then
        if !(← skipIf .flowEntry) then misplaced "expected ',' or the end of a mapping"
      match ← peek with
      | .key =>
        skip
        let key ← flowKey .flowTableEnd fuel
        let value ← flowValue .flowTableEnd fuel
        return (key, value) :: (← flowEntries fuel false)
      | .flowTableEnd =>
        skip
        return []
      | _ =>
        let key ← node fuel .flow
        let value ← addEmpty
        return (key, value) :: (← flowEntries fuel false)

end

/-- The short forms that every document knows. -/
def standardHandles : List (String × String) := [("!", "!"), ("!!", Tag.standard)]

/-- The directives in front of a document. The first number bounds them; `versioned` tells whether
one of them has named a version. -/
def directives : (fuel : Nat) → (versioned : Bool) → Reading Unit
  | 0, _ => return
  | fuel + 1, versioned => do
    match ← peek with
    | .version major _ =>
      skip
      if versioned then misplaced "found duplicate YAML directive"
      if major != 1 then misplaced "found incompatible YAML document (version 1.* is required)"
      directives fuel true
    | .handle name start =>
      skip
      if ((← get).handles.lookup name).isSome then misplaced "duplicate tag handle"
      modify fun s => { s with handles := (name, start) :: s.handles }
      directives fuel versioned
    | .directive =>
      skip
      directives fuel versioned
    | _ => return

/-- The beginning of a document that is set off, behind the ends of others. It is `false` if the
text ends instead. The number bounds the tokens. -/
def documentStart (fuel : Nat) : Reading Bool := do
  let rec skipEnds : Nat → Reading Unit
    | 0 => return
    | fuel + 1 => do
      if ← skipIf .documentEnd then skipEnds fuel
  skipEnds fuel
  if (← peek) == .streamEnd then return false
  else
    directives fuel false
    -- The first match counts, so a directive may give a standard short form another meaning.
    modify fun s => { s with handles := s.handles ++ standardHandles }
    if ← skipIf .documentStart then return true
    else misplaced "expected '<document start>'"

/-- Whether a token begins a document that is set off, or ends the text. -/
def isSetOff : Token → Bool
  | .version .. | .handle .. | .directive | .documentStart | .streamEnd => true
  | _ => false

/-- Whether a token shows that a document holds nothing. -/
def endsDocument (t : Token) : Bool := isSetOff t || t == .documentEnd

/-- The node of a document behind its beginning, and the end of the document. -/
def documentBody (fuel : Nat) (setOff : Bool) : Reading Nat := do
  let root ← if setOff && endsDocument (← peek) then addEmpty else node fuel .block
  let _ ← skipIf .documentEnd
  return root

/-- The node of the only document of a text, if it has one. The number bounds the tokens. -/
def document (fuel : Nat) : Reading (Option Nat) := do
  if isSetOff (← peek) then
    if ← documentStart fuel then
      let root ← documentBody fuel true
      -- The short forms of a document end with it.
      modify fun s => { s with handles := [] }
      if ← documentStart fuel then misnamed "expected a single document in the stream"
      else return some root
    else return none
  else
    modify fun s => { s with handles := standardHandles }
    let root ← documentBody fuel false
    modify fun s => { s with handles := [] }
    if ← documentStart fuel then misnamed "expected a single document in the stream"
    else return some root

end Reading

/-- The nodes that some tokens and the fault behind them make up, and the one that holds all others,
if there is any. -/
def Graph.ofTokens (tokens : List Token) (fault : Option Failure) :
    Except Failure (Option Nat × Graph) := do
  let (root, source) ← (Reading.document (4 * tokens.length + 16)).run { tokens, fault }
  return (root, source.graph)

end ClenshawCode.Yaml
