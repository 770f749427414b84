import ClenshawCode.Value.Cells
import ClenshawCode.Value.Members
import ClenshawCode.Yaml.Graph.Basic
import ClenshawCode.Yaml.Scalar.Meaning

/-!
# What nodes mean

The value of every node under its tag. A scalar means a value at once; a list, table or set is first
given a cell with the number of its node, and the cell is filled when its turn comes, in the order
in which the nodes are met. So a node that is met again has its value already, even within itself.

A table under the key `<<` is taken over into the table around it: its entries come first, so that
those of the table itself win. A list of tables is taken over in reverse order. Where a scalar is
asked for, a table with the key `=` stands for the value that it has there; anywhere else that key
is a text.

## Main definitions

* `Yaml.Graph.takeOver`: a graph in which a table holds the entries that it takes over
* `Yaml.Graph.scalarText`: what a node says as a scalar
* `Yaml.Draft`: the values that have been made, and the cells that wait to be filled
* `Yaml.Graph.meaning`: the value of a node with the cells that it refers to
-/

namespace ClenshawCode.Yaml

namespace Graph

/-- A graph in which the keys of some entries that ask for a scalar are texts. -/
def settleKeys (entries : List (Nat × Nat)) (g : Graph) : Graph :=
  entries.foldl (fun g entry => if g.tag entry.1 = .value then g.setTag entry.1 .text else g) g

/-- A graph in which a table holds the entries that it takes over from other tables, from the entry
at `start` on. The first number bounds the entries that ask for it; `taken` holds what has been
taken over already. -/
def takeOver : (fuel : Nat) → (n start : Nat) → (taken : List (Nat × Nat)) → Graph →
    Except Failure Graph
  | 0, _, _, _, _ => .error (.tooDeep .nodes)
  | fuel + 1, n, start, taken, g => do
    let entries := g.entries n
    let passed := (entries.drop start).takeWhile fun entry => g.tag entry.1 != .merge
    let place := start + passed.length
    let g := g.settleKeys passed
    match entries[place]? with
    | none => return if taken.isEmpty then g else g.setContent n (.table (taken ++ entries))
    | some (_, source) =>
      -- The entry is gone before its tables are looked at, since this table may be among them.
      let g := g.setContent n (.table (entries.eraseIdx place))
      match g.content source with
      | .table _ =>
        let g ← takeOver fuel source 0 [] g
        takeOver fuel n place (taken ++ g.entries source) g
      | .list parts =>
        let (lists, g) ← parts.foldlM (fun (lists, g) part => do
          match g.content part with
          | .table _ =>
            let g ← takeOver fuel part 0 [] g
            return (g.entries part :: lists, g)
          | _ => meaningless "expected a mapping for merging") (([] : List (List (Nat × Nat))), g)
        takeOver fuel n place (taken ++ lists.flatten) g
      | .scalar _ => meaningless "expected a mapping or list of mappings for merging"

/-- The number of entries that ask for others to be taken over. -/
def mergeCount (g : Graph) : Nat :=
  (g.nodes.toList.map fun node => match node.2 with
    | .table entries => entries.countP fun entry => g.tag entry.1 == .merge
    | _ => 0).foldl (· + ·) 0

/-- What a node says as a scalar: a table says what its entry with the key `=` does. The first
number bounds the nodes on the way. -/
def scalarText (g : Graph) : (fuel : Nat) → (n : Nat) → Except Failure String
  | 0, _ => .error (.tooDeep .nodes)
  | fuel + 1, n =>
    match g.content n with
    | .scalar text => .ok text
    | .list _ => meaningless "expected a scalar node"
    | .table entries =>
      match entries.find? fun entry => g.tag entry.1 == .value with
      | some (_, v) => scalarText g fuel v
      | none => meaningless "expected a scalar node"

/-- The value of a node under a tag that scalars can have. -/
def scalarMeaning (g : Graph) (tag : Tag) (n : Nat) : Except Failure Value := do
  -- On a way with more nodes than there are, one comes back.
  let text ← g.scalarText (g.next + 1) n
  match tag, g.content n with
  | .moment, .scalar _ => scalarValue tag n text
  | .moment, _ => .error (.notText .list)
  | _, _ => scalarValue tag n text

end Graph

/-- The values that have been made of a graph. -/
structure Draft where
  graph : Graph
  /-- The values of the nodes that have been met, by number. -/
  made : Array (Option Value)
  /-- The contents of lists, tables and sets, by the numbers of their nodes. -/
  contents : Array Value
  /-- The lists, tables and sets that are yet to be filled, the next one first. -/
  waiting : List Nat := []

/-- Making values of a graph. -/
abbrev Drafting := StateT Draft (Except Failure)

namespace Drafting

/-- The cell of a node, which is filled later. -/
def cell (kind : Value.Kind) (n : Nat) : Drafting Value := do
  modify fun d => { d with waiting := d.waiting ++ [n] }
  return .shared kind n

/-- The value of a node. -/
def value (n : Nat) : Drafting Value := do
  let d ← get
  match d.made[n]?.join with
  | some v => return v
  | none =>
    let v ← match d.graph.tag n with
      | .list | .orderedTable | .pairs => cell .list n
      | .table => cell .dict n
      | .set => cell .set n
      | .merge | .value | .other => meaningless "could not determine a constructor for the tag"
      | tag => d.graph.scalarMeaning tag n
    modify fun d => { d with made := d.made.setIfInBounds n (some v) }
    return v

/-- The entries of a table with what it takes over. Later values replace earlier ones of the same
key, and no key is a collection. -/
def tableEntries (n : Nat) : Drafting (List (Value × Value)) := do
  let g := (← get).graph
  match g.content n with
  | .table _ =>
    -- Each round takes one of these entries away for good.
    let g ← g.takeOver (g.mergeCount + 1) n 0 []
    modify fun d => { d with graph := g }
    (g.entries n).foldlM (fun entries (k, v) => do
      let key ← value k
      match key with
      | .shared .. => meaningless "found unhashable key"
      | _ => return Value.insertEntry key (← value v) entries) []
  | _ => meaningless "expected a mapping node"

/-- The items of a list. -/
def listItems (n : Nat) : Drafting (List Value) := do
  match (← get).graph.content n with
  | .list items => items.mapM value
  | _ => meaningless "expected a sequence node"

/-- The pairs that a list of tables with one entry each stands for. -/
def pairItems (n : Nat) : Drafting (List Value) := do
  match (← get).graph.content n with
  | .list items => items.mapM fun item => do
    match (← get).graph.content item with
    | .table [(k, v)] =>
      let key ← value k
      return .tuple [key, ← value v]
    | _ => meaningless "expected a mapping with a single item"
  | _ => meaningless "expected a sequence"

/-- What the cell of a node holds. -/
def content (n : Nat) : Drafting Value := do
  match (← get).graph.tag n with
  | .table => return .dict (← tableEntries n)
  | .set => return .set (Value.inSlots ((← tableEntries n).map Prod.fst))
  | .list => return .list (← listItems n)
  | _ => return .list (← pairItems n)

/-- Fills the cells that wait, and those that come up meanwhile. The number bounds them. -/
def fillCells : (fuel : Nat) → Drafting Unit
  | 0 => return
  | fuel + 1 => do
    match (← get).waiting with
    | [] => return
    | n :: rest =>
      modify fun d => { d with waiting := rest }
      let v ← content n
      modify fun d => { d with contents := d.contents.setIfInBounds n v }
      fillCells fuel

end Drafting

/-- The value of a node with the cells that it refers to. -/
def Graph.meaning (g : Graph) (n : Nat) : Except Failure Document := do
  let empty : Draft := {
    graph := g, made := Array.replicate g.next none, contents := Array.replicate g.next .null }
  let (root, d) ← (do
    let root ← Drafting.value n
    -- Every node waits at most once.
    Drafting.fillCells g.next
    return root : Drafting Value).run empty
  return { root, cells := ⟨d.contents⟩ }

end ClenshawCode.Yaml
