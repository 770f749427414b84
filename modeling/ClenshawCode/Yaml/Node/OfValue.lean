import ClenshawCode.Text.Base64
import ClenshawCode.Value.Cells
import ClenshawCode.Value.Order
import ClenshawCode.Yaml.Node.Basic

/-!
# Nodes of values

The node that a value is written as. Tables are written by key, or in their own order if their keys
have no order, and sets are tables without values. Doubles always have a point, since a numeral with
an exponent and without a point would be read as text. Bytes are letters to base sixty-four.

A collection that is held apart is first only mentioned. Then the mentions are followed in the order
in which they are written: the first one of a place gives way to what the place holds.

## Main definitions

* `Yaml.floatLayout`: the layout of doubles
* `Yaml.Node.ofValue`: the node of a value, with mentions only of what is held apart
* `Yaml.Node.settle`: a node with the first mention of each place replaced by what it holds
* `Yaml.Node.ofDocument`: the node of a document
-/

namespace ClenshawCode.Yaml

/-- Doubles in YAML: `1.0e-07`, `.inf`, `.nan`. -/
def floatLayout : Decimal.Layout where
  pointBeforeExponent := true
  infinity := ".inf"
  nan := ".nan"

namespace Node

/-- The absent value. -/
def null : Node := scalar .null "null"

/-- The node of a value that is no list, table or set. An integer must not have too many digits. -/
def ofScalar : Value → Except Failure Node
  | .bool b => .ok (scalar .bool (if b then "true" else "false"))
  | .int n =>
    if Text.isWritable n then .ok (scalar .int (Text.intText n)) else .error .tooManyWritten
  | .float x => .ok (scalar .float (floatLayout.render x))
  | .nan _ => .ok (scalar .float floatLayout.nan)
  | .text s => .ok (scalar .text s)
  | .bytes content => .ok (scalar .bytes (String.ofList (Base64.encode content)))
  | .moment (some place) m => .ok (placed place (scalar .moment m.text))
  | .moment none m => .ok (scalar .moment m.text)
  | _ => .ok null

/-- Entries by key, or in the given order if the keys have no order. -/
def sorted {α : Type} (entries : List (Value × α)) : List (Value × α) :=
  match insertionSort (fun a b => Value.lt a.1 b.1) entries with
  | .ok sorted => sorted
  | .error _ => entries

/-- A table with entries by key. -/
def ofSorted (tag : Tag) (entries : List (Value × Node)) : Except Failure Node := do
  let entries ← (sorted entries).mapM fun entry => do
    let key ← ofScalar entry.1
    return (key, entry.2)
  return table tag entries

mutual

/-- The node of a value, with mentions only of what is held apart. -/
def ofValue : Value → Except Failure Node
  | .list items => return list (← ofItems items)
  | .tuple items => return list (← ofItems items)
  | .set members => ofSorted .set (members.map fun v => (v, null))
  | .dict entries => do
    let entries ← ofEntries entries
    ofSorted .table entries
  | .shared _ n => return mention n
  | v => ofScalar v

/-- The nodes of some values. -/
def ofItems : List Value → Except Failure (List Node)
  | [] => return []
  | v :: rest => do
    let n ← ofValue v
    let others ← ofItems rest
    return n :: others

/-- The entries of a table with the nodes of their values. -/
def ofEntries : List (Value × Value) → Except Failure (List (Value × Node))
  | [] => return []
  | (k, v) :: rest => do
    let n ← ofValue v
    let others ← ofEntries rest
    return (k, n) :: others

end

/-- Following mentions, with the places that have been met. -/
abbrev Settling := StateT (List Nat) (Except Failure)

/-- A node at a place, or a mention of the place if it has been met before. -/
def atPlace (place : Nat) (node : Settling Node) : Settling Node := do
  if (← get).contains place then return mention place
  else
    modify (place :: ·)
    return placed place (← node)

mutual

/-- A node with its mentions followed as the first argument says. -/
def settle (follow : Nat → Settling Node) : Node → Settling Node
  | scalar tag content => return scalar tag content
  | list items => return list (← settleItems follow items)
  | table tag entries => return table tag (← settleEntries follow entries)
  | placed place n => atPlace place (settle follow n)
  | mention place => follow place

/-- Some nodes with their mentions followed. -/
def settleItems (follow : Nat → Settling Node) : List Node → Settling (List Node)
  | [] => return []
  | n :: rest => do
    let n ← settle follow n
    let others ← settleItems follow rest
    return n :: others

/-- Some entries with their mentions followed. -/
def settleEntries (follow : Nat → Settling Node) :
    List (Node × Node) → Settling (List (Node × Node))
  | [] => return []
  | (k, v) :: rest => do
    let k ← settle follow k
    let v ← settle follow v
    let others ← settleEntries follow rest
    return (k, v) :: others

end

/-- What a cell holds, unless it has been met before. The first number bounds the cells around
it. -/
def ofCell (cells : Cells) : (fuel : Nat) → (n : Nat) → Settling Node
  | 0, n => return mention n
  | fuel + 1, n => atPlace n do
    let node ← ofValue (cells.get n)
    settle (ofCell cells fuel) node

/-- The node of a document. -/
def ofDocument (d : Document) : Except Failure Node := do
  let node ← ofValue d.root
  -- A cell within itself is only mentioned, so no more are around one than there are cells.
  let (node, _) ← (settle (ofCell d.cells (d.cells.contents.size + 1)) node).run []
  return node

end Node

end ClenshawCode.Yaml
