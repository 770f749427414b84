import ClenshawCode.Yaml.Tag

/-!
# Nodes that are written

A document that is to be written is a tree of scalars, lists and tables. What may be mentioned more
than once has a place: the tree holds it where it is mentioned first, and from then on, also within
itself, there is only a mention of its place.

## Main definitions

* `Yaml.Node`: nodes
* `Yaml.Node.mentions`: the places that are mentioned again in a node, in order
* `Yaml.Node.depth`: the number of lists and tables inside one another
-/

namespace ClenshawCode.Yaml

/-- The nodes of a document. -/
inductive Node where
  | scalar (tag : Tag) (content : String)
  | list (items : List Node)
  | table (tag : Tag) (entries : List (Node × Node))
  /-- A node that may be mentioned again. -/
  | placed (place : Nat) (node : Node)
  /-- The node of a place, once more. -/
  | mention (place : Nat)

namespace Node

mutual

/-- The places that are mentioned again in a node, in order. -/
def mentions : Node → List Nat
  | scalar .. => []
  | list items => mentionsItems items
  | table _ entries => mentionsEntries entries
  | placed _ n => mentions n
  | mention p => [p]

/-- The places that are mentioned again in some nodes, in order. -/
def mentionsItems : List Node → List Nat
  | [] => []
  | n :: rest => mentions n ++ mentionsItems rest

/-- The places that are mentioned again in some entries, in order. -/
def mentionsEntries : List (Node × Node) → List Nat
  | [] => []
  | (k, v) :: rest => mentions k ++ mentions v ++ mentionsEntries rest

end

mutual

/-- The number of lists and tables inside one another. -/
def depth : Node → Nat
  | scalar .. => 0
  | list items => depthItems items + 1
  | table _ entries => depthEntries entries + 1
  | placed _ n => depth n
  | mention _ => 0

/-- The number of lists and tables inside one another in some nodes. -/
def depthItems : List Node → Nat
  | [] => 0
  | n :: rest => max (depth n) (depthItems rest)

/-- The number of lists and tables inside one another in some entries. -/
def depthEntries : List (Node × Node) → Nat
  | [] => 0
  | (k, v) :: rest => max (max (depth k) (depth v)) (depthEntries rest)

end

end Node

end ClenshawCode.Yaml
