import ClenshawCode.Yaml.Tag

/-!
# Graphs of nodes

A document consists of scalars, lists and tables with tags. An alias stands for a node that was
written elsewhere, perhaps around the alias itself, so the nodes make up a graph. They are numbered
in the order in which they begin, and lists and tables refer to what they hold by number.

## Main definitions

* `Yaml.Content`: what a node holds
* `Yaml.Graph`: the nodes of a document by number
* `Yaml.Graph.tag`, `Yaml.Graph.content`: the tag and the content of a node
* `Yaml.Graph.add`: a graph with one more node
-/

namespace ClenshawCode.Yaml

/-- What a node holds; other nodes by their numbers. -/
inductive Content where
  | scalar (text : String)
  | list (items : List Nat)
  | table (entries : List (Nat × Nat))
deriving DecidableEq, Repr

/-- The nodes of a document, each with its tag, by number. -/
structure Graph where
  nodes : Array (Tag × Content) := #[]

namespace Graph

/-- The tag of a node. -/
def tag (g : Graph) (n : Nat) : Tag := (g.nodes[n]?.map Prod.fst).getD .null

/-- The content of a node. -/
def content (g : Graph) (n : Nat) : Content := (g.nodes[n]?.map Prod.snd).getD (.scalar "")

/-- The entries of a node that is a table. -/
def entries (g : Graph) (n : Nat) : List (Nat × Nat) :=
  match g.content n with
  | .table entries => entries
  | _ => []

/-- The number of the node that is added next. -/
def next (g : Graph) : Nat := g.nodes.size

/-- A graph with one more node. -/
def add (tag : Tag) (content : Content) (g : Graph) : Graph := ⟨g.nodes.push (tag, content)⟩

/-- A graph in which a node holds something else. -/
def setContent (n : Nat) (content : Content) (g : Graph) : Graph :=
  ⟨g.nodes.modify n fun node => (node.1, content)⟩

/-- A graph in which a node has another tag. -/
def setTag (n : Nat) (tag : Tag) (g : Graph) : Graph :=
  ⟨g.nodes.modify n fun node => (tag, node.2)⟩

end Graph

end ClenshawCode.Yaml
