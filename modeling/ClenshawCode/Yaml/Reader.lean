import ClenshawCode.Yaml.Graph.Grammar
import ClenshawCode.Yaml.Graph.Meaning
import ClenshawCode.Yaml.Token.Scan

/-!
# Reading YAML

A text holds at most one document. It is rejected by the first of these steps that finds a fault:
all its characters have to be allowed; its words have to make tokens, the tokens a graph of nodes,
and names and aliases have to agree, in the order in which they are met; and every node has to have
a meaning.

## Main definitions

* `Yaml.read`: the value that a text holds, with the collections that it refers to
-/

namespace ClenshawCode.Yaml

/-- The nodes of a text, and the one that holds all others, if the text is not empty. -/
def graph (cs : List Char) : Except Failure (Option Nat × Graph) :=
  if cs.all isAllowed then
    let (ts, fault) := tokens cs
    Graph.ofTokens ts fault
  else .error (.document .characters "special characters are not allowed")

/-- The value that a text holds, with the collections that it refers to. -/
def read (s : String) : Except Failure Document := do
  let (root, g) ← graph s.toList
  match root with
  | some n => g.meaning n
  | none => return { root := .null }

end ClenshawCode.Yaml
