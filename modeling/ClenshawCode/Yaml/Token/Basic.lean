/-!
# Tokens

The words and marks that the structure of a document is made of. Indentation is made explicit: a
list or table in block context has a token where it begins and one where it ends.

## Main definitions

* `Yaml.Token`: tokens
-/

namespace ClenshawCode.Yaml

/-- The tokens of a document. -/
inductive Token where
  | streamEnd
  /-- The version that a document says it is written in. -/
  | version (major minor : Nat)
  /-- A short form of the beginning of tags. -/
  | handle (name start : String)
  /-- Any other directive. -/
  | directive
  | documentStart
  | documentEnd
  | blockListStart
  | blockTableStart
  | blockEnd
  | flowListStart
  | flowListEnd
  | flowTableStart
  | flowTableEnd
  | blockEntry
  | flowEntry
  | key
  | value
  | alias (name : String)
  | anchor (name : String)
  | tag (handle : Option String) (suffix : String)
  /-- A scalar; a plain one has no quotes and is not in block form. -/
  | scalar (plain : Bool) (content : String)
deriving DecidableEq, Repr

end ClenshawCode.Yaml
