import ClenshawCode.Value.Basic

/-!
# Keys

Numbers are one key when they are exactly the same number, whether integers, doubles or truth
values. A double that is no number is the same key as another only if the two come from one place.
Lists and tables are no keys.

## Main definitions

* `Value.sameOrigin`: whether two doubles that are no number are one
* `Value.sameKey`: whether two values are one key
* `Value.find?`: the value that a table holds for a key
* `Value.ofPairs`: the entries of a table from a sequence of keys and values
-/

namespace ClenshawCode.Value

/-- Whether two doubles that are no number are one and the same. The places of scalars tell
something only within one document, as the first argument says. -/
def sameOrigin (oneDocument : Bool) : Origin → Origin → Bool
  | .scalar a, .scalar b => oneDocument && a == b
  | a, b => a == b

/-- Whether two values are one key, and not lists or tables. -/
def sameKey (oneDocument : Bool) : Value → Value → Bool
  | null, null => true
  | text s, text t => s == t
  | bytes a, bytes b => a == b
  | moment _ a, moment _ b => a.same b
  | nan a, nan b => sameOrigin oneDocument a b
  | a, b =>
    match a.exactly?, b.exactly? with
    | some x, some y => x.same y
    | _, _ => false

/-- The value that a table's entries hold for a key. -/
def find? (oneDocument : Bool) (k : Value) (entries : List (Value × Value)) : Option Value :=
  (entries.find? fun entry => sameKey oneDocument k entry.1).map Prod.snd

/-- The entries with a value for a key: an equal key keeps its place and its spelling and takes the
new value, a new key comes last. -/
def insertEntry (k v : Value) : List (Value × Value) → List (Value × Value)
  | [] => [(k, v)]
  | (k', v') :: rest =>
    if sameKey true k k' then (k', v) :: rest else (k', v') :: insertEntry k v rest

/-- The entries of a table from a sequence of keys and values, in which later values replace
earlier ones. -/
def ofPairs (pairs : List (Value × Value)) : List (Value × Value) :=
  pairs.foldl (fun entries pair => insertEntry pair.1 pair.2 entries) []

end ClenshawCode.Value
