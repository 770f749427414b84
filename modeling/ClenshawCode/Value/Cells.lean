import ClenshawCode.Failure
import ClenshawCode.Value.Key

/-!
# Collections that are held apart

The lists, tables and sets of a document are held in numbered cells, and values refer to them by
number. So a document may mention one of them twice, and a list may be among its own items. Read
through its cells, such a value has no end: it can be followed as deep as one likes, or cut off
wherever a collection is met within itself.

Two values are compared side by side, and as deep as they go, up to a limit.

## Main definitions

* `Cells`: the collections of a document by number
* `Cells.resolve`: the collection that a value refers to
* `Cells.unfold`: a value with its collections in place of their numbers
* `Cells.same`: equality of two values
* `Document`: a value with the collections that it refers to
-/

namespace ClenshawCode

/-- The collections of a document by number. -/
structure Cells where
  contents : Array Value := #[]
deriving Inhabited

namespace Value

mutual

/-- A value with something in place of the collections that it refers to by number. -/
def expand (cell : Kind → Nat → Value) : Value → Value
  | shared kind n => cell kind n
  | list items => list (expandItems cell items)
  | tuple items => tuple (expandItems cell items)
  | set members => set (expandItems cell members)
  | dict entries => dict (expandEntries cell entries)
  | v => v

/-- Some values, each with something in place of the collections that it refers to. -/
def expandItems (cell : Kind → Nat → Value) : List Value → List Value
  | [] => []
  | v :: rest => expand cell v :: expandItems cell rest

/-- Some entries with something in place of the collections that they refer to. -/
def expandEntries (cell : Kind → Nat → Value) : List (Value × Value) → List (Value × Value)
  | [] => []
  | (k, v) :: rest => (expand cell k, expand cell v) :: expandEntries cell rest

end

end Value

namespace Cells

/-- The collection with a number. -/
def get (cells : Cells) (n : Nat) : Value := cells.contents[n]?.getD .null

/-- The collection that a value refers to, or the value itself. -/
def resolve (cells : Cells) : Value → Value
  | .shared _ n => cells.get n
  | v => v

/-- The collection with a number, with others in place of their numbers, but not those that are
around it. The first number bounds the depth. -/
def unfoldCell (cells : Cells) : (depth : Nat) → (around : List Nat) → Value.Kind → Nat → Value
  | 0, _, kind, n => .shared kind n
  | depth + 1, around, kind, n =>
    if around.contains n then .shared kind n
    else (cells.get n).expand (unfoldCell cells depth (n :: around))

/-- A value with its collections in place of their numbers. A collection that is met within itself
stays a number. -/
def unfold (cells : Cells) (v : Value) : Value :=
  -- Those around a collection differ from each other, so there are never more than there are cells.
  v.expand (cells.unfoldCell cells.contents.size [])

end Cells

section Comparison

/-- Whether a test holds of the items of two lists side by side, up to the first pair of which it
does not hold. -/
def allPairs (test : Value → Value → Except Failure Bool) :
    List Value → List Value → Except Failure Bool
  | [], [] => .ok true
  | v :: vs, w :: ws => do
    if ← test v w then allPairs test vs ws else return false
  | _, _ => .ok false

/-- Whether a test holds of the values that two tables have for each key of the first, up to the
first key for which it does not hold. -/
def allEntries (test : Value → Value → Except Failure Bool) (others : List (Value × Value)) :
    List (Value × Value) → Except Failure Bool
  | [] => .ok true
  | (k, v) :: rest =>
    match Value.find? false k others with
    | none => .ok false
    | some w => do
      if ← test v w then allEntries test others rest else return false

/-- Equality of two values, each read through its own cells. The number bounds the depth to which
they are followed. -/
def Cells.same (a b : Cells) : (depth : Nat) → Value → Value → Except Failure Bool
  | 0, _, _ => .error (.tooDeep .comparison)
  | depth + 1, v, w =>
    match a.resolve v, b.resolve w with
    | .list vs, .list ws =>
      if vs.length = ws.length then allPairs (same a b depth) vs ws else .ok false
    | .tuple vs, .tuple ws => allPairs (same a b depth) vs ws
    | .set vs, .set ws =>
      .ok (vs.length == ws.length && vs.all fun v => ws.any fun w => Value.sameKey false v w)
    | .dict vs, .dict ws =>
      if vs.length = ws.length then allEntries (same a b depth) ws vs else .ok false
    | v, w => .ok (Value.sameKey false v w)

end Comparison

/-- A value with the collections that it refers to. -/
structure Document where
  root : Value
  cells : Cells := {}

end ClenshawCode
