import ClenshawCode.Failure

/-!
# Sorting the entries of a table

Saved expansions list the entries of a table by key. Numbers are ordered by their exact value, texts
by code points, bytes by their numbers and moments by time; keys of different kinds have no order,
and then the first two keys that the sorting compares are reported.

The entries are sorted by insertion with a binary search. Entries that already ascend, or all
descend, at the front are taken as they are first, so the comparisons, and with them the reported
pair, are determined.

## Main definitions

* `Value.lt`: the order of two keys
* `insertionSort`: sorting with an order that can fail
-/

namespace ClenshawCode

/-- The order of texts by code points. -/
def textLt (s t : String) : Bool := s < t

namespace Value

/-- Whether one key comes before another. -/
def lt (v w : Value) : Except Failure Bool :=
  match v, w with
  | text s, text t => .ok (textLt s t)
  | bytes a, bytes b => .ok (a < b)
  | moment _ a, moment _ b => match a.lt? b with
    | some before => .ok before
    | none => .error (.momentOrder v.kind w.kind)
  | _, _ =>
    match v.exactly?, w.exactly? with
    | some x, some y => .ok (x.lt y)
    | _, _ => .error (.order v.kind w.kind)

end Value

section Sorting

variable {ε α : Type}

/-- The number of further items that go on ascending, or descending, from the one before. -/
def runLength (lt : α → α → Except ε Bool) (descending : Bool) : α → List α → Except ε Nat
  | _, [] => .ok 0
  | last, x :: rest => do
    if (← lt x last) = descending then
      let more ← runLength lt descending x rest
      .ok (more + 1)
    else .ok 0

/-- The place between `low` and `high` of a sorted array at which an item is inserted, after the
items equal to it. -/
def insertionPlace (lt : α → α → Except ε Bool) (x : α) (sorted : Array α) (low high : Nat) :
    Except ε Nat :=
  if _h : low < high then do
    let middle := low + (high - low) / 2
    match sorted[middle]? with
    | none => .ok low
    | some y =>
      if ← lt x y then insertionPlace lt x sorted low middle
      else insertionPlace lt x sorted (middle + 1) high
  else .ok low
termination_by high - low

/-- A sorted list with further items inserted. -/
def insertAll (lt : α → α → Except ε Bool) : (sorted : List α) → List α → Except ε (List α)
  | sorted, [] => .ok sorted
  | sorted, x :: rest => do
    let place ← insertionPlace lt x sorted.toArray 0 sorted.length
    insertAll lt (sorted.take place ++ x :: sorted.drop place) rest

/-- A list sorted by an order that can fail. -/
def insertionSort (lt : α → α → Except ε Bool) : List α → Except ε (List α)
  | [] => .ok []
  | [x] => .ok [x]
  | x :: y :: rest => do
    let descending ← lt y x
    let more ← runLength lt descending y rest
    let run := x :: y :: rest.take more
    insertAll lt (if descending then run.reverse else run) (rest.drop more)

end Sorting

end ClenshawCode
