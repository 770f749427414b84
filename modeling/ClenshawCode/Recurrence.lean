import ClenshawCode.Value.Arithmetic
import ClenshawCode.Value.Convert

/-!
# The Clenshaw recurrence

An expansion with coefficients `c 0, …, c (n - 1)` on the interval from `low` to `high` is evaluated
at `x` by a recurrence that runs through the coefficients from the last to the first. The argument
is first mapped onto the interval from `-2` to `2`, which is twice the usual argument of the
Chebyshev polynomials, as the recurrence multiplies by it once per step.

The recurrence is given twice. The loop keeps the last two accumulators:

    (d, dd) := (twice * d - dd + c i, d)      for i = n - 1, …, 1

The straight line has one accumulator per step, and the first steps leave out the terms that are
zero. Both are written over any arithmetic whose operations may fail, so that the same definitions
run on doubles and speak about exact rationals.

## Main definitions

* `Arithmetic`: four operations that may fail, and the constants of the recurrence
* `Table`: coefficients behind a size and a look-up, either of which may fail
* `remap`, `scaleOffset`: the mapping of the argument, whole and as a factor and an offset
* `clenshaw`: the loop
* `Step`, `unrolledSteps`, `evaluateUnrolled`: the straight line
-/

namespace ClenshawCode

/-- Four operations that may fail, and the constants that the recurrence needs. -/
class Arithmetic (α : Type) where
  ofInt : Int → α
  half : α
  add : α → α → Except Failure α
  sub : α → α → Except Failure α
  mul : α → α → Except Failure α
  div : α → α → Except Failure α

/-- The recurrence as it runs: its constants are doubles. -/
instance : Arithmetic Value where
  ofInt n := .float (Float.ofInt n)
  half := .float 0.5
  add := Value.add
  sub := Value.sub
  mul := Value.mul
  div := Value.div

/-- The recurrence as mathematics: only a division by zero fails. -/
instance : Arithmetic Rat where
  ofInt n := n
  half := 1 / 2
  add a b := .ok (a + b)
  sub a b := .ok (a - b)
  mul a b := .ok (a * b)
  div a b := if b = 0 then .error .zeroDivision else .ok (a / b)

/-- Coefficients behind a size and a look-up, either of which may fail. -/
structure Table (α : Type) where
  size : Except Failure Nat
  item : Nat → Except Failure α

/-- The items of a list as coefficients; the container's name is for the message when one is
missing. -/
def Table.ofList {α : Type} (container : String) (items : List α) : Table α where
  size := .ok items.length
  item i := match items[i]? with
    | some c => .ok c
    | none => .error (.outOfRange container)

/-- A value as coefficients. -/
def Table.ofValue (v : Value) : Table Value where
  size := v.length
  item := v.item

section Mapping

variable {α : Type} [Arithmetic α]

open Arithmetic

/-- The argument mapped onto the interval from `-2` to `2`. -/
def remap (x low high : α) : Except Failure α := do
  let fromLow ← sub x low
  let numerator ← mul (ofInt 4) fromLow
  let width ← sub high low
  let quotient ← div numerator width
  add (ofInt (-2)) quotient

/-- The factor and the offset that map the argument onto the interval from `-2` to `2`. -/
def scaleOffset (low high : α) : Except Failure (α × α) := do
  let width ← sub high low
  let k ← div (ofInt 1) width
  let a ← mul (ofInt 4) k
  let fromLow ← mul (ofInt (-4)) low
  let scaled ← mul fromLow k
  let b ← sub scaled (ofInt 2)
  return (a, b)

/-- The value `1/2 * twice * d - dd + 1/2 * c 0` from the last two accumulators, of which the
second is looked up only after the product is formed. -/
def finish (table : Table α) (twice : α) (d dd : Except Failure α) : Except Failure α := do
  let halfTwice ← mul half twice
  let product ← mul halfTwice (← d)
  let difference ← sub product (← dd)
  let constant ← mul half (← table.item 0)
  add difference constant

end Mapping

section Loop

variable {α : Type} [Arithmetic α]

open Arithmetic

/-- One turn of the loop with coefficient `i`: the new pair of accumulators. -/
def turn (table : Table α) (twice : α) (i : Nat) (state : α × α) : Except Failure (α × α) := do
  let product ← mul twice state.1
  let difference ← sub product state.2
  -- The coefficient is looked up last, so the arithmetic before it fails first.
  let c ← table.item i
  let d ← add difference c
  return (d, state.1)

/-- The turns of the loop with the coefficients `i, …, 1`. -/
def sweep (table : Table α) (twice : α) : Nat → α × α → Except Failure (α × α)
  | 0, state => .ok state
  | i + 1, state => do
    let next ← turn table twice (i + 1) state
    sweep table twice i next

/-- The expansion at `x`, by the loop. -/
def clenshaw (table : Table α) (x low high : α) : Except Failure α := do
  let twice ← remap x low high
  -- The coefficient of index zero is left to `finish`, which counts it half.
  let n ← table.size
  let (d, dd) ← sweep table twice (n - 1) (ofInt 0, ofInt 0)
  finish table twice (.ok d) (.ok dd)

end Loop

/-- Which terms of the general step a step of the straight line keeps. -/
inductive StepKind where
  /-- The accumulator is zero. -/
  | boundary
  /-- The accumulator is the coefficient. -/
  | leading
  /-- The accumulator one above takes part, the one two above is zero. -/
  | second
  | general
deriving DecidableEq, Repr

/-- One assignment of the straight line, to the accumulator of an index. -/
structure Step where
  index : Nat
  kind : StepKind
deriving DecidableEq, Repr

/-- The kind of the step with an index among `n` coefficients. -/
def stepKind (n index : Nat) : StepKind :=
  if n ≤ index then .boundary
  else if index + 1 = n then .leading
  else if index + 2 = n then .second
  else .general

/-- The steps for `n` coefficients, from the accumulator `n + 1` down to the accumulator `1`. -/
def unrolledSteps (n : Nat) : List Step :=
  (List.range (n + 1)).reverse.map fun i => ⟨i + 1, stepKind n (i + 1)⟩

section StraightLine

variable {α : Type} [Arithmetic α]

open Arithmetic

/-- The accumulators that have been assigned, the latest first. -/
abbrev Accumulators (α : Type) := List (Nat × α)

/-- The accumulator of an index. -/
def accumulator (acc : Accumulators α) (index : Nat) : Except Failure α :=
  match acc.lookup index with
  | some d => .ok d
  | none => .error (.missingKey (.int index))

/-- The value that a step assigns. -/
def stepValue (table : Table α) (twice : α) (acc : Accumulators α) (step : Step) :
    Except Failure α :=
  match step.kind with
  | .boundary => .ok (ofInt 0)
  | .leading => table.item step.index
  | .second => do
    let product ← mul twice (← accumulator acc (step.index + 1))
    add product (← table.item step.index)
  | .general => do
    let product ← mul twice (← accumulator acc (step.index + 1))
    let sum ← add product (← table.item step.index)
    sub sum (← accumulator acc (step.index + 2))

/-- The accumulators after a sequence of steps. -/
def runSteps (table : Table α) (twice : α) :
    List Step → Accumulators α → Except Failure (Accumulators α)
  | [], acc => .ok acc
  | step :: rest, acc => do
    let d ← stepValue table twice acc step
    runSteps table twice rest ((step.index, d) :: acc)

/-- The expansion at `x`, by the straight line. -/
def evaluateUnrolled (table : Table α) (x low high : α) : Except Failure α := do
  let (a, b) ← scaleOffset low high
  let scaled ← mul a x
  let twice ← add scaled b
  let n ← table.size
  let acc ← runSteps table twice (unrolledSteps n) []
  finish table twice (accumulator acc 1) (accumulator acc 2)

end StraightLine

/-- The steps for a number of coefficients given as a value: the number is increased by one before
it is asked to be an integer, and a negative one has no steps. -/
def unrolledStepsOf (n : Value) : Except Failure (List Step) := do
  let next ← Value.add n (.int 1)
  let top ← next.toInt
  return if 0 < top then unrolledSteps (top - 1).toNat else []

end ClenshawCode
