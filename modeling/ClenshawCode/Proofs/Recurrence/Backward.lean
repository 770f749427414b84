import ClenshawCode.Proofs.Results
import ClenshawCode.Recurrence
import Mathlib.Tactic.Ring
import Mathlib.Tactic.Linarith
import Mathlib.Tactic.FieldSimp

/-!
# The recurrence on exact rationals

On rationals only a division by zero and a missing coefficient can fail. What the loop computes is
then a fold over the coefficients from the last to the first, which `backward` states on lists: the
pair of accumulators for `c :: cs` comes from the pair for `cs`. The loop that has used the
coefficients `n - 1, …, i` holds the pair for the coefficients from `i` on.

## Main definitions

* `backward`: the pair of accumulators that a list of coefficients leads to
* `twiceArgument`: the argument on the interval from `-2` to `2`
* `expansionValue`: the value of the recurrence on rationals
-/

namespace ClenshawCode

section Arithmetic

@[simp] theorem rat_ofInt (n : Int) : (Arithmetic.ofInt n : Rat) = n := rfl

@[simp] theorem rat_half : (Arithmetic.half : Rat) = 1 / 2 := rfl

@[simp] theorem rat_add (a b : Rat) : Arithmetic.add a b = .ok (a + b) := rfl

@[simp] theorem rat_sub (a b : Rat) : Arithmetic.sub a b = .ok (a - b) := rfl

@[simp] theorem rat_mul (a b : Rat) : Arithmetic.mul a b = .ok (a * b) := rfl

theorem rat_div {a b : Rat} (nonzero : b ≠ 0) : Arithmetic.div a b = .ok (a / b) :=
  if_neg nonzero

end Arithmetic

/-- The pair of accumulators that the recurrence reaches with a list of coefficients, the last of
which is used first. -/
def backward (twice : Rat) : List Rat → Rat × Rat
  | [] => (0, 0)
  | c :: rest => (twice * (backward twice rest).1 - (backward twice rest).2 + c,
      (backward twice rest).1)

/-- The argument mapped onto the interval from `-2` to `2`. -/
def twiceArgument (x low high : Rat) : Rat := -2 + 4 * (x - low) / (high - low)

/-- The value of the recurrence on rationals, for the coefficient that counts half and the others.
-/
def expansionValue (c : Rat) (rest : List Rat) (twice : Rat) : Rat :=
  1 / 2 * twice * (backward twice rest).1 - (backward twice rest).2 + 1 / 2 * c

section Tables

variable {container : String} {coeffs : List Rat} {i : ℕ}

@[simp] theorem ofList_size {α : Type} (container : String) (items : List α) :
    (Table.ofList container items).size = .ok items.length := rfl

theorem ofList_item {α : Type} (container : String) (items : List α) {i : ℕ}
    (inside : i < items.length) : (Table.ofList container items).item i = .ok items[i] := by
  simp [Table.ofList, List.getElem?_eq_getElem inside]

/-- The second accumulator for the coefficients from `i` on is the first one a coefficient later. -/
theorem backward_drop_snd (twice : Rat) (coeffs : List Rat) (i : ℕ) :
    (backward twice (coeffs.drop i)).2 = (backward twice (coeffs.drop (i + 1))).1 := by
  rcases lt_or_ge i coeffs.length with inside | beyond
  · rw [List.drop_eq_getElem_cons inside, backward]
  · rw [List.drop_of_length_le beyond, List.drop_of_length_le (by omega)]
    rfl

/-- The first accumulator for the coefficients from `i` on, by the recurrence. -/
theorem backward_drop_fst (twice : Rat) {coeffs : List Rat} {i : ℕ} (inside : i < coeffs.length) :
    (backward twice (coeffs.drop i)).1 =
      twice * (backward twice (coeffs.drop (i + 1))).1 -
        (backward twice (coeffs.drop (i + 2))).1 + coeffs[i] := by
  rw [List.drop_eq_getElem_cons inside, backward, backward_drop_snd]

/-- Beyond the last coefficient the accumulators are zero. -/
theorem backward_drop_of_le (twice : Rat) {coeffs : List Rat} {i : ℕ}
    (beyond : coeffs.length ≤ i) : backward twice (coeffs.drop i) = (0, 0) := by
  rw [List.drop_of_length_le beyond, backward]

/-- One turn of the loop takes in one coefficient. -/
theorem turn_backward (container : String) (twice : Rat) {coeffs : List Rat} {i : ℕ}
    (inside : i < coeffs.length) :
    turn (Table.ofList container coeffs) twice i (backward twice (coeffs.drop (i + 1))) =
      .ok (backward twice (coeffs.drop i)) := by
  rw [List.drop_eq_getElem_cons inside]
  simp [turn, ofList_item container coeffs inside, backward]

end Tables

section Loop

variable {α : Type} [Arithmetic α]

/-- The state of the loop over `n` coefficients after its turns with the coefficients
`n - 1, …, n - turns`. -/
def loopState (table : Table α) (twice : α) (n : ℕ) : (turns : ℕ) → Except Failure (α × α)
  | 0 => .ok (Arithmetic.ofInt 0, Arithmetic.ofInt 0)
  | turns + 1 => do
    let state ← loopState table twice n turns
    turn table twice (n - (turns + 1)) state

/-- The loop runs through its states: what is left after some turns is the loop over the remaining
coefficients. -/
theorem loopState_bind_sweep (table : Table α) (twice : α) (n : ℕ) {turns : ℕ}
    (few : turns < n) :
    (loopState table twice n turns >>= sweep table twice (n - 1 - turns)) =
      sweep table twice (n - 1) (Arithmetic.ofInt 0, Arithmetic.ofInt 0) := by
  induction turns with
  | zero => rfl
  | succ turns ih =>
    have left : n - 1 - turns = n - 1 - (turns + 1) + 1 := by omega
    have index : n - (turns + 1) = n - 1 - (turns + 1) + 1 := by omega
    -- The index is cut off at zero, so it is rewritten to a successor before the loop unfolds.
    rw [← ih (by omega), left, loopState, index, bind_assoc]
    rfl

/-- All turns of the loop. -/
theorem loopState_eq_sweep (table : Table α) (twice : α) {n : ℕ} (positive : 0 < n) :
    loopState table twice n (n - 1) =
      sweep table twice (n - 1) (Arithmetic.ofInt 0, Arithmetic.ofInt 0) := by
  rw [← loopState_bind_sweep table twice n (show n - 1 < n by omega), Nat.sub_self]
  cases loopState table twice n (n - 1) <;> rfl

end Loop

section Rational

variable (container : String) (twice : Rat)

/-- After its turns with the coefficients from the last one to `i` the loop holds the accumulators
for the coefficients from `i` on. -/
theorem loopState_backward (coeffs : List Rat) {i : ℕ} (within : i ≤ coeffs.length) :
    loopState (Table.ofList container coeffs) twice coeffs.length (coeffs.length - i) =
      .ok (backward twice (coeffs.drop i)) := by
  -- The induction runs down from the end of the list, one turn at a time.
  induction within using Nat.decreasingInduction with
  | self =>
    rw [Nat.sub_self, List.drop_length]
    rfl
  | of_succ i inside ih =>
    have turns : coeffs.length - i = coeffs.length - (i + 1) + 1 := by omega
    have index : coeffs.length - (coeffs.length - (i + 1) + 1) = i := by omega
    rw [turns, loopState, ih, except_ok_bind, index, turn_backward container twice inside]

/-- The argument is mapped whenever the interval is not a point. -/
theorem remap_rat (x : Rat) {low high : Rat} (proper : low ≠ high) :
    remap x low high = .ok (twiceArgument x low high) := by
  have width : high - low ≠ 0 := sub_ne_zero.mpr (Ne.symm proper)
  simp [remap, rat_div width, twiceArgument, add_comm]

/-- The factor and the offset map the argument as a whole does. -/
theorem scaleOffset_rat {low high : Rat} (proper : low ≠ high) :
    scaleOffset low high =
      .ok (4 * (1 / (high - low)), -4 * low * (1 / (high - low)) - 2) := by
  have width : high - low ≠ 0 := sub_ne_zero.mpr (Ne.symm proper)
  simp [scaleOffset, rat_div width]

theorem scale_mul_add_offset (x : Rat) {low high : Rat} (proper : low ≠ high) :
    4 * (1 / (high - low)) * x + (-4 * low * (1 / (high - low)) - 2) =
      twiceArgument x low high := by
  have width : high - low ≠ 0 := sub_ne_zero.mpr (Ne.symm proper)
  rw [twiceArgument]
  -- The two sides differ by the common denominator only.
  field_simp
  ring

/-- The value from the last two accumulators. -/
theorem finish_rat (c : Rat) (rest : List Rat) (d dd : Rat) :
    finish (Table.ofList container (c :: rest)) twice (.ok d) (.ok dd) =
      .ok (1 / 2 * twice * d - dd + 1 / 2 * c) := by
  simp [finish, Table.ofList]

/-- The loop computes the value of the recurrence. -/
theorem clenshaw_rat (c : Rat) (rest : List Rat) (x : Rat) {low high : Rat}
    (proper : low ≠ high) :
    clenshaw (Table.ofList container (c :: rest)) x low high =
      .ok (expansionValue c rest (twiceArgument x low high)) := by
  have swept : sweep (Table.ofList container (c :: rest)) (twiceArgument x low high)
      ((c :: rest).length - 1) (Arithmetic.ofInt 0, Arithmetic.ofInt 0) =
        .ok (backward (twiceArgument x low high) rest) := by
    -- The loop stops before the coefficient that counts half, which `finish` adds.
    rw [← loopState_eq_sweep _ _ (n := (c :: rest).length) (Nat.succ_pos rest.length)]
    exact loopState_backward container _ (c :: rest) (Nat.succ_le_succ (Nat.zero_le _))
  rw [clenshaw, remap_rat x proper, except_ok_bind, ofList_size, except_ok_bind, swept,
    except_ok_bind]
  exact finish_rat container _ c rest _ _

end Rational

end ClenshawCode
