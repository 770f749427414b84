import ClenshawCode.Value.Hindrance
import Mathlib.Order.MinMax
import Mathlib.Tactic.Tauto

/-!
# When a value can be shown

Two things hinder a value from being part of a message: it is deeper than there are levels, or an
integer in it is too long to be written. The height of a value is the number of levels that it
takes, and with as many of them only its integers matter.

## Main definitions

* `Value.height`: the levels that a value takes
* `Value.isShort`: whether all integers in a value can be written
* `Value.IsHindrance`: what can hinder a value

## Main results

* `hindrance?_eq_none_iff`: which values can be shown
* `isHindrance_of_hindrance?`: what hinders the others
-/

namespace ClenshawCode.Value

mutual

/-- The levels that a value takes. The members of a set are listed first. -/
def height : Value → ℕ
  | list items => heightOfItems items + 1
  | tuple items => heightOfItems items + 1
  | set [] => 1
  | set (v :: rest) => heightOfItems (v :: rest) + 2
  | dict entries => heightOfEntries entries + 1
  | _ => 1

/-- The levels that the values of a list take. -/
def heightOfItems : List Value → ℕ
  | [] => 0
  | v :: rest => max v.height (heightOfItems rest)

/-- The levels that the keys and values of a table take. -/
def heightOfEntries : List (Value × Value) → ℕ
  | [] => 0
  | (k, v) :: rest => max (max k.height v.height) (heightOfEntries rest)

end

mutual

/-- Whether all integers in a value can be written. -/
def isShort : Value → Bool
  | int n => Text.isWritable n
  | list items => areShort items
  | tuple items => areShort items
  | set members => areShort members
  | dict entries => areEntriesShort entries
  | _ => true

/-- Whether all integers in the values of a list can be written. -/
def areShort : List Value → Bool
  | [] => true
  | v :: rest => v.isShort && areShort rest

/-- Whether all integers in the keys and values of a table can be written. -/
def areEntriesShort : List (Value × Value) → Bool
  | [] => true
  | (k, v) :: rest => k.isShort && v.isShort && areEntriesShort rest

end

section Hindrance

mutual

/-- Nothing hinders a value that has the levels it takes and no long integer. -/
theorem hindrance?_eq_none_iff (levels : ℕ) (v : Value) :
    v.hindrance? levels = none ↔ v.height ≤ levels ∧ v.isShort = true := by
  cases v with
  | list items =>
    cases levels with
    | zero => simp [hindrance?, height]
    | succ levels => simp [hindrance?, height, isShort, hindranceOfItems?_eq_none_iff levels items]
  | tuple items =>
    cases levels with
    | zero => simp [hindrance?, height]
    | succ levels => simp [hindrance?, height, isShort, hindranceOfItems?_eq_none_iff levels items]
  | set members =>
    cases members with
    | nil => cases levels <;> simp [hindrance?, height, isShort, areShort]
    | cons v rest =>
      match levels with
      | 0 => simp [hindrance?, height]
      | 1 => simp [hindrance?, height]
      | levels + 2 =>
        simp [hindrance?, height, isShort, hindranceOfItems?_eq_none_iff levels (v :: rest)]
  | dict entries =>
    cases levels with
    | zero => simp [hindrance?, height]
    | succ levels =>
      simp [hindrance?, height, isShort, hindranceOfEntries?_eq_none_iff levels entries]
  | _ => cases levels <;> simp [hindrance?, height, isShort]

theorem hindranceOfItems?_eq_none_iff (levels : ℕ) (items : List Value) :
    hindranceOfItems? levels items = none ↔
      heightOfItems items ≤ levels ∧ areShort items = true := by
  cases items with
  | nil => simp [hindranceOfItems?, heightOfItems, areShort]
  | cons v rest =>
    simp only [hindranceOfItems?, heightOfItems, areShort, Option.or_eq_none_iff,
      hindrance?_eq_none_iff levels v, hindranceOfItems?_eq_none_iff levels rest, max_le_iff,
      Bool.and_eq_true]
    tauto

theorem hindranceOfEntries?_eq_none_iff (levels : ℕ) (entries : List (Value × Value)) :
    hindranceOfEntries? levels entries = none ↔
      heightOfEntries entries ≤ levels ∧ areEntriesShort entries = true := by
  cases entries with
  | nil => simp [hindranceOfEntries?, heightOfEntries, areEntriesShort]
  | cons entry rest =>
    obtain ⟨k, v⟩ := entry
    simp only [hindranceOfEntries?, heightOfEntries, areEntriesShort, Option.or_eq_none_iff,
      hindrance?_eq_none_iff levels k, hindrance?_eq_none_iff levels v,
      hindranceOfEntries?_eq_none_iff levels rest, max_le_iff, Bool.and_eq_true]
    tauto

end

/-- What can hinder a value: a long integer, or its depth. -/
def IsHindrance (failure : Failure) : Prop :=
  failure = .tooManyWritten ∨ failure = .tooDeep .shown

variable {failure : Failure}

mutual

theorem isHindrance_of_hindrance? (levels : ℕ) (v : Value)
    (hindered : v.hindrance? levels = some failure) : IsHindrance failure := by
  cases levels with
  | zero =>
    rw [hindrance?] at hindered
    exact .inr (Option.some.inj hindered).symm
  | succ levels =>
    cases v with
    | int n =>
      rw [hindrance?, ite_eq_iff] at hindered
      rcases hindered with ⟨-, shown⟩ | ⟨-, long⟩
      · cases shown
      · exact .inl (Option.some.inj long).symm
    | list items =>
      rw [hindrance?] at hindered
      exact isHindrance_of_hindranceOfItems? levels items hindered
    | tuple items =>
      rw [hindrance?] at hindered
      exact isHindrance_of_hindranceOfItems? levels items hindered
    | set members =>
      match levels, members with
      | _, [] => simp [hindrance?] at hindered
      | 0, v :: rest =>
        rw [hindrance?] at hindered
        exact .inr (Option.some.inj hindered).symm
      | levels + 1, v :: rest =>
        rw [hindrance?] at hindered
        exact isHindrance_of_hindranceOfItems? levels (v :: rest) hindered
    | dict entries =>
      rw [hindrance?] at hindered
      exact isHindrance_of_hindranceOfEntries? levels entries hindered
    | _ => simp [hindrance?] at hindered

theorem isHindrance_of_hindranceOfItems? (levels : ℕ) (items : List Value)
    (hindered : hindranceOfItems? levels items = some failure) : IsHindrance failure := by
  cases items with
  | nil => simp [hindranceOfItems?] at hindered
  | cons v rest =>
    rw [hindranceOfItems?, Option.or_eq_some_iff] at hindered
    rcases hindered with first | ⟨-, later⟩
    · exact isHindrance_of_hindrance? levels v first
    · exact isHindrance_of_hindranceOfItems? levels rest later

theorem isHindrance_of_hindranceOfEntries? (levels : ℕ) (entries : List (Value × Value))
    (hindered : hindranceOfEntries? levels entries = some failure) : IsHindrance failure := by
  cases entries with
  | nil => simp [hindranceOfEntries?] at hindered
  | cons entry rest =>
    obtain ⟨k, v⟩ := entry
    rw [hindranceOfEntries?, Option.or_eq_some_iff, Option.or_eq_some_iff] at hindered
    rcases hindered with (key | ⟨-, value⟩) | ⟨-, later⟩
    · exact isHindrance_of_hindrance? levels k key
    · exact isHindrance_of_hindrance? levels v value
    · exact isHindrance_of_hindranceOfEntries? levels rest later

end

end Hindrance

end ClenshawCode.Value
