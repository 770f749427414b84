import ClenshawCode.Proofs.Results
import ClenshawCode.Value.Order
import Mathlib

/-!
# Entries are sorted by their keys

The order of keys can fail, but it does not for keys of one kind. If a comparison follows some keys,
every item is inserted behind those that are not above it, the run at the front ascends once it is
turned, and so the items come out in ascending order. When no two keys are the same there is only
one such order, however the items were arranged before.

## Main definitions

* `ComparesBy`: a comparison that follows the keys of the items of a kind
* `Value.textOf`: the text that a key is

## Main results

* `insertionSort_eq`: the items in ascending order of their keys
-/

namespace ClenshawCode

variable {ε α γ : Type} [LinearOrder γ] {lt : α → α → Except ε Bool} {key : α → γ}
  {Known : α → Prop}

/-- A comparison of known items that does not fail and follows their keys. -/
def ComparesBy (lt : α → α → Except ε Bool) (key : α → γ) (Known : α → Prop) : Prop :=
  ∀ a b, Known a → Known b → lt a b = .ok (decide (key a < key b))

/-- Items in ascending order of their keys. -/
abbrev Ascending (key : α → γ) (items : List α) : Prop :=
  items.Pairwise fun a b => key a ≤ key b

section Insertion

variable {x y : α} {sorted : Array α} {items : List α}

/-- A comparison with the item in the middle halves the places to which an item can belong. -/
theorem insertionPlace_step {low high : ℕ} {before : Bool} (inside : low < high)
    (item : sorted[low + (high - low) / 2]? = some y) (order : lt x y = .ok before) :
    insertionPlace lt x sorted low high =
      if before then insertionPlace lt x sorted low (low + (high - low) / 2)
      else insertionPlace lt x sorted (low + (high - low) / 2 + 1) high := by
  rw [insertionPlace, dif_pos inside]
  simp only [item, order, except_ok_bind]

theorem insertionPlace_self (low : ℕ) : insertionPlace lt x sorted low low = .ok low := by
  rw [insertionPlace, dif_neg (lt_irrefl low)]

/-- The items in front of a place are not above an item, and those behind it are. -/
structure Parts (key : α → γ) (x : α) (items : List α) (low high : ℕ) : Prop where
  front : ∀ i (inside : i < items.length), i < low → key items[i] ≤ key x
  behind : ∀ i (inside : i < items.length), high ≤ i → key x < key items[i]

theorem exists_insertionPlace (compares : ComparesBy lt key Known) (known : Known x)
    (each : ∀ a ∈ items, Known a) (ascending : Ascending key items) {low high : ℕ}
    (order : low ≤ high) (inside : high ≤ items.length) (parts : Parts key x items low high) :
    ∃ place, insertionPlace lt x items.toArray low high = .ok place ∧
      Parts key x items place place := by
  -- Each comparison leaves one half of the places, and what is known of the other half grows.
  induction low, high using insertionPlace.induct items.toArray with
  | case1 low high nonempty middle none =>
    rw [List.getElem?_toArray, List.getElem?_eq_none_iff] at none
    omega
  | case2 low high nonempty middle y item lower upper =>
    have place : middle < items.length := by omega
    have found : items[middle] = y := by
      rw [List.getElem?_toArray] at item
      exact (List.getElem?_eq_some_iff.mp item).2
    have monotone (i j : ℕ) (inside : j < items.length) (le : i ≤ j) :
        key items[i] ≤ key items[j] := by
      rcases le.lt_or_eq with less | rfl
      · exact List.pairwise_iff_getElem.mp ascending i j (by omega) inside less
      · exact le_rfl
    have decided := compares x y known (each y (found ▸ List.getElem_mem place))
    rw [insertionPlace_step nonempty item decided]
    by_cases before : key x < key y
    · rw [decide_eq_true before, if_pos rfl]
      refine lower (by omega) (by omega) ⟨parts.front, fun i inside le => ?_⟩
      exact before.trans_le (found ▸ monotone middle i inside le)
    · rw [decide_eq_false before, if_neg Bool.false_ne_true]
      refine upper (by omega) (by omega) ⟨fun i inside less => ?_, parts.behind⟩
      exact (monotone i middle place (by omega)).trans (found ▸ not_lt.mp before)
  | case3 low high empty =>
    obtain rfl : low = high := by omega
    exact ⟨low, insertionPlace_self low, parts⟩

/-- An item put in its place keeps the order. -/
theorem Parts.ascending {place : ℕ} (parts : Parts key x items place place)
    (ascending : Ascending key items) :
    Ascending key (items.take place ++ x :: items.drop place) := by
  have front : ∀ a ∈ items.take place, key a ≤ key x := by
    intro a member
    obtain ⟨i, inside, rfl⟩ := List.mem_take_iff_getElem.mp member
    exact parts.front i (by omega) (by omega)
  have behind : ∀ a ∈ items.drop place, key x < key a := by
    intro a member
    obtain ⟨i, inside, rfl⟩ := List.mem_drop_iff_getElem.mp member
    exact parts.behind _ (by omega) (by omega)
  refine List.pairwise_append.mpr ⟨ascending.sublist (List.take_sublist _ _),
    List.pairwise_cons.mpr ⟨fun a member => (behind a member).le,
      ascending.sublist (List.drop_sublist _ _)⟩, fun a left b right => ?_⟩
  rcases List.mem_cons.mp right with rfl | later
  · exact front a left
  · exact (front a left).trans (behind b later).le

/-- Items are inserted one after the other. -/
theorem exists_insertAll (compares : ComparesBy lt key Known) {others : List α}
    (each : ∀ a ∈ items ++ others, Known a) (ascending : Ascending key items) :
    ∃ all, insertAll lt items others = .ok all ∧ all.Perm (items ++ others) ∧
      Ascending key all := by
  induction others generalizing items with
  | nil => exact ⟨items, rfl, by simp, ascending⟩
  | cons x rest ih =>
    have parts : Parts key x items 0 items.length :=
      ⟨fun i _ less => absurd less (Nat.not_lt_zero i), fun i inside le => by omega⟩
    obtain ⟨place, found, parts⟩ := exists_insertionPlace compares (each x (by simp))
      (fun a member => each a (List.mem_append_left _ member)) ascending (Nat.zero_le _) le_rfl
      parts
    let next := items.take place ++ x :: items.drop place
    have one : next.Perm (x :: items) := by
      have moved : next.Perm (x :: (items.take place ++ items.drop place)) := List.perm_middle
      rwa [List.take_append_drop] at moved
    have whole : (next ++ rest).Perm (items ++ x :: rest) :=
      (one.append_right rest).trans List.perm_middle.symm
    have known : ∀ a ∈ next ++ rest, Known a := fun a member => each a (whole.mem_iff.mp member)
    obtain ⟨all, inserted, perm, sorted⟩ := ih known (parts.ascending ascending)
    refine ⟨all, ?_, perm.trans whole, sorted⟩
    rw [insertAll, found, except_ok_bind]
    exact inserted

end Insertion

section Runs

/-- The run at the front goes in one direction. -/
theorem exists_runLength (compares : ComparesBy lt key Known) (descending : Bool) {last : α}
    {rest : List α} (each : ∀ a ∈ last :: rest, Known a) :
    ∃ more, runLength lt descending last rest = .ok more ∧
      (last :: rest.take more).IsChain fun a b => decide (key b < key a) = descending := by
  induction rest generalizing last with
  | nil => exact ⟨0, rfl, .singleton last⟩
  | cons x rest ih =>
    have order := compares x last (each x (by simp)) (each last (by simp))
    obtain ⟨more, counted, chain⟩ := ih fun a member => each a (List.mem_cons_of_mem last member)
    by_cases goes : decide (key x < key last) = descending
    · refine ⟨more + 1, ?_, ?_⟩
      · rw [runLength, order, except_ok_bind, if_pos goes, counted]
        rfl
      · rw [List.take_succ_cons]
        exact .cons_cons goes chain
    · refine ⟨0, ?_, .singleton last⟩
      rw [runLength, order, except_ok_bind, if_neg goes]

/-- A descending run ascends once it is turned. -/
theorem ascending_of_isChain {run : List α} {descending : Bool}
    (chain : run.IsChain fun a b => decide (key b < key a) = descending) :
    Ascending key (if descending then run.reverse else run) := by
  cases descending with
  | true =>
    rw [if_pos rfl, Ascending, List.pairwise_reverse]
    have strict : run.Pairwise fun a b => key b < key a := by
      have : Trans (fun a b : α => key b < key a) (fun a b => key b < key a)
          (fun a b => key b < key a) := ⟨fun first second => second.trans first⟩
      exact (chain.imp fun a b => of_decide_eq_true).pairwise
    exact strict.imp le_of_lt
  | false =>
    rw [if_neg Bool.false_ne_true]
    have : Trans (fun a b : α => key a ≤ key b) (fun a b => key a ≤ key b)
        (fun a b => key a ≤ key b) := ⟨le_trans⟩
    exact (chain.imp fun a b other => not_lt.mp (of_decide_eq_false other)).pairwise

end Runs

/-- Sorting does not fail and arranges the items in ascending order. -/
theorem exists_insertionSort (compares : ComparesBy lt key Known) {items : List α}
    (each : ∀ a ∈ items, Known a) :
    ∃ all, insertionSort lt items = .ok all ∧ all.Perm items ∧ Ascending key all := by
  match items with
  | [] => exact ⟨[], rfl, .nil, .nil⟩
  | [x] => exact ⟨[x], rfl, .rfl, List.pairwise_singleton _ x⟩
  | x :: y :: rest =>
    have order := compares y x (each y (by simp)) (each x (by simp))
    obtain ⟨more, counted, chain⟩ := exists_runLength compares (decide (key y < key x))
      fun a member => each a (List.mem_cons_of_mem x member)
    let run := x :: y :: rest.take more
    let front := if decide (key y < key x) then run.reverse else run
    have ascending : Ascending key front := ascending_of_isChain (.cons_cons rfl chain)
    have whole : (front ++ rest.drop more).Perm (x :: y :: rest) := by
      have turned : front.Perm run := by
        by_cases descending : key y < key x <;> simp [front, descending]
      have split : run ++ rest.drop more = x :: y :: rest := by
        simp [run]
      exact (turned.append_right _).trans (.of_eq split)
    obtain ⟨all, inserted, perm, sorted⟩ := exists_insertAll compares
      (fun a member => each a (whole.mem_iff.mp member)) ascending
    refine ⟨all, ?_, perm.trans whole, sorted⟩
    rw [insertionSort, order, except_ok_bind, counted, except_ok_bind]
    exact inserted

/-- If no two keys are the same, sorting gives the only arrangement that ascends. -/
theorem insertionSort_eq (compares : ComparesBy lt key Known) {items sorted : List α}
    (each : ∀ a ∈ items, Known a) (perm : sorted.Perm items)
    (ascends : sorted.Pairwise fun a b => key a < key b) :
    insertionSort lt items = .ok sorted := by
  obtain ⟨all, done, same, ascending⟩ := exists_insertionSort compares each
  have keys : (sorted.map key).Nodup := List.pairwise_map.mpr (ascends.imp ne_of_lt)
  have distinct : ∀ a b, a ∈ sorted → b ∈ all → key a ≤ key b → key b ≤ key a → a = b :=
    fun a b left right le ge =>
      List.inj_on_of_nodup_map keys left (perm.mem_iff.mpr (same.mem_iff.mp right)) (le.antisymm ge)
  rw [done, List.Perm.eq_of_pairwise distinct (ascends.imp le_of_lt) ascending
    (perm.trans same.symm)]

/-- The text that a key is. -/
def Value.textOf : Value → String
  | .text s => s
  | _ => ""

/-- Entries with texts as keys are compared by these texts. -/
theorem comparesBy_textOf {β : Type} :
    ComparesBy (fun a b : Value × β => Value.lt a.1 b.1) (fun entry => entry.1.textOf)
      fun entry => ∃ s, entry.1 = .text s := by
  rintro ⟨_, v⟩ ⟨_, w⟩ ⟨s, rfl⟩ ⟨t, rfl⟩
  rfl

end ClenshawCode
