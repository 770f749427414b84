import ClenshawCode.Proofs.Results
import ClenshawCode.Proofs.Value.Sorting
import ClenshawCode.Proofs.Value.Double
import ClenshawCode.Record

/-!
# The table of a saved expansion

An expansion is saved as a table with four entries, all numbers in it doubles, and both formats list
the entries by key. A table with these entries is read as the expansion that it was made from, but
for the reference function and for the doubles that are no number, which come from the reader then.

## Main definitions

* `Expansion.HoldsDoubles`: the doubles of an expansion
* `Expansion.StoresDoubles`: an expansion whose numbers are doubles already
* `Expansion.Loaded`: what reading establishes
* `Expansion.savedEntries`: the entries of a saved expansion by key
-/

namespace ClenshawCode

open Value

/-- The names of the entries in the order of their texts. -/
theorem insertionSort_names {β : Type} (description low high coeffs : β) :
    insertionSort (fun a b : Value × β => Value.lt a.1 b.1)
        [(.text "description", description), (.text "x_min", low), (.text "x_max", high),
          (.text "coeffs", coeffs)] =
      .ok [(.text "coeffs", coeffs), (.text "description", description), (.text "x_max", high),
        (.text "x_min", low)] := by
  refine insertionSort_eq comparesBy_textOf (by simp) ?_ ?_
  · exact (List.perm_append_singleton _ _).symm.trans (.cons _ (.swap _ _ _))
  · have texts : ["coeffs", "description", "x_max", "x_min"].Pairwise (· < ·) := by decide
    exact List.pairwise_map.mp texts

namespace Expansion

/-- The doubles to which the coefficients and the bounds of an expansion are converted. -/
structure HoldsDoubles (e : Expansion) (lower upper : Float) (xs : List Float) : Prop where
  low : e.xMin.toFloat = .ok lower
  high : e.xMax.toFloat = .ok upper
  coeffs : e.coeffs.mapM Value.toFloat = .ok xs

/-- The coefficients and the bounds of an expansion are doubles already, every bit of them. -/
structure StoresDoubles (e : Expansion) (lower upper : Float) (xs : List Float) : Prop where
  low : Stores e.xMin lower
  high : Stores e.xMax upper
  coeffs : List.Forall₂ Stores e.coeffs xs

variable {e : Expansion} {lower upper : Float} {xs : List Float}

theorem mapM_toFloat_of_stores {ws : List Value} (are : List.Forall₂ Stores ws xs) :
    ws.mapM Value.toFloat = .ok xs := by
  induction are with
  | nil => rfl
  | cons is _ ih =>
    rw [List.mapM_cons, is.toFloat, ih]
    rfl

theorem StoresDoubles.holdsDoubles (stores : e.StoresDoubles lower upper xs) :
    e.HoldsDoubles lower upper xs :=
  ⟨stores.low.toFloat, stores.high.toFloat, mapM_toFloat_of_stores stores.coeffs⟩

theorem exists_doubles {vs : List Value} (converted : vs.mapM Value.toFloat = .ok xs) :
    ∃ ws, doubles vs = .ok ws ∧ List.Forall₂ Stores ws xs := by
  induction vs generalizing xs with
  | nil =>
    obtain rfl : [] = xs := Except.ok.inj converted
    exact ⟨[], rfl, .nil⟩
  | cons v rest ih =>
    rw [List.mapM_cons] at converted
    obtain ⟨x, first, converted⟩ := ok_of_bind_ok converted
    obtain ⟨others, left, same⟩ := ok_of_bind_ok converted
    obtain rfl : x :: others = xs := Except.ok.inj same
    obtain ⟨w, double, is⟩ := exists_toDouble first
    obtain ⟨ws, more, are⟩ := ih left
    exact ⟨w :: ws, by rw [doubles, double, more]; rfl, .cons is are⟩

theorem doubles_of_stores {ws : List Value} (are : List.Forall₂ Stores ws xs) :
    doubles ws = .ok ws := by
  induction are with
  | nil => rfl
  | cons is _ ih =>
    rw [doubles, is.toDouble, ih]
    rfl

theorem exists_stores_of_doubles {vs ws : List Value} (converted : doubles vs = .ok ws) :
    ∃ xs, vs.mapM Value.toFloat = .ok xs ∧ List.Forall₂ Stores ws xs := by
  -- Each coefficient is converted by itself, in order.
  induction vs generalizing ws with
  | nil =>
    obtain rfl : [] = ws := Except.ok.inj converted
    exact ⟨[], rfl, .nil⟩
  | cons v rest ih =>
    obtain ⟨w, first, converted⟩ := ok_of_bind_ok converted
    obtain ⟨others, left, same⟩ := ok_of_bind_ok converted
    obtain rfl : w :: others = ws := Except.ok.inj same
    obtain ⟨x, number, is⟩ := exists_stores_of_toDouble first
    obtain ⟨xs, numbers, are⟩ := ih left
    exact ⟨x :: xs, by rw [List.mapM_cons, number, numbers]; rfl, .cons is are⟩

/-- The entries of a table tell the doubles and the description of an expansion: whatever stands for
a number is converted, and without a description there is an empty one. -/
structure Describes (cells : Cells) (entries : List (Value × Value)) (lower upper : Float)
    (xs : List Float) (description : Value) : Prop where
  coeffs : ∃ given items, field "coeffs" entries = .ok given ∧
    (cells.resolve given).items = .ok items ∧ items.mapM Value.toFloat = .ok xs
  low : ∃ given, field "x_min" entries = .ok given ∧ given.toFloat = .ok lower
  high : ∃ given, field "x_max" entries = .ok given ∧ given.toFloat = .ok upper
  description : description = (Value.find? true (.text "description") entries).getD (.text "")

/-- What reading establishes: all numbers are doubles, and there is no reference. -/
structure Loaded (e : Expansion) : Prop where
  coeffs : ∃ xs, List.Forall₂ Stores e.coeffs xs
  low : ∃ x, Stores e.xMin x
  high : ∃ x, Stores e.xMax x
  bare : e.reference = none

/-- What is read as an expansion is a table that tells the doubles that it stores, and its
description. -/
theorem exists_describes_of_ofRecord {record : Document} (read : ofRecord record = .ok e) :
    ∃ entries lower upper xs, record.cells.resolve record.root = .dict entries ∧
      Describes record.cells entries lower upper xs e.description ∧
      e.StoresDoubles lower upper xs ∧ e.reference = none ∧ e.cells = record.cells := by
  cases root : record.cells.resolve record.root with
  | dict entries =>
    rw [ofRecord, root] at read
    obtain ⟨coeffs, found, read⟩ := ok_of_bind_ok read
    obtain ⟨given, items, read⟩ := ok_of_bind_ok read
    obtain ⟨ws, converted, read⟩ := ok_of_bind_ok read
    obtain ⟨low, lowFound, read⟩ := ok_of_bind_ok read
    obtain ⟨xMin, lowDouble, read⟩ := ok_of_bind_ok read
    obtain ⟨high, highFound, read⟩ := ok_of_bind_ok read
    obtain ⟨xMax, highDouble, read⟩ := ok_of_bind_ok read
    cases read
    obtain ⟨xs, numbers, are⟩ := exists_stores_of_doubles converted
    obtain ⟨lower, lowNumber, lowIs⟩ := exists_stores_of_toDouble lowDouble
    obtain ⟨upper, highNumber, highIs⟩ := exists_stores_of_toDouble highDouble
    exact ⟨entries, lower, upper, xs, rfl, ⟨⟨coeffs, given, found, items, numbers⟩,
      ⟨low, lowFound, lowNumber⟩, ⟨high, highFound, highNumber⟩, rfl⟩, ⟨lowIs, highIs, are⟩, rfl,
      rfl⟩
  | _ =>
    rw [ofRecord, root] at read
    cases read

theorem loaded_of_ofRecord {record : Document} (read : ofRecord record = .ok e) : e.Loaded := by
  obtain ⟨_, lower, upper, xs, -, -, stores, bare, -⟩ := exists_describes_of_ofRecord read
  exact ⟨⟨xs, stores.coeffs⟩, ⟨lower, stores.low⟩, ⟨upper, stores.high⟩, bare⟩

theorem loaded_of_ofJson {s : String} (read : ofJson s = .ok e) : e.Loaded := by
  obtain ⟨root, -, described⟩ := ok_of_bind_ok read
  exact loaded_of_ofRecord described

theorem loaded_of_ofYaml {s : String} (read : ofYaml s = .ok e) : e.Loaded := by
  obtain ⟨record, -, described⟩ := ok_of_bind_ok read
  exact loaded_of_ofRecord described

/-- The entries of a saved expansion by key. -/
def savedEntries (coeffs description high low : Value) : List (Value × Value) :=
  [(.text "coeffs", coeffs), (.text "description", description), (.text "x_max", high),
    (.text "x_min", low)]

theorem pairwise_savedEntries (coeffs description high low : Value) :
    (savedEntries coeffs description high low).Pairwise fun a b =>
      sameKey true b.1 a.1 = false := by
  simp [savedEntries, sameKey]

/-- An expansion that holds doubles is a table of them. -/
theorem exists_toRecord (holds : e.HoldsDoubles lower upper xs) :
    ∃ low high ws, Stores low lower ∧ Stores high upper ∧ List.Forall₂ Stores ws xs ∧
      e.toRecord = .ok ⟨.ofFields [("description", e.description), ("x_min", low),
        ("x_max", high), ("coeffs", .list ws)], e.cells⟩ := by
  obtain ⟨low, lowDouble, lowIs⟩ := exists_toDouble holds.low
  obtain ⟨high, highDouble, highIs⟩ := exists_toDouble holds.high
  obtain ⟨ws, coeffs, are⟩ := exists_doubles holds.coeffs
  refine ⟨low, high, ws, lowIs, highIs, are, ?_⟩
  rw [toRecord, lowDouble, highDouble, coeffs]
  rfl

/-- A table with the four entries of a saved expansion is read as one, in whatever order they are,
if its numbers can be converted. -/
theorem ofRecord_of_doubles {record : Document} {entries : List (Value × Value)}
    {coeffs description low high lower upper : Value} {vs ws : List Value}
    (root : record.cells.resolve record.root = .dict entries)
    (coeffsField : field "coeffs" entries = .ok coeffs) (lowField : field "x_min" entries = .ok low)
    (highField : field "x_max" entries = .ok high)
    (descriptionField : Value.find? true (.text "description") entries = some description)
    (items : (record.cells.resolve coeffs).items = .ok vs) (converted : doubles vs = .ok ws)
    (lowDouble : low.toDouble = .ok lower) (highDouble : high.toDouble = .ok upper) :
    ofRecord record = .ok { coeffs := ws, xMin := lower, xMax := upper, description,
                            cells := record.cells } := by
  rw [ofRecord, root]
  simp only [coeffsField, lowField, highField, descriptionField, except_ok_bind, items, converted,
    lowDouble, highDouble]
  rfl

/-- Doubles are read as they are. -/
theorem ofRecord_of_fields {record : Document} {entries : List (Value × Value)}
    {coeffs description low high : Value} {ws : List Value}
    (root : record.cells.resolve record.root = .dict entries)
    (coeffsField : field "coeffs" entries = .ok coeffs) (lowField : field "x_min" entries = .ok low)
    (highField : field "x_max" entries = .ok high)
    (descriptionField : Value.find? true (.text "description") entries = some description)
    (items : (record.cells.resolve coeffs).items = .ok ws)
    (are : List.Forall₂ Stores ws xs) (lowIs : Stores low lower)
    (highIs : Stores high upper) :
    ofRecord record = .ok { coeffs := ws, xMin := low, xMax := high, description,
                            cells := record.cells } :=
  ofRecord_of_doubles root coeffsField lowField highField descriptionField items
    (doubles_of_stores are) lowIs.toDouble highIs.toDouble

/-- A table with the entries of a saved expansion by key is read as one. -/
theorem ofRecord_savedEntries {record : Document} {coeffs description low high : Value}
    {ws : List Value}
    (root : record.cells.resolve record.root = .dict (savedEntries coeffs description high low))
    (items : (record.cells.resolve coeffs).items = .ok ws)
    (are : List.Forall₂ Stores ws xs) (lowIs : Stores low lower)
    (highIs : Stores high upper) :
    ofRecord record = .ok { coeffs := ws, xMin := low, xMax := high, description,
                            cells := record.cells } :=
  ofRecord_of_fields root rfl rfl rfl rfl items are lowIs highIs

/-- The expansion that a reader gives for the table of a saved one. -/
def rereadFrom (origin : Origin) (cells : Cells) (description : String) (lower upper : Float)
    (xs : List Float) : Expansion where
  coeffs := xs.map (reread origin)
  xMin := reread origin lower
  xMax := reread origin upper
  description := .text description
  cells := cells

theorem forall₂_reread (origin : Origin) (xs : List Float) :
    List.Forall₂ Stores (xs.map (reread origin)) xs := by
  rw [List.forall₂_map_left_iff, List.forall₂_same]
  exact fun x _ => stores_reread origin x

/-- It holds the same doubles. -/
theorem holdsDoubles_rereadFrom (origin : Origin) (cells : Cells) (description : String)
    (lower upper : Float) (xs : List Float) :
    (rereadFrom origin cells description lower upper xs).HoldsDoubles lower upper xs :=
  StoresDoubles.holdsDoubles
    ⟨stores_reread origin lower, stores_reread origin upper, forall₂_reread origin xs⟩

/-- An expansion with numbers alone equals the one that comes back. -/
theorem same_rereadFrom (origin : Origin) (cells : Cells) {description : String}
    (textual : e.description = .text description) (floats : e.coeffs = xs.map .float)
    (low : e.xMin = .float lower) (high : e.xMax = .float upper)
    (numbers : ∀ x ∈ lower :: upper :: xs, Binary64.isNaN x = false) :
    e.same (rereadFrom origin cells description lower upper xs) = .ok true := by
  have number (x : Float) (member : x ∈ lower :: upper :: xs) :
      e.cells.same cells comparisonDepth (.float x) (reread origin x) = .ok true := by
    rw [reread_of_number (numbers x member)]
    exact congrArg Except.ok (sameKey_float (numbers x member))
  -- The coefficients are compared one by one.
  have all (ys : List Float) (inside : ∀ x ∈ ys, x ∈ xs) :
      allPairs (e.cells.same cells comparisonDepth) (ys.map .float) (ys.map (reread origin)) =
        .ok true := by
    induction ys with
    | nil => rfl
    | cons y rest ih =>
      have member : y ∈ lower :: upper :: xs := .tail _ (.tail _ (inside y List.mem_cons_self))
      rw [List.map_cons, List.map_cons, allPairs, number y member, except_ok_bind, if_pos rfl]
      exact ih fun x member => inside x (List.mem_cons_of_mem y member)
  have text : e.cells.same cells comparisonDepth (.text description) (.text description) =
      .ok true := congrArg Except.ok (beq_self_eq_true description)
  rw [same, floats, low, high, textual]
  simp only [rereadFrom, all xs fun x member => member, number lower (by simp),
    number upper (by simp), text, except_ok_bind, except_pure]
  rfl

end Expansion

end ClenshawCode
