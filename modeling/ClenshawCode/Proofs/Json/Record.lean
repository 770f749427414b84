import ClenshawCode.Expansion.Samples
import ClenshawCode.Proofs.Json.Normal
import ClenshawCode.Proofs.Record

/-!
# An expansion in JSON reads back

The text of a saved expansion is determined by its description and by the doubles that it holds. It
is read as a table with the same entries, so the expansion that comes back holds the same doubles,
every bit of them, and has the same text again. Only a double that is no number is not the one that
was saved, and so an expansion with numbers alone equals the one that comes back.

## Main results

* `json_round_trip`: a saved expansion is read back
-/

namespace ClenshawCode

open Value

namespace Json

/-- The text of a saved expansion around a text that stands for its description. -/
def recordText (description : String) (lower upper : Float) (xs : List Float) : String :=
  "\x7b" ++ Text.join ", "
    [quoted "coeffs" ++ ": " ++ ("[" ++ Text.join ", " (xs.map floatLayout.render) ++ "]"),
      quoted "description" ++ ": " ++ description,
      quoted "x_max" ++ ": " ++ floatLayout.render upper,
      quoted "x_min" ++ ": " ++ floatLayout.render lower] ++ "\x7d"

/-- The text of a saved expansion. -/
def savedText (description : String) (lower upper : Float) (xs : List Float) : String :=
  recordText (quoted description) lower upper xs

variable {lower upper : Float} {xs : List Float} {description : Value} {text : String}

theorem write_doubles {ws : List Value} (are : List.Forall₂ Stores ws xs) (levels : ℕ) :
    write (levels + 1) (.list ws) =
      .ok ("[" ++ Text.join ", " (xs.map floatLayout.render) ++ "]") := by
  have each : List.Forall₂ (fun v part => YieldsWithin Failure.IsDeep 0 (write · v) part) ws
      (xs.map floatLayout.render) := by
    rw [List.forall₂_map_right_iff]
    exact are.imp fun _ _ is => .of_eq_ok (write_of_stores is)
  exact (yieldsWithin_write_list each).eq_ok (Nat.le_add_left 1 levels)

/-- The table of an expansion is written around the text of its description. -/
theorem write_record {low high : Value} {ws : List Value} (lowIs : Stores low lower)
    (highIs : Stores high upper) (are : List.Forall₂ Stores ws xs) (levels : ℕ) :
    write (levels + 2) (.ofFields [("description", description), ("x_min", low), ("x_max", high),
      ("coeffs", .list ws)]) = write (levels + 1) description >>= fun text =>
        .ok (recordText text lower upper xs) := by
  rw [Value.ofFields]
  simp only [List.map_cons, List.map_nil]
  rw [write, if_neg (by simp)]
  simp only [writeEntries, write_doubles are, write_of_stores lowIs, write_of_stores highIs]
  rw [braced, insertionSort_names]
  cases write (levels + 1) description <;> rfl

/-- The text holds the table of the expansion with the doubles that the reader makes, and with the
description that its text stands for. -/
theorem read_recordText {depth : ℕ} (spelled : Spells (depth + 2) description text.toList)
    (lower upper : Float) (xs : List Float) :
    read (depth + 3) (recordText text lower upper xs) =
      .ok (.dict (Expansion.savedEntries (.list (xs.map (reread .json))) description
        (reread .json upper) (reread .json lower))) := by
  have coeffs : Spells (depth + 2) (.list (xs.map (reread .json)))
      ("[" ++ Text.join ", " (xs.map floatLayout.render) ++ "]").toList := by
    refine spells_list ?_
    rw [List.forall₂_map_left_iff, List.forall₂_map_right_iff, List.forall₂_same]
    exact fun x _ => .float depth x
  have whole := spells_table ⟨"coeffs", _, rfl, rfl, coeffs⟩
    (.cons ⟨"description", _, rfl, rfl, spelled⟩ (.cons ⟨"x_max", _, rfl, rfl, .float _ upper⟩
      (.cons ⟨"x_min", _, rfl, rfl, .float _ lower⟩ .nil)))
    (Expansion.pairwise_savedEntries _ _ _ _)
  have read := read_of_spells whole
  rwa [String.ofList_toList] at read

end Json

namespace Expansion

variable {e : Expansion} {description : String} {lower upper : Float} {xs : List Float}

/-- An expansion is written as the table of its doubles around its description. -/
theorem exists_toJsonWithin (holds : e.HoldsDoubles lower upper xs) :
    ∃ low high ws, Stores low lower ∧ Stores high upper ∧ List.Forall₂ Stores ws xs ∧
      ∀ levels, e.toJsonWithin levels =
        Json.write levels (.ofFields [("description", e.cells.unfold e.description),
          ("x_min", low), ("x_max", high), ("coeffs", .list ws)]) := by
  obtain ⟨low, high, ws, lowIs, highIs, are, record⟩ := exists_toRecord holds
  -- None of the numbers is a cell.
  have unfolded : e.cells.unfold (.ofFields [("description", e.description), ("x_min", low),
      ("x_max", high), ("coeffs", .list ws)]) =
        .ofFields [("description", e.cells.unfold e.description), ("x_min", low),
          ("x_max", high), ("coeffs", .list ws)] := by
    simp only [Cells.unfold, Value.ofFields, List.map_cons, List.map_nil, Value.expand,
      Value.expandEntries, lowIs.expand, highIs.expand, expandItems_of_stores are]
  refine ⟨low, high, ws, lowIs, highIs, are, fun levels => ?_⟩
  rw [toJsonWithin, record, except_ok_bind, unfolded]

/-- The text of an expansion depends only on the text of its description and on the doubles that it
holds. -/
theorem toJsonWithin_eq (holds : e.HoldsDoubles lower upper xs) (levels : ℕ) :
    e.toJsonWithin (levels + 2) = Json.write (levels + 1) (e.cells.unfold e.description) >>=
      fun text => .ok (Json.recordText text lower upper xs) := by
  obtain ⟨low, high, ws, lowIs, highIs, are, written⟩ := exists_toJsonWithin holds
  rw [written, Json.write_record lowIs highIs are]

/-- An expansion takes a level more than its description to be written. -/
theorem yieldsWithin_toJson {need : ℕ} {text : String} (holds : e.HoldsDoubles lower upper xs)
    (written : YieldsWithin Failure.IsDeep (need + 1)
      (Json.write · (e.cells.unfold e.description)) text) :
    YieldsWithin Failure.IsDeep (need + 2) (toJsonWithin · e)
      (Json.recordText text lower upper xs) := by
  obtain ⟨low, high, ws, -, -, -, record⟩ := exists_toJsonWithin holds
  -- Without a level nothing is written, and with a single one the entries are not sorted.
  refine .succ ⟨_, ⟨.jsonWriting, rfl⟩, ?_⟩ (.succ ⟨_, ⟨.comparison, rfl⟩, ?_⟩ ?_)
  · rw [record, Value.ofFields, Json.write]
  · rw [record, Value.ofFields, Json.write]
    rfl
  · simp only [toJsonWithin_eq holds]
    exact written.of_succ.map _

/-- The text is read as an expansion that holds the same doubles. -/
theorem ofJsonWithin_recordText {depth : ℕ} {v : Value} {text : String}
    (spelled : Json.Spells (depth + 2) v text.toList) (lower upper : Float) (xs : List Float) :
    ofJsonWithin (depth + 3) (Json.recordText text lower upper xs) =
      .ok { coeffs := xs.map (reread .json), xMin := reread .json lower,
            xMax := reread .json upper, description := v } := by
  rw [ofJsonWithin, Json.read_recordText spelled, except_ok_bind]
  exact ofRecord_savedEntries rfl rfl (forall₂_reread .json xs) (stores_reread .json lower)
    (stores_reread .json upper)

theorem toJson_eq (textual : e.description = .text description)
    (holds : e.HoldsDoubles lower upper xs) :
    e.toJson = .ok (Json.savedText description lower upper xs) := by
  have written : Json.write 993 (e.cells.unfold e.description) = .ok (Json.quoted description) := by
    rw [textual]
    rfl
  have all : e.toJson = e.toJsonWithin (992 + 2) := rfl
  rw [all, toJsonWithin_eq holds, written, Json.savedText]
  rfl

theorem ofJson_savedText (description : String) (lower upper : Float) (xs : List Float) :
    ofJson (Json.savedText description lower upper xs) =
      .ok (rereadFrom .json {} description lower upper xs) :=
  ofJsonWithin_recordText (Json.spells_quoted 993 description) lower upper xs

/-- An expansion that can be saved in JSON is read back with the same description and with the same
doubles in their places, where one that is no number becomes the reader's own. It is saved as the
same text again. If it holds doubles from the start, all of them numbers, it is equal to the one
that is read back. -/
theorem json_round_trip (e : Expansion) (description : String) (lower upper : Float)
    (xs : List Float) (textual : e.description = .text description)
    (low : e.xMin.toFloat = .ok lower) (high : e.xMax.toFloat = .ok upper)
    (coeffs : e.coeffs.mapM Value.toFloat = .ok xs) :
    ∃ text loaded, e.toJson = .ok text ∧ ofJson text = .ok loaded ∧
      loaded.description = .text description ∧ loaded.coeffs = xs.map (reread .json) ∧
      loaded.xMin = reread .json lower ∧ loaded.xMax = reread .json upper ∧
      loaded.toJson = .ok text ∧
      (e.coeffs = xs.map .float → e.xMin = .float lower → e.xMax = .float upper →
        (∀ x ∈ lower :: upper :: xs, Binary64.isNaN x = false) → e.same loaded = .ok true) := by
  have holds : e.HoldsDoubles lower upper xs := ⟨low, high, coeffs⟩
  let loaded := rereadFrom .json {} description lower upper xs
  refine ⟨_, loaded, toJson_eq textual holds, ofJson_savedText .., rfl, rfl, rfl, rfl,
    toJson_eq rfl (holdsDoubles_rereadFrom ..), fun floats lowFloat highFloat numbers => ?_⟩
  exact same_rereadFrom .json {} textual floats lowFloat highFloat numbers

/-- The quadratic sample is saved and read back. -/
theorem json_round_trip_quadratic :
    ∃ text loaded, quadratic.toJson = .ok text ∧ ofJson text = .ok loaded ∧
      loaded.coeffs = [.float 2, .float 0, .float (-1)] ∧ quadratic.same loaded = .ok true := by
  obtain ⟨text, loaded, saved, read, -, coeffs, -, -, -, equal⟩ :=
    json_round_trip quadratic "quadratic" (-1) 1 [2, 0, -1] rfl rfl rfl rfl
  have numbers : Binary64.isNaN 2 = false ∧ Binary64.isNaN 0 = false ∧
      Binary64.isNaN (-1) = false ∧ Binary64.isNaN 1 = false := by decide +kernel
  obtain ⟨two, zero, minus, one⟩ := numbers
  refine ⟨text, loaded, saved, read, ?_, equal rfl rfl rfl ?_⟩
  · rw [coeffs, List.map_cons, List.map_cons, List.map_cons, List.map_nil, reread_of_number two,
      reread_of_number zero, reread_of_number minus]
  · simp [two, zero, minus, one]

end Expansion

end ClenshawCode
