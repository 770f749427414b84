import ClenshawCode.Proofs.Json.Record

/-!
# Saving in JSON what was read from JSON

A text in JSON can be read as an expansion in spite of blanks, of keys in any order or more than
once, of numbers that are words or strings, and of any value that stands for the description. All
that is settled when it is saved for the first time: the text holds the same doubles, and a
description that differs in the order of its entries at most, and from then on it stays as it is,
however often it is read and saved.

Saving takes one level more than reading did. So a text that uses up all levels can be read, but it
may be that what was read cannot be saved.

## Main results

* `Expansion.saved_text_is_fixed`: what was read is saved as a text that does not change any more
* `Expansion.saved_text_of_deepest`: a text that is as deep as possible is read and not saved
-/

namespace ClenshawCode

open Value

namespace Value

variable {cell : Kind → ℕ → Value}

theorem expandItems_of_each {items : List Value} (each : ∀ v ∈ items, v.expand cell = v) :
    expandItems cell items = items := by
  induction items with
  | nil => rfl
  | cons v rest ih =>
    obtain ⟨first, others⟩ := List.forall_mem_cons.mp each
    rw [expandItems, first, ih others]

theorem expandEntries_of_each {fields : List (String × Value)}
    (each : ∀ field ∈ fields, field.2.expand cell = field.2) :
    expandEntries cell (fields.map namedEntry) = fields.map namedEntry := by
  induction fields with
  | nil => rfl
  | cons field rest ih =>
    obtain ⟨first, others⟩ := List.forall_mem_cons.mp each
    have key : (Value.text field.1).expand cell = .text field.1 := rfl
    rw [List.map_cons, namedEntry, expandEntries, key, first, ih others]

end Value

namespace Json

variable {depth : ℕ} {v : Value}

/-- A value that was read refers to no cell. -/
theorem Readable.expand (readable : Readable depth v) (cell : Kind → ℕ → Value) :
    v.expand cell = v := by
  induction readable with
  | plain plain => cases plain <;> rfl
  | list _ each => rw [Value.expand, expandItems_of_each each]
  | table _ _ each => exact congrArg Value.dict (expandEntries_of_each each)

/-- A table that was read gives values that could be read by themselves. -/
theorem Readable.getD_find? {oneDocument : Bool} {k missing : Value}
    {entries : List (Value × Value)} (readable : Readable (depth + 1) (.dict entries))
    (plain : ReadablePlain missing) :
    Readable depth ((Value.find? oneDocument k entries).getD missing) := by
  cases readable with
  | plain impossible => cases impossible
  | @table _ fields each =>
    cases found : Value.find? oneDocument k (fields.map namedEntry) with
    | none => exact found ▸ .plain plain
    | some v =>
      obtain ⟨entry, member, rfl⟩ := Option.map_eq_some_iff.mp found
      obtain ⟨field, inside, rfl⟩ := List.mem_map.mp (List.mem_of_find?_eq_some member)
      exact found ▸ each field inside

end Json

namespace Expansion

variable {e : Expansion} {s : String} {levels : ℕ}

/-- What was read from a text is told by the table that the text holds. Its description is no deeper
than the table, and no cell. -/
theorem exists_entries_of_ofJsonWithin (read : ofJsonWithin levels s = .ok e) :
    ∃ entries lower upper xs, Json.read levels s = .ok (.dict entries) ∧
      Json.Readable levels (.dict entries) ∧ Describes {} entries lower upper xs e.description ∧
      e.StoresDoubles lower upper xs ∧ e.cells.unfold e.description = e.description := by
  obtain ⟨root, found, described⟩ := ok_of_bind_ok read
  have readable := Json.readable_of_read found
  obtain ⟨entries, lower, upper, xs, table, describes, stores, -⟩ :=
    exists_describes_of_ofRecord described
  -- The root is no cell, so it is the table itself.
  obtain rfl : root = .dict entries := by
    cases readable with
    | plain plain => cases plain <;> cases table
    | list => cases table
    | table => exact table
  have inside : Json.Readable levels e.description := by
    rw [describes.description]
    exact (readable.mono (Nat.le_succ levels)).getD_find? (.text "")
  exact ⟨entries, lower, upper, xs, found, readable, describes, stores, inside.expand _⟩

/-- A text that was read is read as the same expansion with any number of levels, or it is too deep
for them. -/
theorem yieldsWithin_ofJson (read : ofJsonWithin levels s = .ok e) :
    YieldsWithin Failure.IsDeep levels (ofJsonWithin · s) e := by
  obtain ⟨root, found, described⟩ := ok_of_bind_ok read
  exact (Json.yieldsWithin_read found).bind fun _ => .inl described

/-- The entries of a saved expansion tell its doubles and its description. -/
theorem describes_savedEntries (cells : Cells) (lower upper : Float) (xs : List Float)
    (description : Value) :
    Describes cells (savedEntries (.list (xs.map (reread .json))) description
      (reread .json upper) (reread .json lower)) lower upper xs description where
  coeffs := ⟨_, _, rfl, rfl, mapM_toFloat_of_stores (forall₂_reread .json xs)⟩
  low := ⟨_, rfl, (stores_reread .json lower).toFloat⟩
  high := ⟨_, rfl, (stores_reread .json upper).toFloat⟩
  description := rfl

/-- An expansion that was read from a text in JSON, whatever that looked like, is saved as a text
that does not change any more. The table in the first text tells the doubles and the description of
the expansion. The saved text holds a table that tells the same doubles, every bit of them, and a
description that is alike. It is read as an expansion that stores these doubles, and this one is
saved as the same text again. All that takes a level more than the first text did, and with fewer
levels there is the same result or a failure that says that something is too deep. -/
theorem saved_text_is_fixed (levels : ℕ) (s : String) (e : Expansion)
    (read : ofJsonWithin levels s = .ok e) :
    ∃ entries saved text loaded lower upper xs,
      (Json.read levels s = .ok (.dict entries) ∧
        Describes {} entries lower upper xs e.description ∧ e.StoresDoubles lower upper xs ∧
        YieldsWithin Failure.IsDeep levels (ofJsonWithin · s) e) ∧
      YieldsWithin Failure.IsDeep (max levels 2 + 1) (toJsonWithin · e) text ∧
      (YieldsWithin Failure.IsDeep (max levels 2 + 1) (Json.read · text) (.dict saved) ∧
        Describes {} saved lower upper xs loaded.description ∧
        Json.Alike e.description loaded.description) ∧
      (YieldsWithin Failure.IsDeep (max levels 2 + 1) (ofJsonWithin · text) loaded ∧
        loaded.StoresDoubles lower upper xs) ∧
      YieldsWithin Failure.IsDeep (max levels 2 + 1) (toJsonWithin · loaded) text := by
  obtain ⟨entries, lower, upper, xs, found, readable, describes, stores, unfolded⟩ :=
    exists_entries_of_ofJsonWithin read
  obtain ⟨k, most⟩ : ∃ k, max levels 2 = k + 2 := ⟨max levels 2 - 2, by omega⟩
  have inside : Json.Readable (k + 1) e.description := by
    rw [describes.description]
    exact (readable.mono (by omega)).getD_find? (.text "")
  obtain ⟨part, v, normal⟩ := Json.exists_normalizes inside
  let text := Json.recordText part lower upper xs
  let loaded : Expansion :=
    { coeffs := xs.map (reread .json), xMin := reread .json lower, xMax := reread .json upper,
      description := v }
  have same : loaded.StoresDoubles lower upper xs :=
    ⟨stores_reread .json lower, stores_reread .json upper, forall₂_reread .json xs⟩
  have again : ofJsonWithin (k + 3) text = .ok loaded :=
    ofJsonWithin_recordText normal.spelled lower upper xs
  obtain ⟨-, -, -, -, -, -, -, -, kept⟩ := exists_entries_of_ofJsonWithin again
  have saved : YieldsWithin Failure.IsDeep (k + 3) (toJsonWithin · e) text :=
    yieldsWithin_toJson stores.holdsDoubles (by rw [unfolded]; exact normal.written)
  have resaved : YieldsWithin Failure.IsDeep (k + 3) (toJsonWithin · loaded) text :=
    yieldsWithin_toJson same.holdsDoubles (by rw [kept]; exact normal.again)
  have table := Json.yieldsWithin_read (Json.read_recordText normal.spelled lower upper xs)
  rw [most]
  exact ⟨entries, _, text, loaded, lower, upper, xs,
    ⟨found, describes, stores, yieldsWithin_ofJson read⟩, saved,
    ⟨table, describes_savedEntries {} lower upper xs v, normal.alike⟩,
    ⟨yieldsWithin_ofJson again, same⟩, resaved⟩

/-- An expansion in JSON with blanks, with names that are repeated, with numbers that are words,
strings and integers, and with an object for its description. -/
def disordered : String :=
  "\n\x7b \"x_min\": \"-1e0\", \"x_max\": 1,\"coeffs\" :[true,\"nan\", 25e-1 , 3],\"x_max\": 2, " ++
    "\"description\":\x7b\"b\": [], \"a\": [-Infinity, \"\\u00e9\"], \"b\": NaN\x7d\t\x7d\n"

/-- The text that it is saved as. -/
def ordered : String :=
  "\x7b\"coeffs\": [1.0, NaN, 2.5, 3.0], \"description\": " ++
    "\x7b\"a\": [-Infinity, \"\\u00e9\"], \"b\": NaN\x7d, \"x_max\": 2.0, \"x_min\": -1.0\x7d"

theorem saved_text_is_fixed_disordered :
    ∃ e entries loaded lower upper xs, ofJsonWithin 4 disordered = .ok e ∧
      ofJson disordered = .ok e ∧ Json.read 4 disordered = .ok (.dict entries) ∧
      Describes {} entries lower upper xs e.description ∧ e.StoresDoubles lower upper xs ∧
      e.toJson = .ok ordered ∧ ofJson ordered = .ok loaded ∧ loaded.StoresDoubles lower upper xs ∧
      Json.Alike e.description loaded.description ∧ loaded.toJson = .ok ordered := by
  have known : (ofJsonWithin 4 disordered >>= toJsonWithin 5).toOption = some ordered := by
    decide +kernel
  cases read : ofJsonWithin 4 disordered with
  | error failure =>
    rw [read] at known
    cases known
  | ok e =>
    obtain ⟨entries, saved, text, loaded, lower, upper, xs, ⟨found, describes, stores, here⟩,
      written, ⟨-, -, alike⟩, ⟨again, same⟩, rewritten⟩ := saved_text_is_fixed 4 disordered e read
    have first : e.toJsonWithin 5 = .ok text := written.eq_ok le_rfl
    obtain rfl : text = ordered := by
      rw [read, except_ok_bind, first] at known
      exact Option.some.inj known
    have enough : max 4 2 + 1 ≤ Json.maxDepth := by decide
    exact ⟨e, entries, loaded, lower, upper, xs, rfl, here.eq_ok (by decide), found, describes,
      stores, written.eq_ok enough, again.eq_ok enough, same, alike, rewritten.eq_ok enough⟩

section Deepest

/-- A value in so many lists, each the only item of the next one. -/
def enclose : ℕ → Value → Value
  | 0, v => v
  | n + 1, v => .list [enclose n v]

/-- A text between so many brackets. -/
def bracket : ℕ → String → String
  | 0, s => s
  | n + 1, s => "[" ++ bracket n s ++ "]"

/-- A table with two entries. -/
def pair : Value := .ofFields [("a", .int 1), ("b", .int 2)]

theorem spells_enclose {depth : ℕ} {v : Value} {s : String}
    (spelled : Json.Spells depth v s.toList) (n : ℕ) :
    Json.Spells (depth + n) (enclose n v) (bracket n s).toList := by
  induction n with
  | zero => exact spelled
  | succ n ih =>
    have item : List.Forall₂ (fun v part => Json.Spells (depth + n) v (String.toList part))
        [enclose n v] [bracket n s] := .cons ih .nil
    have text : bracket (n + 1) s = "[" ++ Text.join ", " [bracket n s] ++ "]" := rfl
    rw [text]
    exact Json.spells_list item

/-- What cannot be written cannot be written in lists either. -/
theorem write_enclose {v : Value} {levels : ℕ} {failure : Failure}
    (failed : Json.write levels v = .error failure) (n : ℕ) :
    Json.write (levels + n) (enclose n v) = .error failure := by
  induction n with
  | zero => exact failed
  | succ n ih =>
    rw [enclose, ← Nat.add_assoc, Json.write, Json.bracketed_writeItems, List.mapM_cons, ih]
    rfl

theorem spells_pair : Json.Spells 1 pair "\x7b\"a\": 1, \"b\": 2\x7d".toList := by
  have one : Json.Spells 0 (.int 1) "1".toList := Json.spells_digit (by decide : 1 < 10) 0
  have two : Json.Spells 0 (.int 2) "2".toList := Json.spells_digit (by decide : 2 < 10) 0
  refine Json.spells_table ⟨"a", "1", rfl, rfl, one⟩ (.cons ⟨"b", "2", rfl, rfl, two⟩ .nil) ?_
  simp [Value.sameKey]

/-- A text with a table of two entries at the last level. -/
def deepest : String :=
  Json.recordText (bracket 992 "\x7b\"a\": 1, \"b\": 2\x7d") 0 1 [1]

/-- A text that uses up all levels is read, but what was read cannot be saved, as there is no level
left for sorting. -/
theorem saved_text_of_deepest :
    ∃ e, ofJson deepest = .ok e ∧ e.toJson = .error (.tooDeep .comparison) := by
  have spelled : Json.Spells 993 (enclose 992 pair) _ := spells_enclose spells_pair 992
  have last : Json.write 1 pair = .error (.tooDeep .comparison) := by
    rw [pair, Value.ofFields, Json.write]
    rfl
  have failed : Json.write 993 (enclose 992 pair) = .error (.tooDeep .comparison) :=
    write_enclose last 992
  have read : ofJson deepest = .ok _ := ofJsonWithin_recordText spelled 0 1 [1]
  obtain ⟨-, lower, upper, xs, -, -, -, stores, unfolded⟩ := exists_entries_of_ofJsonWithin read
  refine ⟨_, read, ?_⟩
  have written := toJsonWithin_eq stores.holdsDoubles 992
  rw [unfolded] at written
  exact written.trans (by rw [failed]; rfl)

end Deepest

end Expansion

end ClenshawCode
