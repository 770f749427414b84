import ClenshawCode.Proofs.Json.Value

/-!
# What a text in JSON can hold

Whatever its order, its blanks and its spellings, a text in JSON holds values of a few kinds only.
An integer that was read has few enough digits to be written, the keys of a table are texts and no
two of them are the same, however often the text repeats them, and lists and tables are inside one
another no deeper than the reader follows. So every value that was read can be written.

## Main definitions

* `Json.ReadablePlain`: the words, numbers and strings that a text can hold
* `Json.Readable`: the values that a text can hold up to a depth

## Main results

* `Json.readable_of_read`: what was read is one of these values
-/

namespace ClenshawCode

namespace Text

/-- A number of some digits is below the power of ten for as many places. -/
theorem digitsValue_lt {cs : List Char} (run : Decimal.Digits cs) :
    Decimal.digitsValue cs < 10 ^ cs.length := by
  have digit : ∀ c ∈ Decimal.digitChars, c.toNat - 48 < 10 :=
    List.all_iff_forall_prop.mp (by decide)
  have bound := Nat.ofDigits_lt_base_pow_length (b := 10)
    (l := (cs.map fun c => c.toNat - 48).reverse) (by norm_num) (by
      intro d member
      obtain ⟨c, inside, rfl⟩ := List.mem_map.mp (List.mem_reverse.mp member)
      exact digit c (Decimal.mem_digitChars_of_isDigit (run c inside)))
  rwa [List.length_reverse, List.length_map, ← ofDigits_eq] at bound

end Text

namespace Value

/-- An entry of a table that has a text as its key. -/
def namedEntry (field : String × Value) : Value × Value := (.text field.1, field.2)

theorem sameKey_text (s t : String) : sameKey true (.text s) (.text t) = (s == t) := rfl

variable {Q : Value → Prop} {fields : List (String × Value)}

/-- A field takes the place of one that has its name, or else is the last one. -/
theorem exists_insertEntry (each : ∀ field ∈ fields, Q field.2) (s : String) {v : Value}
    (holds : Q v) :
    ∃ kept : List (String × Value),
      insertEntry (.text s) v (fields.map namedEntry) = kept.map namedEntry ∧
      kept.map Prod.fst = (if s ∈ fields.map Prod.fst then fields.map Prod.fst
        else fields.map Prod.fst ++ [s]) ∧
      ∀ field ∈ kept, Q field.2 := by
  induction fields with
  | nil => exact ⟨[(s, v)], rfl, rfl, List.forall_mem_singleton.mpr holds⟩
  | cons field rest ih =>
    obtain ⟨t, w⟩ := field
    obtain ⟨first, others⟩ := List.forall_mem_cons.mp each
    rw [List.map_cons, namedEntry, insertEntry, sameKey_text]
    by_cases same : s = t
    · refine ⟨(t, v) :: rest, ?_, by simp [same], List.forall_mem_cons.mpr ⟨holds, others⟩⟩
      rw [if_pos (beq_iff_eq.mpr same)]
      rfl
    · obtain ⟨kept, inserted, names, values⟩ := ih others
      refine ⟨(t, w) :: kept, ?_, ?_, List.forall_mem_cons.mpr ⟨first, values⟩⟩
      · rw [if_neg (by simpa using same), inserted]
        rfl
      · simp only [List.map_cons, names, List.mem_cons, same, false_or]
        split <;> rfl

/-- A table has fields with names that differ, and with values that it was given. -/
theorem exists_ofPairs (each : ∀ field ∈ fields, Q field.2) :
    ∃ kept : List (String × Value), ofPairs (fields.map namedEntry) = kept.map namedEntry ∧
      (kept.map Prod.fst).Nodup ∧ ∀ field ∈ kept, Q field.2 := by
  -- The fields so far have names that differ, and each step keeps that.
  have fold (pairs before : List (String × Value)) (given : ∀ field ∈ pairs, Q field.2)
      (distinct : (before.map Prod.fst).Nodup) (hold : ∀ field ∈ before, Q field.2) :
      ∃ kept : List (String × Value),
        (pairs.map namedEntry).foldl (fun entries pair => insertEntry pair.1 pair.2 entries)
          (before.map namedEntry) = kept.map namedEntry ∧
        (kept.map Prod.fst).Nodup ∧ ∀ field ∈ kept, Q field.2 := by
    induction pairs generalizing before with
    | nil => exact ⟨before, rfl, distinct, hold⟩
    | cons pair rest ih =>
      obtain ⟨first, others⟩ := List.forall_mem_cons.mp given
      obtain ⟨next, inserted, names, values⟩ := exists_insertEntry hold pair.1 first
      have apart : (next.map Prod.fst).Nodup := by
        rw [names]
        split
        · exact distinct
        · rename_i new
          exact List.nodup_append_comm.mp (List.nodup_cons.mpr ⟨new, distinct⟩)
      rw [List.map_cons, List.foldl_cons, namedEntry, inserted]
      exact ih next others apart values
  exact fold fields [] each List.nodup_nil (List.forall_mem_nil _)

end Value

namespace Json

/-- The words, numbers and strings that a text can hold. -/
inductive ReadablePlain : Value → Prop
  | null : ReadablePlain .null
  | bool (b : Bool) : ReadablePlain (.bool b)
  | int (n : ℤ) (writable : Text.isWritable n = true) : ReadablePlain (.int n)
  | float (x : Float) : ReadablePlain (.float x)
  | nan : ReadablePlain (.nan .json)
  | text (s : String) : ReadablePlain (.text s)

/-- The values that a text can hold. The number bounds the lists and objects inside one another. -/
inductive Readable : (depth : ℕ) → Value → Prop
  | plain {depth : ℕ} {v : Value} (plain : ReadablePlain v) : Readable depth v
  | list {depth : ℕ} {items : List Value} (each : ∀ v ∈ items, Readable depth v) :
      Readable (depth + 1) (.list items)
  | table {depth : ℕ} {fields : List (String × Value)}
      (each : ∀ field ∈ fields, Readable depth field.2) (distinct : (fields.map Prod.fst).Nodup) :
      Readable (depth + 1) (.ofFields fields)

section Plain

theorem digits_digits (cs : List Char) : Decimal.Digits (digits cs) :=
  fun _ member => List.mem_takeWhile_imp member

theorem digits_wholePart (cs : List Char) : Decimal.Digits (wholePart cs) := by
  rw [wholePart.eq_def]
  split
  · simp [Decimal.Digits]
  · exact digits_digits cs

/-- An integer that is short enough to be read can be written. -/
theorem isWritable_of_digits {ws : List Char} (run : Decimal.Digits ws)
    (short : ws.length ≤ Text.maxDigits) (negative : Bool) :
    Text.isWritable (if negative then -(Decimal.digitsValue ws : ℤ) else Decimal.digitsValue ws) =
      true := by
  have magnitude : (if negative then -(Decimal.digitsValue ws : ℤ)
      else Decimal.digitsValue ws).natAbs = Decimal.digitsValue ws := by
    cases negative <;> simp
  rw [Text.isWritable, magnitude, Nat.pow_eq, decide_eq_true_eq]
  -- With its name in place of its value the power is not computed.
  generalize Text.maxDigits = most at short
  exact (Text.digitsValue_lt run).trans_le (Nat.pow_le_pow_right (by norm_num) short)

variable {cs left : List Char} {v : Value}

theorem digits_whole {n : Numeral} (parts : numeral? cs = some n) : Decimal.Digits n.whole := by
  simp only [numeral?, Option.ite_none_left_eq_some, Option.some.injEq] at parts
  obtain ⟨-, rfl⟩ := parts
  exact digits_wholePart _

theorem readablePlain_of_number (read : number cs = .ok (v, left)) : ReadablePlain v := by
  rw [number] at read
  split at read
  · cases read
  · rename_i n parts
    obtain ⟨w, value, same⟩ := ok_of_bind_ok read
    obtain rfl : w = v := congrArg Prod.fst (Except.ok.inj same)
    rw [Numeral.value] at value
    split at value
    · split at value
      · cases value
      · rename_i short
        obtain rfl := Except.ok.inj value
        exact .int _ (isWritable_of_digits (digits_whole parts) (not_lt.mp short) n.negative)
    · split at value <;> obtain rfl := Except.ok.inj value <;> exact .float _

theorem readablePlain_of_mem_words {word : List Char × Value} (member : word ∈ words) :
    ReadablePlain word.2 := by
  rw [words_eq] at member
  simp only [List.mem_cons, List.not_mem_nil, or_false] at member
  rcases member with rfl | rfl | rfl | rfl | rfl | rfl
  exacts [.null, .bool true, .bool false, .nan, .float _, .float _]

theorem readablePlain_of_plainValue (read : plainValue cs = .ok (v, left)) : ReadablePlain v := by
  rw [plainValue.eq_def] at read
  split at read
  · obtain ⟨s, -, same⟩ := ok_of_bind_ok read
    cases same
    exact .text s.1
  · split at read
    · rename_i found
      cases read
      exact readablePlain_of_mem_words (List.mem_of_find?_eq_some found)
    · exact readablePlain_of_number read

/-- What was read with a level left or without one is a word, a number or a string. -/
theorem plainValue_of_leafValue {depth : ℕ} (read : leafValue depth cs = .ok (v, left)) :
    plainValue cs = .ok (v, left) := by
  rw [leafValue] at read
  split at read
  · cases read
  · exact read

end Plain

/-- A value that is not too deep for some levels is not too deep for more. -/
theorem Readable.mono {depth more : ℕ} {v : Value} (readable : Readable depth v)
    (order : depth ≤ more) : Readable more v := by
  induction readable generalizing more with
  | plain plain => exact .plain plain
  | list _ each =>
    obtain ⟨more, rfl⟩ := Nat.exists_eq_add_of_le' ((Nat.le_add_left 1 _).trans order)
    exact .list fun v member => each v member (Nat.le_of_succ_le_succ order)
  | table _ distinct each =>
    obtain ⟨more, rfl⟩ := Nat.exists_eq_add_of_le' ((Nat.le_add_left 1 _).trans order)
    exact .table (fun field member => each field member (Nat.le_of_succ_le_succ order)) distinct

section Collections

mutual

/-- A value at the front of a text is a readable one. -/
theorem readable_of_value {fuel depth : ℕ} {cs left : List Char} {v : Value}
    (read : value fuel depth cs = .ok (v, left)) : Readable depth v := by
  rw [value.eq_def] at read
  split at read
  -- A bracket or a brace for which no level is left is a fault.
  · cases read
  · cases read
  · split at read
    · cases read
      exact .list nofun
    · obtain ⟨items, inside, same⟩ := ok_of_bind_ok read
      cases same
      exact .list (readable_of_listItems inside)
  · split at read
    · cases read
      change Readable (_ + 1) (.ofFields [])
      exact .table nofun List.nodup_nil
    · obtain ⟨entries, inside, same⟩ := ok_of_bind_ok read
      cases same
      obtain ⟨fields, named, each⟩ := exists_fields_of_objectEntries inside
      -- Names that are repeated are merged only when the object is complete.
      obtain ⟨kept, table, distinct, values⟩ := Value.exists_ofPairs each
      rw [named, table]
      exact .table values distinct
  · exact .plain (readablePlain_of_plainValue (plainValue_of_leafValue read))
termination_by fuel

/-- So are the items of a list. -/
theorem readable_of_listItems {fuel depth : ℕ} {cs left : List Char} {items : List Value}
    (read : listItems fuel depth cs = .ok (items, left)) : ∀ v ∈ items, Readable depth v := by
  rw [listItems.eq_def] at read
  split at read
  · cases read
  · obtain ⟨⟨v, behind⟩, item, read⟩ := ok_of_bind_ok read
    have one := readable_of_value item
    dsimp only at read
    split at read
    · cases read
      exact List.forall_mem_singleton.mpr one
    · obtain ⟨others, more, same⟩ := ok_of_bind_ok read
      cases same
      exact List.forall_mem_cons.mpr ⟨one, readable_of_listItems more⟩
    · cases read
termination_by fuel

/-- The entries of an object have texts as keys. -/
theorem exists_fields_of_objectEntries {fuel depth : ℕ} {cs left : List Char}
    {entries : List (Value × Value)} (read : objectEntries fuel depth cs = .ok (entries, left)) :
    ∃ fields : List (String × Value), entries = fields.map Value.namedEntry ∧
      ∀ field ∈ fields, Readable depth field.2 := by
  rw [objectEntries.eq_def] at read
  split at read
  · cases read
  · split at read
    · obtain ⟨⟨key, behind⟩, -, read⟩ := ok_of_bind_ok read
      dsimp only at read
      split at read
      · obtain ⟨⟨v, behind⟩, item, read⟩ := ok_of_bind_ok read
        have one := readable_of_value item
        dsimp only at read
        split at read
        · cases read
          exact ⟨[(key, v)], rfl, List.forall_mem_singleton.mpr one⟩
        · obtain ⟨others, more, same⟩ := ok_of_bind_ok read
          cases same
          obtain ⟨fields, named, each⟩ := exists_fields_of_objectEntries more
          exact ⟨(key, v) :: fields, by rw [named]; rfl,
            List.forall_mem_cons.mpr ⟨one, each⟩⟩
        · cases read
      · cases read
    · cases read
termination_by fuel

end

/-- The value that a text holds is a readable one. -/
theorem readable_of_read {depth : ℕ} {s : String} {v : Value} (found : read depth s = .ok v) :
    Readable depth v := by
  rw [read] at found
  split at found
  · rename_i w all
    obtain rfl := Except.ok.inj found
    rw [readAll] at all
    split at all
    · cases all
    · obtain ⟨⟨v, behind⟩, front, all⟩ := ok_of_bind_ok all
      dsimp only at all
      split at all
      · cases all
        exact readable_of_value front
      · cases all
  · cases found

end Collections

end Json

end ClenshawCode
