import ClenshawCode.Proofs.Json.Levels
import ClenshawCode.Proofs.Json.Readable
import ClenshawCode.Proofs.Value.Sorting

/-!
# The normal form of a value in JSON

A value is written in one way: the entries of its tables by name, a space after every comma and
colon, and one spelling for each number. The text holds a value that can differ from the one that
was written in the order of its entries and in the origin of what is no number, and nothing of this
shows in a text. So a value that was read has a text from which the same text comes back. This is an
induction on the values that can be read; a list or a table is normal if its parts are.

The writer takes one level more than the reader, as it sorts the entries of a table, and the reader
takes one for a double that it may not have needed for another spelling.

## Main definitions

* `Json.Alike`: values that differ in the order of their entries and in the origin of doubles only
* `Json.Normalizes`: a value, its text, and the value that the text holds

## Main results

* `Json.yieldsWithin_write_list`, `Json.yieldsWithin_write_fields`: what is written for lists and
  tables
* `Json.exists_normalizes`: what was read has such a text
-/

namespace ClenshawCode.Json

open Value

section Writing

/-- The items of a list are written one by one. -/
theorem bracketed_writeItems (levels : ℕ) (items : List Value) :
    bracketed (writeItems levels items) =
      items.mapM (write levels) >>= fun parts => .ok ("[" ++ Text.join ", " parts ++ "]") := by
  have each : writeItems levels items = items.map (write levels) := by
    induction items with
    | nil => rfl
    | cons v rest ih => rw [writeItems, ih, List.map_cons]
  rw [bracketed, each, List.mapM_map]
  rfl

variable {need : ℕ}

/-- A list takes a level more than its items. -/
theorem yieldsWithin_write_list {items : List Value} {parts : List String}
    (each : List.Forall₂ (fun v part => YieldsWithin Failure.IsDeep need (write · v) part)
      items parts) :
    YieldsWithin Failure.IsDeep (need + 1) (write · (.list items))
      ("[" ++ Text.join ", " parts ++ "]") := by
  refine .succ ⟨_, ⟨.jsonWriting, rfl⟩, by rw [write]⟩ ?_
  simp only [write, bracketed_writeItems]
  exact (YieldsWithin.mapM each).map _

variable {α : Type} (name : α → String) (held : α → Value) (text : α → String)

/-- The entries of a table are written in the order of their names. -/
theorem braced_writeEntries {fields sorted : List α} (perm : sorted.Perm fields)
    (ascends : sorted.Pairwise fun a b => name a < name b) (levels : ℕ) :
    braced (writeEntries levels ((fields.map fun a => (name a, held a)).map namedEntry)) =
      (sorted.mapM fun a => write levels (held a) >>= fun v =>
        .ok (quoted (name a) ++ ": " ++ v)) >>= fun parts =>
          .ok ("\x7b" ++ Text.join ", " parts ++ "\x7d") := by
  let entry (a : α) : Value × Except Failure String := (.text (name a), write levels (held a))
  have each : writeEntries levels ((fields.map fun a => (name a, held a)).map namedEntry) =
      fields.map entry := by
    clear perm
    induction fields with
    | nil => rfl
    | cons a rest ih => rw [List.map_cons, List.map_cons, namedEntry, writeEntries, ih]; rfl
  have order : insertionSort (fun a b => Value.lt a.1 b.1) (fields.map entry) =
      .ok (sorted.map entry) :=
    insertionSort_eq comparesBy_textOf (by simp [entry]) (perm.map entry)
      (List.pairwise_map.mpr ascends)
  rw [each, braced, order, except_ok_bind, List.mapM_map]
  rfl

/-- A table takes a level more than its values, and one more to be sorted. -/
theorem yieldsWithin_write_fields {fields sorted : List α} (perm : sorted.Perm fields)
    (ascends : sorted.Pairwise fun a b => name a < name b)
    (each : ∀ a ∈ fields,
      YieldsWithin Failure.IsDeep (need + 1) (write · (held a)) (text a)) :
    YieldsWithin Failure.IsDeep (need + 2)
      (write · (.ofFields (fields.map fun a => (name a, held a))))
      ("\x7b" ++ Text.join ", " (sorted.map fun a => quoted (name a) ++ ": " ++ text a) ++
        "\x7d") := by
  refine .succ ⟨_, ⟨.jsonWriting, rfl⟩, by rw [Value.ofFields, write]⟩ fun levels => ?_
  have entries : List.Forall₂ (fun a part => YieldsWithin Failure.IsDeep (need + 1)
      (fun levels => write levels (held a) >>= fun v => .ok (quoted (name a) ++ ": " ++ v)) part)
      sorted (sorted.map fun a => quoted (name a) ++ ": " ++ text a) := by
    rw [List.forall₂_map_right_iff, List.forall₂_same]
    exact fun a member => (each a (perm.mem_iff.mp member)).map _
  have written := (YieldsWithin.mapM entries).map
    (fun parts => "\x7b" ++ Text.join ", " parts ++ "\x7d") levels
  beta_reduce at written
  rw [← braced_writeEntries name held perm ascends] at written
  simp only [Value.ofFields, write]
  split
  · -- Sorting is what fails at the last level.
    rename_i last
    have none : levels = 0 := by simpa using (Bool.and_eq_true_iff.mp last).1
    exact .inr ⟨by omega, _, ⟨.comparison, rfl⟩, rfl⟩
  · exact written

/-- Fields with names that differ are read as a table of them. -/
theorem spells_fields {depth : ℕ} {fields : List α}
    (spelled : ∀ a ∈ fields, Spells depth (held a) (text a).toList)
    (distinct : fields.Pairwise fun a b => name a ≠ name b) :
    Spells (depth + 1) (.ofFields (fields.map fun a => (name a, held a)))
      ("\x7b" ++ Text.join ", " (fields.map fun a => quoted (name a) ++ ": " ++ text a) ++
        "\x7d").toList := by
  have keys : ((fields.map fun a => (name a, held a)).map namedEntry).Pairwise
      fun a b => sameKey true b.1 a.1 = false := by
    rw [List.map_map, List.pairwise_map]
    exact distinct.imp fun other => beq_eq_false_iff_ne.mpr other.symm
  cases fields with
  | nil =>
    change Spells (depth + 1) (.dict []) ("\x7b" ++ Text.join ", " [] ++ "\x7d").toList
    exact .emptyTable depth
  | cons a rest =>
    obtain ⟨first, others⟩ := List.forall_mem_cons.mp spelled
    refine spells_table ⟨name a, text a, rfl, rfl, first⟩ ?_ keys
    rw [List.map_map, List.forall₂_map_left_iff, List.forall₂_map_right_iff, List.forall₂_same]
    exact fun b member => ⟨name b, text b, rfl, rfl, others b member⟩

end Writing

theorem write_of_stores {v : Value} {x : Float} (is : Stores v x) (levels : ℕ) :
    write levels v = .ok (floatLayout.render x) := by
  cases is with
  | float x => rw [write]
  | nan origin => rw [write, Decimal.Layout.render, Binary64.view_nan]

theorem spells_quoted (depth : ℕ) (s : String) : Spells depth (.text s) (quoted s).toList := by
  rw [quoted, String.toList_ofList]
  exact .plain (.text s)

/-- Values that a text cannot tell apart: words, numbers and strings are the same, every bit of
them, and tables have the same names in some order. -/
inductive Alike : Value → Value → Prop
  | same {v : Value} (plain : ReadablePlain v) : Alike v v
  | double {v w : Value} {x : Float} (first : Stores v x) (second : Stores w x) : Alike v w
  | list {items others : List Value} (each : List.Forall₂ Alike items others) :
      Alike (.list items) (.list others)
  | table {fields kept others : List (String × Value)} (perm : kept.Perm fields)
      (names : kept.map Prod.fst = others.map Prod.fst)
      (each : List.Forall₂ Alike (kept.map Prod.snd) (others.map Prod.snd)) :
      Alike (.ofFields fields) (.ofFields others)

/-- A value is written as a text that holds another value, and this is written as the same text. -/
structure Normalizes (depth : ℕ) (v : Value) (text : String) (w : Value) : Prop where
  written : YieldsWithin Failure.IsDeep (depth + 1) (write · v) text
  spelled : Spells (depth + 1) w text.toList
  again : YieldsWithin Failure.IsDeep (depth + 1) (write · w) text
  alike : Alike v w

variable {depth : ℕ} {v : Value}

/-- A value that is its own normal form, and takes no level. -/
theorem normalizes_self (depth : ℕ) {text : String} (plain : ReadablePlain v)
    (written : ∀ levels, write levels v = .ok text) (spelled : SpellsPlain v text.toList) :
    Normalizes depth v text v :=
  ⟨.of_eq_ok written, .plain spelled, .of_eq_ok written, .same plain⟩

theorem normalizes_of_stores (depth : ℕ) {x : Float} (is : Stores v x) :
    Normalizes depth v (floatLayout.render x) (reread .json x) where
  written := .of_eq_ok (write_of_stores is)
  spelled := .float depth x
  again := .of_eq_ok (write_of_stores (stores_reread .json x))
  alike := .double is (stores_reread .json x)

theorem exists_normalizes_of_plain (depth : ℕ) (plain : ReadablePlain v) :
    ∃ text w, Normalizes depth v text w := by
  cases plain with
  | null => exact ⟨"null", _, normalizes_self depth .null (fun _ => by rw [write]) .null⟩
  | bool b =>
    have written (levels : ℕ) : write levels (.bool b) = .ok (boolText b) := by rw [write]
    cases b with
    | true => exact ⟨"true", _, normalizes_self depth (.bool true) written .true⟩
    | false => exact ⟨"false", _, normalizes_self depth (.bool false) written .false⟩
  | int n writable =>
    have written (levels : ℕ) : write levels (.int n) = .ok (Text.intText n) := by
      rw [write, intText, if_pos writable]
    exact ⟨_, _, normalizes_self depth (.int n writable) written (.int n writable)⟩
  | float x => exact ⟨_, _, normalizes_of_stores depth (.float x)⟩
  | nan => exact ⟨_, _, normalizes_of_stores depth (.nan .json)⟩
  | text s =>
    have written (levels : ℕ) : write levels (.text s) = .ok (quoted s) := by rw [write]
    refine ⟨_, _, normalizes_self depth (.text s) written ?_⟩
    rw [quoted, String.toList_ofList]
    exact .text s

/-- A list is as normal as its items. -/
theorem exists_normalizes_list {items : List Value}
    (each : ∀ v ∈ items, ∃ text w, Normalizes depth v text w) :
    ∃ text w, Normalizes (depth + 1) (.list items) text w := by
  choose! text after normal using each
  have written : List.Forall₂
      (fun v part => YieldsWithin Failure.IsDeep (depth + 1) (write · v) part)
      items (items.map text) := by
    rw [List.forall₂_map_right_iff, List.forall₂_same]
    exact fun v member => (normal v member).written
  have spelled : List.Forall₂ (fun w part => Spells (depth + 1) w (String.toList part))
      (items.map after) (items.map text) := by
    rw [List.forall₂_map_left_iff, List.forall₂_map_right_iff, List.forall₂_same]
    exact fun v member => (normal v member).spelled
  have again : List.Forall₂
      (fun w part => YieldsWithin Failure.IsDeep (depth + 1) (write · w) part)
      (items.map after) (items.map text) := by
    rw [List.forall₂_map_left_iff, List.forall₂_map_right_iff, List.forall₂_same]
    exact fun v member => (normal v member).again
  have alike : List.Forall₂ Alike items (items.map after) := by
    rw [List.forall₂_map_right_iff, List.forall₂_same]
    exact fun v member => (normal v member).alike
  exact ⟨_, .list (items.map after), yieldsWithin_write_list written, spells_list spelled,
    yieldsWithin_write_list again, .list alike⟩

/-- A table is as normal as its fields, of which the text has those with the lesser names first. -/
theorem exists_normalizes_table {fields : List (String × Value)}
    (each : ∀ field ∈ fields, ∃ text w, Normalizes depth field.2 text w)
    (distinct : (fields.map Prod.fst).Nodup) :
    ∃ text w, Normalizes (depth + 1) (.ofFields fields) text w := by
  choose! text after normal using each
  let sorted := fields.mergeSort fun a b => decide (a.1 ≤ b.1)
  have perm : sorted.Perm fields := List.mergeSort_perm _ _
  have ascends : sorted.Pairwise fun a b => a.1 < b.1 := by
    have weakly : sorted.Pairwise fun a b => decide (a.1 ≤ b.1) = true :=
      List.pairwise_mergeSort (fun a b c first second => by simp at *; exact first.trans second)
        (fun a b => by simpa using le_total a.1 b.1) fields
    have apart : sorted.Pairwise fun a b => a.1 ≠ b.1 :=
      List.pairwise_map.mp ((perm.map Prod.fst).nodup_iff.mpr distinct)
    exact (weakly.and apart).imp fun both => lt_of_le_of_ne (of_decide_eq_true both.1) both.2
  have inside : ∀ field ∈ sorted, Normalizes depth field.2 (text field) (after field) :=
    fun field member => normal field (perm.mem_iff.mp member)
  have written := yieldsWithin_write_fields Prod.fst Prod.snd text perm ascends
    fun field member => (normal field member).written
  rw [List.map_id'] at written
  let others := sorted.map fun field => (field.1, after field)
  refine ⟨_, .ofFields others, written,
    spells_fields Prod.fst after text (fun field member => (inside field member).spelled)
      (ascends.imp fun less => less.ne),
    yieldsWithin_write_fields Prod.fst after text .rfl ascends
      fun field member => (inside field member).again, .table perm ?_ ?_⟩
  · rw [List.map_map]
    rfl
  · rw [List.map_map, List.forall₂_map_left_iff, List.forall₂_map_right_iff, List.forall₂_same]
    exact fun field member => (inside field member).alike

/-- What was read is written as a text that comes back from what it holds. -/
theorem exists_normalizes (readable : Readable depth v) :
    ∃ text w, Normalizes depth v text w := by
  induction readable with
  | plain plain => exact exists_normalizes_of_plain _ plain
  | list _ each => exact exists_normalizes_list each
  | table _ distinct each => exact exists_normalizes_table each distinct

end ClenshawCode.Json
