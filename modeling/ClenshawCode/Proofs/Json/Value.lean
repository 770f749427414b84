import ClenshawCode.Proofs.Json.Number
import ClenshawCode.Proofs.Json.Text
import ClenshawCode.Value.Key

/-!
# A value in JSON reads back

The texts that are written for values are told apart by their first characters, and they are put
together as the reader takes them apart: a list is a bracket and its items, of which each ends at a
comma or at the closing bracket. So reading is an induction on how a text is put together. Each list
and each object uses up one of the levels that the reader follows, a double takes one that is left
over, and every item and entry uses up at least one character, of which the reader counts no more
than there are.

## Main definitions

* `Json.SpellsPlain`: the text of a word, an integer or a string
* `Json.Spells`: the text of a value with lists and objects inside one another up to a bound
-/

namespace ClenshawCode

namespace Value

variable {entries : List (Value × Value)}

theorem insertEntry_of_new {k : Value} (v : Value)
    (new : ∀ entry ∈ entries, sameKey true k entry.1 = false) :
    insertEntry k v entries = entries ++ [(k, v)] := by
  induction entries with
  | nil => rfl
  | cons entry rest ih =>
    have others := ih fun other member => new other (List.mem_cons_of_mem entry member)
    rw [insertEntry, new entry List.mem_cons_self, if_neg Bool.false_ne_true, others]
    rfl

/-- Entries with keys that differ are the entries of a table as they are. -/
theorem ofPairs_of_pairwise (keys : entries.Pairwise fun a b => sameKey true b.1 a.1 = false) :
    ofPairs entries = entries := by
  -- The entries so far hold none of the keys that follow.
  have fold (pairs before : List (Value × Value))
      (keys : (before ++ pairs).Pairwise fun a b => sameKey true b.1 a.1 = false) :
      pairs.foldl (fun entries pair => insertEntry pair.1 pair.2 entries) before =
        before ++ pairs := by
    induction pairs generalizing before with
    | nil => rw [List.foldl_nil, List.append_nil]
    | cons pair rest ih =>
      have new := (List.pairwise_append.mp keys).2.2
      have one := insertEntry_of_new pair.2 fun entry member =>
        new entry member pair List.mem_cons_self
      rw [List.foldl_cons, one, ih _ (by rwa [List.append_assoc]), List.append_assoc]
      rfl
  exact fold entries [] keys

end Value

namespace Json

/-- The texts of words, integers and strings. -/
inductive SpellsPlain : Value → List Char → Prop
  | null : SpellsPlain .null ['n', 'u', 'l', 'l']
  | true : SpellsPlain (.bool true) ['t', 'r', 'u', 'e']
  | false : SpellsPlain (.bool false) ['f', 'a', 'l', 's', 'e']
  | int (n : ℤ) (writable : Text.isWritable n = true) :
      SpellsPlain (.int n) (Text.intText n).toList
  | text (s : String) : SpellsPlain (.text s) (encode s.toList)

mutual

/-- The texts of values. The number bounds the lists and objects inside one another, with a level
left for doubles. -/
inductive Spells : (depth : ℕ) → Value → List Char → Prop
  | plain {depth : ℕ} {v : Value} {cs : List Char} (spelled : SpellsPlain v cs) : Spells depth v cs
  | float (depth : ℕ) (x : Float) :
      Spells (depth + 1) (Value.reread .json x) (floatLayout.render x).toList
  | emptyList (depth : ℕ) : Spells (depth + 1) (.list []) ['[', ']']
  | list {depth : ℕ} {items : List Value} {cs : List Char} (spelled : SpellsItems depth items cs) :
      Spells (depth + 1) (.list items) ('[' :: cs)
  | emptyTable (depth : ℕ) : Spells (depth + 1) (.dict []) ['\x7b', '\x7d']
  | table {depth : ℕ} {entries : List (Value × Value)} {cs : List Char}
      (spelled : SpellsEntries depth entries cs)
      (keys : entries.Pairwise fun a b => Value.sameKey true b.1 a.1 = false) :
      Spells (depth + 1) (.dict entries) ('\x7b' :: cs)

/-- The texts of the items of a list with the closing bracket. -/
inductive SpellsItems : (depth : ℕ) → List Value → List Char → Prop
  | last {depth : ℕ} {v : Value} {cs : List Char} (spelled : Spells depth v cs) :
      SpellsItems depth [v] (cs ++ [']'])
  | more {depth : ℕ} {v : Value} {cs : List Char} {items : List Value} {behind : List Char}
      (spelled : Spells depth v cs) (others : SpellsItems depth items behind) :
      SpellsItems depth (v :: items) (cs ++ ',' :: ' ' :: behind)

/-- The texts of the entries of an object with the closing brace. -/
inductive SpellsEntries : (depth : ℕ) → List (Value × Value) → List Char → Prop
  | last {depth : ℕ} (key : String) {v : Value} {cs : List Char} (spelled : Spells depth v cs) :
      SpellsEntries depth [(.text key, v)] (encode key.toList ++ ':' :: ' ' :: (cs ++ ['\x7d']))
  | more {depth : ℕ} (key : String) {v : Value} {cs : List Char} {entries : List (Value × Value)}
      {behind : List Char} (spelled : Spells depth v cs)
      (others : SpellsEntries depth entries behind) :
      SpellsEntries depth ((.text key, v) :: entries)
        (encode key.toList ++ ':' :: ' ' :: (cs ++ ',' :: ' ' :: behind))

end

section Heads

/-- The characters with which words, numbers and strings begin. -/
def plainHeads : List Char := ['n', 't', 'f', 'N', 'I', '-', '\x22'] ++ Decimal.digitChars

/-- The characters with which values begin. -/
def heads : List Char := ['[', '\x7b'] ++ plainHeads

theorem head_signed {c : Char} (digit : c.isDigit = true) (negative : Bool) (rest : List Char) :
    ∃ a ∈ plainHeads, ∃ more, Decimal.signed negative (c :: rest) = a :: more := by
  cases negative with
  | true => exact ⟨'-', by decide, _, rfl⟩
  | false =>
    exact ⟨c, List.mem_append_right _ (Decimal.mem_digitChars_of_isDigit digit), rest, rfl⟩

theorem SpellsPlain.head {v : Value} {cs : List Char} (spelled : SpellsPlain v cs) :
    ∃ c ∈ plainHeads, ∃ rest, cs = c :: rest := by
  cases spelled with
  | null => exact ⟨'n', by decide, _, rfl⟩
  | true => exact ⟨'t', by decide, _, rfl⟩
  | false => exact ⟨'f', by decide, _, rfl⟩
  | int n =>
    obtain ⟨c, rest, form⟩ := List.exists_cons_of_ne_nil (Text.natChars_ne_nil n.natAbs)
    rw [toList_intText, form]
    exact head_signed (Decimal.digits_natChars n.natAbs c (form ▸ List.mem_cons_self)) _ _
  | text s => exact ⟨'\x22', by decide, _, rfl⟩

theorem head_render (x : Float) :
    ∃ c ∈ plainHeads, ∃ rest, (floatLayout.render x).toList = c :: rest := by
  rcases Binary64.float_cases x with rfl | ⟨negative, rfl⟩ | ⟨negative, bits, finite, rfl⟩
  · rw [Decimal.Layout.render, Binary64.view_nan]
    exact ⟨'N', by decide, _, rfl⟩
  · rw [Decimal.Layout.render, Binary64.view_infinity]
    cases negative with
    | true => exact ⟨'-', by decide, _, rfl⟩
    | false => exact ⟨'I', by decide, _, rfl⟩
  · obtain ⟨c, rest, digit, form⟩ :=
      (Decimal.isMagnitude_magnitudeChars floatLayout.pointBeforeExponent bits).exists_digit
    rw [Decimal.render_ofSignedBits _ _ finite, String.toList_ofList, form]
    exact head_signed digit _ _

theorem Spells.head {depth : ℕ} {v : Value} {cs : List Char} (spelled : Spells depth v cs) :
    ∃ c ∈ heads, ∃ rest, cs = c :: rest := by
  cases spelled with
  | plain spelled =>
    obtain ⟨c, member, rest, form⟩ := spelled.head
    exact ⟨c, List.mem_append_right _ member, rest, form⟩
  | float _ x =>
    obtain ⟨c, member, rest, form⟩ := head_render x
    exact ⟨c, List.mem_append_right _ member, rest, form⟩
  | emptyList => exact ⟨'[', by decide, _, rfl⟩
  | list => exact ⟨'[', by decide, _, rfl⟩
  | emptyTable => exact ⟨'\x7b', by decide, _, rfl⟩
  | table => exact ⟨'\x7b', by decide, _, rfl⟩

/-- A text that begins neither with a blank nor with a closing bracket. -/
def Opens (cs : List Char) : Prop :=
  ∃ c rest, cs = c :: rest ∧ isSpace c = false ∧ c ≠ ']' ∧ c ≠ '\x7d'

theorem Opens.append {cs : List Char} (opens : Opens cs) (tail : List Char) :
    Opens (cs ++ tail) := by
  obtain ⟨c, rest, rfl, plain⟩ := opens
  exact ⟨c, rest ++ tail, rfl, plain⟩

theorem Spells.opens {depth : ℕ} {v : Value} {cs : List Char} (spelled : Spells depth v cs) :
    Opens cs := by
  obtain ⟨c, member, rest, rfl⟩ := spelled.head
  have each : ∀ c ∈ heads, isSpace c = false ∧ c ≠ ']' ∧ c ≠ '\x7d' :=
    List.all_iff_forall_prop.mp (by decide)
  exact ⟨c, rest, rfl, each c member⟩

theorem SpellsItems.opens {depth : ℕ} {items : List Value} {cs : List Char}
    (spelled : SpellsItems depth items cs) : Opens cs := by
  cases spelled with
  | last spelled => exact spelled.opens.append _
  | more spelled => exact spelled.opens.append _

theorem SpellsEntries.exists_quote {depth : ℕ} {entries : List (Value × Value)} {cs : List Char}
    (spelled : SpellsEntries depth entries cs) : ∃ rest, cs = '\x22' :: rest := by
  cases spelled with
  | last => exact ⟨_, rfl⟩
  | more => exact ⟨_, rfl⟩

theorem SpellsEntries.opens {depth : ℕ} {entries : List (Value × Value)} {cs : List Char}
    (spelled : SpellsEntries depth entries cs) : Opens cs := by
  obtain ⟨rest, rfl⟩ := spelled.exists_quote
  exact ⟨'\x22', rest, rfl, by decide⟩

end Heads

section Reading

theorem skipSpace_cons {c : Char} (other : isSpace c = false) (rest : List Char) :
    skipSpace (c :: rest) = c :: rest := by
  rw [skipSpace, List.dropWhile_cons, other]
  rfl

theorem Opens.skipSpace {cs : List Char} (opens : Opens cs) : Json.skipSpace cs = cs := by
  obtain ⟨c, rest, rfl, other, -⟩ := opens
  exact skipSpace_cons other rest

/-- A blank in front of a value is skipped. -/
theorem Opens.skipSpace_blank {cs : List Char} (opens : Opens cs) :
    Json.skipSpace (' ' :: cs) = cs := opens.skipSpace

/-- With a level left every word, number and string is read. -/
theorem leafValue_succ (depth : ℕ) (cs : List Char) : leafValue (depth + 1) cs = plainValue cs := by
  simp [leafValue]

theorem leafValue_of_not_beginsWithDouble {cs : List Char} (other : beginsWithDouble cs = false)
    (depth : ℕ) : leafValue depth cs = plainValue cs := by
  simp [leafValue, other]

/-- Words that are no doubles, integers and strings are read without a level. -/
theorem leafValue_of_spells {v : Value} {cs tail : List Char} (spelled : SpellsPlain v cs)
    (ends : Ends tail) (depth : ℕ) : leafValue depth (cs ++ tail) = .ok (v, tail) := by
  cases spelled with
  | null => exact leafValue_of_not_beginsWithDouble rfl depth
  | true => exact leafValue_of_not_beginsWithDouble rfl depth
  | false => exact leafValue_of_not_beginsWithDouble rfl depth
  | int n writable =>
    rw [leafValue_of_not_beginsWithDouble (beginsWithDouble_intText n tail)]
    exact plainValue_intText writable ends
  | text s =>
    rw [leafValue_of_not_beginsWithDouble rfl, encode, List.cons_append, List.append_assoc,
      List.singleton_append, plainValue, stringBody_encode, except_ok_bind]
    dsimp only
    rw [String.ofList_toList, except_pure]

/-- A text that begins like no list and no object is a word, a number or a string. -/
theorem value_plain {c : Char} (member : c ∈ plainHeads) (fuel depth : ℕ) (rest : List Char) :
    value fuel depth (c :: rest) = leafValue depth (c :: rest) := by
  have each : ∀ c ∈ plainHeads, c ≠ '[' ∧ c ≠ '\x7b' := List.all_iff_forall_prop.mp (by decide)
  obtain ⟨bracket, brace⟩ := each c member
  rw [value.eq_def]
  split
  · exact absurd (List.head_eq_of_cons_eq ‹_›) bracket
  · exact absurd (List.head_eq_of_cons_eq ‹_›) brace
  · exact absurd (List.head_eq_of_cons_eq ‹_›) bracket
  · exact absurd (List.head_eq_of_cons_eq ‹_›) brace
  · rfl

/-- A list with items is read by reading its items. -/
theorem value_list {fuel depth : ℕ} {cs : List Char} (opens : Opens cs) {items : List Value}
    {tail : List Char} (read : listItems fuel depth cs = .ok (items, tail)) :
    value (fuel + 1) (depth + 1) ('[' :: cs) = .ok (.list items, tail) := by
  have skipped := opens.skipSpace
  obtain ⟨c, rest, rfl, -, closing, -⟩ := opens
  rw [value, skipped]
  split
  · exact absurd (List.head_eq_of_cons_eq ‹_›) closing
  · rw [read]
    rfl

/-- A table with entries is read by reading its entries. -/
theorem value_table {fuel depth : ℕ} {cs : List Char} (opens : Opens cs)
    {entries : List (Value × Value)} {tail : List Char}
    (keys : entries.Pairwise fun a b => Value.sameKey true b.1 a.1 = false)
    (read : objectEntries fuel depth cs = .ok (entries, tail)) :
    value (fuel + 1) (depth + 1) ('\x7b' :: cs) = .ok (.dict entries, tail) := by
  have skipped := opens.skipSpace
  obtain ⟨c, rest, rfl, -, -, closing⟩ := opens
  rw [value, skipped]
  split
  · exact absurd (List.head_eq_of_cons_eq ‹_›) closing
  · rw [read, except_ok_bind]
    dsimp only
    rw [Value.ofPairs_of_pairwise keys, except_pure]

section Entries

variable {fuel depth : ℕ} {key : String} {cs behind left : List Char} {v : Value}

/-- The last entry of an object. -/
theorem objectEntries_last (opens : Opens cs) (read : value fuel depth cs = .ok (v, behind))
    (closing : skipSpace behind = '\x7d' :: left) :
    objectEntries (fuel + 1) depth (encode key.toList ++ ':' :: ' ' :: cs) =
      .ok ([(.text key, v)], left) := by
  have colon : skipSpace (':' :: ' ' :: cs) = ':' :: ' ' :: cs := skipSpace_cons rfl _
  rw [encode, List.cons_append, List.append_assoc, List.singleton_append, objectEntries,
    stringBody_encode, except_ok_bind]
  simp only [colon, opens.skipSpace_blank, String.ofList_toList, read, except_ok_bind, closing]
  rfl

/-- An entry with others behind it. -/
theorem objectEntries_more (opens : Opens cs) (read : value fuel depth cs = .ok (v, behind))
    {next : List Char} (comma : skipSpace behind = ',' :: next) {entries : List (Value × Value)}
    (others : objectEntries fuel depth (skipSpace next) = .ok (entries, left)) :
    objectEntries (fuel + 1) depth (encode key.toList ++ ':' :: ' ' :: cs) =
      .ok ((.text key, v) :: entries, left) := by
  have colon : skipSpace (':' :: ' ' :: cs) = ':' :: ' ' :: cs := skipSpace_cons rfl _
  rw [encode, List.cons_append, List.append_assoc, List.singleton_append, objectEntries,
    stringBody_encode, except_ok_bind]
  simp only [colon, opens.skipSpace_blank, String.ofList_toList, read, except_ok_bind, comma,
    others]
  rfl

end Entries

mutual

/-- A written value is read back, whatever follows it. -/
theorem value_of_spells {depth : ℕ} {v : Value} {cs : List Char} (spelled : Spells depth v cs)
    {fuel : ℕ} (enough : cs.length ≤ fuel) {tail : List Char} (ends : Ends tail) :
    value fuel depth (cs ++ tail) = .ok (v, tail) := by
  cases spelled with
  -- The reader branches on the first character; a level is used up by a bracket alone.
  | @plain depth _ _ spelled =>
    have read := leafValue_of_spells spelled ends depth
    obtain ⟨c, member, rest, rfl⟩ := spelled.head
    rw [List.cons_append, value_plain member]
    exact read
  | float depth x =>
    have read := plainValue_render x ends
    obtain ⟨c, member, rest, form⟩ := head_render x
    rw [form] at read ⊢
    rw [List.cons_append, value_plain member, leafValue_succ]
    exact read
  | emptyList depth =>
    obtain ⟨fuel, rfl⟩ := Nat.exists_eq_add_of_le' enough
    rfl
  | list spelled =>
    obtain ⟨fuel, rfl⟩ := Nat.exists_eq_add_of_le' ((Nat.le_add_left 1 _).trans enough)
    exact value_list (spelled.opens.append tail)
      (listItems_of_spells spelled (Nat.le_of_succ_le_succ enough) tail)
  | emptyTable depth =>
    obtain ⟨fuel, rfl⟩ := Nat.exists_eq_add_of_le' enough
    rfl
  | table spelled keys =>
    obtain ⟨fuel, rfl⟩ := Nat.exists_eq_add_of_le' ((Nat.le_add_left 1 _).trans enough)
    exact value_table (spelled.opens.append tail) keys
      (objectEntries_of_spells spelled (Nat.le_of_succ_le_succ enough) tail)

/-- The written items of a list are read back. -/
theorem listItems_of_spells {depth : ℕ} {items : List Value} {cs : List Char}
    (spelled : SpellsItems depth items cs) {fuel : ℕ} (enough : cs.length ≤ fuel)
    (tail : List Char) : listItems fuel depth (cs ++ tail) = .ok (items, tail) := by
  cases spelled with
  | @last _ v cs spelled =>
    rw [List.length_append, List.length_singleton] at enough
    obtain ⟨fuel, rfl⟩ := Nat.exists_eq_add_of_le' ((Nat.le_add_left 1 _).trans enough)
    have first := value_of_spells spelled (Nat.le_of_succ_le_succ enough)
      (ends_cons (by decide : ']' ∈ delimiters) tail)
    have bracket : skipSpace (']' :: tail) = ']' :: tail := skipSpace_cons rfl _
    rw [List.append_assoc, List.singleton_append, listItems, first, except_ok_bind]
    dsimp only
    rw [bracket]
    rfl
  -- What follows the comma is shorter, so there is fuel for it.
  | @more _ v cs items behind spelled others =>
    rw [List.length_append, List.length_cons, List.length_cons] at enough
    obtain ⟨fuel, rfl⟩ := Nat.exists_eq_add_of_le' (by omega : 1 ≤ fuel)
    have first := value_of_spells spelled (by omega : cs.length ≤ fuel)
      (ends_cons (by decide : ',' ∈ delimiters) (' ' :: (behind ++ tail)))
    have next := listItems_of_spells others (by omega : behind.length ≤ fuel) tail
    have comma : skipSpace (',' :: ' ' :: (behind ++ tail)) = ',' :: ' ' :: (behind ++ tail) :=
      skipSpace_cons rfl _
    rw [List.append_assoc, List.cons_append, List.cons_append, listItems, first, except_ok_bind]
    simp only [comma, (others.opens.append tail).skipSpace_blank, next]
    rfl

/-- The written entries of an object are read back. -/
theorem objectEntries_of_spells {depth : ℕ} {entries : List (Value × Value)} {cs : List Char}
    (spelled : SpellsEntries depth entries cs) {fuel : ℕ} (enough : cs.length ≤ fuel)
    (tail : List Char) : objectEntries fuel depth (cs ++ tail) = .ok (entries, tail) := by
  cases spelled with
  | @last _ key v cs spelled =>
    simp only [List.length_append, List.length_cons, List.length_nil] at enough
    obtain ⟨fuel, rfl⟩ := Nat.exists_eq_add_of_le' (by omega : 1 ≤ fuel)
    have first := value_of_spells spelled (by omega : cs.length ≤ fuel)
      (ends_cons (by decide : '\x7d' ∈ delimiters) tail)
    rw [List.append_assoc, List.cons_append, List.cons_append, List.append_assoc,
      List.singleton_append]
    exact objectEntries_last (spelled.opens.append _) first (skipSpace_cons rfl _)
  | @more _ key v cs entries behind spelled others =>
    simp only [List.length_append, List.length_cons] at enough
    obtain ⟨fuel, rfl⟩ := Nat.exists_eq_add_of_le' (by omega : 1 ≤ fuel)
    have first := value_of_spells spelled (by omega : cs.length ≤ fuel)
      (ends_cons (by decide : ',' ∈ delimiters) (' ' :: (behind ++ tail)))
    have next := objectEntries_of_spells others (by omega : behind.length ≤ fuel) tail
    rw [← (others.opens.append tail).skipSpace_blank] at next
    rw [List.append_assoc, List.cons_append, List.cons_append, List.append_assoc,
      List.cons_append, List.cons_append]
    exact objectEntries_more (spelled.opens.append _) first (skipSpace_cons rfl _) next

end

/-- A written value alone is the value that its text holds. -/
theorem read_of_spells {depth : ℕ} {v : Value} {cs : List Char} (spelled : Spells depth v cs) :
    read depth (String.ofList cs) = .ok v := by
  have value := value_of_spells spelled (Nat.le_succ cs.length) ends_nil
  have skipped := spelled.opens.skipSpace
  -- Nothing stands in front of the value, neither blanks nor a byte order mark.
  have mark : ¬ cs.head? = some '\uFEFF' := by
    obtain ⟨c, member, rest, rfl⟩ := spelled.head
    have each : ∀ c ∈ heads, c ≠ '\uFEFF' := List.all_iff_forall_prop.mp (by decide)
    exact fun same => each c member (Option.some.inj same)
  rw [List.append_nil] at value
  have all : readAll depth cs = .ok v := by
    rw [readAll, if_neg mark, skipped]
    simp only [except_pure, except_ok_bind, value]
    rfl
  rw [read, String.toList_ofList, all]

end Reading

/-- A single digit is the text of its number. -/
theorem spells_digit {n : ℕ} (small : n < 10) (depth : ℕ) :
    Spells depth (.int n) [Text.digitChar n] := by
  have writable : Text.isWritable n = true := by
    have some : Text.maxDigits ≠ 0 := by decide
    rw [Text.isWritable, Int.natAbs_natCast, Nat.pow_eq, decide_eq_true_eq]
    -- With its name in place of its value the power is not computed.
    generalize Text.maxDigits = most at some
    exact small.trans_le (Nat.le_self_pow some 10)
  have text : (Text.intText n).toList = [Text.digitChar n] := by
    interval_cases n <;>
      simp [Text.intText, Text.natText, Text.natChars, Text.digitsReversed, Text.digitChar]
  rw [← text]
  exact .plain (.int n writable)

section Joined

variable {depth : ℕ}

/-- Parts on one line are separated by a comma and a blank. -/
theorem toList_join_cons (part next : String) (parts : List String) :
    (Text.join ", " (part :: next :: parts)).toList =
      part.toList ++ ',' :: ' ' :: (Text.join ", " (next :: parts)).toList := by
  have joined : Text.join ", " (part :: next :: parts) =
      part ++ ", " ++ Text.join ", " (next :: parts) := rfl
  rw [joined, String.toList_append, String.toList_append]
  simp

/-- Written items between commas. -/
theorem spellsItems_join {v : Value} {part : String} {items : List Value} {parts : List String}
    (first : Spells depth v part.toList)
    (others : List.Forall₂ (fun v part => Spells depth v (String.toList part)) items parts) :
    SpellsItems depth (v :: items) ((Text.join ", " (part :: parts)).toList ++ [']']) := by
  induction others generalizing v part with
  | nil => exact .last first
  | cons second _ ih =>
    rw [toList_join_cons, List.append_assoc]
    exact .more first (ih second)

theorem spells_list {items : List Value} {parts : List String}
    (each : List.Forall₂ (fun v part => Spells depth v (String.toList part)) items parts) :
    Spells (depth + 1) (.list items) ("[" ++ Text.join ", " parts ++ "]").toList := by
  cases each with
  | nil => exact .emptyList depth
  | cons first others =>
    rw [String.toList_append, String.toList_append, List.append_assoc]
    exact .list (spellsItems_join first others)

/-- The text of an entry: its key as a string, and its value. -/
def SpellsEntry (depth : ℕ) (entry : Value × Value) (part : String) : Prop :=
  ∃ key text, entry.1 = .text key ∧ part = quoted key ++ ": " ++ text ∧
    Spells depth entry.2 (String.toList text)

theorem toList_entry (key text : String) :
    (quoted key ++ ": " ++ text).toList = encode key.toList ++ ':' :: ' ' :: text.toList := by
  rw [String.toList_append, String.toList_append, quoted, String.toList_ofList]
  simp

/-- Written entries between commas. -/
theorem spellsEntries_join {entry : Value × Value} {part : String} {entries : List (Value × Value)}
    {parts : List String} (first : SpellsEntry depth entry part)
    (others : List.Forall₂ (SpellsEntry depth) entries parts) :
    SpellsEntries depth (entry :: entries)
      ((Text.join ", " (part :: parts)).toList ++ ['\x7d']) := by
  induction others generalizing entry part with
  | nil =>
    obtain ⟨k, v⟩ := entry
    obtain ⟨key, text, rfl, rfl, spelled⟩ := first
    rw [Text.join, toList_entry, List.append_assoc]
    exact .last key spelled
  | cons second _ ih =>
    obtain ⟨k, v⟩ := entry
    obtain ⟨key, text, rfl, rfl, spelled⟩ := first
    rw [toList_join_cons, toList_entry, List.append_assoc, List.append_assoc]
    have more := SpellsEntries.more key spelled (ih second)
    simpa using more

theorem spells_table {entry : Value × Value} {part : String} {entries : List (Value × Value)}
    {parts : List String} (first : SpellsEntry depth entry part)
    (others : List.Forall₂ (SpellsEntry depth) entries parts)
    (keys : (entry :: entries).Pairwise fun a b => Value.sameKey true b.1 a.1 = false) :
    Spells (depth + 1) (.dict (entry :: entries))
      ("\x7b" ++ Text.join ", " (part :: parts) ++ "\x7d").toList := by
  rw [String.toList_append, String.toList_append, List.append_assoc]
  exact .table (spellsEntries_join first others) keys

end Joined

end Json

end ClenshawCode
