import ClenshawCode.Proofs.Record
import ClenshawCode.Proofs.Yaml.Entry
import ClenshawCode.Yaml.Reader
import ClenshawCode.Yaml.Writer

/-!
# What is written for a saved expansion

The table of a saved expansion mentions nothing twice, so its nodes are those of its values, by key,
and none of them has a name. Its keys stand on the lines of their entries, its coefficients one
below the other right under their key, and everything else behind the mark of a value. All that is
written is printable ASCII on lines, which every document may hold.

## Main definitions

* `Yaml.savedNodes`: the nodes of a saved expansion

## Main results

* `Yaml.ofDocument_saved`: the node of a saved expansion
-/

namespace ClenshawCode.Yaml

open Value

variable {lower upper : Float} {xs : List Float}

/-- The node of a double. -/
def Node.number (x : Float) : Node := .scalar .float (floatLayout.render x)

/-- The nodes of a saved expansion, by key. -/
def savedNodes (description : String) (lower upper : Float) (xs : List Float) :
    List (Node × Node) :=
  [(.scalar .text "coeffs", .list (xs.map .number)),
    (.scalar .text "description", .scalar .text description),
    (.scalar .text "x_max", .number upper), (.scalar .text "x_min", .number lower)]

section Characters

/-- Printable ASCII on lines. -/
def OnLines (cs : List Char) : Prop := ∀ c ∈ cs, c = '\n' ∨ Style.isSimple c = true

variable {c : Char} {cs ds : List Char}

@[simp] theorem onLines_nil : OnLines [] := fun _ member => absurd member List.not_mem_nil

@[simp] theorem onLines_cons :
    OnLines (c :: cs) ↔ (c = '\n' ∨ Style.isSimple c = true) ∧ OnLines cs :=
  List.forall_mem_cons

@[simp] theorem onLines_append : OnLines (cs ++ ds) ↔ OnLines cs ∧ OnLines ds :=
  List.forall_mem_append

@[simp] theorem onLines_spaces (n : ℕ) : OnLines (List.replicate n ' ') := fun _ member =>
  .inr (List.eq_of_mem_replicate member ▸ rfl)

@[simp] theorem onLines_freshLine (indent : ℕ) : OnLines (Pen.freshLine indent) :=
  onLines_cons.mpr ⟨.inl rfl, onLines_spaces indent⟩

theorem OnLines.isAllowed (lines : OnLines cs) (member : c ∈ cs) : isAllowed c = true := by
  rcases lines c member with rfl | simple
  · decide
  · obtain ⟨low, high⟩ : ' ' ≤ c ∧ c ≤ '~' := by simpa [Style.isSimple] using simple
    have least : 0x20 ≤ c.toNat := low
    have greatest : c.toNat ≤ 0x7E := high
    simp [Yaml.isAllowed, least, greatest]

theorem onLines_plainChars (split : Bool) (indent spaces column : ℕ) (lines : OnLines cs) :
    OnLines (Pen.plainChars split indent spaces column cs) := by
  induction cs generalizing spaces column with
  | nil => exact onLines_spaces spaces
  | cons c rest ih =>
    obtain ⟨first, others⟩ := onLines_cons.mp lines
    rw [Pen.plainChars]
    split_ifs <;> simp [first, ih _ _ others]

theorem onLines_singleBreaks (indent breaks : ℕ) : OnLines (Pen.singleBreaks indent breaks) := by
  rw [Pen.singleBreaks]
  split_ifs
  · exact onLines_nil
  · refine onLines_append.mpr ⟨fun _ member => .inl (List.eq_of_mem_replicate member), ?_⟩
    exact onLines_spaces indent

theorem onLines_singleChar (first : c = '\n' ∨ Style.isSimple c = true) :
    OnLines (Pen.singleChar c) := by
  rw [Pen.singleChar]
  split_ifs <;> simp [first]

theorem onLines_singleChars (split begun : Bool) (indent breaks spaces column : ℕ)
    (lines : OnLines cs) :
    OnLines (Pen.singleChars split indent begun breaks spaces column cs) := by
  induction cs generalizing begun breaks spaces column with
  | nil => simp [Pen.singleChars, onLines_singleBreaks]
  | cons c rest ih =>
    obtain ⟨first, others⟩ := onLines_cons.mp lines
    rw [Pen.singleChars]
    split_ifs <;> simp [onLines_singleChar first, onLines_singleBreaks, ih _ _ _ _ others]

theorem onLines_upperHex (width n : ℕ) : OnLines (Pen.upperHex width n) := by
  have digit (k : ℕ) (small : k < 16) : Style.isSimple (Text.hexChar k).toUpper = true := by
    interval_cases k <;> rfl
  induction width generalizing n with
  | zero => exact onLines_nil
  | succ width ih =>
    rw [Pen.upperHex, Text.hexChars, List.map_append, List.map_singleton]
    exact onLines_append.mpr
      ⟨ih _, onLines_cons.mpr ⟨.inr (digit _ (Nat.mod_lt n (by decide))), onLines_nil⟩⟩

theorem onLines_escape (c : Char) : OnLines (Pen.escape c) := by
  have marks : Style.isSimple '\\' = true ∧ Style.isSimple 'x' = true ∧
      Style.isSimple 'u' = true ∧ Style.isSimple 'U' = true := ⟨rfl, rfl, rfl, rfl⟩
  obtain ⟨backslash, two, four, eight⟩ := marks
  rw [Pen.escape]
  split
  · rename_i letter known
    obtain ⟨before, behind, form, -⟩ := List.lookup_eq_some_iff.mp known
    have member : (c, letter) ∈ Pen.letters := by simp [form]
    have each : ∀ entry ∈ Pen.letters, Style.isSimple entry.2 = true := by decide
    simp [backslash, each _ member]
  · split_ifs <;> simp [backslash, two, four, eight, onLines_upperHex]

theorem onLines_doubleFold (indent : ℕ) (cs : List Char) : OnLines (Pen.doubleFold indent cs) := by
  have backslash : Style.isSimple '\\' = true := rfl
  rw [Pen.doubleFold]
  split_ifs <;> simp [backslash]

theorem onLines_doubleChars (split begun escaped : Bool) (indent column : ℕ) (cs : List Char) :
    OnLines (Pen.doubleChars split indent begun escaped column cs) := by
  induction cs generalizing begun escaped column with
  | nil => exact onLines_nil
  | cons c rest ih =>
    have simple (plain : ¬Pen.needsEscape c = true) : Style.isSimple c = true := by
      simp only [Pen.needsEscape, Bool.or_eq_true, not_or, Bool.not_eq_true',
        Bool.not_eq_false] at plain
      exact plain.2
    rw [Pen.doubleChars]
    dsimp only
    split_ifs with special
    · simp [onLines_escape, onLines_doubleFold, ih]
    · simp [onLines_escape, ih]
    · simp [onLines_doubleFold, simple special, ih]
    · simp [simple special, ih]

end Characters

section Nodes

variable {v : Value} {x : Float}

theorem ofValue_of_stores (is : Stores v x) : Node.ofValue v = .ok (.number x) := by
  cases is with
  | float x => rfl
  | nan origin =>
    rw [Node.number, Decimal.Layout.render, Binary64.view_nan]
    rfl

theorem ofItems_of_stores {ws : List Value} (are : List.Forall₂ Stores ws xs) :
    Node.ofItems ws = .ok (xs.map .number) := by
  induction are with
  | nil => rfl
  | cons is _ ih =>
    rw [Node.ofItems, ofValue_of_stores is, except_ok_bind, ih]
    rfl

/-- Scalars mention nothing. -/
theorem settleItems_numbers (follow : ℕ → Node.Settling Node) (xs : List Float) :
    Node.settleItems follow (xs.map .number) = pure (xs.map .number) := by
  induction xs with
  | nil => rfl
  | cons x xs ih =>
    rw [List.map_cons, Node.settleItems, ih]
    rfl

theorem mentionsItems_numbers (xs : List Float) : Node.mentionsItems (xs.map .number) = [] := by
  induction xs with
  | nil => rfl
  | cons x xs ih =>
    rw [List.map_cons, Node.mentionsItems, ih]
    rfl

theorem depthItems_numbers (xs : List Float) : Node.depthItems (xs.map .number) = 0 := by
  induction xs with
  | nil => rfl
  | cons x xs ih =>
    rw [List.map_cons, Node.depthItems, ih]
    rfl

/-- The table of an expansion has its saved nodes. -/
theorem ofDocument_saved {low high : Value} {ws : List Value} (lowIs : Stores low lower)
    (highIs : Stores high upper) (are : List.Forall₂ Stores ws xs) (description : String)
    (cells : Cells) :
    Node.ofDocument ⟨.ofFields [("description", .text description), ("x_min", low),
        ("x_max", high), ("coeffs", .list ws)], cells⟩ =
      .ok (.table .table (savedNodes description lower upper xs)) := by
  have coeffs : Node.ofValue (.list ws) = .ok (.list (xs.map .number)) := by
    rw [Node.ofValue, ofItems_of_stores are]
    rfl
  have text : Node.ofValue (.text description) = .ok (.scalar .text description) := rfl
  have table : Node.ofValue (.ofFields [("description", .text description), ("x_min", low),
      ("x_max", high), ("coeffs", .list ws)]) =
        .ok (.table .table (savedNodes description lower upper xs)) := by
    rw [Value.ofFields]
    simp only [List.map_cons, List.map_nil]
    rw [Node.ofValue]
    simp only [Node.ofEntries, text, coeffs, ofValue_of_stores lowIs, ofValue_of_stores highIs,
      except_ok_bind, except_pure]
    rw [Node.ofSorted, Node.sorted, insertionSort_names]
    rfl
  rw [Node.ofDocument, table, except_ok_bind, savedNodes, Node.settle]
  simp only [Node.settleEntries, Node.settle, settleItems_numbers]
  rfl

end Nodes

section Desks

/-- What a node is written as behind the mark of a value gives some tokens. -/
def Writes (n : Node) (ts : List Token) : Prop :=
  ∀ d : Desk, d.pen.spaced = false → d.pen.fresh = false → ∃ written,
    (writeNode [] .part 0 d n).chars = d.chars ++ written ∧
      (writeNode [] .part 0 d n).pen.fresh = false ∧ atGap written = true ∧ OnLines written ∧
        Scan.Gives false written ts

theorem onLines_render (x : Float) : OnLines (floatLayout.render x).toList := by
  have plain := isPlain_render x
  simp only [Style.isPlain, Bool.and_eq_true, List.all_eq_true] at plain
  exact fun c member => .inr (plain.1.1.1.1 c member)

theorem writes_number (x : Float) : Writes (.number x) [.scalar true (floatLayout.render x)] := by
  intro d blank _
  have put : writeNode [] .part 0 d (.number x) = d.put (Pen.scalar (Style.ofText .float false
      (floatLayout.render x).toList) true 2 (floatLayout.render x).toList) := rfl
  refine ⟨' ' :: (floatLayout.render x).toList, ?_, ?_, rfl,
    onLines_cons.mpr ⟨.inr rfl, onLines_render x⟩, Scan.gives_number false x⟩
  · rw [put, Desk.chars_put, Scan.scalar_number x blank]
  · rw [put, Desk.put, Scan.scalar_number x blank]

/-- A text is written on lines, behind a space. -/
theorem onLines_scalar (cs : List Char) {pen : Pen} (blank : pen.spaced = false) :
    atGap (pen.scalar (Style.ofText .text false cs) true 2 cs).chars = true ∧
      OnLines (pen.scalar (Style.ofText .text false cs) true 2 cs).chars ∧
        (pen.scalar (Style.ofText .text false cs) true 2 cs).pen.fresh = false := by
  have space : Style.isSimple ' ' = true := rfl
  have apostrophe : Style.isSimple '\x27' = true := rfl
  have mark : Style.isSimple '\x22' = true := rfl
  rw [Style.ofText, if_neg (by decide), Bool.false_and, Bool.not_false, Bool.and_true,
    Bool.false_and, Bool.not_false, Bool.and_true]
  -- Without quotes, between apostrophes, or with escapes for all that is not printable.
  split_ifs with plain single
  · have lines : OnLines cs := by
      simp only [Style.isPlain, Bool.and_eq_true, List.all_eq_true] at plain
      exact fun c member => .inr (plain.2.1.1.1.1 c member)
    rw [Pen.scalar, blank]
    exact ⟨rfl, by simp [space, onLines_plainChars _ _ _ _ lines], rfl⟩
  · have lines : OnLines cs := by
      simp only [Style.isSingle, Bool.and_eq_true, List.all_eq_true] at single
      exact fun c member => by simpa using single.1 c member
    rw [Pen.scalar, blank]
    exact ⟨rfl, by simp [space, apostrophe, onLines_singleChars _ _ _ _ _ _ lines], rfl⟩
  · rw [Pen.scalar, blank]
    exact ⟨rfl, by simp [space, mark, onLines_doubleChars], rfl⟩

theorem writes_text (s : String) :
    ∃ plain, Reading.scalarTag none plain s = .text ∧
      Writes (.scalar .text s) [.scalar plain s] := by
  obtain ⟨plain, tag, gives⟩ := Scan.gives_text s.toList
  rw [String.ofList_toList] at tag gives
  refine ⟨plain, tag, fun d blank _ => ?_⟩
  obtain ⟨gap, lines, pen⟩ := onLines_scalar s.toList blank
  have put : writeNode [] .part 0 d (.scalar .text s) =
      d.put (Pen.scalar (Style.ofText .text false s.toList) true 2 s.toList) := rfl
  exact ⟨_, by rw [put, Desk.chars_put], by rw [put]; exact pen, gap, lines, gives d.pen blank⟩

/-- The tokens of a list of doubles. -/
def listTokens (xs : List Float) : List Token :=
  if xs.isEmpty then [.flowListStart, .flowListEnd]
  else xs.flatMap fun x => [.blockEntry, .scalar true (floatLayout.render x)]

/-- The lines of the items of a list of doubles, each behind the end of the line before it. -/
def itemLines (xs : List Float) : List Char :=
  xs.flatMap fun x => '\n' :: '-' :: ' ' :: (floatLayout.render x).toList

theorem onLines_itemLines (xs : List Float) : OnLines (itemLines xs) := by
  have hyphen : Style.isSimple '-' = true := rfl
  have space : Style.isSimple ' ' = true := rfl
  induction xs with
  | nil => exact onLines_nil
  | cons x xs ih =>
    rw [itemLines, List.flatMap_cons]
    exact onLines_append.mpr ⟨by simp [hyphen, space, onLines_render], ih⟩

theorem toIndent_of_fresh {pen : Pen} (fresh : pen.fresh = false) :
    pen.toIndent 0 = ⟨['\n'], {}⟩ := by
  rw [Pen.toIndent, fresh]
  rfl

/-- Doubles stand on lines of their own below their key. -/
theorem writeItems_numbers (xs : List Float) (d : Desk) (fresh : d.pen.fresh = false) :
    (writeItems [] 0 d (xs.map .number)).chars = d.chars ++ itemLines xs ∧
      (writeItems [] 0 d (xs.map .number)).pen.fresh = false := by
  induction xs generalizing d with
  | nil => exact ⟨(List.append_nil _).symm, fresh⟩
  | cons x xs ih =>
    -- The mark of an item stands on a new line, and the double behind it.
    let word := (floatLayout.render x).toList
    let marked := (d.put (Pen.toIndent 0)).put (Pen.indicator "-" true false true)
    have line := toIndent_of_fresh fresh
    have blank : marked.pen.spaced = false := by
      simp only [marked, Desk.put, line]
      rfl
    have begun : marked.chars = d.chars ++ ['\n', '-'] := by
      rw [Desk.chars_put, Desk.chars_put, Desk.put, line, List.append_assoc]
      rfl
    have put : writeNode [] .item 0 marked (.number x) =
        marked.put (Pen.scalar (Style.ofText .float false word) true 2 word) := rfl
    have scalar := Scan.scalar_number x blank
    obtain ⟨chars, pen⟩ := ih (writeNode [] .item 0 marked (.number x))
      (by rw [put, Desk.put, scalar])
    refine ⟨chars.trans ?_, pen⟩
    have lines : itemLines (x :: xs) = '\n' :: '-' :: ' ' :: word ++ itemLines xs :=
      List.flatMap_cons
    rw [put, Desk.chars_put, scalar, begun, lines, List.append_assoc, List.append_assoc]
    rfl

theorem writes_list (xs : List Float) : Writes (.list (xs.map .number)) (listTokens xs) := by
  intro d blank fresh
  rw [listTokens]
  cases xs with
  | nil =>
    have put : writeNode [] .part 0 d (.list []) = putEmpty "[" "]" d := rfl
    have opened : d.pen.indicator "[" true true false =
        ⟨" [".toList, ⟨d.pen.column + 2, true, false⟩⟩ := by
      rw [Pen.indicator, blank, fresh]
      rfl
    refine ⟨" []".toList, ?_, ?_, rfl, ?_, Scan.gives_brackets⟩
    · rw [List.map_nil, put, putEmpty, Desk.chars_put, Desk.chars_put, Desk.put, opened,
        List.append_assoc]
      rfl
    · rw [List.map_nil, put, putEmpty, Desk.put]
      exact Bool.and_false _
    · have marks : Style.isSimple ' ' = true ∧ Style.isSimple '[' = true ∧
        Style.isSimple ']' = true := ⟨rfl, rfl, rfl⟩
      obtain ⟨space, opening, closing⟩ := marks
      simp [space, opening, closing]
  | cons x xs =>
    have indent : listIndent .part 0 d = 0 := by
      rw [listIndent, fresh]
      rfl
    obtain ⟨chars, pen⟩ := writeItems_numbers (x :: xs) d fresh
    have put : writeNode [] .part 0 d (.list ((x :: xs).map .number)) =
        writeItems [] 0 d ((x :: xs).map .number) := by
      rw [List.map_cons, writeNode, List.isEmpty_cons, if_neg Bool.false_ne_true, indent]
    have gives := @Scan.gives_items ((x :: xs).map fun x =>
      ((floatLayout.render x).toList, [Token.scalar true (floatLayout.render x)]))
      (List.forall_mem_map.mpr fun x _ => Scan.gives_number true x)
    rw [List.flatMap_map, List.flatMap_map] at gives
    refine ⟨itemLines (x :: xs), ?_, ?_, rfl, onLines_itemLines _, gives⟩
    · rw [put, chars]
    · rw [put, pen]

/-! ### Tables -/

/-- A name that is written without quotes on the line of its entry. -/
structure IsName (name : String) : Prop where
  some : name.toList ≠ []
  word : ∀ c ∈ name.toList, c ∈ Scan.nameChars
  short : name.toList.length ≤ 1024
  simple : isSimpleKey [] 0 (.scalar .text name) = true
  style : Style.ofText .text true name.toList = .plain

/-- An entry of a table that is to be written, with the tokens of its node. -/
structure Field where
  name : String
  node : Node
  value : List Token
  isName : IsName name
  writes : Writes node value

/-- The nodes of an entry. -/
def Field.entry (f : Field) : Node × Node := (.scalar .text f.name, f.node)

/-- The tokens of an entry. -/
def Field.tokens (f : Field) : List Token := .key :: .scalar true f.name :: .value :: f.value

/-- A name stands at the beginning of a line, right in front of the mark of its value. -/
theorem exists_key {name : String} (isName : IsName name) {d : Desk}
    (start : (d.pen.toIndent 0).pen = {}) :
    ∃ marked : Desk,
      marked.chars = (d.put (Pen.toIndent 0)).chars ++ (name.toList ++ [':']) ∧
        marked.pen.spaced = false ∧ marked.pen.fresh = false ∧
        ∀ n rest, writeEntries [] 0 d ((.scalar .text name, n) :: rest) =
          writeEntries [] 0 (writeNode [] .part 0 marked n) rest := by
  let begun := d.put (Pen.toIndent 0)
  let marked := (writeNode [] .key 0 begun (.scalar .text name)).put
    (Pen.indicator ":" false false false)
  have put : writeNode [] .key 0 begun (.scalar .text name) =
      begun.put (Pen.scalar (Style.ofText .text true name.toList) false 2 name.toList) := rfl
  have pen : begun.pen = {} := start
  have word : Pen.scalar .plain false 2 name.toList begun.pen =
      ⟨name.toList, ⟨name.toList.length, false, false⟩⟩ := by
    rw [pen, Pen.scalar]
    simp only [Plain.plainChars_of_word fun c member =>
      (Scan.name_of_mem (isName.word c member)).1.1]
    exact congrArg (fun n => Ink.mk name.toList ⟨n, false, false⟩) (Nat.zero_add _)
  rw [isName.style] at put
  refine ⟨marked, ?_, rfl, Bool.and_false _, fun n rest => ?_⟩
  · rw [Desk.chars_put, put, Desk.chars_put, Desk.put, word, List.append_assoc]
    rfl
  · rw [writeEntries, if_pos isName.simple]

/-- The lines of a table are those of its entries. -/
theorem exists_entries (fields : List Field) {d : Desk} (start : (d.pen.toIndent 0).pen = {}) :
    ∃ es : List Entry, es.map Entry.tokens = fields.map Field.tokens ∧
      ((writeEntries [] 0 d (fields.map Field.entry)).put (Pen.toIndent 0)).chars =
        (d.put (Pen.toIndent 0)).chars ++ es.flatMap Entry.chars := by
  induction fields generalizing d with
  | nil => exact ⟨[], rfl, (List.append_nil _).symm⟩
  | cons f fields ih =>
    obtain ⟨marked, key, blank, fresh, entries⟩ := exists_key f.isName start
    obtain ⟨written, value, ended, gap, lines, gives⟩ := f.writes marked blank fresh
    have next := toIndent_of_fresh ended
    obtain ⟨es, tokens, chars⟩ := ih (congrArg Ink.pen next)
    -- What is written for the first one makes up an entry.
    let e : Entry := {
      name := f.name.toList, written, value := f.value, some := f.isName.some,
      word := f.isName.word, short := f.isName.short, gap, gives
      allowed := fun c member => lines.isAllowed member }
    have same : e.tokens = f.tokens := by
      rw [Entry.tokens, String.ofList_toList, Field.tokens]
    refine ⟨e :: es, by rw [List.map_cons, List.map_cons, same, tokens], ?_⟩
    rw [List.map_cons, Field.entry, entries, chars, Desk.chars_put, next, value, key,
      List.flatMap_cons, Entry.chars]
    simp [e]

/-- A table is written so that it gives the tokens of its entries. -/
theorem graph_writeTable (f : Field) (fields : List Field) :
    graph (writeTable [] ((f :: fields).map Field.entry)) = Graph.ofTokens
      (.blockTableStart :: (f :: fields).flatMap Field.tokens ++ [Token.blockEnd, .streamEnd])
      none := by
  obtain ⟨es, same, chars⟩ := exists_entries (f :: fields) (d := {}) rfl
  have written : writeTable [] ((f :: fields).map Field.entry) = es.flatMap Entry.chars := by
    rw [List.map_cons] at chars ⊢
    exact chars
  cases es with
  | nil => cases same
  | cons e es =>
    have allowed : ((e :: es).flatMap Entry.chars).all isAllowed = true :=
      List.all_eq_true.mpr fun c member => by
        obtain ⟨e, -, member⟩ := List.mem_flatMap.mp member
        exact e.isAllowed_chars member
    have all : (e :: es).flatMap Entry.tokens = (f :: fields).flatMap Field.tokens := by
      rw [List.flatMap_def, List.flatMap_def, same]
    rw [graph, written, if_pos allowed, tokens_entries, all]

end Desks

section Saved

/-- The document of a saved expansion. -/
def savedText (description : String) (lower upper : Float) (xs : List Float) : String :=
  String.ofList (writeTable [] (savedNodes description lower upper xs))

/-- The tokens of a saved expansion, whose description may have quotes. -/
def savedTokens (plain : Bool) (description : String) (lower upper : Float) (xs : List Float) :
    List Token :=
  .blockTableStart :: .key :: .scalar true "coeffs" :: .value :: (listTokens xs ++
    [Token.key, .scalar true "description", .value, .scalar plain description,
      .key, .scalar true "x_max", .value, .scalar true (floatLayout.render upper),
      .key, .scalar true "x_min", .value, .scalar true (floatLayout.render lower),
      .blockEnd, .streamEnd])

/-- The table of an expansion is written as its document. -/
theorem write_saved {low high : Value} {ws : List Value} (lowIs : Stores low lower)
    (highIs : Stores high upper) (are : List.Forall₂ Stores ws xs) (description : String)
    (cells : Cells) :
    write ⟨.ofFields [("description", .text description), ("x_min", low), ("x_max", high),
      ("coeffs", .list ws)], cells⟩ = .ok (savedText description lower upper xs) := by
  let node : Node := .table .table (savedNodes description lower upper xs)
  have shallow : ¬maxWrittenDepth < node.depth := by
    simp only [node, savedNodes, Node.number, Node.depth, Node.depthEntries, depthItems_numbers]
    decide
  -- Nothing is mentioned twice, so there are no anchors.
  have mentioned : node.mentions = [] := by
    simp only [node, savedNodes, Node.number, Node.mentions, Node.mentionsEntries,
      mentionsItems_numbers]
    rfl
  have anchors : anchorsOf node = [] := by
    rw [anchorsOf, mentioned]
    rfl
  rw [write, ofDocument_saved lowIs highIs are, except_ok_bind, if_neg shallow]
  change Except.ok (String.ofList (writeTable (anchorsOf node) _)) = _
  rw [anchors, savedText]

/-- The document of a saved expansion gives its tokens, from which the description is read as a text
again. -/
theorem graph_savedText (description : String) (lower upper : Float) (xs : List Float) :
    ∃ plain, Reading.scalarTag none plain description = .text ∧
      graph (savedText description lower upper xs).toList =
        Graph.ofTokens (savedTokens plain description lower upper xs) none := by
  obtain ⟨plain, tag, text⟩ := writes_text description
  have word (name : String) (all : name.toList.all (· ∈ Scan.nameChars) = true) :
      ∀ c ∈ name.toList, c ∈ Scan.nameChars := List.all_iff_forall_prop.mp all
  -- The four entries by key, each with what is known of its node.
  let coeffs : Field := ⟨"coeffs", .list (xs.map .number), listTokens xs,
    ⟨by decide, word _ (by decide), by decide, by decide, by decide⟩, writes_list xs⟩
  let text : Field := ⟨"description", .scalar .text description, [.scalar plain description],
    ⟨by decide, word _ (by decide), by decide, by decide, by decide⟩, text⟩
  let high : Field := ⟨"x_max", .number upper, [.scalar true (floatLayout.render upper)],
    ⟨by decide, word _ (by decide), by decide, by decide, by decide⟩, writes_number upper⟩
  let low : Field := ⟨"x_min", .number lower, [.scalar true (floatLayout.render lower)],
    ⟨by decide, word _ (by decide), by decide, by decide, by decide⟩, writes_number lower⟩
  have written := graph_writeTable coeffs [text, high, low]
  have tokens : .blockTableStart :: [coeffs, text, high, low].flatMap Field.tokens ++
      [.blockEnd, .streamEnd] = savedTokens plain description lower upper xs := by
    simp [savedTokens, Field.tokens, coeffs, text, high, low]
  rw [tokens] at written
  refine ⟨plain, tag, ?_⟩
  rw [savedText, String.toList_ofList]
  exact written

end Saved

end ClenshawCode.Yaml
