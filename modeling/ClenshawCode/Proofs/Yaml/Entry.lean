import ClenshawCode.Proofs.Yaml.Double
import ClenshawCode.Proofs.Yaml.Scan
import ClenshawCode.Yaml.Graph.Grammar

/-!
# The tokens of a table

A table in block form is read entry by entry. Between two of them nothing is kept back, and the
state of reading is known but for its position, so that the tokens of an entry do not depend on what
stands before it: those of its key and of the mark behind it, and those of its value, which is a
scalar or a list. Every step of reading uses up text or hands over a token, and no word gives more
than a few of them, so that the bound on the steps is never met.

## Main definitions

* `Yaml.Scan.AtLine`, `Yaml.Scan.AtWord`: the states between two entries and within one

## Main results

* `Yaml.Scan.AtLine.key`, `Yaml.Scan.AtWord.plain`, `Yaml.Scan.AtWord.quoted`: the tokens of a key
  and of the two kinds of scalars
* `Yaml.Scan.AtLine.item`, `Yaml.Scan.AtWord.emptyList`: the tokens of lists
-/

namespace ClenshawCode.Yaml

namespace Scan

variable {s : Scan} {c : Char} {rest next : List Char}

/-- Within the outermost table, with nothing kept back. -/
def inTable (cursor : Cursor) (keyAllowed : Bool) (taken : ℕ) : Scan where
  cursor := cursor
  indent := 0
  indents := [-1]
  keyAllowed := keyAllowed
  taken := taken

/-- At the beginning of a line, between two entries. -/
def AtLine (next : List Char) (s : Scan) : Prop :=
  ∃ index line taken, s = inTable ⟨next, index, line, 0⟩ true taken

/-- Within an entry, in front of a text. -/
def AtWord (keyAllowed : Bool) (rest : List Char) (s : Scan) : Prop :=
  ∃ cursor taken, cursor.rest = rest ∧ s = inTable cursor keyAllowed taken

/-- A plain scalar and the end of its last line. -/
theorem AtWord.plain {keyAllowed split : Bool} {indent column : ℕ} {content : List Char}
    (state : AtWord keyAllowed
      (' ' :: (Pen.plainChars split indent 0 column content ++ '\n' :: next)) s)
    (plain : Style.isPlain content = true) (some : content ≠ []) (fits : 1 ≤ indent)
    (line : StartsLine next) :
    s.Reaches [.scalar true (String.ofList content)] (AtLine next) := by
  obtain ⟨cursor, taken, known, rfl⟩ := state
  obtain ⟨c, rest, rfl⟩ := List.exists_cons_of_ne_nil some
  obtain ⟨word, mark, bare, -⟩ := Plain.head_of_isPlain plain
  have other : isGap c = false := (word c rfl).1
  have reads := Plain.reads_of_isPlain Nat.one_pos fits line split column plain
  rw [Plain.plainChars_of_isGap other, List.cons_append] at known reads
  -- Behind the space stands the word, at which a scalar is fetched.
  let text := c :: (Pen.plainChars split indent 0 (column + 1) rest ++ '\n' :: next)
  let t := inTable ⟨text, cursor.index + 1, cursor.line, cursor.column + 1⟩ keyAllowed taken
  have skipped : (inTable cursor keyAllowed taken).skipToWord = t := skipToWord_space known word
  have inside : t.indent ≤ t.cursor.column := Int.natCast_nonneg _
  have bare' (odd : c = '?' ∨ c = ':' ∨ c = '-') :
      atGap (Pen.plainChars split indent 0 (column + 1) rest ++ '\n' :: next) = false :=
    Plain.atGap_plainChars split (column + 1) (bare odd)
  have fetched := fetch_of_skipToWord skipped (dropStale_nil rfl) (fun _ => inside) rfl
  rw [fetchAt_plain (.inl rfl) (fun start => absurd start (Nat.succ_ne_zero _)) other mark bare',
    fetchPlain_of_reads (s := t) rfl rfl reads] at fetched
  obtain ⟨before, split'⟩ : ∃ before, text = before ++ '\n' :: next :=
    ⟨c :: Pen.plainChars split indent 0 (column + 1) rest, rfl⟩
  obtain ⟨index, line', moved, later⟩ := Cursor.exists_moveTo_line (s := t.cursor) split'
  rw [moved] at fetched
  refine reaches_of_fetch rfl rfl fetched rfl (List.cons_ne_nil _ _) ?_ ⟨index, line', _, rfl⟩ ?_
  · -- If the scalar was a candidate, its line is over now.
    refine dropStale_of_isStale fun c member => ?_
    cases keyAllowed
    · cases member
    · obtain rfl := List.mem_singleton.mp member
      exact ⟨Bool.or_eq_true_iff.mpr (.inl (bne_iff_ne.mpr later.ne)), rfl⟩
  · change 1 + 1 + 8 * next.length ≤ 8 * cursor.rest.length
    rw [known]
    simp only [List.length_cons, List.length_append]
    omega

/-- A scalar in quotes. -/
theorem AtWord.quoted {quote : Char} {written content : List Char}
    (state : AtWord false (' ' :: quote :: written) s) (known : quote = '\x27' ∨ quote = '\x22')
    (reads : Quoted.Reads quote written content next) (behind : next <:+ written) :
    s.Reaches [.scalar false (String.ofList content)] (AtWord false next) := by
  obtain ⟨cursor, taken, rest, rfl⟩ := state
  obtain ⟨before, split⟩ := behind
  have word : StartsWord (quote :: written) := by
    apply startsWord_cons
    rcases known with rfl | rfl <;> decide
  let t := inTable ⟨quote :: written, cursor.index + 1, cursor.line, cursor.column + 1⟩ false taken
  have skipped : (inTable cursor false taken).skipToWord = t := skipToWord_space rest word
  have inside : t.indent ≤ t.cursor.column := Int.natCast_nonneg _
  have fetchedWord : t.fetchAt quote written = t.fetchWord (readQuoted quote) := by
    rcases known with rfl | rfl <;> rfl
  have scalar : readQuoted quote t.cursor.rest =
      .ok (.scalar false (String.ofList content), next) := by
    have content := reads (quote :: written).length (Nat.le_succ _)
    change readQuoted quote (quote :: written) = _
    rw [readQuoted, List.drop_one, List.tail_cons, content]
    rfl
  have fetched := fetch_of_skipToWord skipped (dropStale_nil rfl) (fun _ => inside) rfl
  rw [fetchedWord, fetchWord, addCandidate_nil rfl rfl, except_ok_bind, scalar,
    except_ok_bind] at fetched
  have whole : t.cursor.rest = (quote :: before) ++ next := by
    rw [List.cons_append, split]
    rfl
  have moved := Cursor.rest_moveTo whole
  refine reaches_of_fetch rfl rfl fetched rfl (List.cons_ne_nil _ _) (dropStale_nil rfl)
    ⟨_, _, moved, rfl⟩ ?_
  change 1 + 1 + 8 * (t.cursor.moveTo next).rest.length ≤ 8 * cursor.rest.length
  rw [moved, rest, ← split]
  simp only [List.length_cons, List.length_append]
  omega

/-- The end of a line. -/
theorem AtWord.line (state : AtWord false ('\n' :: next) s) (line : StartsWord next) :
    s.Reaches [] (AtLine next) := by
  obtain ⟨cursor, taken, known, rfl⟩ := state
  let t := inTable ⟨next, cursor.index + 1, cursor.line + 1, 0⟩ true taken
  have skipped : (inTable cursor false taken).skipToWord = t := skipToWord_line known line rfl
  have same : (inTable cursor false taken).fetch = t.fetch := by
    rw [fetch, fetch, skipped, skipToWord_of_startsWord (s := t) line]
  refine ⟨t, 0, ⟨_, _, _, rfl⟩, ?_, fun fuel => run_congr rfl rfl rfl rfl same fuel⟩
  simp [t, inTable, known]

/-- The mark of an item. -/
theorem AtLine.item (state : AtLine ('-' :: ' ' :: rest) s) :
    s.Reaches [.blockEntry] (AtWord true (' ' :: rest)) := by
  obtain ⟨index, line, taken, rfl⟩ := state
  let t := inTable ⟨'-' :: ' ' :: rest, index, line, 0⟩ true taken
  have word : StartsWord t.cursor.rest := startsWord_cons (by decide) _
  have fetched := fetch_of_skipToWord (skipToWord_of_startsWord word) (dropStale_nil rfl)
    (fun _ => le_rfl) rfl
  have entry : t.fetchAt '-' (' ' :: rest) = t.fetchBlockEntry := by
    cases rest <;> rfl
  have moved : (t.cursor.moveTo (' ' :: rest)).rest = ' ' :: rest :=
    Cursor.rest_moveTo (show t.cursor.rest = ['-'] ++ ' ' :: rest from rfl)
  have marked : t.fetchBlockEntry = .ok (t.mark 1 .blockEntry) := rfl
  rw [entry, marked] at fetched
  refine reaches_of_fetch rfl rfl fetched rfl (List.cons_ne_nil _ _) (dropStale_nil rfl)
    ⟨_, _, moved, rfl⟩ ?_
  change 1 + 1 + 8 * (t.cursor.moveTo (' ' :: rest)).rest.length ≤ 8 * t.cursor.rest.length
  rw [moved]
  simp [t, inTable]
  omega

/-- The names of keys consist of small letters and underscores. -/
def nameChars : List Char := "abcdefghijklmnopqrstuvwxyz_".toList

/-- The facts on the characters of names by which they are told from marks. -/
theorem name_of_mem (member : c ∈ nameChars) :
    (isGap c = false ∧ c ≠ '#' ∧ c ≠ '\uFEFF') ∧ Style.isMark c = false ∧
      (c ≠ '-' ∧ c ≠ '.') ∧ c ≠ '?' ∧ c ≠ ':' := by
  have all : ∀ c ∈ nameChars, (isGap c = false ∧ c ≠ '#' ∧ c ≠ '\uFEFF') ∧
      Style.isMark c = false ∧ (c ≠ '-' ∧ c ≠ '.') ∧ c ≠ '?' ∧ c ≠ ':' :=
    List.all_iff_forall_prop.mp (by decide)
  exact all c member

section Keys

variable {name : List Char} {index line column taken : ℕ} {indent : Int} {indents : List Int}

/-- The state at the beginning of a line. -/
def beforeName (name rest : List Char) (index line : ℕ) (indent : Int) (indents : List Int)
    (taken : ℕ) : Scan where
  cursor := ⟨name ++ ':' :: rest, index, line, 0⟩
  indent := indent
  indents := indents
  taken := taken

/-- The state behind a name, which is kept back. -/
def behindName (name rest : List Char) (index line column : ℕ) (indent : Int) (indents : List Int)
    (taken : ℕ) : Scan where
  cursor := ⟨':' :: rest, index + name.length, line, column⟩
  indent := indent
  indents := indents
  keyAllowed := false
  candidates := [(0, ⟨taken, indent == 0, index, line, 0⟩)]
  queue := [.scalar true (String.ofList name)]
  taken := taken

/-- A name is a candidate for a key. -/
theorem exists_fetch_name (outer : indent ≤ 0) (some : name ≠ []) (word : ∀ c ∈ name, c ∈ nameChars)
    (value : atGap rest = true) :
    ∃ column, (beforeName name rest index line indent indents taken).fetch =
      .ok (behindName name rest index line column indent indents taken) := by
  obtain ⟨c, others, rfl⟩ := List.exists_cons_of_ne_nil some
  obtain ⟨begins, mark, separator, question, colon⟩ := name_of_mem (word c List.mem_cons_self)
  let s := beforeName (c :: others) rest index line indent indents taken
  have startsWord : StartsWord s.cursor.rest := startsWord_cons begins _
  have bare (odd : c = '?' ∨ c = ':' ∨ c = '-') : atGap (others ++ ':' :: rest) = false := by
    rcases odd with same | same | same
    exacts [absurd same question, absurd same colon, absurd same separator.1]
  have reads : Plain.Reads s.least s.cursor.rest ⟨c :: others, false, ':' :: rest⟩ :=
    Plain.reads_name s.least (fun d member =>
      ⟨(name_of_mem (word d member)).1.1, (name_of_mem (word d member)).2.2.2.2⟩) value
  have fetched : s.fetch = s.fetchAt c (others ++ ':' :: rest) :=
    fetch_of_skipToWord (skipToWord_of_startsWord startsWord) (dropStale_nil rfl)
      (fun _ => outer) rfl
  have split : s.cursor.rest = (c :: others) ++ ':' :: rest := rfl
  obtain ⟨column, moved⟩ := Cursor.exists_advance_word
    (fun d member => (name_of_mem (word d member)).1.1) split
  rw [fetchAt_plain (.inl rfl) (fun _ => atSeparator_cons separator.1 separator.2) begins.1 mark
    bare, fetchPlain_of_reads rfl rfl reads, Cursor.moveTo_append split, moved] at fetched
  exact ⟨column, fetched⟩

/-- A colon makes a key of the name that is kept back. The first key makes a table begin. -/
theorem run_behindName (outer : indent ≤ 0) (short : name.length ≤ 1024) (value : atGap rest = true)
    (fuel : ℕ) :
    run (fuel + 1) (behindName name rest index line column indent indents taken) = run fuel
      { cursor := ⟨rest, index + name.length + 1, line, column + 1⟩
        indent := 0
        indents := if indent < 0 then indent :: indents else indents
        keyAllowed := false
        queue := (if indent < 0 then [.blockTableStart, .key] else [.key]) ++
          [.scalar true (String.ofList name), .value]
        taken := taken } := by
  let t := behindName name rest index line column indent indents taken
  -- The name is on this line and not too long, so it can still be a key.
  have fresh : t.dropStale = .ok t := by
    refine dropStale_of_not_isStale fun c member => ?_
    obtain rfl := List.mem_singleton.mp member
    simp [isStale, t, behindName]
    omega
  have kept : t.isReady = false := by simp [isReady, t, behindName]
  have colonWord : StartsWord t.cursor.rest := startsWord_cons (by decide) _
  have inside : t.indent ≤ t.cursor.column := outer.trans (Int.natCast_nonneg _)
  have fetched := fetch_of_skipToWord (skipToWord_of_startsWord colonWord) fresh
    (fun _ => inside) rfl
  have marked : t.fetchAt ':' rest = .ok (t.fetchValueOf ⟨taken, indent == 0, index, line, 0⟩) := by
    have apart (mark : Char) (other : ':' ≠ mark) := startsWithMark_of_ne other rest
    rw [fetchAt, apart '-' (by decide), apart '.' (by decide), value, Bool.and_false]
    rfl
  rw [marked] at fetched
  rw [run_kept rfl (List.cons_ne_nil _ _) fresh kept fetched]
  have moved : Cursor.moveTo rest ⟨':' :: rest, index + name.length, line, column⟩ =
      ⟨rest, index + name.length + 1, line, column + 1⟩ := Cursor.moveTo_tail rfl
  -- In front of the first key the indentation is below zero, so a table begins.
  rcases outer.lt_or_eq with first | rfl
  · simp [fetchValueOf, indentTo, mark, push, moveTo, moved, t, behindName, first]
  · simp [fetchValueOf, indentTo, mark, push, moveTo, moved, t, behindName]

/-- A key and the mark of its value are handed over, behind the beginning of the table if it has not
begun. -/
theorem reaches_key (outer : indent ≤ 0) (some : name ≠ []) (word : ∀ c ∈ name, c ∈ nameChars)
    (short : name.length ≤ 1024) (value : atGap rest = true) :
    (beforeName name rest index line indent indents taken).Reaches
      ((if indent < 0 then [Token.blockTableStart, .key] else [Token.key]) ++
        [Token.scalar true (String.ofList name), .value])
      fun t => ∃ cursor taken, cursor.rest = rest ∧ t = {
        cursor, indent := 0, indents := if indent < 0 then indent :: indents else indents,
        keyAllowed := false, taken } := by
  obtain ⟨column, fetched⟩ : ∃ column,
      (beforeName name rest index line indent indents taken).fetch =
        .ok (behindName name rest index line column indent indents taken) :=
    exists_fetch_name outer some word value
  let marks : List Token := if indent < 0 then [.blockTableStart, .key] else [.key]
  let queue := marks ++ [Token.scalar true (String.ofList name), .value]
  have few : queue.length ≤ 4 := by
    simp only [queue, marks]
    split <;> simp
  have positive : 0 < name.length := List.length_pos_iff.mpr some
  let cursor : Cursor := ⟨rest, index + name.length + 1, line, column + 1⟩
  let t : Scan := {
    cursor, indent := 0, indents := if indent < 0 then indent :: indents else indents,
    keyAllowed := false, queue, taken }
  refine ⟨_, queue.length + 2, ⟨cursor, taken + queue.length, rfl, rfl⟩, ?_, fun fuel => ?_⟩
  · simp only [beforeName, cursor, List.length_append, List.length_cons]
    omega
  · calc run (fuel + (queue.length + 2)) (beforeName name rest index line indent indents taken) =
          run (fuel + queue.length + 1) _ := run_fetch rfl rfl fetched _
      _ = run (fuel + queue.length) t := run_behindName outer short value _
      _ = _ := run_queue (s := t) rfl fuel

/-- A key and the mark of its value. -/
theorem AtLine.key (state : AtLine (name ++ ':' :: rest) s) (some : name ≠ [])
    (word : ∀ c ∈ name, c ∈ nameChars) (short : name.length ≤ 1024) (value : atGap rest = true) :
    s.Reaches [.key, .scalar true (String.ofList name), .value] (AtWord false rest) := by
  obtain ⟨index, line, taken, rfl⟩ := state
  exact reaches_key le_rfl some word short value

/-- The first key makes the outermost table begin. -/
theorem reaches_firstKey (some : name ≠ []) (word : ∀ c ∈ name, c ∈ nameChars)
    (short : name.length ≤ 1024) (value : atGap rest = true) :
    Reaches { cursor := { rest := name ++ ':' :: rest } }
      [.blockTableStart, .key, .scalar true (String.ofList name), .value] (AtWord false rest) :=
  reaches_key (Int.neg_nonpos_of_nonneg Int.one_nonneg) some word short value

end Keys

/-- Within brackets. -/
def InBrackets (rest : List Char) (s : Scan) : Prop :=
  ∃ cursor taken, cursor.rest = rest ∧ s = { inTable cursor true taken with flow := 1 }

theorem AtWord.openBracket (state : AtWord false (' ' :: '[' :: rest) s) :
    s.Reaches [.flowListStart] (InBrackets rest) := by
  obtain ⟨cursor, taken, known, rfl⟩ := state
  have word : StartsWord ('[' :: rest) := startsWord_cons (by decide) _
  let t := inTable ⟨'[' :: rest, cursor.index + 1, cursor.line, cursor.column + 1⟩ false taken
  have skipped : (inTable cursor false taken).skipToWord = t := skipToWord_space known word
  have inside : t.indent ≤ t.cursor.column := Int.natCast_nonneg _
  have fetched : (inTable cursor false taken).fetch = t.fetchFlowStart .flowListStart :=
    fetch_of_skipToWord skipped (dropStale_nil rfl) (fun _ => inside) rfl
  have moved : t.cursor.moveTo rest = t.cursor.step := Cursor.moveTo_tail rfl
  rw [fetchFlowStart, addCandidate_nil rfl rfl, except_ok_bind] at fetched
  refine reaches_of_fetch rfl rfl fetched rfl (List.cons_ne_nil _ _) (dropStale_nil rfl)
    ⟨_, _, congrArg Cursor.rest moved, rfl⟩ ?_
  change 1 + 1 + 8 * (t.cursor.moveTo rest).rest.length ≤ 8 * cursor.rest.length
  rw [moved, known]
  change 1 + 1 + 8 * rest.length ≤ 8 * (rest.length + 2)
  omega

theorem InBrackets.close (state : InBrackets (']' :: rest) s) :
    s.Reaches [.flowListEnd] (AtWord false rest) := by
  obtain ⟨⟨_, index, line, column⟩, taken, rfl, rfl⟩ := state
  let t : Scan := { inTable ⟨']' :: rest, index, line, column⟩ true taken with flow := 1 }
  have word : StartsWord t.cursor.rest := startsWord_cons (by decide) _
  have fetched : t.fetch = t.fetchAt ']' rest :=
    fetch_of_skipToWord (skipToWord_of_startsWord word) (dropStale_nil rfl)
      (fun block => absurd block Nat.one_ne_zero) rfl
  have bracket : t.fetchAt ']' rest = t.fetchFlowEnd .flowListEnd := by
    have apart (mark : Char) (other : ']' ≠ mark) := startsWithMark_of_ne other rest
    rw [fetchAt, apart '-' (by decide), apart '.' (by decide), Bool.and_false]
    rfl
  have moved : t.cursor.moveTo rest = t.cursor.step := Cursor.moveTo_tail rfl
  rw [bracket, fetchFlowEnd, dropCandidate_nil rfl, except_ok_bind] at fetched
  refine reaches_of_fetch rfl rfl fetched rfl (List.cons_ne_nil _ _) (dropStale_nil rfl)
    ⟨_, _, congrArg Cursor.rest moved, rfl⟩ ?_
  change 1 + 1 + 8 * (t.cursor.moveTo rest).rest.length ≤ 8 * (rest.length + 1)
  rw [moved]
  change 1 + 1 + 8 * rest.length ≤ 8 * (rest.length + 1)
  omega

/-- Empty brackets. -/
theorem AtWord.emptyList (state : AtWord false (' ' :: '[' :: ']' :: rest) s) :
    s.Reaches [.flowListStart, .flowListEnd] (AtWord false rest) :=
  state.openBracket.andThen fun _ opened => opened.close

/-- At the end of the text the outermost table ends. -/
theorem AtLine.finish (state : AtLine [] s) (fuel : ℕ) :
    run (fuel + 4) s = ([.blockEnd, .streamEnd], none) := by
  obtain ⟨index, line, taken, rfl⟩ := state
  let s := inTable ⟨[], index, line, 0⟩ true taken
  let t : Scan := { s with
    indent := -1, indents := [], keyAllowed := false, queue := [.blockEnd, .streamEnd],
    finished := true }
  have word : StartsWord s.cursor.rest := fun c first => by cases first
  have fetched : s.fetch = .ok t := by
    have known : s.cursor.rest = [] := rfl
    have stays : s.unwind s.cursor.column = s := unwind_of_le fun _ => le_rfl
    simp only [fetch, skipToWord_of_startsWord word, dropStale_nil (s := s) rfl, except_ok_bind,
      stays, known]
    rfl
  have handed := run_queue (s := t) rfl (fuel + 1)
  refine (run_fetch rfl rfl fetched (fuel + 3)).trans (handed.trans ?_)
  rw [run]
  rfl

/-! ### Values -/

/-- What is written behind the mark of a value or of an item gives some tokens, if a line that is
not indented follows. -/
def Gives (keyAllowed : Bool) (cs : List Char) (ts : List Token) : Prop :=
  ∀ next s, StartsLine next → AtWord keyAllowed (cs ++ '\n' :: next) s → s.Reaches ts (AtLine next)

section Scalars

variable {content : List Char} {pen : Pen}

theorem gives_plain {split : Bool} {indent column : ℕ} (keyAllowed : Bool)
    (plain : Style.isPlain content = true) (some : content ≠ []) (fits : 1 ≤ indent) :
    Gives keyAllowed (' ' :: Pen.plainChars split indent 0 column content)
      [.scalar true (String.ofList content)] :=
  fun _ _ line state => AtWord.plain state plain some fits line

theorem gives_quoted {quote : Char} {body : List Char} (known : quote = '\x27' ∨ quote = '\x22')
    (reads : ∀ next, Quoted.Reads quote (body ++ quote :: '\n' :: next) content ('\n' :: next)) :
    Gives false (' ' :: (quote :: body ++ [quote])) [.scalar false (String.ofList content)] := by
  intro next s line state
  have written : body ++ [quote] ++ '\n' :: next = body ++ quote :: '\n' :: next :=
    List.append_assoc ..
  have behind : '\n' :: next <:+ body ++ [quote] ++ '\n' :: next := List.suffix_append _ _
  have read := reads next
  rw [← written] at read
  exact (AtWord.quoted state known read behind).andThen fun _ ends => ends.line line.word

/-- A text is written so that it gives a scalar which is read as a text again. -/
theorem gives_text (content : List Char) :
    ∃ plain, Reading.scalarTag none plain (String.ofList content) = .text ∧
      ∀ pen : Pen, pen.spaced = false →
        Gives false (pen.scalar (Style.ofText .text false content) true 2 content).chars
          [.scalar plain (String.ofList content)] := by
  rw [Style.ofText, if_neg (by decide), Bool.false_and, Bool.not_false, Bool.and_true,
    Bool.false_and, Bool.not_false, Bool.and_true]
  split_ifs with plain single
  · -- Without quotes the text is spelled like a text, which the empty one is not.
    obtain ⟨spelled, chars⟩ : Tag.ofPlain content = .text ∧ Style.isPlain content = true := by
      simpa using plain
    have some : content ≠ [] := by
      rintro rfl
      exact absurd spelled (by decide)
    refine ⟨true, ?_, fun pen blank => ?_⟩
    · rw [Reading.scalarTag, if_pos rfl, String.toList_ofList, spelled]
    · rw [Pen.scalar, blank]
      exact gives_plain false chars some (by decide)
  · obtain ⟨known, apart⟩ : (∀ c ∈ content, c = '\n' ∨ Style.isSimple c = true) ∧
        Style.spaceAtBreak content = false := by
      simpa [Style.isSingle] using single
    refine ⟨false, rfl, fun pen blank => ?_⟩
    rw [Pen.scalar, blank]
    exact gives_quoted (.inl rfl) fun next =>
      Quoted.reads_singleChars (by decide) true false _ rfl (.inl rfl) known apart
  · refine ⟨false, rfl, fun pen blank => ?_⟩
    rw [Pen.scalar, blank]
    exact gives_quoted (.inr rfl) fun next =>
      ((Quoted.reads_doubleChars (by decide) (by decide) true rfl content).1 _ _ _).1

/-- A double is written as a word, which is read as a double again. -/
theorem scalar_number (x : Float) (blank : pen.spaced = false) :
    pen.scalar (Style.ofText .float false (floatLayout.render x).toList) true 2
        (floatLayout.render x).toList =
      ⟨' ' :: (floatLayout.render x).toList,
        ⟨pen.column + 1 + (floatLayout.render x).toList.length, false, false⟩⟩ := by
  have style : Style.ofText .float false (floatLayout.render x).toList = .plain := by
    rw [Style.ofText, if_neg (by decide), ofPlain_render x, isPlain_render x]
    rfl
  rw [style, Pen.scalar, blank]
  simp only [Plain.plainChars_of_word fun c member => isGap_of_mem_render member]
  rfl

theorem gives_number (keyAllowed : Bool) (x : Float) :
    Gives keyAllowed (' ' :: (floatLayout.render x).toList)
      [.scalar true (floatLayout.render x)] := by
  have some : (floatLayout.render x).toList ≠ [] := by
    intro empty
    have spelled := ofPlain_render x
    rw [empty] at spelled
    exact absurd spelled (by decide)
  have gives : Gives keyAllowed (' ' :: Pen.plainChars true 2 0 0 (floatLayout.render x).toList)
      [.scalar true (String.ofList (floatLayout.render x).toList)] :=
    gives_plain keyAllowed (isPlain_render x) some (by decide)
  rwa [Plain.plainChars_of_word fun c member => isGap_of_mem_render member,
    String.ofList_toList] at gives

end Scalars

theorem reaches_self {P : Scan → Prop} (state : P s) : s.Reaches [] P :=
  ⟨s, 0, state, (Nat.zero_add _).le, fun _ => rfl⟩

theorem startsLine_of_ne (c : Char) (rest : List Char)
    (begins : isGap c = false ∧ c ≠ '#' ∧ c ≠ '\uFEFF')
    (separator : atSeparator (c :: rest) = false) : StartsLine (c :: rest) where
  separator := separator
  word := startsWord_cons begins rest

/-- The items of a list, each on a line of its own. -/
theorem exists_items {items : List (List Char × List Token)} (line : StartsLine next)
    (each : ∀ i ∈ items, Gives true (' ' :: i.1) i.2) :
    ∃ behind, (items.flatMap fun i => '\n' :: '-' :: ' ' :: i.1) ++ '\n' :: next = '\n' :: behind ∧
      StartsLine behind ∧
      ∀ s, AtLine behind s →
        s.Reaches (items.flatMap fun i => .blockEntry :: i.2) (AtLine next) := by
  induction items with
  | nil => exact ⟨next, rfl, line, fun s state => reaches_self state⟩
  | cons i items ih =>
    obtain ⟨behind, form, starts, reaches⟩ :=
      ih fun j member => each j (List.mem_cons_of_mem i member)
    refine ⟨'-' :: ' ' :: (i.1 ++ '\n' :: behind), ?_, ?_, fun s state => ?_⟩
    · rw [List.flatMap_cons, List.append_assoc, form]
      rfl
    · refine startsLine_of_ne '-' _ (by decide) ?_
      cases i.1 <;> rfl
    · -- The mark of the item, what stands behind it, and the items on the lines below.
      exact state.item.andThen fun t word =>
        (each i List.mem_cons_self behind t starts word).andThen reaches

/-- A list is written with its items on lines of their own. -/
theorem gives_items {items : List (List Char × List Token)}
    (each : ∀ i ∈ items, Gives true (' ' :: i.1) i.2) :
    Gives false (items.flatMap fun i => '\n' :: '-' :: ' ' :: i.1)
      (items.flatMap fun i => .blockEntry :: i.2) := by
  intro next s line state
  obtain ⟨behind, form, starts, reaches⟩ := exists_items line each
  rw [form] at state
  exact (state.line starts.word).andThen reaches

/-- An empty list has brackets. -/
theorem gives_brackets : Gives false " []".toList [.flowListStart, .flowListEnd] :=
  fun _ _ line state => (AtWord.emptyList state).andThen fun _ ends => ends.line line.word

end Scan

/-- An entry of a table as it is written, with the tokens of its value. -/
structure Entry where
  name : List Char
  /-- What is written behind the mark of the value. -/
  written : List Char
  value : List Token
  some : name ≠ []
  word : ∀ c ∈ name, c ∈ Scan.nameChars
  short : name.length ≤ 1024
  gap : atGap written = true
  allowed : ∀ c ∈ written, isAllowed c = true
  gives : Scan.Gives false written value

namespace Entry

/-- The characters of an entry. -/
def chars (e : Entry) : List Char := e.name ++ ':' :: (e.written ++ ['\n'])

/-- The tokens of an entry. -/
def tokens (e : Entry) : List Token :=
  .key :: .scalar true (String.ofList e.name) :: .value :: e.value

variable {next : List Char}

theorem chars_append (e : Entry) :
    e.chars ++ next = e.name ++ ':' :: (e.written ++ '\n' :: next) := by
  simp [chars]

theorem atGap_append (e : Entry) (next : List Char) : atGap (e.written ++ '\n' :: next) = true := by
  have gap := e.gap
  cases known : e.written with
  | nil => rfl
  | cons c rest =>
    rw [known] at gap
    exact gap

theorem startsLine (e : Entry) : StartsLine (e.chars ++ next) := by
  rw [chars_append]
  obtain ⟨c, rest, name⟩ := List.exists_cons_of_ne_nil e.some
  obtain ⟨begins, -, separator, -⟩ := Scan.name_of_mem (e.word c (name ▸ List.mem_cons_self))
  rw [name]
  exact Scan.startsLine_of_ne c _ begins (atSeparator_cons separator.1 separator.2)

/-- A document may hold what is written for an entry. -/
theorem isAllowed_chars (e : Entry) {c : Char} (member : c ∈ e.chars) : isAllowed c = true := by
  have names : ∀ c ∈ Scan.nameChars, isAllowed c = true := List.all_eq_true.mp (by decide)
  rw [chars, List.mem_append, List.mem_cons, List.mem_append, List.mem_singleton] at member
  rcases member with name | rfl | written | rfl
  · exact names c (e.word c name)
  · rfl
  · exact e.allowed c written
  · rfl

/-- The entries of a table between its first one and the end of the text. -/
theorem reaches_entries (entries : List Entry) :
    StartsLine (entries.flatMap chars) ∧ ∀ s, Scan.AtLine (entries.flatMap chars) s →
      s.Reaches (entries.flatMap tokens) (Scan.AtLine []) := by
  induction entries with
  | nil => exact ⟨⟨rfl, fun c first => by cases first⟩, fun s state => Scan.reaches_self state⟩
  | cons e entries ih =>
    refine ⟨e.startsLine, fun s state => ?_⟩
    rw [List.flatMap_cons, chars_append] at state
    -- The key, its value, and the entries on the lines below.
    exact (state.key e.some e.word e.short (e.atGap_append _)).andThen fun t word =>
      (e.gives _ t ih.1 word).andThen ih.2

end Entry

/-- The tokens of a table. -/
theorem tokens_entries (e : Entry) (entries : List Entry) :
    tokens ((e :: entries).flatMap Entry.chars) =
      (.blockTableStart :: (e :: entries).flatMap Entry.tokens ++ [Token.blockEnd, .streamEnd],
        none) := by
  obtain ⟨line, reaches⟩ := Entry.reaches_entries entries
  have first := Scan.reaches_firstKey e.some e.word e.short
    (e.atGap_append (entries.flatMap Entry.chars))
  have whole := first.andThen fun t word => (e.gives _ t line word).andThen reaches
  obtain ⟨t, n, state, few, handed⟩ := whole
  rw [tokens, List.flatMap_cons, Entry.chars_append]
  -- More steps are allowed for than are taken.
  let text := e.name ++ ':' :: (e.written ++ '\n' :: entries.flatMap Entry.chars)
  have enough : n ≤ 8 * text.length := (Nat.le_add_right _ _).trans few
  have total : 8 * text.length + 16 = 8 * text.length + 12 - n + 4 + n := by omega
  change Scan.run (8 * text.length + 16) _ = _
  rw [total, handed, state.finish]
  simp [Entry.tokens]

end ClenshawCode.Yaml
