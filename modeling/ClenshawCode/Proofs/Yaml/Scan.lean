import ClenshawCode.Proofs.Yaml.Plain
import ClenshawCode.Yaml.Token.Scan
import Mathlib.Data.Bool.AllAny

/-!
# How tokens are handed over

Tokens are handed over when nothing that is read behind them can put a mark in front of them. Where
nothing is kept back, only what is fetched next counts, and what is fetched is handed over at once
unless it may turn out to be a key. A word is fetched from the text behind the blanks in front of
it, and what it begins with tells how it is read.

## Main definitions

* `Yaml.Scan.Reaches`: what tokens are handed over on the way to a state

## Main results

* `Yaml.Scan.reaches_of_fetch`: what is fetched is handed over
* `Yaml.Scan.fetch_of_skipToWord`: what is fetched behind blanks
-/

namespace ClenshawCode.Yaml

namespace Cursor

variable {before after next : List Char} {s : Cursor}

theorem advance_add (m n : ℕ) (s : Cursor) : advance (m + n) s = advance n (advance m s) := by
  induction m generalizing s with
  | zero => rw [Nat.zero_add, advance]
  | succ m ih => rw [Nat.succ_add, advance, advance, ih]

/-- Behind some characters, none of which ends a line, the cursor is on the same line. -/
theorem exists_advance_word (word : ∀ c ∈ before, isGap c = false)
    (known : s.rest = before ++ after) :
    ∃ column, s.advance before.length = ⟨after, s.index + before.length, s.line, column⟩ := by
  induction before generalizing s with
  | nil =>
    obtain rfl : s.rest = after := known
    exact ⟨s.column, rfl⟩
  | cons c before ih =>
    have inside : isBreak c = false := (isBlank_of_isGap (word c List.mem_cons_self)).2
    obtain ⟨column, behind⟩ := ih (s := ⟨before ++ after, s.index + 1, s.line, _⟩)
      (fun d member => word d (List.mem_cons_of_mem c member)) rfl
    refine ⟨column, ?_⟩
    rw [List.length_cons, advance, step, known]
    simp only [List.cons_append, endsLine, inside, Bool.false_and, Bool.false_eq_true, if_false]
    rw [behind, Nat.add_assoc, Nat.add_comm 1]

/-- Behind some characters the cursor is not on an earlier line. -/
theorem exists_advance (known : s.rest = before ++ after) :
    ∃ index line column,
      s.advance before.length = ⟨after, index, line, column⟩ ∧ s.line ≤ line := by
  induction before generalizing s with
  | nil =>
    obtain rfl : s.rest = after := known
    exact ⟨s.index, s.line, s.column, rfl, le_rfl⟩
  | cons c before ih =>
    have same : s.step.rest = before ++ after ∧ s.line ≤ s.step.line := by
      rw [step, known]
      simp only [List.cons_append]
      split <;> simp
    obtain ⟨index, line, column, behind, later⟩ := ih same.1
    exact ⟨index, line, column, behind, same.2.trans later⟩

theorem moveTo_append (known : s.rest = before ++ after) :
    s.moveTo after = s.advance before.length := by
  rw [moveTo, known, List.length_append, Nat.add_sub_cancel_right]

theorem moveTo_tail {c : Char} (known : s.rest = c :: after) : s.moveTo after = s.step :=
  moveTo_append (show s.rest = [c] ++ after from known)

theorem rest_moveTo (known : s.rest = before ++ after) : (s.moveTo after).rest = after := by
  obtain ⟨index, line, column, behind, -⟩ := exists_advance known
  rw [moveTo_append known, behind]

/-- Behind the end of a line the cursor is at the beginning of a later line. -/
theorem exists_moveTo_line (known : s.rest = before ++ '\n' :: next) :
    ∃ index line, s.moveTo next = ⟨next, index, line, 0⟩ ∧ s.line < line := by
  obtain ⟨index, line, column, behind, later⟩ := exists_advance known
  refine ⟨index + 1, line + 1, ?_, Nat.lt_succ_of_le later⟩
  have split : s.rest = (before ++ ['\n']) ++ next := by rw [known, List.append_assoc]; rfl
  rw [moveTo_append split, List.length_append, advance_add, behind]
  rfl

end Cursor

namespace Scan

variable {s t : Scan} {c : Char} {rest next : List Char}

/-! ### Steps -/

/-- With nothing kept back only what is fetched next counts. -/
theorem run_congr (more : s.finished = false) (empty : s.queue = []) (more' : t.finished = false)
    (empty' : t.queue = []) (same : s.fetch = t.fetch) (fuel : ℕ) : run fuel s = run fuel t := by
  cases fuel with
  | zero => rfl
  | succ fuel =>
    rw [run, run]
    simp only [more, empty, more', empty', isReady, same, List.isEmpty_nil, Bool.not_true,
      Bool.false_and, Bool.or_true, Bool.or_false, if_true, Bool.false_eq_true, if_false]

theorem run_fetch (more : s.finished = false) (empty : s.queue = []) (fetched : s.fetch = .ok t)
    (fuel : ℕ) : run (fuel + 1) s = run fuel t := by
  rw [run]
  simp only [more, empty, isReady, fetched, List.isEmpty_nil, Bool.not_true, Bool.false_and,
    Bool.or_true, Bool.or_false, if_true, Bool.false_eq_true, if_false]

/-- What has no candidates is handed over. -/
theorem run_queue (none : s.candidates = []) (fuel : ℕ) :
    run (fuel + s.queue.length) s =
      (s.queue ++ (run fuel { s with queue := [], taken := s.taken + s.queue.length }).1,
        (run fuel { s with queue := [], taken := s.taken + s.queue.length }).2) := by
  obtain ⟨cursor, flow, indent, indents, keyAllowed, candidates, queue, taken, finished⟩ := s
  obtain rfl : candidates = [] := none
  -- Tokens are handed over one at a time, each in one step.
  induction queue generalizing taken with
  | nil => rfl
  | cons t queue ih =>
    have ready : isReady
        ⟨cursor, flow, indent, indents, keyAllowed, [], t :: queue, taken, finished⟩ = true := by
      cases finished <;> rfl
    have step : run (fuel + queue.length + 1)
        ⟨cursor, flow, indent, indents, keyAllowed, [], t :: queue, taken, finished⟩ =
          (t :: (run (fuel + queue.length)
            ⟨cursor, flow, indent, indents, keyAllowed, [], queue, taken + 1, finished⟩).1,
            (run (fuel + queue.length)
            ⟨cursor, flow, indent, indents, keyAllowed, [], queue, taken + 1, finished⟩).2) := by
      rw [run]
      cases finished <;> simp [dropStale, isReady]
    dsimp only at ih ⊢
    rw [List.length_cons, ← Nat.add_assoc, step, ih, Nat.add_right_comm taken, Nat.add_assoc taken]
    rfl

/-- A token that may turn out to be a key is kept back until it is known what follows it. -/
theorem run_kept (more : s.finished = false) (some : s.queue ≠ []) (fresh : s.dropStale = .ok s)
    (kept : s.isReady = false) (fetched : s.fetch = .ok t) (fuel : ℕ) :
    run (fuel + 1) s = run fuel t := by
  have queue : s.queue.isEmpty = false := List.isEmpty_eq_false_iff.mpr some
  rw [run]
  simp only [more, queue, fresh, kept, fetched, Bool.or_false, Bool.false_eq_true, if_false]

/-- A candidate on an earlier line does not hold its token back. -/
theorem run_dropStale (more : s.finished = false) (some : s.queue ≠ [])
    (stale : s.dropStale = .ok { s with candidates := [] }) (fuel : ℕ) :
    run (fuel + 1) s = run (fuel + 1) { s with candidates := [] } := by
  have queue : s.queue.isEmpty = false := List.isEmpty_eq_false_iff.mpr some
  rw [run, run]
  simp only [more, queue, stale, Bool.or_false, Bool.false_eq_true, if_false]
  rfl

/-- From a state some tokens are handed over on the way to one of some other states. Each character
that is read on the way allows for eight steps. -/
def Reaches (s : Scan) (ts : List Token) (P : Scan → Prop) : Prop :=
  ∃ t n, P t ∧ n + 8 * t.cursor.rest.length ≤ 8 * s.cursor.rest.length ∧
    ∀ fuel, run (fuel + n) s = (ts ++ (run fuel t).1, (run fuel t).2)

theorem Reaches.andThen {ts us : List Token} {P Q : Scan → Prop} (first : s.Reaches ts P)
    (more : ∀ t, P t → t.Reaches us Q) : s.Reaches (ts ++ us) Q := by
  obtain ⟨t, m, state, few, run_s⟩ := first
  obtain ⟨u, n, last, few', run_t⟩ := more t state
  -- The steps and the tokens of the two ways add up.
  refine ⟨u, n + m, last, by omega, fun fuel => ?_⟩
  rw [← Nat.add_assoc, run_s, run_t, List.append_assoc]

/-- What is fetched is handed over if it has no candidates, or only stale ones. -/
theorem reaches_of_fetch {P : Scan → Prop} (more : s.finished = false) (empty : s.queue = [])
    (fetched : s.fetch = .ok t) (more' : t.finished = false) (some : t.queue ≠ [])
    (stale : t.dropStale = .ok { t with candidates := [] })
    (state : P { t with candidates := [], queue := [], taken := t.taken + t.queue.length })
    (few : t.queue.length + 1 + 8 * t.cursor.rest.length ≤ 8 * s.cursor.rest.length) :
    s.Reaches t.queue P := by
  refine ⟨_, t.queue.length + 1, state, few, fun fuel => ?_⟩
  have positive : 0 < t.queue.length := List.length_pos_iff.mpr some
  have total : fuel + t.queue.length = fuel + (t.queue.length - 1) + 1 := by omega
  -- One step fetches; the others hand over what was fetched.
  calc run (fuel + (t.queue.length + 1)) s = run (fuel + t.queue.length) t :=
        run_fetch more empty fetched _
    _ = run (fuel + t.queue.length) { t with candidates := [] } := by
        rw [total]
        exact run_dropStale more' some stale _
    _ = _ := run_queue (s := { t with candidates := [] }) rfl fuel

/-! ### Words -/

theorem moveTo_rest (s : Scan) : s.moveTo s.cursor.rest = s := by
  rw [moveTo, Cursor.moveTo, Nat.sub_self]
  rfl

theorem skipGap_of_startsWord {cs : List Char} (word : StartsWord cs) :
    skipGap false cs = (cs, false) := by
  cases cs with
  | nil => rfl
  | cons c rest =>
    obtain ⟨other, comment, -⟩ := word c rfl
    obtain ⟨blank, break'⟩ := isBlank_of_isGap other
    have space : (c == ' ') = false := (Bool.or_eq_false_iff.mp blank).1
    simp [skipGap, break', space, comment]

theorem skipToWord_of_startsWord (word : StartsWord s.cursor.rest) : s.skipToWord = s := by
  have mark : startsWith (· == '\uFEFF') s.cursor.rest = false := by
    cases known : s.cursor.rest with
    | nil => rfl
    | cons c rest =>
      rw [known] at word
      exact beq_eq_false_iff_ne.mpr (word c rfl).2.2
  rw [skipToWord]
  simp only [mark, Bool.and_false, Bool.false_eq_true, if_false, skipGap_of_startsWord word,
    moveTo_rest, Bool.false_and]

/-- A space is skipped in front of a word. -/
theorem skipToWord_space (known : s.cursor.rest = ' ' :: rest) (word : StartsWord rest) :
    s.skipToWord =
      { s with cursor := ⟨rest, s.cursor.index + 1, s.cursor.line, s.cursor.column + 1⟩ } := by
  have skipped : skipGap false (' ' :: rest) = (rest, false) := skipGap_of_startsWord word
  have mark : startsWith (· == '\uFEFF') (' ' :: rest) = false := rfl
  have step : s.cursor.moveTo rest =
      ⟨rest, s.cursor.index + 1, s.cursor.line, s.cursor.column + 1⟩ := by
    rw [Cursor.moveTo_tail known, Cursor.step, known]
    rfl
  rw [skipToWord]
  simp only [known, mark, Bool.and_false, Bool.false_eq_true, if_false, skipped, Bool.false_and,
    moveTo, step]

/-- The end of a line is skipped in front of a word, which may be a key. -/
theorem skipToWord_line (known : s.cursor.rest = '\n' :: rest) (word : StartsWord rest)
    (block : s.flow = 0) :
    s.skipToWord = { s with cursor := ⟨rest, s.cursor.index + 1, s.cursor.line + 1, 0⟩,
                            keyAllowed := true } := by
  have skipped : skipGap false ('\n' :: rest) = (rest, true) := by
    change ((skipGap false rest).1, true) = _
    rw [skipGap_of_startsWord word]
  have mark : startsWith (· == '\uFEFF') ('\n' :: rest) = false := rfl
  have step : s.cursor.moveTo rest = ⟨rest, s.cursor.index + 1, s.cursor.line + 1, 0⟩ := by
    rw [Cursor.moveTo_tail known, Cursor.step, known]
    rfl
  rw [skipToWord]
  simp only [known, mark, Bool.and_false, Bool.false_eq_true, if_false, skipped, Bool.true_and,
    moveTo, step, block, beq_self_eq_true, if_true]

theorem dropStale_of_not_isStale (fresh : ∀ c ∈ s.candidates, s.isStale c.2 = false) :
    s.dropStale = .ok s := by
  have allowed : (s.candidates.any fun c => s.isStale c.2 && c.2.required) = false := by
    rw [List.any_eq_false]
    intro c member
    rw [fresh c member, Bool.false_and]
    exact Bool.false_ne_true
  have all : (s.candidates.filter fun c => !s.isStale c.2) = s.candidates := by
    rw [List.filter_eq_self]
    intro c member
    rw [fresh c member]
    rfl
  rw [dropStale, allowed, all]
  rfl

theorem dropStale_nil (none : s.candidates = []) : s.dropStale = .ok s :=
  dropStale_of_not_isStale fun _ member => absurd (none ▸ member) List.not_mem_nil

/-- Where no candidate has to be a key, none of those that are looked at has to. -/
theorem not_any_required (optional : ∀ c ∈ s.candidates, c.2.required = false)
    (looked : ℕ × Candidate → Bool) :
    (s.candidates.any fun c => looked c && c.2.required) = false := by
  rw [List.any_eq_false]
  intro c member
  rw [optional c member, Bool.and_false]
  exact Bool.false_ne_true

/-- Candidates that need not be keys are dropped when they are stale. -/
theorem dropStale_of_isStale
    (stale : ∀ c ∈ s.candidates, s.isStale c.2 = true ∧ c.2.required = false) :
    s.dropStale = .ok { s with candidates := [] } := by
  have all : (s.candidates.filter fun c => !s.isStale c.2) = [] := by
    rw [List.filter_eq_nil_iff]
    intro c member
    rw [(stale c member).1]
    exact Bool.false_ne_true
  rw [dropStale, not_any_required fun c member => (stale c member).2, all]
  rfl

theorem dropCandidate_nil (none : s.candidates = []) : s.dropCandidate = .ok s := by
  rw [dropCandidate, none]
  exact congrArg Except.ok (by rw [List.filter_nil, ← none])

/-- No list or table ends at a word that is indented as much as it, or in flow context. -/
theorem unwind_of_le {column : Int} (known : s.flow = 0 → s.indent ≤ column) :
    s.unwind column = s := by
  rw [unwind]
  -- Nothing ends in flow context, nor at a column that is not smaller.
  split_ifs with block
  · have stays : closeIndents column s.indents s.indent = ([], s.indent, s.indents) := by
      have inside := Int.not_lt.mpr (known block)
      cases s.indents <;> simp [closeIndents, inside]
    simp only [stays, push, List.append_nil]
  · rfl

/-- The word at which reading goes on. -/
theorem fetch_of_skipToWord (skipped : s.skipToWord = t) (fresh : t.dropStale = .ok t)
    (inside : t.flow = 0 → t.indent ≤ t.cursor.column) (known : t.cursor.rest = c :: rest) :
    s.fetch = t.fetchAt c rest := by
  simp only [fetch, skipped, fresh, except_ok_bind, unwind_of_le inside, known]

/-- A plain scalar may begin with a character that is no mark. In flow context a question mark and a
colon always are marks. -/
theorem startsPlain_of_isMark {inFlow : Bool} (context : inFlow = false ∨ c ≠ '?' ∧ c ≠ ':')
    (other : isGap c = false) (mark : Style.isMark c = false)
    (bare : c = '?' ∨ c = ':' ∨ c = '-' → atGap rest = false) :
    startsPlain inFlow c rest = true := by
  by_cases special : c = '?' ∨ c = ':' ∨ c = '-'
  · rw [startsPlain, bare special]
    rcases context with rfl | ⟨question, colon⟩
    · rcases special with rfl | rfl | rfl <;> rfl
    · obtain rfl := (special.resolve_left question).resolve_left colon
      rfl
  · -- Every character that cannot begin a scalar is a mark, but for the three that need a gap
    -- behind them.
    have known : ∀ d ∈ "-?:,[]\x7b\x7d#&*!|>\x27\x22%@\x60".toList,
        Style.isMark d = true ∨ d = '?' ∨ d = ':' ∨ d = '-' :=
      List.all_iff_forall_prop.mp (by decide)
    have outside : "-?:,[]\x7b\x7d#&*!|>\x27\x22%@\x60".toList.contains c = false := by
      rw [← Bool.not_eq_true, List.contains_iff_mem]
      intro member
      rcases known c member with odd | same
      · rw [mark] at odd
        cases odd
      · exact special same
    rw [startsPlain, other, outside]
    rfl

/-- A character that is no mark begins a plain scalar. -/
theorem fetchAt_plain (context : s.flow = 0 ∨ c ≠ '?' ∧ c ≠ ':')
    (separator : s.cursor.column = 0 → atSeparator (c :: rest) = false) (other : isGap c = false)
    (mark : Style.isMark c = false) (bare : c = '?' ∨ c = ':' ∨ c = '-' → atGap rest = false) :
    s.fetchAt c rest = s.fetchPlain := by
  have ne (d : Char) (odd : Style.isMark d = true) : (c == d) = false := by
    refine beq_eq_false_iff_ne.mpr ?_
    rintro rfl
    rw [mark] at odd
    cases odd
  have alone (d : Char) (known : d = '?' ∨ d = ':' ∨ d = '-') : (c == d && atGap rest) = false := by
    by_cases same : c = d
    · subst same
      rw [bare known, Bool.and_false]
    · rw [beq_eq_false_iff_ne.mpr same, Bool.false_and]
  have inFlow (d : Char) (known : d = '?' ∨ d = ':') :
      (c == d && (s.flow != 0 || atGap rest)) = false := by
    rcases context with block | ⟨question, colon⟩
    · rw [block, bne_self_eq_false, Bool.false_or]
      exact alone d (known.imp_right .inl)
    · have different : c ≠ d := by
        rcases known with rfl | rfl
        exacts [question, colon]
      rw [beq_eq_false_iff_ne.mpr different, Bool.false_and]
  have apart (d : Char) (known : d = '-' ∨ d = '.') :
      (s.cursor.column == 0 && startsWithMark d (c :: rest)) = false := by
    by_cases start : s.cursor.column = 0
    · obtain ⟨hyphens, points⟩ := Bool.or_eq_false_iff.mp (separator start)
      rcases known with rfl | rfl
      exacts [by rw [hyphens, Bool.and_false], by rw [points, Bool.and_false]]
    · rw [beq_eq_false_iff_ne.mpr start, Bool.false_and]
  have begins : startsPlain (s.flow != 0) c rest = true :=
    startsPlain_of_isMark (context.imp_left fun block => by rw [block]; rfl) other mark bare
  rw [fetchAt]
  simp only [Bool.false_and, Bool.false_or, Bool.false_eq_true, if_false, if_true, ne '%' rfl,
    ne '[' rfl, ne '\x7b' rfl, ne ']' rfl, ne '\x7d' rfl, ne ',' rfl, ne '*' rfl, ne '&' rfl,
    ne '!' rfl, ne '|' rfl, ne '>' rfl, ne '\x27' rfl, ne '\x22' rfl, apart '-' (.inl rfl),
    apart '.' (.inr rfl), inFlow '?' (.inl rfl), inFlow ':' (.inr rfl),
    alone '-' (.inr (.inr rfl)), begins]

/-- The candidates that there are behind a word, if there were none before it. -/
def wordCandidates (s : Scan) : List (Nat × Candidate) :=
  if s.keyAllowed then
    [(0, ⟨s.taken + s.queue.length, s.indent == s.cursor.column, s.cursor.index, s.cursor.line,
      s.cursor.column⟩)]
  else []

theorem addCandidate_nil (block : s.flow = 0) (none : s.candidates = []) :
    s.addCandidate = .ok { s with candidates := s.wordCandidates } := by
  rw [addCandidate, wordCandidates]
  split_ifs
  · rw [dropCandidate_nil none, except_ok_bind, block, none]
    rfl
  · rw [← none]
    rfl

/-- A plain scalar is a word that may turn out to be a key. -/
theorem fetchPlain_of_reads {content : List Char} {crossed : Bool} (block : s.flow = 0)
    (none : s.candidates = [])
    (reads : Plain.Reads s.least s.cursor.rest ⟨content, crossed, next⟩) :
    s.fetchPlain = .ok
      { s with
        cursor := s.cursor.moveTo next
        keyAllowed := crossed
        candidates := s.wordCandidates
        queue := s.queue ++ [Token.scalar true (String.ofList content)] } := by
  have scalar := reads s.cursor.rest.length le_rfl
  rw [least] at scalar
  rw [fetchPlain, addCandidate_nil block none, except_ok_bind]
  simp only [least, block, bne_self_eq_false, scalar]
  rfl

end Scan

end ClenshawCode.Yaml
