import ClenshawCode.Proofs.Json.Number
import ClenshawCode.Proofs.Yaml.Scan

/-!
# Words and marks in flow context

A list or table in brackets may turn out to be a key, and so everything in it is kept back until it
is too long for a key. When a token is handed over depends on the length of what follows it. What is
fetched next does not: a stage says how far a text has been read and which tokens that has given,
and leaves open how many of them have been handed over and which candidates have been dropped as
stale. The state of reading stays at its stage when a token is handed over or a stale candidate is
dropped, and goes to the next stage when something is fetched.

## Main definitions

* `Yaml.Stage`: how far a text has been read
* `Yaml.Scan.At`: the states at a stage
* `Yaml.Stage.Fetches`, `Yaml.Stage.Passes`: the stage behind the next fetch, and behind some more

## Main results

* `Yaml.Stage.fetches_word`, `Yaml.Stage.fetches_quoted`, `Yaml.Stage.fetches_open`,
  `Yaml.Stage.fetches_close`, `Yaml.Stage.fetches_comma`, `Yaml.Stage.fetches_colon`: one fetch
  for each kind of token
* `Yaml.Scan.At.exists_run_end`: what is handed over at the end of the text
-/

namespace ClenshawCode.Yaml

/-- How far a text has been read, whatever has been handed over of it. -/
structure Stage where
  flow : ℕ
  keyAllowed : Bool
  rest : List Char
  /-- The tokens that have been read. -/
  read : List Token
  /-- The number of the token that is a key if a colon follows. -/
  key : Option ℕ := none

/-- The brackets around lists and those around tables. -/
inductive Brackets where
  | list
  | table

namespace Brackets

def opening : Brackets → Char
  | list => '['
  | table => '\x7b'

def closing : Brackets → Char
  | list => ']'
  | table => '\x7d'

/-- The token of the opening bracket. -/
def start : Brackets → Token
  | list => .flowListStart
  | table => .flowTableStart

/-- The token of the closing bracket. -/
def stop : Brackets → Token
  | list => .flowListEnd
  | table => .flowTableEnd

end Brackets

/-- A candidate that is kept when others are dropped is still found. -/
theorem lookup_filter {candidates : List (ℕ × Candidate)} {level : ℕ} {c : Candidate}
    {keeps : ℕ × Candidate → Bool} (found : candidates.lookup level = some c)
    (kept : keeps (level, c) = true) : (candidates.filter keeps).lookup level = some c := by
  induction candidates with
  | nil => cases found
  | cons first rest ih =>
    obtain ⟨other, d⟩ := first
    rw [List.lookup_cons] at found
    split at found
    · rename_i same
      obtain rfl : level = other := eq_of_beq same
      obtain rfl : d = c := Option.some.inj found
      rw [List.filter_cons_of_pos kept, List.lookup_cons, beq_self_eq_true]
    · rename_i differs
      rw [List.filter_cons]
      split
      · rw [List.lookup_cons, differs]
        exact ih found
      · exact ih found

namespace Scan

variable {g h : Stage} {handed ts : List Token} {s : Scan} {rest next : List Char}

/-- The states at a stage with some tokens handed over. No candidate has to be a key, and the token
of none has been handed over. -/
structure At (g : Stage) (handed : List Token) (s : Scan) : Prop where
  more : s.finished = false
  flow : s.flow = g.flow
  keyAllowed : s.keyAllowed = g.keyAllowed
  rest : s.cursor.rest = g.rest
  indent : s.indent = -1
  indents : s.indents = []
  tokens : handed ++ s.queue = g.read
  taken : s.taken = handed.length
  candidates : ∀ c ∈ s.candidates, c.2.required = false ∧ s.taken ≤ c.2.number
  key : ∀ n ∈ g.key, ∃ c, s.candidates.lookup g.flow = some c ∧ c.number = n ∧ s.isStale c = false

namespace At

theorem optional (state : At g handed s) : ∀ c ∈ s.candidates, c.2.required = false :=
  fun c member => (state.candidates c member).1

/-- Dropping stale candidates does not lead to another stage. -/
theorem dropStale (state : At g handed s) : ∃ t, s.dropStale = .ok t ∧ At g handed t ∧
    t.cursor = s.cursor ∧ t.queue = s.queue := by
  refine ⟨{ s with candidates := s.candidates.filter fun c => !s.isStale c.2 }, ?_,
    { state with candidates := ?_, key := fun n known => ?_ }, rfl, rfl⟩
  · rw [Scan.dropStale, not_any_required state.optional, if_neg Bool.false_ne_true]
  · exact fun c member => state.candidates c (List.mem_filter.mp member).1
  · obtain ⟨c, found, number, fresh⟩ := state.key n known
    exact ⟨c, lookup_filter found (by rw [fresh]; rfl), number, fresh⟩

/-- Neither does handing over a token that no key can be put in front of. -/
theorem handOver {t : Token} {queue : List Token} (state : At g handed s)
    (queued : s.queue = t :: queue) (ready : s.isReady = true) :
    At g (handed ++ [t]) { s with queue, taken := s.taken + 1 } where
  __ := state
  tokens := by rw [List.append_assoc, List.singleton_append, ← queued, state.tokens]
  taken := by rw [List.length_append, state.taken, List.length_singleton]
  candidates c member := by
    obtain ⟨optional, pending⟩ := state.candidates c member
    rw [isReady, state.more, Bool.false_or, Bool.and_eq_true, List.all_eq_true] at ready
    have other := bne_iff_ne.mp (ready.2 c member)
    exact ⟨optional, by dsimp only; omega⟩

/-- On the way to the next fetch some tokens are handed over, one in each step. -/
theorem exists_run {P : List Token → Scan → Prop}
    (fetches : ∀ handed s, At g handed s → ∃ t, s.fetch = .ok t ∧ P handed t)
    (state : At g handed s) :
    ∃ more t, P (handed ++ more) t ∧ more.length ≤ s.queue.length ∧
      ∀ fuel, run (fuel + (more.length + 1)) s =
        (more ++ (run fuel t).1, (run fuel t).2) := by
  generalize size : s.queue.length = count
  induction count generalizing handed s with
  | zero =>
    obtain ⟨t, fetched, goal⟩ := fetches handed s state
    have empty : s.queue = [] := List.length_eq_zero_iff.mp size
    exact ⟨[], t, by rwa [List.append_nil], le_rfl, run_fetch state.more empty fetched⟩
  | succ count ih =>
    obtain ⟨t, queue, queued⟩ : ∃ t queue, s.queue = t :: queue :=
      List.exists_cons_of_length_eq_add_one size
    obtain ⟨u, dropped, state', -, same⟩ := state.dropStale
    have step (fuel : ℕ) : run (fuel + 1) s = match u.isReady, u.fetch with
        | true, _ =>
          (t :: (run fuel { u with queue, taken := u.taken + 1 }).1,
            (run fuel { u with queue, taken := u.taken + 1 }).2)
        | false, .error e => ([], some e)
        | false, .ok v => run fuel v := by
      rw [run, state.more, queued]
      simp only [List.isEmpty_cons, Bool.or_false, Bool.false_eq_true, if_false, dropped, same,
        queued]
      cases u.isReady with
      | true => rfl
      | false => cases u.fetch <;> rfl
    cases ready : u.isReady with
    | true =>
      -- The token in front is handed over, and the others are left.
      have left : queue.length = count := by
        rw [queued] at size
        exact Nat.succ.inj size
      obtain ⟨more, v, goal, few, runs⟩ := ih (state'.handOver (same.trans queued) ready) left
      refine ⟨t :: more, v, by rwa [List.append_assoc] at goal, Nat.succ_le_succ few,
        fun fuel => ?_⟩
      rw [← Nat.add_assoc, step, ready, List.length_cons, runs]
      rfl
    | false =>
      obtain ⟨v, fetched, goal⟩ := fetches handed u state'
      refine ⟨[], v, by rwa [List.append_nil], Nat.zero_le _, fun fuel => ?_⟩
      rw [List.length_nil, step, ready, fetched]
      rfl

/-! ### What is fetched -/

/-- The word or mark at the cursor is fetched. -/
theorem fetch_eq {c : Char} (state : At g handed s) (known : g.rest = c :: rest)
    (word : StartsWord (c :: rest)) : ∃ t, At g handed t ∧ s.fetch = t.fetchAt c rest := by
  obtain ⟨t, dropped, state', same, -⟩ := state.dropStale
  have skipped : s.skipToWord = s := skipToWord_of_startsWord (by rwa [state.rest, known])
  have stays : t.unwind t.cursor.column = t := unwind_of_le fun _ => by
    rw [state'.indent]
    omega
  refine ⟨t, state', ?_⟩
  simp only [fetch, skipped, dropped, except_ok_bind, stays, same ▸ state.rest, known]

/-- The cursor may move on, and tokens may be added, if no key is asked for. -/
theorem push (state : At g handed s) (cursor : Cursor) (ts : List Token) :
    At { g with rest := cursor.rest, read := g.read ++ ts, key := none } handed
      { s with cursor, queue := s.queue ++ ts } where
  __ := state
  rest := rfl
  tokens := by rw [← List.append_assoc, state.tokens]
  key _ known := by cases known

/-- So may the level change. -/
theorem within (state : At g handed s) (flow : ℕ) (keyAllowed : Bool) :
    At ⟨flow, keyAllowed, g.rest, g.read, none⟩ handed { s with flow, keyAllowed } where
  __ := state
  flow := rfl
  keyAllowed := rfl
  key _ known := by cases known

/-- A mark of one character. -/
theorem mark {c : Char} (state : At g handed s) (known : g.rest = c :: rest) (t : Token) :
    At { g with rest, read := g.read ++ [t], key := none } handed (s.mark 1 t) := by
  have moved : (s.cursor.moveTo (s.cursor.rest.drop 1)).rest = rest := by
    rw [state.rest, known]
    exact Cursor.rest_moveTo (show s.cursor.rest = [c] ++ rest from state.rest.trans known)
  have next := state.push (s.cursor.moveTo (s.cursor.rest.drop 1)) [t]
  rwa [moved] at next

/-- A candidate that is not asked for can be dropped. -/
theorem dropCandidate (state : At g handed s) : ∃ t, s.dropCandidate = .ok t ∧
    At { g with key := none } handed t ∧ t.cursor = s.cursor := by
  refine ⟨{ s with candidates := s.candidates.filter fun c => c.1 != s.flow }, ?_,
    { state with candidates := ?_, key := fun n known => ?_ }, rfl⟩
  · rw [Scan.dropCandidate, not_any_required state.optional, if_neg Bool.false_ne_true]
  · exact fun c member => state.candidates c (List.mem_filter.mp member).1
  · cases known

/-- The word at the cursor is made a candidate where a key may begin. -/
theorem addCandidate (state : At g handed s) (none : g.key = none) :
    ∃ t, s.addCandidate = .ok t ∧ At g handed t ∧ t.cursor = s.cursor ∧
      (g.keyAllowed = true → ∃ c, t.candidates.lookup g.flow = some c ∧
        c.number = g.read.length ∧ c.line = s.cursor.line ∧ c.index = s.cursor.index) := by
  rw [Scan.addCandidate, state.keyAllowed]
  split_ifs with allowed
  · obtain ⟨t, dropped, state', same⟩ := state.dropCandidate
    have same' : ({ g with key := Option.none } : Stage) = g := by rw [← none]
    rw [same'] at state'
    rw [dropped, except_ok_bind]
    -- In flow context, and at the margin in front of it, no key is needed.
    have outside : (t.indent == (t.cursor.column : ℤ)) = false := by
      rw [state'.indent, beq_eq_false_iff_ne]
      omega
    have number : t.taken + t.queue.length = g.read.length := by
      rw [state'.taken, ← List.length_append, state'.tokens]
    refine ⟨_, rfl, { state' with candidates := ?_, key := ?_ }, same, fun _ => ?_⟩
    · rintro c member
      rcases List.mem_cons.mp member with rfl | member
      · exact ⟨by simp [outside], Nat.le_add_right _ _⟩
      · exact state'.candidates c member
    · intro n known
      rw [none] at known
      cases known
    · let c : Candidate := ⟨t.taken + t.queue.length, t.flow == 0 && t.indent == t.cursor.column,
        t.cursor.index, t.cursor.line, t.cursor.column⟩
      have found : List.lookup g.flow ((t.flow, c) :: t.candidates) = some c := by
        rw [state'.flow, List.lookup_cons, beq_self_eq_true]
      exact ⟨c, found, number, congrArg Cursor.line same, congrArg Cursor.index same⟩
  · exact ⟨s, rfl, state, rfl, fun yes => absurd yes allowed⟩

/-- A word is read up to a later rest. It may be a key if it is short. -/
theorem fetchWord {t : Token} {before : List Char}
    {readWord : List Char → Except Failure (Token × List Char)} (state : At g handed s)
    (none : g.key = none) (known : g.rest = before ++ next)
    (reads : readWord g.rest = .ok (t, next)) :
    ∃ u, s.fetchWord readWord = .ok u ∧
      At ⟨g.flow, false, next, g.read ++ [t], Option.none⟩ handed u ∧
      (g.keyAllowed = true → (∀ c ∈ before, isGap c = false) → before.length ≤ 1024 →
        At ⟨g.flow, false, next, g.read ++ [t], some g.read.length⟩ handed u) := by
  obtain ⟨v, added, state', same, candidate⟩ := state.addCandidate none
  have split : v.cursor.rest = before ++ next := state'.rest.trans known
  have moved : (v.cursor.moveTo next).rest = next := Cursor.rest_moveTo split
  have level : v.flow = g.flow := state'.flow
  have behind := (state'.push (v.cursor.moveTo next) [t]).within v.flow false
  rw [level, moved] at behind
  have fetched : s.fetchWord readWord =
      .ok { (v.moveTo next).push [t] with keyAllowed := false } := by
    rw [Scan.fetchWord, added, except_ok_bind, state'.rest, reads]
    rfl
  refine ⟨_, fetched, { behind with flow := level }, fun allowed word short =>
    { behind with flow := level, key := fun n known => ?_ }⟩
  obtain rfl : g.read.length = n := Option.some.inj known
  obtain ⟨c, found, number, line, index⟩ := candidate allowed
  obtain ⟨column, advanced⟩ := Cursor.exists_advance_word word split
  refine ⟨c, found, number, ?_⟩
  -- The candidate is on the same line, and not too far away.
  have near : ¬s.cursor.index + 1024 < s.cursor.index + before.length := by omega
  change (c.line != (v.cursor.moveTo next).line ||
    decide (c.index + 1024 < (v.cursor.moveTo next).index)) = false
  rw [Cursor.moveTo_append split, advanced, line, index, same]
  simp [near]

end At

/-- In flow context the mark of a key is put in front of the key, and nothing else. -/
theorem fetchValueOf_of_flow {flow : ℕ} {c : Candidate} {front behind : List Token}
    (inside : s.flow = flow + 1) (queue : s.queue = front ++ behind)
    (place : c.number - s.taken = front.length) :
    s.fetchValueOf c = { s with
      candidates := s.candidates.filter fun c => c.1 != s.flow
      keyAllowed := false
      queue := front ++ Token.key :: behind }.mark 1 .value := by
  have outside : (s.flow == 0) = false := by
    rw [inside]
    rfl
  simp [fetchValueOf, outside, place, queue]

end Scan

namespace Stage

open Scan

variable {f g h : Stage} {flow : ℕ} {keyAllowed : Bool} {rest next : List Char}
  {read ts : List Token} {key : Option ℕ}

/-- What is fetched at a stage leads to another one. -/
def Fetches (g h : Stage) : Prop :=
  ∀ handed s, At g handed s → ∃ t, s.fetch = .ok t ∧ At h handed t

/-- Reading leads from a stage to another one. Each character that is read on the way allows for
eight steps, of which one hands over a token or fetches a word. -/
def Passes (g h : Stage) : Prop :=
  ∀ handed s, At g handed s → ∃ more t n, At h (handed ++ more) t ∧
    n + 8 * h.rest.length + t.queue.length ≤ 8 * g.rest.length + s.queue.length ∧
      ∀ fuel, run (fuel + n) s = (more ++ (run fuel t).1, (run fuel t).2)

theorem Passes.trans (first : f.Passes g) (second : g.Passes h) : f.Passes h := by
  intro handed s state
  obtain ⟨more, t, m, state, few, run_s⟩ := first handed s state
  obtain ⟨others, u, n, state, few', run_t⟩ := second _ t state
  refine ⟨more ++ others, u, n + m, by rwa [← List.append_assoc], by omega, fun fuel => ?_⟩
  rw [← Nat.add_assoc, run_s, run_t, List.append_assoc]

/-- No word or mark gives more than seven tokens. -/
theorem Fetches.passes (fetches : g.Fetches h) (less : h.rest.length < g.rest.length)
    (few : h.read.length ≤ g.read.length + 7) : g.Passes h := by
  intro handed s state
  obtain ⟨more, t, goal, -, runs⟩ := state.exists_run fetches
  refine ⟨more, t, _, goal, ?_, runs⟩
  have before := congrArg List.length state.tokens
  have behind := congrArg List.length goal.tokens
  simp only [List.length_append] at before behind
  omega

/-- A space is skipped. -/
theorem Fetches.space (fetches : Fetches ⟨flow, keyAllowed, rest, read, none⟩ h)
    (word : StartsWord rest) : Fetches ⟨flow, keyAllowed, ' ' :: rest, read, none⟩ h := by
  intro handed s state
  have skipped := skipToWord_space state.rest word
  let t : Scan :=
    { s with cursor := ⟨rest, s.cursor.index + 1, s.cursor.line, s.cursor.column + 1⟩ }
  have state' : At ⟨flow, keyAllowed, rest, read, none⟩ handed t :=
    { state with rest := rfl, key := fun n known => by cases known }
  have same : s.fetch = t.fetch := by
    rw [fetch, fetch, skipped, skipToWord_of_startsWord (s := t) word]
  rw [same]
  exact fetches handed t state'

/-! ### Marks -/

/-- A bracket opens. -/
theorem fetches_open (b : Brackets) :
    Fetches ⟨flow, keyAllowed, b.opening :: rest, read, none⟩
      ⟨flow + 1, true, rest, read ++ [b.start], none⟩ := by
  intro handed s state
  have word : StartsWord (b.opening :: rest) := startsWord_cons (by cases b <;> decide) rest
  obtain ⟨u, state, fetched⟩ := state.fetch_eq rfl word
  have mark : u.fetchAt b.opening rest = u.fetchFlowStart b.start := by
    have apart (mark : Char) (other : b.opening ≠ mark) := startsWithMark_of_ne other rest
    rw [fetchAt, apart '-' (by cases b <;> decide), apart '.' (by cases b <;> decide),
      Bool.and_false]
    cases b <;> rfl
  obtain ⟨v, added, state, -, -⟩ := state.addCandidate rfl
  refine ⟨_, by rw [fetched, mark, fetchFlowStart, added]; rfl, ?_⟩
  have level : v.flow = flow := state.flow
  rw [← level]
  exact (state.mark rfl b.start).within (v.flow + 1) true

/-- A bracket closes. -/
theorem fetches_close (b : Brackets) :
    Fetches ⟨flow + 1, keyAllowed, b.closing :: rest, read, none⟩
      ⟨flow, false, rest, read ++ [b.stop], none⟩ := by
  intro handed s state
  have word : StartsWord (b.closing :: rest) := startsWord_cons (by cases b <;> decide) rest
  obtain ⟨u, state, fetched⟩ := state.fetch_eq rfl word
  have mark : u.fetchAt b.closing rest = u.fetchFlowEnd b.stop := by
    have apart (mark : Char) (other : b.closing ≠ mark) := startsWithMark_of_ne other rest
    rw [fetchAt, apart '-' (by cases b <;> decide), apart '.' (by cases b <;> decide),
      Bool.and_false]
    cases b <;> rfl
  obtain ⟨v, dropped, state, -⟩ := state.dropCandidate
  refine ⟨_, by rw [fetched, mark, fetchFlowEnd, dropped]; rfl, ?_⟩
  have level : v.flow = flow + 1 := state.flow
  have outer : v.flow - 1 = flow := by rw [level, Nat.add_sub_cancel]
  rw [← outer]
  exact { (state.mark rfl b.stop).within (v.flow - 1) false with more := by rw [level]; rfl }

/-- A comma. -/
theorem fetches_comma :
    Fetches ⟨flow, keyAllowed, ',' :: rest, read, none⟩
      ⟨flow, true, rest, read ++ [Token.flowEntry], none⟩ := by
  intro handed s state
  obtain ⟨u, state, fetched⟩ := state.fetch_eq rfl (startsWord_cons (by decide) rest)
  have mark : u.fetchAt ',' rest = u.fetchFlowEntry := by
    have apart (mark : Char) (other : ',' ≠ mark) := startsWithMark_of_ne other rest
    rw [fetchAt, apart '-' (by decide), apart '.' (by decide), Bool.and_false]
    rfl
  have allowed : At ⟨flow, true, ',' :: rest, read, none⟩ handed { u with keyAllowed := true } :=
    { state with keyAllowed := rfl }
  obtain ⟨v, dropped, state, -⟩ := allowed.dropCandidate
  exact ⟨_, by rw [fetched, mark, fetchFlowEntry, dropped]; rfl, state.mark rfl .flowEntry⟩

/-- A colon behind a word that may be a key makes it one: the mark of the key is put in front of it.
-/
theorem fetches_colon {t : Token} :
    Fetches ⟨flow + 1, keyAllowed, ':' :: rest, read ++ [t], some read.length⟩
      ⟨flow + 1, false, rest, read ++ [Token.key, t, .value], none⟩ := by
  intro handed s state
  obtain ⟨u, state, fetched⟩ := state.fetch_eq rfl (startsWord_cons (by decide) rest)
  obtain ⟨c, found, number, -⟩ := state.key read.length rfl
  have level : u.flow = flow + 1 := state.flow
  have mark : u.fetchAt ':' rest = .ok (u.fetchValueOf c) := by
    have apart (mark : Char) (other : ':' ≠ mark) := startsWithMark_of_ne other rest
    have value : u.fetchValue = .ok (u.fetchValueOf c) := by
      rw [fetchValue, level, found]
    rw [← value, fetchAt, apart '-' (by decide), apart '.' (by decide), Bool.and_false, level]
    rfl
  refine ⟨_, fetched.trans mark, ?_⟩
  -- The token of the key has not been handed over, so it is the last one in the queue.
  obtain ⟨before, behind, form, -⟩ := List.lookup_eq_some_iff.mp found
  have member : (flow + 1, c) ∈ u.candidates := by simp [form]
  have pending : handed.length ≤ read.length := by
    rw [← state.taken, ← number]
    exact (state.candidates _ member).2
  obtain ⟨front, same⟩ : handed <+: read :=
    List.prefix_of_prefix_length_le ⟨u.queue, state.tokens⟩ ⟨[t], rfl⟩ pending
  have queue : u.queue = front ++ [t] := by
    have tokens : handed ++ u.queue = read ++ [t] := state.tokens
    rw [← same, List.append_assoc] at tokens
    exact List.append_cancel_left tokens
  have place : c.number - u.taken = front.length := by
    rw [number, state.taken, ← same, List.length_append, Nat.add_sub_cancel_left]
  rw [fetchValueOf_of_flow level queue place]
  have state' : At ⟨flow + 1, false, ':' :: rest, read ++ [Token.key, t], none⟩ handed { u with
      candidates := u.candidates.filter fun c => c.1 != u.flow
      keyAllowed := false
      queue := front ++ [Token.key, t] } :=
    { state with
      keyAllowed := rfl
      tokens := by rw [← same, List.append_assoc]
      candidates := fun c member => state.candidates c (List.mem_filter.mp member).1
      key := fun n known => by cases known }
  have tokens : read ++ [Token.key, t, .value] = read ++ [Token.key, t] ++ [Token.value] := by
    rw [List.append_assoc]
    rfl
  rw [tokens]
  exact state'.mark rfl .value

/-! ### Words -/

/-- A text between double quotes. -/
theorem fetchAt_quote {s : Scan} (rest : List Char) :
    s.fetchAt '\x22' rest = s.fetchWord (readQuoted '\x22') := by
  have apart (mark : Char) (other : '\x22' ≠ mark) := startsWithMark_of_ne other rest
  rw [fetchAt, apart '-' (by decide), apart '.' (by decide), Bool.and_false]
  rfl

theorem readQuoted_of_reads {body content next : List Char}
    (reads : Quoted.Reads '\x22' (body ++ '\x22' :: next) content next) :
    readQuoted '\x22' ('\x22' :: (body ++ '\x22' :: next)) =
      .ok (.scalar false (String.ofList content), next) := by
  have scalar := reads ('\x22' :: (body ++ '\x22' :: next)).length (Nat.le_succ _)
  rw [readQuoted, List.drop_one, List.tail_cons, scalar]
  rfl

theorem fetches_quoted {body content : List Char}
    (reads : Quoted.Reads '\x22' (body ++ '\x22' :: next) content next) :
    Fetches ⟨flow, keyAllowed, '\x22' :: (body ++ '\x22' :: next), read, none⟩
      ⟨flow, false, next, read ++ [Token.scalar false (String.ofList content)], none⟩ := by
  intro handed s state
  obtain ⟨u, state, fetched⟩ := state.fetch_eq rfl (startsWord_cons (by decide) _)
  obtain ⟨v, word, behind, -⟩ := state.fetchWord rfl
    (show _ = '\x22' :: (body ++ ['\x22']) ++ next by simp) (readQuoted_of_reads reads)
  exact ⟨v, by rw [fetched, fetchAt_quote, word], behind⟩

/-- A short word between double quotes may be a key. -/
theorem fetches_name {name : List Char} (word : ∀ c ∈ name, isGap c = false)
    (short : name.length ≤ 1000)
    (reads : Quoted.Reads '\x22' (name ++ '\x22' :: next) name next) :
    Fetches ⟨flow, true, '\x22' :: (name ++ '\x22' :: next), read, none⟩
      ⟨flow, false, next, read ++ [Token.scalar false (String.ofList name)], some read.length⟩ := by
  intro handed s state
  obtain ⟨u, state, fetched⟩ := state.fetch_eq rfl (startsWord_cons (by decide) _)
  obtain ⟨v, fetched', -, behind⟩ := state.fetchWord rfl
    (show _ = '\x22' :: (name ++ ['\x22']) ++ next by simp) (readQuoted_of_reads reads)
  refine ⟨v, by rw [fetched, fetchAt_quote, fetched'], behind rfl ?_ ?_⟩
  · have quote : isGap '\x22' = false := rfl
    simpa [quote, or_imp, forall_and] using word
  · simp
    omega

/-- A plain scalar in front of what may follow it. -/
theorem read_plain {w tail : List Char}
    (inside : ∀ c ∈ w, isGap c = false ∧ c ≠ ':' ∧ c ∉ ",?[]\x7b\x7d".toList)
    (ends : Json.Ends tail) (least fuel : ℕ) :
    Plain.read true least (fuel + 1) (w ++ tail) = ⟨w, false, tail⟩ := by
  have behind : ∀ c ∈ tail.head?, isGap c = false ∧ Plain.endsWord true c (tail.drop 1) = true := by
    intro c member
    have each : ∀ c ∈ Json.delimiters, isGap c = false ∧ c ∈ ",?[]\x7b\x7d".toList :=
      List.all_iff_forall_prop.mp (by decide)
    obtain ⟨other, known⟩ := each c (ends c member)
    exact ⟨other, by
      rw [Plain.endsWord, List.contains_iff_mem.mpr known, Bool.and_true, Bool.or_true]⟩
  have word : Plain.word true (w ++ tail) = (w, tail) := by
    induction w with
    | nil =>
      cases tail with
      | nil => rfl
      | cons c rest =>
        have stops : Plain.endsWord true c rest = true := (behind c rfl).2
        rw [List.nil_append, Plain.word, stops, if_pos rfl]
    | cons c rest ih =>
      obtain ⟨other, colon, mark⟩ := inside c List.mem_cons_self
      have goesOn : Plain.endsWord true c (rest ++ tail) = false := by
        rw [Plain.endsWord, other, beq_eq_false_iff_ne.mpr colon, Bool.true_and,
          Bool.eq_false_iff.mpr (mt List.contains_iff_mem.mp mark)]
        rfl
      rw [List.cons_append, Plain.word, goesOn, if_neg Bool.false_ne_true,
        ih fun d member => inside d (List.mem_cons_of_mem c member)]
  have gap : Plain.gap tail = ⟨[], false, 0, tail⟩ := by
    cases tail with
    | nil => rfl
    | cons c rest =>
      have other := (behind c rfl).1
      have space : (c == ' ') = false := (Bool.or_eq_false_iff.mp (isBlank_of_isGap other).1).1
      have spaces : (c :: rest).takeWhile (· == ' ') = [] :=
        List.takeWhile_cons_of_neg (by simp [space])
      have skipped : skipSpaces (c :: rest) = c :: rest :=
        List.dropWhile_cons_of_neg (by simp [space])
      rw [Plain.gap, spaces, skipped]
      simp only [takeBreak?_of_isGap other]
  rw [Plain.read, word, gap]
  rfl

end Stage

/-- What words may begin with that stand for numbers, behind a sign. -/
def wordHeads : List Char := 'I' :: 'N' :: Decimal.digitChars

/-- A word without quotes. No mark is part of it. -/
structure IsWord (w : List Char) : Prop where
  inside : ∀ c ∈ w, isGap c = false ∧ c ≠ ':' ∧ c ∉ ",?[]\x7b\x7d".toList
  begins : ∃ negative c rest, w = Decimal.signed negative (c :: rest) ∧ c ∈ wordHeads

/-- A word is told from marks by its first characters, whatever follows it. -/
theorem IsWord.exists_head {w : List Char} (word : IsWord w) (tail : List Char) :
    ∃ c rest, w = c :: rest ∧ Style.isMark c = false ∧ c ≠ '?' ∧ c ≠ ':' ∧ c ≠ '#' ∧
      c ≠ '\uFEFF' ∧ (c = '-' → atGap (rest ++ tail) = false) ∧
      atSeparator (c :: (rest ++ tail)) = false := by
  have known : ∀ c ∈ wordHeads, Style.isMark c = false ∧ c ≠ '?' ∧ c ≠ ':' ∧ c ≠ '#' ∧
      c ≠ '\uFEFF' ∧ isGap c = false ∧ c ≠ '-' ∧ c ≠ '.' := List.all_iff_forall_prop.mp (by decide)
  obtain ⟨negative, c, rest, rfl, member⟩ := word.begins
  obtain ⟨mark, question, colon, hash, order, gap, hyphen, point⟩ := known c member
  cases negative with
  | true =>
    refine ⟨'-', c :: rest, rfl, rfl, by decide, by decide, by decide, by decide, fun _ => gap, ?_⟩
    -- One hyphen is followed by something else.
    have single : (c == '-') = false := beq_eq_false_iff_ne.mpr hyphen
    have points : startsWithMark '.' ('-' :: (c :: rest ++ tail)) = false :=
      startsWithMark_of_ne (by decide) _
    rw [atSeparator, points, Bool.or_false, List.cons_append]
    cases rest ++ tail with
    | nil => rfl
    | cons d more => simp [startsWithMark, single]
  | false =>
    exact ⟨c, rest, rfl, mark, question, colon, hash, order, fun same => absurd same hyphen,
      atSeparator_cons hyphen point⟩

namespace Stage

open Scan

variable {flow : ℕ} {keyAllowed : Bool} {next w : List Char} {read : List Token}

/-- A word without quotes in flow context. -/
theorem fetches_word (word : IsWord w) (ends : Json.Ends next) :
    Fetches ⟨flow + 1, keyAllowed, w ++ next, read, none⟩
      ⟨flow + 1, false, next, read ++ [Token.scalar true (String.ofList w)], none⟩ := by
  intro handed s state
  obtain ⟨c, rest, rfl, mark, question, colon, hash, order, bare, separator⟩ :=
    word.exists_head next
  have gap : isGap c = false := (word.inside c List.mem_cons_self).1
  obtain ⟨u, state, fetched⟩ := state.fetch_eq (List.cons_append ..)
    (startsWord_cons ⟨gap, hash, order⟩ _)
  rw [fetchAt_plain (.inr ⟨question, colon⟩) (fun _ => separator) gap mark
    fun same => bare ((same.resolve_left question).resolve_left colon)] at fetched
  -- The scalar ends in front of what follows, so it is read as any other word.
  obtain ⟨v, added, state', -, -⟩ := state.addCandidate rfl
  have level : (v.flow != 0) = true := by
    rw [state'.flow]
    rfl
  have scalar : Plain.read (v.flow != 0) v.least v.cursor.rest.length v.cursor.rest =
      ⟨c :: rest, false, next⟩ := by
    rw [level, state'.rest]
    exact read_plain word.inside ends _ _
  let readWord (_ : List Char) : Except Failure (Token × List Char) :=
    .ok (.scalar true (String.ofList (c :: rest)), next)
  have same : u.fetchPlain = u.fetchWord readWord := by
    rw [fetchPlain, fetchWord, added, except_ok_bind, except_ok_bind]
    simp only [scalar]
    rfl
  have reads (cs : List Char) :
      readWord cs = .ok (.scalar true (String.ofList (c :: rest)), next) := rfl
  obtain ⟨x, fetched', behind, -⟩ :=
    state.fetchWord rfl (show _ = c :: rest ++ next from rfl) (reads _)
  exact ⟨x, by rw [fetched, same, fetched'], behind⟩

/-- A space in front of a word makes no difference. -/
theorem Fetches.behind {h : Stage} {gap : List Char} (space : gap = [] ∨ gap = [' '])
    (fetches : Fetches ⟨flow, keyAllowed, next, read, none⟩ h) (word : StartsWord next) :
    Fetches ⟨flow, keyAllowed, gap ++ next, read, none⟩ h := by
  rcases space with rfl | rfl
  · exact fetches
  · exact fetches.space word

end Stage

/-- At the end of the text everything is handed over. -/
theorem Scan.At.exists_run_end {s : Scan} {read handed : List Token} {keyAllowed : Bool}
    (state : At ⟨0, keyAllowed, [], read, none⟩ handed s) :
    ∃ more, handed ++ more = read ++ [Token.streamEnd] ∧
      ∀ fuel, run (fuel + (s.queue.length + 3)) s = (more, none) := by
  -- What is fetched there is the end of the text.
  have fetches (handed : List Token) (s : Scan)
      (state : At ⟨0, keyAllowed, [], read, none⟩ handed s) :
      ∃ t, s.fetch = .ok t ∧ t.finished = true ∧ t.candidates = [] ∧
        handed ++ t.queue = read ++ [Token.streamEnd] := by
    obtain ⟨t, stale, state', -, -⟩ := state.dropStale
    obtain ⟨u, dropped, state'', -⟩ := state'.dropCandidate
    have known : t.cursor.rest = [] := state'.rest
    have skipped : s.skipToWord = s := skipToWord_of_startsWord fun c first => by
      rw [state.rest] at first
      cases first
    have stays (column : ℤ) (outside : -1 ≤ column) : t.unwind column = t :=
      unwind_of_le fun _ => by
        rw [state'.indent]
        exact outside
    refine ⟨{ u with
      keyAllowed := false, candidates := [], queue := u.queue ++ [Token.streamEnd]
      finished := true },
      ?_, rfl, rfl, by rw [← List.append_assoc, state''.tokens]⟩
    have inside : -1 ≤ (t.cursor.column : ℤ) := by omega
    simp only [fetch, skipped, stale, except_ok_bind, stays _ inside,
      known, fetchEnd, leaveBlocks, stays (-1) le_rfl, dropped]
    rfl
  obtain ⟨more, t, ⟨finished, none, tokens⟩, few, runs⟩ := state.exists_run fetches
  have size : more.length + t.queue.length = s.queue.length + 1 := by
    have before := congrArg List.length state.tokens
    have behind := congrArg List.length tokens
    simp only [List.length_append, List.length_singleton] at before behind
    omega
  refine ⟨more ++ t.queue, by rw [← List.append_assoc, tokens], fun fuel => ?_⟩
  have total : fuel + (s.queue.length + 3) = fuel + 1 + t.queue.length + (more.length + 1) := by
    omega
  have ended : run (fuel + 1) { t with queue := [], taken := t.taken + t.queue.length } =
      ([], Option.none) := by
    rw [run]
    simp only [finished, isReady, Bool.true_or, if_true]
  rw [total, runs, run_queue none, ended, List.append_nil]

end ClenshawCode.Yaml
