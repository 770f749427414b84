import ClenshawCode.Proofs.Yaml.Stage

/-!
# The tokens of lists and tables in brackets

A part of a list or table is a scalar, an entry with a name between double quotes, or a list or
table again. Its tokens are those of the parts that it is made of, whatever follows it, and so the
tokens of a whole text are put together part by part.

## Main definitions

* `Yaml.GivesPart`: the tokens of a part of a list or table

## Main results

* `Yaml.givesPart_word`, `Yaml.givesPart_quoted`, `Yaml.givesPart_entry`,
  `Yaml.givesPart_brackets`: scalars, entries of tables, and lists and tables themselves
* `Yaml.tokens_of_givesPart`: the tokens of a text that is one part
-/

namespace ClenshawCode.Yaml

/-- A part of a list or table gives some tokens, with or without a space in front of it. -/
def GivesPart (flow : ℕ) (keyAllowed : Bool) (cs : List Char) (ts : List Token) : Prop :=
  ∀ gap rest read, gap = [] ∨ gap = [' '] → Json.Ends rest →
    Stage.Passes ⟨flow, keyAllowed, gap ++ (cs ++ rest), read, none⟩
      ⟨flow, false, rest, read ++ ts, none⟩

section Parts

open Stage

variable {flow : ℕ} {keyAllowed : Bool} {cs w : List Char} {ts : List Token}

theorem startsWord_of_isWord (word : IsWord w) (tail : List Char) : StartsWord (w ++ tail) := by
  obtain ⟨c, rest, rfl, -, -, -, hash, order, -⟩ := word.exists_head tail
  exact startsWord_cons ⟨(word.inside c List.mem_cons_self).1, hash, order⟩ _

theorem givesPart_word (word : IsWord w) :
    GivesPart (flow + 1) keyAllowed w [.scalar true (String.ofList w)] := by
  intro gap rest read space ends
  obtain ⟨c, others, form, -⟩ := word.exists_head rest
  refine ((fetches_word word ends).behind space (startsWord_of_isWord word rest)).passes ?_ ?_
  · simp [form]
    omega
  · simp

/-- No apostrophe follows a part. -/
theorem apart_of_ends {rest : List Char} (ends : Json.Ends rest) :
    startsWith (· == '\x27') rest = false := by
  have each : ∀ c ∈ Json.delimiters, (c == '\x27') = false :=
    List.all_iff_forall_prop.mp (by decide)
  cases rest with
  | nil => rfl
  | cons c rest => exact each c (ends c rfl)

theorem givesPart_quoted {body content : List Char}
    (reads : ∀ tail, startsWith (· == '\x27') tail = false →
      Quoted.Reads '\x22' (body ++ '\x22' :: tail) content tail) :
    GivesPart flow keyAllowed ('\x22' :: (body ++ ['\x22']))
      [.scalar false (String.ofList content)] := by
  intro gap rest read space ends
  have written : '\x22' :: (body ++ ['\x22']) ++ rest = '\x22' :: (body ++ '\x22' :: rest) := by
    simp
  rw [written]
  refine ((fetches_quoted (reads rest (apart_of_ends ends))).behind space
    (startsWord_cons (by decide) _)).passes ?_ ?_
  · simp
    omega
  · simp

/-- A word that means itself between double quotes and may be a key there. -/
structure IsKey (name : List Char) : Prop where
  word : ∀ c ∈ name, isGap c = false ∧ c ≠ '\x22' ∧ c ≠ '\\'
  short : name.length ≤ 1000

theorem IsKey.reads {name tail : List Char} (isKey : IsKey name)
    (apart : startsWith (· == '\x27') tail = false) :
    Quoted.Reads '\x22' (name ++ '\x22' :: tail) name tail := by
  have word := isKey.word
  clear isKey
  induction name with
  | nil => exact Quoted.reads_closing apart
  | cons c rest ih =>
    obtain ⟨other, quote, backslash⟩ := word c List.mem_cons_self
    exact (ih fun d member => word d (List.mem_cons_of_mem c member)).char other quote
      fun same => absurd same backslash

/-- An entry of a table. -/
theorem givesPart_entry {name : List Char} (isKey : IsKey name)
    (value : GivesPart (flow + 1) false cs ts) :
    GivesPart (flow + 1) true ('\x22' :: (name ++ '\x22' :: ':' :: ' ' :: cs))
      (.key :: .scalar false (String.ofList name) :: .value :: ts) := by
  intro gap rest read space ends
  have written : '\x22' :: (name ++ '\x22' :: ':' :: ' ' :: cs) ++ rest =
      '\x22' :: (name ++ '\x22' :: ':' :: ' ' :: (cs ++ rest)) := by
    simp
  have given : read ++ Token.key :: .scalar false (String.ofList name) :: .value :: ts =
      read ++ [Token.key, .scalar false (String.ofList name), .value] ++ ts := by
    simp
  rw [written, given]
  let behind := ':' :: ' ' :: (cs ++ rest)
  have key : Fetches ⟨flow + 1, true, '\x22' :: (name ++ '\x22' :: behind), read, none⟩
      ⟨flow + 1, false, behind, read ++ [Token.scalar false (String.ofList name)],
        some read.length⟩ :=
    fetches_name (fun c member => (isKey.word c member).1) isKey.short (isKey.reads rfl)
  have colon : Fetches
      ⟨flow + 1, false, behind, read ++ [Token.scalar false (String.ofList name)], some read.length⟩
      ⟨flow + 1, false, ' ' :: (cs ++ rest),
        read ++ [Token.key, .scalar false (String.ofList name), .value], none⟩ := fetches_colon
  have first := (key.behind space (startsWord_cons (by decide) _)).passes
    (by simp; omega) (by simp)
  have second := colon.passes (by simp [behind]) (by simp)
  exact (first.trans second).trans (value [' '] rest _ (.inr rfl) ends)

/-- Some parts and the closing bracket behind them. -/
theorem passes_parts (b : Brackets) (part : List Char × List Token)
    (parts : List (List Char × List Token))
    (each : ∀ p ∈ part :: parts, GivesPart (flow + 1) true p.1 p.2) {gap : List Char}
    (space : gap = [] ∨ gap = [' ']) (rest : List Char) (read : List Token) :
    Passes ⟨flow + 1, true,
        gap ++ ([',', ' '].intercalate ((part :: parts).map Prod.fst) ++ b.closing :: rest), read,
        none⟩
      ⟨flow, false, rest,
        read ++ [Token.flowEntry].intercalate ((part :: parts).map Prod.snd) ++ [b.stop],
        none⟩ := by
  induction parts generalizing part gap read with
  | nil =>
    have first := each part List.mem_cons_self gap (b.closing :: rest) read space
      (Json.ends_cons (by cases b <;> decide) rest)
    simp only [List.map_cons, List.map_nil, List.intercalate_singleton]
    exact first.trans ((fetches_close b).passes (by simp) (by simp; omega))
  | cons next parts ih =>
    let others := [',', ' '].intercalate ((next :: parts).map Prod.fst) ++ b.closing :: rest
    have first := each part List.mem_cons_self gap (',' :: ' ' :: others) read space
      (Json.ends_cons (by decide) _)
    have comma : Passes ⟨flow + 1, false, ',' :: ' ' :: others, read ++ part.2, none⟩
        ⟨flow + 1, true, ' ' :: others, read ++ part.2 ++ [Token.flowEntry], none⟩ :=
      fetches_comma.passes (by simp) (by simp; omega)
    have more := ih next (fun p member => each p (List.mem_cons_of_mem part member))
      (.inr rfl : [' '] = [] ∨ [' '] = [' ']) (read ++ part.2 ++ [Token.flowEntry])
    have whole := first.trans (comma.trans more)
    simpa [List.intercalate_cons_cons, others] using whole

/-- A list or table in brackets, with commas between its parts. -/
theorem givesPart_brackets (b : Brackets) (parts : List (List Char × List Token))
    (each : ∀ p ∈ parts, GivesPart (flow + 1) true p.1 p.2) :
    GivesPart flow keyAllowed
      (b.opening :: ([',', ' '].intercalate (parts.map Prod.fst) ++ [b.closing]))
      (b.start :: ([Token.flowEntry].intercalate (parts.map Prod.snd) ++ [b.stop])) := by
  intro gap rest read space ends
  let inner := [',', ' '].intercalate (parts.map Prod.fst) ++ b.closing :: rest
  have opening : Passes ⟨flow, keyAllowed, gap ++ b.opening :: inner, read, none⟩
      ⟨flow + 1, true, inner, read ++ [b.start], none⟩ :=
    ((fetches_open b).behind space (startsWord_cons (by cases b <;> decide) _)).passes
      (by simp; omega) (by simp)
  have closing : Passes ⟨flow + 1, true, inner, read ++ [b.start], none⟩ ⟨flow, false, rest,
      read ++ [b.start] ++ [Token.flowEntry].intercalate (parts.map Prod.snd) ++ [b.stop],
      none⟩ := by
    cases parts with
    | nil =>
      simp only [inner, List.map_nil, List.intercalate_nil, List.nil_append, List.append_nil]
      exact (fetches_close b).passes (by simp) (by simp)
    | cons part parts => exact passes_parts b part parts each (.inl rfl) rest _
  have whole := opening.trans closing
  simpa [inner] using whole

end Parts

/-- A text that is one part gives the tokens of the part. -/
theorem tokens_of_givesPart {cs : List Char} {ts : List Token} (part : GivesPart 0 true cs ts) :
    tokens cs = (ts ++ [Token.streamEnd], none) := by
  have passes := part [] [] [] (.inl rfl) Json.ends_nil
  rw [List.nil_append, List.append_nil, List.nil_append] at passes
  have start : Scan.At ⟨0, true, cs, [], none⟩ [] { cursor := { rest := cs } } := {
    more := rfl, flow := rfl, keyAllowed := rfl, rest := rfl, indent := rfl, indents := rfl
    tokens := rfl, taken := rfl, candidates := fun c member => absurd member List.not_mem_nil
    key := fun n known => by cases known }
  obtain ⟨handed, t, n, state, few, runs⟩ := passes [] _ start
  obtain ⟨more, whole, ends⟩ := state.exists_run_end
  -- There are more steps than characters and tokens.
  obtain ⟨fuel, total⟩ : ∃ fuel, 8 * cs.length + 16 = fuel + (t.queue.length + 3) + n := by
    refine ⟨8 * cs.length + 13 - t.queue.length - n, ?_⟩
    simp only [List.length_nil] at few
    omega
  rw [tokens, total, runs, ends]
  exact congrArg (·, none) whole

end ClenshawCode.Yaml
