import ClenshawCode.Proofs.Comment.Sanitize
import ClenshawCode.Proofs.Text.Backtrack
import ClenshawCode.Proofs.Text.Runs

/-!
# Joining the lines of a description

Lines are joined by replacing the pattern of a line break with blanks around it. A backtracking
matcher reads all blanks at first and gives back one after another until a line break follows, and
then reads all blanks again. So a match is a whole gap that holds a line break, and joining gives
every such gap as one space and the other runs as they are.

## Main definitions

* `Comment.breakRun`: the pattern of a line break with blanks around it
* `Comment.collapse`: a run, joined

## Main results

* `Comment.substitute_breakRun`: joining lines replaces the pattern by a space
* `Comment.joinLines_eq`: joining lines, run by run
* `Comment.sanitize_collapses`: what becomes of a description
-/

namespace ClenshawCode.Comment

open Text Pattern

/-- A line break with any blanks in front of it and behind it. -/
def breakRun : Pattern := both (many (one isBlank)) (both (one isLineBreak) (many (one isBlank)))

/-- One space for a run that holds a line break; any other run is kept. -/
def collapse (run : List Char) : List Char := if run.any isLineBreak then [' '] else run

section Matching

/-- A break with blanks around it is found where there is a line break. -/
theorem searches_breakRun (cs : List Char) : breakRun.searches cs = cs.any isLineBreak := by
  rw [Bool.eq_iff_iff, searches_iff, List.any_eq_true]
  constructor
  · rintro ⟨before, s, after, rfl, denoted⟩
    obtain ⟨a, b, rfl, -, denoted⟩ := denotes_both_iff.mp denoted
    obtain ⟨d, e, rfl, single, -⟩ := denotes_both_iff.mp denoted
    cases single with
    | one breaks => exact ⟨_, by simp, breaks⟩
  · rintro ⟨c, member, breaks⟩
    obtain ⟨before, after, rfl⟩ := List.append_of_mem member
    exact ⟨before, [c], after, by simp, .both .manyNil (.both (.one breaks) .manyNil)⟩

/-- A break is matched with all blanks behind it. -/
theorem head?_rests_break (c : Char) (cs : List Char) :
    ((both (one isLineBreak) (many (one isBlank))).rests (c :: cs)).head? =
      if isLineBreak c then some (cs.dropWhile isBlank) else none := by
  rw [rests, rests]
  split_ifs
  · rw [List.flatMap_singleton, head?_rests_many_one]
  · rfl

/-- The preferred match at the front is the whole gap there, if it holds a line break. -/
theorem head?_rests_breakRun (cs : List Char) :
    (breakRun.rests cs).head? =
      if (cs.takeWhile isBlank).any isLineBreak then some (cs.dropWhile isBlank) else none := by
  rw [breakRun, rests]
  induction cs with
  | nil => rfl
  | cons c cs ih =>
    rw [rests_many_one_cons, List.flatMap_append, List.flatMap_singleton, List.head?_append,
      head?_rests_break]
    by_cases blank : isBlank c = true
    · rw [if_pos blank, ih, List.takeWhile_cons_of_pos blank, List.dropWhile_cons_of_pos blank,
        List.any_cons]
      -- A break further on is preferred to one given back later.
      by_cases later : (cs.takeWhile isBlank).any isLineBreak = true
      · simp [later]
      · simp [later]
    · have unbroken := isLineBreak_of_not_isBlank (Bool.eq_false_iff.mpr blank)
      rw [if_neg blank, List.takeWhile_cons_of_neg blank, unbroken]
      rfl

/-- Replacing takes a whole gap with a line break at the front, or keeps the first character. -/
theorem substitute_breakRun_eq (cs : List Char) :
    breakRun.substitute [' '] cs =
      if (cs.takeWhile isBlank).any isLineBreak then
        ' ' :: breakRun.substitute [' '] (cs.dropWhile isBlank)
      else match cs with
        | [] => []
        | c :: cs => c :: breakRun.substitute [' '] cs := by
  have reads : breakRun.acceptsEmpty = false := rfl
  rw [substitute_eq reads, head?_rests_breakRun]
  split_ifs <;> rfl

end Matching

section Joining

variable {run cs : List Char}

/-- The run that is being read is joined with the blanks in front of what is left. -/
theorem joinRuns_eq (run cs : List Char) :
    joinRuns run cs =
      collapse (run.reverse ++ cs.takeWhile isBlank) ++ joinLines (cs.dropWhile isBlank) := by
  induction cs generalizing run with
  | nil => simp [joinRuns, joinLines, collapse]
  | cons c cs ih =>
    by_cases blank : isBlank c = true
    · rw [joinRuns, if_pos blank, ih, List.takeWhile_cons_of_pos blank,
        List.dropWhile_cons_of_pos blank]
      simp
    · rw [List.takeWhile_cons_of_neg blank, List.dropWhile_cons_of_neg blank, joinLines, joinRuns,
        joinRuns, if_neg blank, if_neg blank]
      simp [collapse]

/-- A character that is no blank is kept. -/
theorem joinLines_cons {c : Char} (word : isBlank c = false) :
    joinLines (c :: cs) = c :: joinLines cs := by
  simp [joinLines, joinRuns, word]

/-- The blanks at the front are joined on their own. -/
theorem joinLines_eq_append (cs : List Char) :
    joinLines cs = collapse (cs.takeWhile isBlank) ++ joinLines (cs.dropWhile isBlank) :=
  joinRuns_eq [] cs

theorem joinLines_gap_append (gap : isGap run = true)
    (ends : ∀ c ∈ cs.head?, isBlank c = false) :
    joinLines (run ++ cs) = collapse run ++ joinLines cs := by
  have blanks := List.all_eq_true.mp gap
  have behind : cs.takeWhile isBlank = [] ∧ cs.dropWhile isBlank = cs := by
    cases cs with
    | nil => exact ⟨rfl, rfl⟩
    | cons c cs => simp [ends c rfl]
  rw [joinLines_eq_append, List.takeWhile_append_of_pos blanks,
    List.dropWhile_append_of_pos blanks, behind.1, behind.2, List.append_nil]

theorem joinLines_word_append (word : ∀ c ∈ run, isBlank c = false) :
    joinLines (run ++ cs) = run ++ joinLines cs := by
  induction run with
  | nil => rfl
  | cons c run ih =>
    rw [List.cons_append, joinLines_cons (word c List.mem_cons_self),
      ih fun a member => word a (List.mem_cons_of_mem c member), List.cons_append]

/-- Joining lines takes a whole gap with a line break at the front, or keeps the first character. -/
theorem joinLines_eq_ite (cs : List Char) :
    joinLines cs =
      if (cs.takeWhile isBlank).any isLineBreak then ' ' :: joinLines (cs.dropWhile isBlank)
      else match cs with
        | [] => []
        | c :: cs => c :: joinLines cs := by
  split_ifs with broken
  · rw [joinLines_eq_append, collapse, if_pos broken]
    rfl
  · cases cs with
    | nil => rfl
    | cons c cs =>
      change joinLines (c :: cs) = c :: joinLines cs
      by_cases blank : isBlank c = true
      · -- No break is among the blanks in front of what is left either.
        rw [List.takeWhile_cons_of_pos blank, List.any_cons, Bool.or_eq_true, not_or] at broken
        rw [joinLines_eq_append, joinLines_eq_append cs, List.takeWhile_cons_of_pos blank,
          List.dropWhile_cons_of_pos blank, collapse, collapse, List.any_cons,
          if_neg (by simp [broken]), if_neg broken.2, List.cons_append]
      · exact joinLines_cons (Bool.eq_false_iff.mpr blank)

/-- Joining lines is replacing the pattern by a space. -/
theorem substitute_breakRun (cs : List Char) : breakRun.substitute [' '] cs = joinLines cs := by
  -- The induction is on the length: a match takes a whole gap.
  induction length : cs.length using Nat.strong_induction_on generalizing cs with
  | h n ih =>
    rw [substitute_breakRun_eq, joinLines_eq_ite]
    by_cases broken : (cs.takeWhile isBlank).any isLineBreak = true
    · have shorter : (cs.dropWhile isBlank).length < n := by
        have some : cs.takeWhile isBlank ≠ [] := by
          intro none
          rw [none] at broken
          cases broken
        have positive := List.length_pos_iff.mpr some
        have whole : (cs.takeWhile isBlank ++ cs.dropWhile isBlank).length = cs.length := by
          rw [List.takeWhile_append_dropWhile]
        rw [List.length_append] at whole
        omega
      rw [if_pos broken, if_pos broken, ih _ shorter _ rfl]
    · rw [if_neg broken, if_neg broken]
      cases cs with
      | nil => rfl
      | cons c cs =>
        have shorter : cs.length < n := by
          rw [← length]
          exact Nat.lt_succ_self _
        simp only [ih _ shorter cs rfl]

end Joining

section Collapsed

variable {run : List Char} {rs : List (List Char)}

/-- A joined run has blanks where the run has some. -/
theorem exists_of_mem_collapse {c : Char} (member : c ∈ collapse run) :
    ∃ a ∈ run, isBlank c = isBlank a := by
  rw [collapse] at member
  split at member
  · rename_i broken
    obtain ⟨a, inside, breaks⟩ := List.any_eq_true.mp broken
    obtain rfl := List.mem_singleton.mp member
    exact ⟨a, inside, (isBlank_of_isLineBreak breaks).symm⟩
  · exact ⟨c, member, rfl⟩

/-- A run without blanks is kept. -/
theorem collapse_of_word (word : ∀ c ∈ run, isBlank c = false) : collapse run = run := by
  rw [collapse, if_neg]
  rw [List.any_eq_true]
  rintro ⟨c, member, breaks⟩
  rw [isLineBreak_of_not_isBlank (word c member)] at breaks
  cases breaks

/-- Joined runs are runs. -/
theorem areRuns_collapse (are : AreRuns rs) : AreRuns (rs.map collapse) where
  nonempty := by
    intro member
    obtain ⟨run, inside, none⟩ := List.mem_map.mp member
    rw [collapse] at none
    split at none
    · cases none
    · exact are.ne_nil inside none
  alike := by
    intro joined member a first b second
    obtain ⟨run, inside, rfl⟩ := List.mem_map.mp member
    obtain ⟨a', known, same⟩ := exists_of_mem_collapse first
    obtain ⟨b', known', same'⟩ := exists_of_mem_collapse second
    rw [same, same']
    exact are.alike run inside a' known b' known'
  alternate := by
    rw [List.isChain_map]
    refine are.alternate.imp ?_
    intro run next differ a first b second
    obtain ⟨a', known, same⟩ := exists_of_mem_collapse first
    obtain ⟨b', known', same'⟩ := exists_of_mem_collapse second
    rw [same, same']
    exact differ a' known b' known'

/-- The words among joined runs are those among the runs. -/
theorem filter_map_collapse (are : AreRuns rs) :
    ((rs.map collapse).filter fun run => !isGap run) = rs.filter fun run => !isGap run := by
  induction rs with
  | nil => rfl
  | cons run rs ih =>
    rw [List.map_cons]
    cases gap : isGap run with
    | true =>
      have joined : isGap (collapse run) = true := by
        refine List.all_eq_true.mpr fun c member => ?_
        obtain ⟨a, inside, same⟩ := exists_of_mem_collapse member
        rw [same]
        exact List.all_eq_true.mp gap a inside
      rw [List.filter_cons_of_neg (by simp [joined]), List.filter_cons_of_neg (by simp [gap]),
        ih are.tail]
    | false =>
      have word := are.not_isBlank List.mem_cons_self gap
      rw [collapse_of_word word, List.filter_cons_of_pos (by simp [gap]),
        List.filter_cons_of_pos (by simp [gap]), ih are.tail]

/-- Joining the lines of a text joins each of its runs. -/
theorem joinLines_flatten (are : AreRuns rs) :
    joinLines rs.flatten = (rs.map collapse).flatten := by
  induction rs with
  | nil => rfl
  | cons run rs ih =>
    rw [List.flatten_cons, List.map_cons, List.flatten_cons, ← ih are.tail]
    cases gap : isGap run with
    | true =>
      refine joinLines_gap_append gap ?_
      intro c next
      rw [are.isBlank_head? next, gap]
      rfl
    | false =>
      have word := are.not_isBlank List.mem_cons_self gap
      rw [collapse_of_word word, joinLines_word_append word]

theorem joinLines_eq (cs : List Char) : joinLines cs = ((runs cs).map collapse).flatten := by
  rw [← joinLines_flatten (areRuns_runs cs), flatten_runs]

/-- The runs of joined lines without the blanks at the ends. -/
theorem runs_trim_joinLines (cs : List Char) :
    runs (trim (joinLines cs)) = trimRuns ((runs cs).map collapse) := by
  rw [joinLines_eq]
  exact (areRuns_collapse (areRuns_runs cs)).runs_trim

/-- The words of a text are those of its joined lines. -/
theorem splitWords_trim_joinLines (cs : List Char) :
    splitWords (trim (joinLines cs)) = splitWords cs := by
  have are := areRuns_runs cs
  have joined := areRuns_runs (trim (joinLines cs))
  have words := are.splitWords_flatten
  have words' := joined.splitWords_flatten
  rw [flatten_runs] at words words'
  rw [words', runs_trim_joinLines, filter_trimRuns, filter_map_collapse are, words]

end Collapsed

section Descriptions

variable {s : String}

theorem sanitize_of_isOneLine (single : isOneLine s = true) : sanitize (.text s) = ⟨[], .ok s⟩ := by
  rw [isOneLine, Bool.not_eq_true'] at single
  rw [sanitize, single]
  rfl

theorem sanitize_of_broken (broken : s.toList.any isLineBreak = true) :
    sanitize (.text s) = ⟨[.joinedLines s], .ok (String.ofList (trim (joinLines s.toList)))⟩ := by
  rw [sanitize, broken]
  rfl

/-- What becomes of a description. The pattern of a line break with blanks around it is found in
the texts with line breaks. A text without any is kept and there is no warning. Of any other text
the matches are replaced by a space and blanks at the ends are dropped, with one warning: each run
that holds a line break becomes a space, every other one stays unless it is a gap at an end. In
either case what results is one line with the same words, and it is kept the next time. -/
theorem sanitize_collapses (s : String) :
    (breakRun.searches s.toList = true ↔ ∃ c ∈ s.toList, isLineBreak c = true) ∧
      ((∀ c ∈ s.toList, isLineBreak c = false) → sanitize (.text s) = ⟨[], .ok s⟩) ∧
      ((∃ c ∈ s.toList, isLineBreak c = true) → ∃ t,
        sanitize (.text s) = ⟨[.joinedLines s], .ok t⟩ ∧
        t.toList = trim (breakRun.substitute [' '] s.toList) ∧
        t.toList = trim ((runs s.toList).map collapse).flatten ∧
        runs t.toList = trimRuns ((runs s.toList).map collapse)) ∧
      ∃ t, (sanitize (.text s)).result = .ok t ∧ (∀ c ∈ t.toList, isLineBreak c = false) ∧
        splitWords t.toList = splitWords s.toList ∧ sanitize (.text t) = ⟨[], .ok t⟩ := by
  refine ⟨?_, ?_, ?_, sanitized s, sanitize_text s, ?_, ?_, ?_⟩
  · rw [searches_breakRun, List.any_eq_true]
  · intro unbroken
    exact sanitize_of_isOneLine (isOneLine_iff.mpr unbroken)
  · intro broken
    refine ⟨_, sanitize_of_broken (List.any_eq_true.mpr broken), ?_, ?_, ?_⟩
    · rw [String.toList_ofList, substitute_breakRun]
    · rw [String.toList_ofList, joinLines_eq]
    · rw [String.toList_ofList, runs_trim_joinLines]
  · exact isOneLine_iff.mp (isOneLine_sanitized s)
  · rw [sanitized]
    split
    · rw [String.toList_ofList, splitWords_trim_joinLines]
    · rfl
  · exact sanitize_of_isOneLine (isOneLine_sanitized s)

/-- A gap with breaks among other blanks becomes a space, one without breaks stays, and those at the
ends are dropped; without a break they would not be. -/
theorem sanitize_collapses_mixed :
    (∀ c ∈ " a\u00a0b ".toList, isLineBreak c = false) ∧
      sanitize (.text " a\u00a0b ") = ⟨[], .ok " a\u00a0b "⟩ ∧
      (∃ c ∈ " a\t\r\n \u2028\u3000b\u00a0 c ".toList, isLineBreak c = true) ∧
      ∃ t, sanitize (.text " a\t\r\n \u2028\u3000b\u00a0 c ") =
          ⟨[.joinedLines " a\t\r\n \u2028\u3000b\u00a0 c "], .ok t⟩ ∧
        runs t.toList = [['a'], [' '], ['b'], ['\u00a0', ' '], ['c']] ∧
        sanitize (.text t) = ⟨[], .ok t⟩ := by
  have unbroken : ∀ c ∈ " a\u00a0b ".toList, isLineBreak c = false :=
    isOneLine_iff.mp (by decide)
  have broken : ∃ c ∈ " a\t\r\n \u2028\u3000b\u00a0 c ".toList, isLineBreak c = true :=
    ⟨'\n', by decide, by decide⟩
  obtain ⟨-, kept, -⟩ := sanitize_collapses " a\u00a0b "
  obtain ⟨-, -, joined, t, result, -, -, again⟩ :=
    sanitize_collapses " a\t\r\n \u2028\u3000b\u00a0 c "
  obtain ⟨t', done, -, -, read⟩ := joined broken
  have same : t' = t := by
    rw [done] at result
    exact Except.ok.inj result
  rw [same] at done read
  refine ⟨unbroken, kept unbroken, broken, t, done, ?_, again⟩
  rw [read]
  decide

end Descriptions

end ClenshawCode.Comment
