import ClenshawCode.Text.Blank
import Mathlib.Data.List.DropRight
import Mathlib.Data.List.SplitBy

/-!
# Runs of blanks and words

A text is a list of runs, each as long as possible: gaps of blanks and words of other characters,
in turn. The runs of a text are the only parts of it that are not empty and alternate. Dropping the
blanks at the ends of a text drops the gaps at the ends of its runs, and the words of a text are its
runs that are no gaps.

## Main definitions

* `runs`: the runs of a text
* `AreRuns`: what makes some parts of a text its runs
* `trimRuns`: runs without the gaps at the two ends
* `splitWords`: the words of a text, split at its blanks

## Main results

* `runs_eq_iff`: the runs of a text are the only parts of it that are runs
* `AreRuns.runs_trim`: the runs of a text without the blanks at its ends
* `AreRuns.splitWords_flatten`: the words of a text are the runs of it that are no gaps
-/

namespace ClenshawCode.Text

/-- The runs of a text: its longest parts in which all characters or none are blanks. -/
def runs (cs : List Char) : List (List Char) := cs.splitBy fun a b => isBlank a == isBlank b

/-- Whether a run consists of blanks. -/
def isGap (run : List Char) : Bool := run.all isBlank

/-- Runs without the gaps at the two ends. -/
def trimRuns (rs : List (List Char)) : List (List Char) := (rs.dropWhile isGap).rdropWhile isGap

/-- The words of a text: what is between its blanks, unless it is empty. -/
def splitWords (cs : List Char) : List (List Char) :=
  (cs.splitOnP isBlank).filter fun word => !word.isEmpty

/-- Parts of a text that are its runs: none is empty, all characters of a run or none are blanks,
and gaps and words alternate. -/
structure AreRuns (rs : List (List Char)) : Prop where
  nonempty : [] ∉ rs
  alike : ∀ run ∈ rs, ∀ a ∈ run, ∀ b ∈ run, isBlank a = isBlank b
  alternate : rs.IsChain fun run next => ∀ a ∈ run, ∀ b ∈ next, isBlank a ≠ isBlank b

section Runs

variable {cs run : List Char} {rs rs' : List (List Char)}

/-- What is no blank breaks no line. -/
theorem isLineBreak_of_not_isBlank {c : Char} (word : isBlank c = false) :
    isLineBreak c = false := by
  by_contra breaks
  rw [isBlank_of_isLineBreak (by simpa using breaks)] at word
  cases word

/-- Characters are alike if each one is like the next. -/
theorem isChain_alike_iff :
    (run.IsChain fun a b => (isBlank a == isBlank b) = true) ↔
      ∀ a ∈ run, ∀ b ∈ run, isBlank a = isBlank b := by
  have mapped : (run.IsChain fun a b => (isBlank a == isBlank b) = true) ↔
      run.Pairwise fun a b => isBlank a = isBlank b := by
    simp only [beq_iff_eq]
    rw [← List.pairwise_map (R := Eq), ← List.isChain_map (R := Eq), List.isChain_iff_pairwise]
  rw [mapped]
  constructor
  · intro related a first b second
    have : Std.Symm fun a b : Char => isBlank a = isBlank b := ⟨fun _ _ => Eq.symm⟩
    refine related.forall_of_forall ?_ first second
    exact fun _ _ => rfl
  · intro alike
    exact List.pairwise_of_forall_mem_list alike

namespace AreRuns

theorem ne_nil (are : AreRuns rs) (member : run ∈ rs) : run ≠ [] := by
  rintro rfl
  exact are.nonempty member

/-- Successive runs are runs. -/
theorem of_isInfix (are : AreRuns rs) (part : rs' <:+: rs) : AreRuns rs' where
  nonempty := fun member => are.nonempty (part.subset member)
  alike := fun run member => are.alike run (part.subset member)
  alternate := are.alternate.infix part

theorem tail (are : AreRuns (run :: rs)) : AreRuns rs :=
  are.of_isInfix (List.suffix_cons run rs).isInfix

/-- The characters of a gap are blanks, those of another run are not. -/
theorem isBlank_eq (are : AreRuns rs) (member : run ∈ rs) {c : Char} (inside : c ∈ run) :
    isBlank c = isGap run := by
  cases gap : isGap run with
  | true => exact List.all_eq_true.mp gap c inside
  | false =>
    obtain ⟨a, known, other⟩ := List.all_eq_false.mp gap
    rw [are.alike run member c inside a known]
    exact Bool.eq_false_iff.mpr other

theorem not_isBlank (are : AreRuns rs) (member : run ∈ rs) (word : isGap run = false) :
    ∀ c ∈ run, isBlank c = false := by
  intro c inside
  rw [are.isBlank_eq member inside, word]

/-- What is behind a gap begins with no blank, what is behind another run with a blank. -/
theorem isBlank_head? (are : AreRuns (run :: rs)) {c : Char} (next : c ∈ rs.flatten.head?) :
    isBlank c = !isGap run := by
  cases rs with
  | nil => cases next
  | cons other rs =>
    have first : c ∈ other := by
      have some := are.ne_nil (List.mem_cons_of_mem run List.mem_cons_self)
      rw [List.flatten_cons, List.head?_append_of_ne_nil _ some] at next
      exact List.mem_of_mem_head? next
    obtain ⟨a, inside⟩ := List.exists_mem_of_ne_nil run (are.ne_nil List.mem_cons_self)
    have differ := (List.isChain_cons_cons.mp are.alternate).1 a inside c first
    rw [← are.isBlank_eq List.mem_cons_self inside]
    exact Bool.eq_not_of_ne differ.symm

end AreRuns

/-- The runs of a text are the only parts of it that are runs. -/
theorem runs_eq_iff : runs cs = rs ↔ cs = rs.flatten ∧ AreRuns rs := by
  rw [runs, List.splitBy_eq_iff]
  simp only [isChain_alike_iff]
  constructor
  · rintro ⟨split, nonempty, alike, alternate⟩
    refine ⟨split, nonempty, alike, ?_⟩
    -- The last character of a run and the first of the next one stand for all of them.
    refine alternate.imp_of_mem_imp ?_
    rintro run next inside inside' ⟨some, some', differ⟩ a first b second
    rw [alike run inside a first _ (List.getLast_mem some),
      alike next inside' b second _ (List.head_mem some')]
    exact ne_of_beq_false differ
  · rintro ⟨split, are⟩
    refine ⟨split, are.nonempty, are.alike, ?_⟩
    refine are.alternate.imp_of_mem_imp ?_
    intro run next inside inside' differ
    refine ⟨are.ne_nil inside, are.ne_nil inside', ?_⟩
    exact beq_false_of_ne (differ _ (List.getLast_mem _) _ (List.head_mem _))

theorem flatten_runs (cs : List Char) : (runs cs).flatten = cs := (runs_eq_iff.mp rfl).1.symm

theorem areRuns_runs (cs : List Char) : AreRuns (runs cs) := (runs_eq_iff.mp rfl).2

theorem AreRuns.runs_flatten (are : AreRuns rs) : runs rs.flatten = rs :=
  runs_eq_iff.mpr ⟨rfl, are⟩

end Runs

section Trim

variable {cs : List Char} {rs : List (List Char)}

theorem isInfix_trimRuns (rs : List (List Char)) : trimRuns rs <:+: rs :=
  (List.rdropWhile_prefix isGap _).isInfix.trans (List.dropWhile_suffix isGap).isInfix

/-- Dropping blanks at the front of a text drops the gaps at the front of its runs. -/
theorem dropWhile_flatten (alike : ∀ run ∈ rs, ∀ a ∈ run, ∀ b ∈ run, isBlank a = isBlank b) :
    rs.flatten.dropWhile isBlank = (rs.dropWhile isGap).flatten := by
  induction rs with
  | nil => rfl
  | cons run rs ih =>
    rw [List.flatten_cons, List.dropWhile_cons]
    by_cases gap : isGap run = true
    · rw [if_pos gap, List.dropWhile_append_of_pos (List.all_eq_true.mp gap)]
      exact ih fun other member => alike other (List.mem_cons_of_mem run member)
    · rw [if_neg gap, List.flatten_cons]
      cases run with
      | nil => exact absurd rfl gap
      | cons c run =>
        have word : ¬ isBlank c = true := by
          intro blank
          refine gap (List.all_eq_true.mpr fun b inside => ?_)
          rw [alike _ List.mem_cons_self b inside c List.mem_cons_self, blank]
        rw [List.cons_append, List.dropWhile_cons_of_neg word]

/-- The same at the end: read backward, the runs of a text are those of the reversed text. -/
theorem rdropWhile_flatten (alike : ∀ run ∈ rs, ∀ a ∈ run, ∀ b ∈ run, isBlank a = isBlank b) :
    rs.flatten.rdropWhile isBlank = (rs.rdropWhile isGap).flatten := by
  have mirrored : isGap ∘ List.reverse = isGap := by
    funext run
    exact List.all_reverse
  have backward : ∀ run ∈ rs.reverse.map List.reverse, ∀ a ∈ run, ∀ b ∈ run,
      isBlank a = isBlank b := by
    intro run member a first b second
    obtain ⟨other, inside, rfl⟩ := List.mem_map.mp member
    exact alike other (List.mem_reverse.mp inside) a (List.mem_reverse.mp first) b
      (List.mem_reverse.mp second)
  rw [List.rdropWhile, List.reverse_flatten, ← List.map_reverse, dropWhile_flatten backward,
    List.dropWhile_map, mirrored, List.reverse_flatten, List.map_map,
    List.reverse_involutive.comp_self, List.map_id]
  rfl

/-- Dropping the blanks at the ends of a text drops the gaps at the ends of its runs. -/
theorem AreRuns.trim_flatten (are : AreRuns rs) : trim rs.flatten = (trimRuns rs).flatten := by
  have front : rs.dropWhile isGap <:+: rs := (List.dropWhile_suffix isGap).isInfix
  have ends : trim rs.flatten = (rs.flatten.dropWhile isBlank).rdropWhile isBlank := rfl
  rw [ends, dropWhile_flatten are.alike, rdropWhile_flatten (are.of_isInfix front).alike, trimRuns]

theorem AreRuns.runs_trim (are : AreRuns rs) : runs (trim rs.flatten) = trimRuns rs := by
  rw [are.trim_flatten]
  exact (are.of_isInfix (isInfix_trimRuns rs)).runs_flatten

/-- The runs that are no gaps are not touched at the ends. -/
theorem filter_trimRuns (rs : List (List Char)) :
    ((trimRuns rs).filter fun run => !isGap run) = rs.filter fun run => !isGap run := by
  have front (rs : List (List Char)) :
      ((rs.dropWhile isGap).filter fun run => !isGap run) = rs.filter fun run => !isGap run := by
    induction rs with
    | nil => rfl
    | cons run rs ih =>
      rw [List.dropWhile_cons]
      by_cases gap : isGap run = true
      · rw [if_pos gap, ih, List.filter_cons_of_neg (by simp [gap])]
      · rw [if_neg gap]
  rw [trimRuns, List.rdropWhile, List.filter_reverse, front, List.filter_reverse,
    List.reverse_reverse, front]

end Trim

section Words

variable {run rest : List Char} {rs : List (List Char)}

/-- Words end at a blank. -/
theorem splitWords_append_cons (xs ys : List Char) {c : Char} (blank : isBlank c = true) :
    splitWords (xs ++ c :: ys) = splitWords xs ++ splitWords ys := by
  rw [splitWords, List.splitOnP_append_cons xs ys blank, List.filter_append]
  rfl

theorem splitWords_cons (ys : List Char) {c : Char} (blank : isBlank c = true) :
    splitWords (c :: ys) = splitWords ys := splitWords_append_cons [] ys blank

/-- A gap at the front holds no words. -/
theorem splitWords_gap_append (gap : isGap run = true) :
    splitWords (run ++ rest) = splitWords rest := by
  induction run with
  | nil => rfl
  | cons c run ih =>
    rw [isGap, List.all_cons, Bool.and_eq_true] at gap
    rw [List.cons_append, splitWords_cons _ gap.1, ih gap.2]

/-- A word at the front, with nothing or a blank behind it. -/
theorem splitWords_word_append (nonempty : run ≠ []) (word : ∀ c ∈ run, isBlank c = false)
    (ends : ∀ c ∈ rest.head?, isBlank c = true) :
    splitWords (run ++ rest) = run :: splitWords rest := by
  have alone : splitWords run = [run] := by
    rw [splitWords, List.splitOnP_eq_singleton word]
    simp [nonempty]
  cases rest with
  | nil => rw [List.append_nil, alone]; rfl
  | cons c rest =>
    have blank := ends c rfl
    rw [splitWords_append_cons run rest blank, alone, splitWords_cons rest blank]
    rfl

/-- The words of a text are its runs that are no gaps. -/
theorem AreRuns.splitWords_flatten (are : AreRuns rs) :
    splitWords rs.flatten = rs.filter fun run => !isGap run := by
  induction rs with
  | nil => rfl
  | cons run rs ih =>
    rw [List.flatten_cons]
    cases gap : isGap run with
    | true =>
      rw [splitWords_gap_append gap, ih are.tail, List.filter_cons_of_neg (by simp [gap])]
    | false =>
      have word := are.not_isBlank List.mem_cons_self gap
      have ends : ∀ c ∈ rs.flatten.head?, isBlank c = true := by
        intro c next
        rw [are.isBlank_head? next, gap]
        rfl
      rw [splitWords_word_append (are.ne_nil List.mem_cons_self) word ends, ih are.tail,
        List.filter_cons_of_pos (by simp [gap])]

end Words

end ClenshawCode.Text
