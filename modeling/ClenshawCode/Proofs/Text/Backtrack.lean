import ClenshawCode.Text.Pattern
import Mathlib.Data.List.Infix

/-!
# Matching by backtracking

A backtracking matcher tries the ways in which a pattern can match at the front of a text in an
order: a repetition goes on as long as it can and gives back one round after another, of two
patterns the left one comes first. The ways are listed by what they leave of the text, and the
first of them is the match. Replacing takes the leftmost match and goes on behind it; the part of
the text in front of a match is kept.

## Main definitions

* `Pattern.rests`: what is left behind each match at the front, the preferred one first
* `Pattern.searches`: whether a pattern matches somewhere in a text
* `Pattern.substitute`: a text with its matches replaced, from left to right and without overlap

## Main results

* `Pattern.mem_rests_iff`: the ways to match are those that the pattern stands for
* `Pattern.substitute_eq`: replacing by a pattern that does not match the empty text
-/

namespace ClenshawCode.Text.Pattern

/-- What is left behind rounds of a repetition, more rounds first. A round that reads nothing does
not count, so there are no more rounds than characters. -/
def repeatedly (once : List Char → List (List Char)) : ℕ → List Char → List (List Char)
  | 0, cs => [cs]
  | rounds + 1, cs =>
    ((once cs).filter fun rest => rest.length < cs.length).flatMap (repeatedly once rounds) ++ [cs]

/-- What is left behind each match at the front of a text, the preferred one first. -/
def rests : Pattern → List Char → List (List Char)
  | never, _ => []
  | empty, cs => [cs]
  | one _, [] => []
  | one p, c :: cs => if p c then [cs] else []
  | both p q, cs => (p.rests cs).flatMap q.rests
  | either p q, cs => p.rests cs ++ q.rests cs
  | many p, cs => repeatedly p.rests cs.length cs

/-- Whether a pattern matches somewhere in a text. -/
def searches (p : Pattern) (cs : List Char) : Bool :=
  cs.tails.any fun rest => !(p.rests rest).isEmpty

/-- What is left behind the preferred one of the matches at the front that read something. -/
def readOn? (p : Pattern) (cs : List Char) :
    Option { rest : List Char // rest.length < cs.length } :=
  (p.rests cs).findSome? fun rest =>
    if shorter : rest.length < cs.length then some ⟨rest, shorter⟩ else none

/-- A text with each match replaced, from left to right and without overlap. An empty match is
replaced as well, but the next one has to read something or begin further on. -/
def substitute (p : Pattern) (replacement cs : List Char) : List Char :=
  (if (p.rests cs).head? = some cs then replacement else []) ++
    match p.readOn? cs with
    | some rest => replacement ++ p.substitute replacement rest
    | none => match cs with
      | [] => []
      | c :: cs => c :: p.substitute replacement cs
termination_by cs.length
decreasing_by
  · exact rest.property
  · exact Nat.lt_succ_self _

section Ways

variable {p q : Pattern} {cs r : List Char}

/-- The ways to repeat, if the ways for one round are those that the pattern stands for. -/
theorem mem_repeatedly_iff {once : List Char → List (List Char)}
    (ways : ∀ cs r, r ∈ once cs ↔ ∃ s, cs = s ++ r ∧ Denotes p s) {rounds : ℕ}
    (enough : cs.length ≤ rounds) :
    r ∈ repeatedly once rounds cs ↔ ∃ s, cs = s ++ r ∧ Denotes (many p) s := by
  induction rounds generalizing cs with
  | zero =>
    obtain rfl : cs = [] := List.eq_nil_of_length_eq_zero (Nat.le_zero.mp enough)
    rw [repeatedly, List.mem_singleton]
    constructor
    · rintro rfl
      exact ⟨[], rfl, .manyNil⟩
    · rintro ⟨s, split, -⟩
      exact (List.append_eq_nil_iff.mp split.symm).2
  | succ rounds ih =>
    simp only [repeatedly, List.mem_append, List.mem_flatMap, List.mem_filter, decide_eq_true_eq,
      List.mem_singleton]
    constructor
    · rintro (⟨middle, ⟨first, shorter⟩, more⟩ | rfl)
      · obtain ⟨s, rfl, one⟩ := (ways cs middle).mp first
        obtain ⟨t, rfl, others⟩ := (ih (by omega)).mp more
        exact ⟨s ++ t, (List.append_assoc s t r).symm, .manyCons one others⟩
      · exact ⟨[], rfl, .manyNil⟩
    · rintro ⟨s, rfl, denoted⟩
      cases s with
      | nil => exact .inr rfl
      | cons c s =>
        -- The first round that reads something comes first.
        obtain ⟨a, b, rfl, one, others⟩ := denotes_many_cons denoted
        have shorter : (b ++ r).length < (c :: (a ++ b) ++ r).length := by
          simp only [List.length_append, List.length_cons]
          omega
        refine .inl ⟨b ++ r, ⟨(ways _ _).mpr ⟨c :: a, by simp, one⟩, shorter⟩, ?_⟩
        exact (ih (by omega)).mpr ⟨b, rfl, others⟩

/-- The ways to match at the front of a text are those that the pattern stands for. -/
theorem mem_rests_iff : r ∈ p.rests cs ↔ ∃ s, cs = s ++ r ∧ Denotes p s := by
  induction p generalizing cs r with
  | never => simp [rests, not_denotes_never]
  | empty => simp [rests, denotes_empty_iff, eq_comm]
  | one p =>
    constructor
    · intro member
      cases cs with
      | nil => cases member
      | cons c cs =>
        rw [rests] at member
        split at member
        · obtain rfl := List.mem_singleton.mp member
          exact ⟨[c], rfl, .one ‹_›⟩
        · cases member
    · rintro ⟨s, rfl, denoted⟩
      cases denoted with
      | one known => simp [rests, known]
  | both p q ihp ihq =>
    simp only [rests, List.mem_flatMap, ihp, ihq, denotes_both_iff]
    constructor
    · rintro ⟨middle, ⟨s, rfl, first⟩, t, rfl, second⟩
      exact ⟨s ++ t, (List.append_assoc s t r).symm, s, t, rfl, first, second⟩
    · rintro ⟨-, rfl, s, t, rfl, first, second⟩
      exact ⟨t ++ r, ⟨s, List.append_assoc s t r, first⟩, t, rfl, second⟩
  | either p q ihp ihq =>
    simp only [rests, List.mem_append, ihp, ihq, denotes_either_iff, and_or_left, exists_or]
  | many p ih => exact mem_repeatedly_iff (fun _ _ => ih) le_rfl

/-- A pattern that does not match the empty text leaves less than the text. -/
theorem length_lt_of_mem_rests (reads : p.acceptsEmpty = false) (member : r ∈ p.rests cs) :
    r.length < cs.length := by
  obtain ⟨s, rfl, denoted⟩ := mem_rests_iff.mp member
  have some : s ≠ [] := by
    rintro rfl
    rw [(acceptsEmpty_iff p).mpr denoted] at reads
    cases reads
  have positive := List.length_pos_iff.mpr some
  rw [List.length_append]
  omega

/-- A repetition of a class of characters gives back one character after another. -/
theorem rests_many_one_cons (class' : Char → Bool) (c : Char) (cs : List Char) :
    (many (one class')).rests (c :: cs) =
      (if class' c then (many (one class')).rests cs else []) ++ [c :: cs] := by
  rw [rests, List.length_cons, repeatedly, rests]
  split_ifs
  · simp [rests]
  · rfl

/-- A repetition of a class of characters reads all it can at first. -/
theorem head?_rests_many_one (class' : Char → Bool) (cs : List Char) :
    ((many (one class')).rests cs).head? = some (cs.dropWhile class') := by
  induction cs with
  | nil => rfl
  | cons c cs ih =>
    rw [rests_many_one_cons, List.dropWhile_cons]
    split_ifs
    · rw [List.head?_append, ih, Option.some_or]
    · rfl

end Ways

section Replacing

variable {p : Pattern}

/-- A match exists somewhere if a part of the text is what the pattern stands for. -/
theorem searches_iff {cs : List Char} :
    p.searches cs = true ↔ ∃ before s after, cs = before ++ s ++ after ∧ Denotes p s := by
  have found (rest : List Char) : (!(p.rests rest).isEmpty) = true ↔
      ∃ s after, rest = s ++ after ∧ Denotes p s := by
    rw [Bool.not_eq_true', List.isEmpty_eq_false_iff_exists_mem]
    simp only [mem_rests_iff]
    exact exists_comm
  rw [searches, List.any_eq_true]
  simp only [found, List.mem_tails]
  constructor
  · rintro ⟨rest, ⟨before, rfl⟩, s, after, rfl, denoted⟩
    exact ⟨before, s, after, (List.append_assoc before s after).symm, denoted⟩
  · rintro ⟨before, s, after, rfl, denoted⟩
    exact ⟨s ++ after, ⟨before, (List.append_assoc before s after).symm⟩, s, after, rfl, denoted⟩

/-- Replacing by a pattern that does not match the empty text: if it matches at the front, what is
behind the preferred match is next, else the first character is kept. -/
theorem substitute_eq (reads : p.acceptsEmpty = false) (replacement cs : List Char) :
    p.substitute replacement cs = match (p.rests cs).head? with
      | some rest => replacement ++ p.substitute replacement rest
      | none => match cs with
        | [] => []
        | c :: cs => c :: p.substitute replacement cs := by
  rw [substitute.eq_def]
  cases ways : p.rests cs with
  | nil => simp [readOn?, ways]
  | cons rest others =>
    have shorter : rest.length < cs.length := by
      apply length_lt_of_mem_rests reads
      rw [ways]
      exact List.mem_cons_self
    have proper : rest ≠ cs := by
      rintro rfl
      exact lt_irrefl _ shorter
    simp [readOn?, ways, shorter, proper]

end Replacing

end ClenshawCode.Text.Pattern
