/-!
# Patterns of characters

Regular patterns, for the spellings that a text format gives a meaning to. A text is matched one
character at a time: the derivative of a pattern by a character matches what may follow that
character, and a pattern matches the empty text or it does not.

## Main definitions

* `Text.Pattern`: patterns
* `Text.Pattern.acceptsEmpty`: whether a pattern matches the empty text
* `Text.Pattern.derivative`: what may follow a character
* `Text.Pattern.accepts`: whether a pattern matches a text
* `Text.Pattern.Denotes`: the texts that a pattern stands for, without reference to derivatives

## Main results

* `Text.Pattern.accepts_iff`: matching decides which texts a pattern stands for
-/

namespace ClenshawCode.Text

/-- Patterns of characters. -/
inductive Pattern where
  | never
  | empty
  | one (p : Char → Bool)
  | both (first second : Pattern)
  | either (left right : Pattern)
  | many (p : Pattern)

namespace Pattern

/-- One pattern after another, with the trivial cases written shorter. -/
def followedBy : Pattern → Pattern → Pattern
  | never, _ => never
  | empty, q => q
  | p, q => both p q

/-- One of two patterns, with the trivial cases written shorter. -/
def orElse : Pattern → Pattern → Pattern
  | never, q => q
  | p, never => p
  | p, q => either p q

/-- Whether a pattern matches the empty text. -/
def acceptsEmpty : Pattern → Bool
  | never => false
  | empty => true
  | one _ => false
  | both p q => p.acceptsEmpty && q.acceptsEmpty
  | either p q => p.acceptsEmpty || q.acceptsEmpty
  | many _ => true

/-- What may follow a character. -/
def derivative (c : Char) : Pattern → Pattern
  | never => never
  | empty => never
  | one p => if p c then empty else never
  | both p q =>
    let inFirst := (p.derivative c).followedBy q
    if p.acceptsEmpty then inFirst.orElse (q.derivative c) else inFirst
  | either p q => (p.derivative c).orElse (q.derivative c)
  | many p => (p.derivative c).followedBy (many p)

/-- Whether a pattern matches a text. -/
def accepts : Pattern → List Char → Bool
  | p, [] => p.acceptsEmpty
  | p, c :: rest => (p.derivative c).accepts rest

/-- The texts that a pattern stands for. -/
inductive Denotes : Pattern → List Char → Prop where
  | empty : Denotes empty []
  | one {p : Char → Bool} {c : Char} (h : p c = true) : Denotes (one p) [c]
  | both {p q : Pattern} {s t : List Char} (hp : Denotes p s) (hq : Denotes q t) :
      Denotes (both p q) (s ++ t)
  | left {p q : Pattern} {s : List Char} (h : Denotes p s) : Denotes (either p q) s
  | right {p q : Pattern} {s : List Char} (h : Denotes q s) : Denotes (either p q) s
  | manyNil {p : Pattern} : Denotes (many p) []
  | manyCons {p : Pattern} {s t : List Char} (h : Denotes p s) (more : Denotes (many p) t) :
      Denotes (many p) (s ++ t)

theorem denotes_both_iff {p q : Pattern} {s : List Char} :
    Denotes (both p q) s ↔ ∃ a b, s = a ++ b ∧ Denotes p a ∧ Denotes q b := by
  constructor
  · intro h
    cases h with
    | both hp hq => exact ⟨_, _, rfl, hp, hq⟩
  · rintro ⟨a, b, rfl, hp, hq⟩
    exact .both hp hq

theorem denotes_either_iff {p q : Pattern} {s : List Char} :
    Denotes (either p q) s ↔ Denotes p s ∨ Denotes q s := by
  constructor
  · intro h
    cases h with
    | left h => exact .inl h
    | right h => exact .inr h
  · rintro (h | h)
    · exact .left h
    · exact .right h

theorem not_denotes_never {s : List Char} : ¬ Denotes never s := by
  intro h
  cases h

theorem denotes_empty_iff {s : List Char} : Denotes empty s ↔ s = [] := by
  constructor
  · intro h
    cases h
    rfl
  · rintro rfl
    exact .empty

/-- Repetitions of a pattern begin with one that is not empty, unless they are empty themselves. -/
theorem denotes_many_cons {p : Pattern} {c : Char} {s : List Char} (h : Denotes (many p) (c :: s)) :
    ∃ a b, s = a ++ b ∧ Denotes p (c :: a) ∧ Denotes (many p) b := by
  generalize hq : many p = q at h
  generalize ht : c :: s = t at h
  induction h with
  | manyNil => cases ht
  | @manyCons p' a b first more _ ih =>
    cases hq
    cases a with
    | nil => exact ih rfl ht
    | cons d a =>
      cases ht
      exact ⟨a, b, rfl, first, more⟩
  | _ => cases hq

theorem acceptsEmpty_iff (p : Pattern) : p.acceptsEmpty = true ↔ Denotes p [] := by
  induction p with
  | never => simp [acceptsEmpty, not_denotes_never]
  | empty => simp [acceptsEmpty, denotes_empty_iff]
  | one p =>
    simp only [acceptsEmpty, Bool.false_eq_true, false_iff]
    intro h
    cases h
  | both p q hp hq =>
    simp only [acceptsEmpty, Bool.and_eq_true, hp, hq, denotes_both_iff]
    constructor
    · rintro ⟨ha, hb⟩
      exact ⟨[], [], rfl, ha, hb⟩
    · rintro ⟨a, b, h, ha, hb⟩
      obtain ⟨rfl, rfl⟩ := List.append_eq_nil_iff.1 h.symm
      exact ⟨ha, hb⟩
  | either p q hp hq => simp [acceptsEmpty, denotes_either_iff, hp, hq]
  | many p _ => simp [acceptsEmpty, Denotes.manyNil]

theorem denotes_followedBy {p q : Pattern} {s : List Char} :
    Denotes (p.followedBy q) s ↔ Denotes (both p q) s := by
  cases p with
  | never => simp [followedBy, denotes_both_iff, not_denotes_never]
  | empty =>
    simp only [followedBy, denotes_both_iff, denotes_empty_iff]
    constructor
    · intro h
      exact ⟨[], s, rfl, rfl, h⟩
    · rintro ⟨a, b, rfl, rfl, h⟩
      exact h
  | _ => rfl

theorem denotes_orElse {p q : Pattern} {s : List Char} :
    Denotes (p.orElse q) s ↔ Denotes p s ∨ Denotes q s := by
  unfold orElse
  split
  · simp [not_denotes_never]
  · simp [not_denotes_never]
  · exact denotes_either_iff

/-- The derivative by a character stands for what may follow that character. -/
theorem denotes_derivative {p : Pattern} {c : Char} {s : List Char} :
    Denotes (p.derivative c) s ↔ Denotes p (c :: s) := by
  induction p generalizing s with
  | never => simp [derivative, not_denotes_never]
  | empty => simp [derivative, not_denotes_never, denotes_empty_iff]
  | one p =>
    by_cases hc : p c = true
    · simp only [derivative, hc, if_true, denotes_empty_iff]
      constructor
      · rintro rfl
        exact .one hc
      · intro h
        cases h
        rfl
    · simp only [derivative, hc, Bool.false_eq_true, if_false, not_denotes_never, false_iff]
      intro h
      cases h with
      | one h => exact hc h
  | both p q hp hq =>
    have first : Denotes ((p.derivative c).followedBy q) s ↔
        ∃ a b, s = a ++ b ∧ Denotes p (c :: a) ∧ Denotes q b := by
      simp only [denotes_followedBy, denotes_both_iff, hp]
    have whole : Denotes (both p q) (c :: s) ↔
        (∃ a b, s = a ++ b ∧ Denotes p (c :: a) ∧ Denotes q b) ∨
          (Denotes p [] ∧ Denotes q (c :: s)) := by
      rw [denotes_both_iff]
      constructor
      · rintro ⟨a, b, h, ha, hb⟩
        cases a with
        | nil => exact .inr ⟨ha, by simpa using h ▸ hb⟩
        | cons d a =>
          cases h
          exact .inl ⟨a, b, rfl, ha, hb⟩
      · rintro (⟨a, b, rfl, ha, hb⟩ | ⟨ha, hb⟩)
        · exact ⟨c :: a, b, rfl, ha, hb⟩
        · exact ⟨[], c :: s, rfl, ha, hb⟩
    rw [whole]
    by_cases he : p.acceptsEmpty = true
    · simp only [derivative, he, if_true, denotes_orElse, first, hq, (acceptsEmpty_iff p).1 he,
        true_and]
    · have hn : ¬ Denotes p [] := fun h => he ((acceptsEmpty_iff p).2 h)
      simp only [derivative, he, Bool.false_eq_true, if_false, first, hn, false_and, or_false]
  | either p q hp hq => simp only [derivative, denotes_orElse, denotes_either_iff, hp, hq]
  | many p hp =>
    simp only [derivative, denotes_followedBy, denotes_both_iff, hp]
    constructor
    · rintro ⟨a, b, rfl, ha, hb⟩
      exact .manyCons ha hb
    · exact denotes_many_cons

/-- Matching decides which texts a pattern stands for. -/
theorem accepts_iff {p : Pattern} {s : List Char} : p.accepts s = true ↔ Denotes p s := by
  induction s generalizing p with
  | nil => exact acceptsEmpty_iff p
  | cons c s ih => rw [accepts, ih, denotes_derivative]

/-! ### Building patterns -/

/-- A given character. -/
def char (c : Char) : Pattern := one fun d => d == c

/-- One of some characters. -/
def oneOf (cs : String) : Pattern := one fun d => cs.toList.contains d

/-- A pattern or nothing. -/
def optional (p : Pattern) : Pattern := either empty p

/-- A pattern once or more. -/
def onceOrMore (p : Pattern) : Pattern := both p (many p)

/-- Patterns one after another. -/
def inOrder (ps : List Pattern) : Pattern := ps.foldr both empty

/-- One of some patterns. -/
def anyOf (ps : List Pattern) : Pattern := ps.foldr either never

/-- A given text. -/
def word (s : String) : Pattern := inOrder (s.toList.map char)

/-- One of some texts. -/
def words (ss : List String) : Pattern := anyOf (ss.map word)

/-- An ASCII digit. -/
def digit : Pattern := one Char.isDigit

end Pattern

end ClenshawCode.Text
