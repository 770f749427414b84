import ClenshawCode.Text.Pattern

/-!
# What the built patterns stand for

The patterns that are built from others stand for what their names say. Alternatives are decided;
for the others it is enough to know texts that they stand for.
-/

namespace ClenshawCode.Text.Pattern

variable {p q : Pattern} {s t : List Char}

/-- Characters at the front of a text are matched by the derivatives by them. -/
theorem accepts_append (p : Pattern) (s t : List Char) :
    p.accepts (s ++ t) = (s.foldl (fun p c => p.derivative c) p).accepts t := by
  induction s generalizing p with
  | nil => rfl
  | cons c rest ih => exact ih (p.derivative c)

theorem denotes_char (c : Char) : Denotes (char c) [c] := .one (beq_self_eq_true c)

theorem denotes_oneOf {cs : String} {c : Char} (member : c ∈ cs.toList) : Denotes (oneOf cs) [c] :=
  .one (List.contains_iff_mem.mpr member)

theorem denotes_digit {c : Char} (known : c.isDigit = true) : Denotes digit [c] := .one known

theorem denotes_optional_nil (p : Pattern) : Denotes (optional p) [] := .left .empty

theorem denotes_optional (h : Denotes p s) : Denotes (optional p) s := .right h

/-- Characters of a class repeat it. -/
theorem denotes_many_one {class' : Char → Bool} (known : ∀ c ∈ s, class' c = true) :
    Denotes (many (one class')) s := by
  induction s with
  | nil => exact .manyNil
  | cons c rest ih =>
    exact .manyCons (.one (known c List.mem_cons_self))
      (ih fun a member => known a (List.mem_cons_of_mem c member))

theorem denotes_inOrder_nil : Denotes (inOrder []) [] := .empty

theorem denotes_inOrder_cons {ps : List Pattern} (h : Denotes p s) (more : Denotes (inOrder ps) t) :
    Denotes (inOrder (p :: ps)) (s ++ t) := .both h more

/-- One pattern at the end of others. -/
theorem denotes_inOrder_last (h : Denotes p s) : Denotes (inOrder [p]) s := by
  have whole := denotes_inOrder_cons h denotes_inOrder_nil
  rwa [List.append_nil] at whole

theorem denotes_anyOf_iff {ps : List Pattern} :
    Denotes (anyOf ps) s ↔ ∃ p ∈ ps, Denotes p s := by
  induction ps with
  | nil => simp [anyOf, not_denotes_never]
  | cons p rest ih =>
    have first : anyOf (p :: rest) = either p (anyOf rest) := rfl
    rw [first, denotes_either_iff, ih]
    simp

end ClenshawCode.Text.Pattern
