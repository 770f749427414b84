import ClenshawCode.Proofs.Program.Targets
import ClenshawCode.Proofs.Shader.Written

/-!
# What varies in the lines of a program

A program in any of the five languages is a list of lines with a fixed number of them. The
description stands behind the mark of its comment and nowhere else, the reference value on the line
that prints it, and each coefficient on a line of its own.

## Main definitions

* `Shader.descriptionSlot`, `Shader.coefficientText`: the lines of a shader that hold the
  description and a coefficient
* `Shader.bodyBehind`: the body of a shader's evaluator without the comment on the coefficients
-/

namespace ClenshawCode

open Text

section Variation

variable {α : Type} {k : ℕ} {ls ls' : α → List String} {line : α → String}

theorem Text.VariesAt.congr (varies : VariesAt k ls line) (same : ∀ a, ls' a = ls a) :
    VariesAt k ls' line := by
  obtain ⟨before, after, length, split⟩ := varies
  exact ⟨before, after, length, fun a => (same a).trans (split a)⟩

end Variation

namespace LoopTemplate

variable (f : LoopTemplate) (p : LoopParts)

/-- Where a comment varies, the program does. -/
theorem variesAt_comment {α : Type} {k : ℕ} {comment : α → List String} {line : α → String}
    (varies : VariesAt k (fun a => Comment.block (comment a) f.token "") line) :
    ∃ k, VariesAt k (fun a => f.lines { p with comment := comment a }) line := by
  let behind : List String := (f.sizeFill p).map (fun s => s.1.fill s.2) ++
    ([(f.openingFill p).1.fill (f.openingFill p).2] ++ p.coeffs.map f.entry ++ [f.closing] ++
      f.gap ++ [f.low.fill p.xMin, f.high.fill p.xMax] ++ f.middle ++
      [f.reference.fill p.reference] ++ f.tail)
  refine ⟨_, ((varies.append_right behind).append_left f.head).congr fun a => ?_⟩
  simp only [behind, lines, beforeTable, sizeFill, openingFill, List.append_assoc]

/-- The reference value varies on its line. -/
theorem variesAt_reference :
    ∃ k, VariesAt k (fun s => f.lines { p with reference := s }) f.reference.fill := by
  refine ⟨_, f.beforeTable p ++ [(f.openingFill p).1.fill (f.openingFill p).2] ++
    p.coeffs.map f.entry ++ [f.closing] ++ f.gap ++ [f.low.fill p.xMin, f.high.fill p.xMax] ++
    f.middle, f.tail, rfl, fun s => ?_⟩
  simp only [lines, beforeTable, sizeFill, openingFill, List.append_assoc, List.singleton_append]

/-- The number of lines up to the one that opens the table. -/
theorem length_table : (f.beforeTable p ++ [(f.openingFill p).1.fill (f.openingFill p).2]).length =
    f.head.length + p.comment.length + (f.sizeFill p).length + 1 := by
  simp only [beforeTable, Comment.block, List.length_append, List.length_map, List.length_singleton]

/-- A coefficient varies on its line, which is found by counting from the one that opens the
table. -/
theorem variesAt_entry {i : ℕ} (inside : i < p.coeffs.length) :
    VariesAt (f.head.length + p.comment.length + (f.sizeFill p).length + 1 + i)
      (fun s => f.lines { p with coeffs := p.coeffs.set i s }) f.entry := by
  have varies := (variesAt_map_set f.entry p.coeffs inside).append_right
    ([f.closing] ++ f.gap ++ [f.low.fill p.xMin, f.high.fill p.xMax] ++ f.middle ++
      [f.reference.fill p.reference] ++ f.tail)
  have whole := varies.append_left
    (f.beforeTable p ++ [(f.openingFill p).1.fill (f.openingFill p).2])
  -- The table begins behind the line that opens it.
  rw [length_table] at whole
  refine whole.congr fun s => ?_
  simp only [lines, beforeTable, sizeFill, openingFill, List.append_assoc]

/-- The number of lines of a program. -/
theorem length_lines : (f.lines p).length =
    f.head.length + p.comment.length + (f.sizeFill p).length + p.coeffs.length + f.gap.length +
      f.middle.length + f.tail.length + 5 := by
  simp only [lines, beforeTable, Comment.block, List.length_append, List.length_map,
    List.length_cons, List.length_nil]
  omega

end LoopTemplate

namespace Shader

variable {comment literals : List String} {xMin xMax : String}

/-- The line of the comment that holds the description. -/
def descriptionSlot : Slot := ⟨"    // f(x)=", ""⟩

/-- The line that declares a coefficient. -/
def coefficientText (i : ℕ) (literal : String) : String :=
  (Line.declare true (coefficientName i) 0 (.literal literal) none).text

/-- The lines of the body behind its comment. -/
def bodyBehind (literals : List String) (xMin xMax : String) : List Line :=
  coefficientLines 0 literals ++ [.blank] ++ mappingLines xMin xMax ++ [.blank] ++
    (unrolledSteps literals.length).map stepLine ++ [resultLine]

theorem body_eq : body comment literals xMin xMax =
    comment.map Line.comment ++ bodyBehind literals xMin xMax := by
  simp only [body, bodyBehind, List.append_assoc]

theorem lines_eq : lines comment literals xMin xMax =
    (Comment.block Comment.evaluatorLines "//" "" ++ [evaluatorOpening]) ++
      (comment.map ("    // " ++ ·) ++ ((bodyBehind literals xMin xMax).map Line.text ++
        (["\x7d", ""] ++ plotLines xMin xMax))) := by
  have commented : (comment.map Line.comment).map Line.text = comment.map ("    // " ++ ·) := by
    rw [List.map_map]
    rfl
  simp only [lines, body_eq, List.map_append, commented, evaluatorOpening, List.append_assoc]

/-- Where a comment varies, the shader does. -/
theorem variesAt_comment {α : Type} {k : ℕ} {comment : α → List String} {line : α → String}
    (varies : VariesAt k (fun a => (comment a).map ("    // " ++ ·)) line) :
    ∃ k, VariesAt k (fun a => lines (comment a) literals xMin xMax) line :=
  ⟨_, ((varies.append_right _).append_left _).congr fun _ => lines_eq⟩

/-- Of the declarations of the coefficients one varies. -/
theorem variesAt_coefficientLines {i : ℕ} (first : ℕ) (inside : i < literals.length) :
    VariesAt i (fun s => (coefficientLines first (literals.set i s)).map Line.text)
      (coefficientText (first + i)) := by
  -- The index of the varying line goes down with the list, that of the first coefficient up.
  induction literals generalizing first i with
  | nil => cases inside
  | cons literal literals ih =>
    cases i with
    | zero =>
      exact ⟨[], (coefficientLines (first + 1) literals).map Line.text, rfl, fun _ => rfl⟩
    | succ i =>
      have later := ih (first + 1) (Nat.lt_of_succ_lt_succ inside)
      rw [Nat.add_assoc, Nat.add_comm 1 i] at later
      have moved := later.append_left [coefficientText first literal]
      rw [List.length_singleton, Nat.add_comm] at moved
      exact moved.congr fun _ => rfl

/-- A coefficient varies on its line. -/
theorem variesAt_coefficient {i : ℕ} (inside : i < literals.length) :
    VariesAt (comment.length + 3 + i) (fun s => lines comment (literals.set i s) xMin xMax)
      (coefficientText i) := by
  let behind : List String := ([Line.blank] ++ mappingLines xMin xMax ++ [Line.blank] ++
    (unrolledSteps literals.length).map stepLine ++ [resultLine]).map Line.text ++
      (["\x7d", ""] ++ plotLines xMin xMax)
  have varies := variesAt_coefficientLines 0 inside
  rw [Nat.zero_add] at varies
  -- In front of the coefficients stand the comments and the line that opens the body.
  have whole := ((varies.append_right behind).append_left
    (comment.map ("    // " ++ ·))).append_left
      (Comment.block Comment.evaluatorLines "//" "" ++ [evaluatorOpening])
  have place : (Comment.block Comment.evaluatorLines "//" "" ++ [evaluatorOpening]).length +
      ((comment.map ("    // " ++ ·)).length + i) = comment.length + 3 + i := by
    simp only [Comment.block, Comment.evaluatorLines, List.length_append, List.length_map,
      List.length_cons, List.length_nil]
    omega
  rw [place] at whole
  refine whole.congr fun s => ?_
  simp only [behind, lines_eq, bodyBehind, List.length_set, List.map_append, List.append_assoc]

theorem length_coefficientLines (first : ℕ) :
    (coefficientLines first literals).length = literals.length := by
  induction literals generalizing first with
  | nil => rfl
  | cons literal literals ih => rw [coefficientLines, List.length_cons, ih, List.length_cons]

theorem length_lines :
    (lines comment literals xMin xMax).length = comment.length + 2 * literals.length + 36 := by
  simp only [lines_eq, bodyBehind, Comment.block, Comment.evaluatorLines, mappingLines, plotLines,
    unrolledSteps, length_coefficientLines, List.length_append, List.length_map, List.length_cons,
    List.length_nil, List.length_reverse, List.length_range]
  omega

/-- The last line of a shader closes its snippet. -/
theorem getLast?_lines : (lines comment literals xMin xMax).getLast? = some "#endif" := by
  rw [lines, List.getLast?_append_of_ne_nil _ (by simp [plotLines])]
  rfl

section Description

/-- A line with another character in the fifth column than a comment has does not hold the
description. -/
theorem begins_descriptionSlot {l : String} (other : l.toList[4]? ≠ some '/') :
    descriptionSlot.begins l = false :=
  Slot.begins_of_column (by rfl : descriptionSlot.before.toList[4]? = some '/') other

theorem begins_declare (constant : Bool) (name : String) (padding : ℕ) (value : Expr)
    (note : Option ℕ) :
    descriptionSlot.begins (Line.declare constant name padding value note).text = false := by
  refine begins_descriptionSlot ?_
  cases constant <;> simp [Line.text]

theorem begins_bodyBehind {line : Line} (member : line ∈ bodyBehind literals xMin xMax) :
    descriptionSlot.begins line.text = false := by
  have blank : descriptionSlot.begins Line.blank.text = false := begins_descriptionSlot (by decide)
  have mapping : ∀ line ∈ mappingLines xMin xMax,
      line = .blank ∨ ∃ constant name padding value note,
        line = .declare constant name padding value note := by
    simp [mappingLines]
  simp only [bodyBehind, List.mem_append, List.mem_map, List.mem_singleton] at member
  -- No line of the body has a slash in the column where a comment has one.
  rcases member with ((((coefficient | rfl) | inMapping) | rfl) | ⟨step, -, rfl⟩) | rfl
  · obtain ⟨_, _, -, rfl⟩ := exists_of_mem_coefficientLines coefficient
    exact begins_declare ..
  · exact blank
  · rcases mapping line inMapping with rfl | ⟨constant, name, padding, value, note, rfl⟩
    · exact blank
    · exact begins_declare ..
  · exact blank
  · exact begins_declare ..
  · exact begins_descriptionSlot (by simp [resultLine, Line.text])

theorem begins_plotLines {l : String} (member : l ∈ plotLines xMin xMax) :
    descriptionSlot.begins l = false := by
  refine begins_descriptionSlot ?_
  simp only [plotLines, List.mem_cons, List.not_mem_nil, or_false] at member
  rcases member with rfl | rfl | rfl | rfl | rfl | rfl | rfl | rfl | rfl | rfl | rfl | rfl | rfl |
    rfl | rfl | rfl | rfl | rfl | rfl | rfl
  all_goals simp

/-- In a shader the description is found once. -/
theorem contents_descriptionSlot (e : Expansion) (description : String) :
    descriptionSlot.contents
      (lines (Comment.coefficientText e description) literals xMin xMax) =
        [some (Comment.sanitized description)] := by
  have evaluator : descriptionSlot.contents
      (Comment.block Comment.evaluatorLines "//" "" ++ [evaluatorOpening]) = [] :=
    Slot.contents_eq_nil (List.all_iff_forall_prop.mp (by decide))
  have behind : descriptionSlot.contents ((bodyBehind literals xMin xMax).map Line.text) = [] := by
    refine Slot.contents_eq_nil fun l member => ?_
    obtain ⟨line, inside, rfl⟩ := List.mem_map.mp member
    exact begins_bodyBehind inside
  have closing : descriptionSlot.contents ["\x7d", ""] = [] :=
    Slot.contents_eq_nil (List.all_iff_forall_prop.mp (by decide))
  have plot : descriptionSlot.contents (plotLines xMin xMax) = [] :=
    Slot.contents_eq_nil fun _ => begins_plotLines
  have comment : descriptionSlot.contents
      ((Comment.coefficientText e description).map ("    // " ++ ·)) =
        [some (Comment.sanitized description)] := Comment.contents_coefficientText "    // "
  rw [lines_eq, Slot.contents_append, evaluator, Slot.contents_append, comment,
    Slot.contents_append, behind, Slot.contents_append, closing, plot]
  rfl

end Description

end Shader

end ClenshawCode
