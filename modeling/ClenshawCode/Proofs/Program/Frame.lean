import ClenshawCode.Proofs.Program.Template

/-!
# Programs within a frame

In a template with separate parts everything that varies is found again: the lines with a hole by
their beginnings, the description by the mark of its comment, the entries of the table between the
line that opens it and the one that closes it.

## Main definitions

* `LoopParts.IsPlain`: texts that cannot break a frame
-/

namespace ClenshawCode

open Text

/-- The texts of a program that cannot break a frame: each is one line, and the coefficients are
written as literals are. -/
structure LoopParts.IsPlain (p : LoopParts) : Prop where
  coeffs : ∀ s ∈ p.coeffs, ∀ c ∈ s.toList, c ∈ Decimal.literalChars
  comment : ∀ s ∈ p.comment, isOneLine s = true
  holes : ∀ s ∈ [p.reference, p.count, p.xMin, p.xMax], isOneLine s = true

namespace Comment

variable {e : Expansion} {description : String}

/-- The second of the three lines of the comment on the coefficients holds the description, whatever
stands before each of them. -/
theorem variesAt_coefficientText (e : Expansion) (before : String) :
    VariesAt 1 (fun description => (coefficientText e description).map (before ++ ·))
      (fun description =>
        (⟨before ++ "f(x)=", ""⟩ : Slot).fill (sanitized description)) := by
  refine ⟨[before ++ (natText e.numCoeffs ++ " term expansion coefficients for")],
    [before ++ ("x_min=" ++ e.xMin.shortest ++ ", x_max=" ++ e.xMax.shortest)], rfl,
    fun description => ?_⟩
  simp [coefficientText, Slot.fill, String.append_assoc]

/-- The three lines of the comment on the coefficients hold the description once, whatever stands
before each of them. -/
theorem contents_coefficientText (before : String) :
    (⟨before ++ "f(x)=", ""⟩ : Slot).contents
      ((coefficientText e description).map (before ++ ·)) =
        [some (sanitized description)] := by
  have begins (s : String) : (⟨before ++ "f(x)=", ""⟩ : Slot).begins (before ++ s) =
      "f(x)=".toList.isPrefixOf s.toList := by
    rw [Slot.begins, Bool.eq_iff_iff, List.isPrefixOf_iff_prefix, List.isPrefixOf_iff_prefix,
      String.toList_append, String.toList_append, List.prefix_append_right_inj]
  -- The first line begins with a digit, and the last one with the name of a bound.
  have number : "f(x)=".toList.isPrefixOf
      (natText e.numCoeffs ++ " term expansion coefficients for").toList = false := by
    obtain ⟨c, rest, chars⟩ := List.exists_cons_of_ne_nil (natChars_ne_nil e.numCoeffs)
    have digit : c.isDigit = true := isDigit_of_mem_natChars (n := e.numCoeffs) (by simp [chars])
    have other : 'f' ≠ c := by
      rintro rfl
      cases digit
    simp [natText, chars, List.isPrefixOf, other]
  have bounds (s : String) : "f(x)=".toList.isPrefixOf ("x_min=" ++ s).toList = false := by
    simp [List.isPrefixOf]
  have line : before ++ ("f(x)=" ++ sanitized description) =
      (⟨before ++ "f(x)=", ""⟩ : Slot).fill (sanitized description) := by
    simp [Slot.fill, String.append_assoc]
  rw [coefficientText, List.map_cons, List.map_cons, List.map_cons, List.map_nil, line,
    Slot.contents_cons_cons, Slot.contents_cons_cons, Slot.contents_fill, Slot.contents_eq_nil,
    Slot.contents_eq_nil]
  · rfl
  · simp only [List.mem_singleton, forall_eq, begins, String.append_assoc, bounds]
  · simp only [List.mem_singleton, forall_eq, begins, number]

/-- Comments that are not indented. -/
theorem block_eq_map (ls : List String) (token : String) :
    block ls token "" = ls.map (token ++ " " ++ ·) := by
  simp [block]

end Comment

namespace LoopFrame

variable {f : LoopFrame} {p : LoopParts} {slot : Slot}

section Beginnings

theorem clash_slots : (f.slots.map Slot.before).Pairwise fun s t => Clash s t = true :=
  (List.pairwise_append.mp f.separate.slots).1

/-- No line with a hole begins as a comment does. -/
theorem clash_comment (hole : slot ∈ f.slots) : Clash slot.before (f.token ++ " ") = true :=
  (List.pairwise_append.mp f.separate.slots).2.2 _ (List.mem_map_of_mem hole) _
    (List.mem_singleton_self _)

/-- No comment begins as a line with a hole does. -/
theorem begins_comment (hole : slot ∈ f.slots) {comment : List String} {l : String}
    (member : l ∈ Comment.block comment f.token "") : slot.begins l = false := by
  obtain ⟨s, -, rfl⟩ := List.mem_map.mp member
  exact begins_eq_false_of_clash (clash_comment hole) (by simp)

/-- Nor does an entry of the table, and no entry begins as the description does. -/
theorem begins_entry (hole : slot ∈ f.description :: f.slots) {s : String}
    (literal : ∀ c ∈ s.toList, c ∈ Decimal.literalChars) : slot.begins (f.entry s) = false := by
  obtain ⟨c, inMark, foreign⟩ := f.separate.entries slot hole
  rw [Slot.begins, Bool.eq_false_iff, Ne, List.isPrefixOf_iff_prefix]
  -- The foreign character would stand in the entry, whose characters are all known.
  intro starts
  apply foreign
  have inEntry := starts.subset inMark
  simp only [LoopTemplate.entry, String.toList_append, List.mem_append] at inEntry
  rcases inEntry with (blank | digit) | comma
  · rcases f.separate.indent c blank with rfl | rfl <;> simp [LoopTemplate.entryChars]
  · simp [LoopTemplate.entryChars, literal c digit]
  · have same : c = ',' := by simpa using comma
    simp [LoopTemplate.entryChars, same]

/-- A line with a hole does not begin as the description does. -/
theorem description_begins_fill (hole : slot ∈ f.slots) (content : String) :
    f.description.begins (slot.fill content) = false := by
  rw [Slot.begins, Bool.eq_false_iff, Ne, List.isPrefixOf_iff_prefix]
  -- The mark of the description begins with the comment token, with which the line clashes.
  intro starts
  have token : (f.token ++ " ").toList <+: (slot.fill content).toList := by
    refine List.IsPrefix.trans ?_ starts
    simp [LoopTemplate.description]
  have begun := begins_eq_false_of_clash (clash_comment hole) token
  rw [Slot.begins_fill] at begun
  cases begun

end Beginnings

section Contents

theorem map_fst_fills : (f.fills p).map Prod.fst = f.slots := by
  simp only [LoopTemplate.fills, LoopTemplate.sizeFill, LoopTemplate.slots]
  cases f.size <;> rfl

theorem mem_slots_of_mem_fills {s : Slot × String} (member : s ∈ f.fills p) : s.1 ∈ f.slots := by
  rw [← map_fst_fills (p := p)]
  exact List.mem_map_of_mem member

theorem clash_fills :
    ((f.fills p).map fun s => s.1.before).Pairwise fun s t => Clash s t = true := by
  have clash := clash_slots (f := f)
  rw [← map_fst_fills (p := p), List.map_map] at clash
  exact clash

/-- What begins as a line with a hole or as the description stands in the comment or is a line with
a hole. -/
theorem contents_lines_eq (plain : p.IsPlain) (mark : slot ∈ f.description :: f.slots) :
    slot.contents (f.lines p) = slot.contents (Comment.block p.comment f.token "") ++
      slot.contents ((f.fills p).map fun s => s.1.fill s.2) := by
  have fixed := f.separate.fixed slot mark
  simp only [LoopTemplate.fixedLines, List.forall_mem_append] at fixed
  obtain ⟨⟨⟨⟨head, closing⟩, gap⟩, middle⟩, tail⟩ := fixed
  -- Only the comment and the lines with a hole can hold something: all others begin differently.
  have entries : slot.contents (p.coeffs.map f.entry) = [] := by
    refine Slot.contents_eq_nil fun l member => ?_
    obtain ⟨s, inside, rfl⟩ := List.mem_map.mp member
    exact begins_entry mark (plain.coeffs s inside)
  simp only [LoopTemplate.lines, LoopTemplate.beforeTable, LoopTemplate.fills, List.map_append,
    List.map_cons, List.map_nil, Slot.contents_append, Slot.contents_cons_cons, entries,
    Slot.contents_eq_nil head, Slot.contents_eq_nil closing, Slot.contents_eq_nil gap,
    Slot.contents_eq_nil middle, Slot.contents_eq_nil tail, List.nil_append, List.append_nil,
    List.append_assoc]

/-- In a program every line with a hole is found once, with what stands in its hole. -/
theorem contents_lines (plain : p.IsPlain) {content : String}
    (member : (slot, content) ∈ f.fills p) : slot.contents (f.lines p) = [some content] := by
  have hole : slot ∈ f.slots := mem_slots_of_mem_fills member
  rw [contents_lines_eq plain (List.mem_cons_of_mem _ hole),
    Slot.contents_fills clash_fills member,
    Slot.contents_eq_nil fun l inside => begins_comment hole inside, List.nil_append]

/-- The table stands between the line that opens it and the first one that closes it. -/
theorem between?_lines :
    between? f.opening.begins (· = f.closing) (f.lines p) = some (p.coeffs.map f.entry) := by
  have hole : f.opening ∈ f.slots := by simp [LoopTemplate.slots]
  have fixed := f.separate.fixed _ (List.mem_cons_of_mem _ hole)
  have split : f.lines p = f.beforeTable p ++ (f.openingFill p).1.fill (f.openingFill p).2 ::
      (p.coeffs.map f.entry ++ f.closing :: (f.gap ++ [f.low.fill p.xMin, f.high.fill p.xMax] ++
        f.middle ++ [f.reference.fill p.reference] ++ f.tail)) := by
    simp [LoopTemplate.lines]
  rw [split]
  refine between?_eq _ ?_ (Slot.begins_fill _ _) ?_ (by simp)
  · -- Before the table there are fixed lines, the comment and the number of coefficients.
    intro l member
    simp only [LoopTemplate.beforeTable, List.mem_append] at member
    rcases member with (head | comment) | size
    · refine fixed l ?_
      simp [LoopTemplate.fixedLines, head]
    · exact begins_comment hole comment
    · obtain ⟨s, inside, rfl⟩ := List.mem_map.mp size
      have clash := clash_fills (f := f) (p := p)
      rw [LoopTemplate.fills, List.map_append, List.pairwise_append] at clash
      refine Slot.begins_fill_of_clash (clash_symm (clash.2.2 _ ?_ _ ?_)) s.2
      · exact List.mem_map_of_mem inside
      · simp [LoopTemplate.openingFill]
  · -- An entry ends with a comma.
    intro l member
    obtain ⟨s, -, rfl⟩ := List.mem_map.mp member
    rw [decide_eq_false_iff_not]
    intro same
    apply f.separate.closing
    rw [← same]
    simp [LoopTemplate.entry]

end Contents

section OneLine

/-- A filled line is one line. -/
theorem isOneLine_of_mem_fills (plain : p.IsPlain) {content : String}
    (member : (slot, content) ∈ f.fills p) : isOneLine (slot.fill content) = true := by
  have hole : slot ∈ f.slots := mem_slots_of_mem_fills member
  have before : isOneLine slot.before = true := by
    refine f.separate.single _ (List.mem_cons_of_mem _ ?_)
    exact List.mem_append_left _ (List.mem_append_left _ (List.mem_map_of_mem hole))
  have after : isOneLine slot.after = true := by
    refine f.separate.single _ (List.mem_cons_of_mem _ ?_)
    exact List.mem_append_left _ (List.mem_append_right _ (List.mem_map_of_mem hole))
  have inside : isOneLine content = true := by
    have empty : isOneLine "" = true := rfl
    have holes := plain.holes
    simp only [List.forall_mem_cons, List.not_mem_nil, false_implies, implies_true,
      and_true] at holes
    obtain ⟨reference, count, low, high⟩ := holes
    simp only [LoopTemplate.fills, LoopTemplate.sizeFill, LoopTemplate.openingFill,
      List.mem_append, Option.mem_toList, Option.map_eq_some_iff, List.mem_cons, Prod.mk.injEq,
      List.not_mem_nil, or_false] at member
    rcases member with ⟨_, -, -, rfl⟩ | ⟨-, rfl⟩ | ⟨-, rfl⟩ | ⟨-, rfl⟩ | ⟨-, rfl⟩
    · exact count
    · split
      · exact count
      · exact empty
    · exact low
    · exact high
    · exact reference
  simp [Slot.fill, before, inside, after]

/-- Every line of a program is one line of its text. -/
theorem isOneLine_of_mem_lines (plain : p.IsPlain) {l : String} (member : l ∈ f.lines p) :
    isOneLine l = true := by
  have fixed : ∀ l ∈ f.fixedLines, isOneLine l = true := fun l inside =>
    f.separate.single l (by simp [inside])
  simp only [LoopTemplate.fixedLines, List.forall_mem_append] at fixed
  obtain ⟨⟨⟨⟨head, closing⟩, gap⟩, middle⟩, tail⟩ := fixed
  have filled : ∀ s ∈ f.fills p, isOneLine (s.1.fill s.2) = true := fun s inside =>
    isOneLine_of_mem_fills plain inside
  simp only [LoopTemplate.fills, List.forall_mem_append, List.forall_mem_cons] at filled
  obtain ⟨size, opening, low, high, reference, -⟩ := filled
  simp only [LoopTemplate.lines, LoopTemplate.beforeTable, List.mem_append, List.mem_cons,
    List.not_mem_nil, or_false] at member
  rcases member with (((((((((inHead | inComment) | inSize) | rfl) | inTable) | rfl) | inGap) |
    rfl | rfl) | inMiddle) | rfl) | inTail
  · exact head l inHead
  · obtain ⟨s, inside, rfl⟩ := List.mem_map.mp inComment
    have token : isOneLine f.token = true := f.separate.single _ List.mem_cons_self
    have blank : isOneLine " " = true := rfl
    simp [token, blank, plain.comment s inside]
  · obtain ⟨s, inside, rfl⟩ := List.mem_map.mp inSize
    exact size s inside
  · exact opening
  · obtain ⟨s, inside, rfl⟩ := List.mem_map.mp inTable
    have indent : isOneLine f.indent = true := by
      refine isOneLine_iff.mpr fun c member => ?_
      rcases f.separate.indent c member with rfl | rfl <;> rfl
    have comma : isOneLine "," = true := rfl
    simp [LoopTemplate.entry, indent, comma, isOneLine_of_literal (plain.coeffs s inside)]
  · exact closing _ (List.mem_singleton_self _)
  · exact gap l inGap
  · exact low
  · exact high
  · exact middle l inMiddle
  · exact reference
  · exact tail l inTail

/-- The last line of a program is not empty. -/
theorem getLast?_lines : (f.lines p).getLast? ≠ some "" := by
  intro empty
  by_cases none : f.tail = []
  · -- The reference value stands last, and its line has a beginning.
    have hole : f.reference ∈ f.description :: f.slots := by simp [LoopTemplate.slots]
    obtain ⟨c, inMark, -⟩ := f.separate.entries _ hole
    rw [LoopTemplate.lines, none, List.append_nil, List.getLast?_concat, Option.some.injEq] at empty
    have chars := congrArg String.toList empty
    simp only [Slot.toList_fill, String.toList_empty, List.append_eq_nil_iff] at chars
    rw [chars.1.1] at inMark
    cases inMark
  · apply f.separate.last
    rw [LoopTemplate.lines, List.getLast?_append_of_ne_nil _ none] at empty
    rw [LoopTemplate.fixedLines, List.getLast?_append_of_ne_nil _ none, empty]

/-- The lines of the text of a program. -/
theorem lines_text (plain : p.IsPlain) : Text.lines (join "\n" (f.lines p)) = f.lines p :=
  lines_join (by simp [LoopTemplate.lines]) fun _ => isOneLine_of_mem_lines plain

theorem brokenLines_text (plain : p.IsPlain) : brokenLines (join "\n" (f.lines p)) = f.lines p := by
  refine brokenLines_join (fun _ => isOneLine_of_mem_lines plain) ?_
  rintro l last rfl
  exact getLast?_lines last

end OneLine

section Description

/-- In a program the description is found once. -/
theorem contents_description (plain : p.IsPlain) {e : Expansion} {description : String}
    (comment : p.comment = Comment.coefficientText e description) :
    f.description.contents (f.lines p) = [some (Comment.sanitized description)] := by
  have found : (⟨f.token ++ " " ++ "f(x)=", ""⟩ : Slot).contents
      ((Comment.coefficientText e description).map (f.token ++ " " ++ ·)) =
        [some (Comment.sanitized description)] := Comment.contents_coefficientText _
  rw [contents_lines_eq plain List.mem_cons_self, comment, Comment.block_eq_map,
    LoopTemplate.description, found, Slot.contents_eq_nil, List.append_nil]
  intro l member
  obtain ⟨s, inside, rfl⟩ := List.mem_map.mp member
  exact description_begins_fill (mem_slots_of_mem_fills inside) s.2

end Description

end LoopFrame

end ClenshawCode
