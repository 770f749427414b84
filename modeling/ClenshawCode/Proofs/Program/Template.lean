import ClenshawCode.Program.Loop
import ClenshawCode.Proofs.Comment.Block
import ClenshawCode.Proofs.Program.Slot

/-!
# Templates of loop programs

The four programs that run the recurrence as a loop have one shape: fixed lines, among them the
comment, the table of coefficients and a few lines with a hole. A template says what the fixed lines
and the holes are. Its parts are separate when none can be taken for another: the lines with a hole
begin differently from each other, from the comment, from the fixed lines and from the entries of
the table, and no entry looks like the end of the table.

Whether they are is a question about characters. The texts of a template are therefore spelled out
once, and the answer is computed from the spelling.

## Main definitions

* `LoopTemplate`, `LoopTemplate.lines`: a template and the lines of its programs
* `LoopTemplate.Separate`: no part can be taken for another
* `LoopTemplate.isSeparate`: the test for it, on the characters of the parts
* `LoopFrame`: a template with separate parts
-/

namespace ClenshawCode

open Text

/-- The fixed parts of a loop program. -/
structure LoopTemplate where
  /-- The comment token. -/
  token : String
  /-- The lines before the comment on the coefficients. -/
  head : List String
  /-- The line with the number of coefficients, if the program has one. -/
  size : Option Slot
  /-- The line that opens the table. -/
  opening : Slot
  /-- Whether the line that opens the table holds the number of coefficients. -/
  sizeInOpening : Bool
  /-- The blanks before an entry of the table. -/
  indent : String
  /-- The line that closes the table. -/
  closing : String
  /-- The lines between the table and the bounds. -/
  gap : List String
  low : Slot
  high : Slot
  /-- The lines between the bounds and the reference value. -/
  middle : List String
  reference : Slot
  /-- The lines behind the reference value. -/
  tail : List String

namespace LoopTemplate

variable (f : LoopTemplate) (p : LoopParts)

/-- The line of the comment that holds the description. -/
def description : Slot := ⟨f.token ++ " " ++ "f(x)=", ""⟩

/-- The lines with a hole outside the comment. -/
def slots : List Slot := f.size.toList ++ [f.opening, f.low, f.high, f.reference]

/-- The lines that never vary. -/
def fixedLines : List String := f.head ++ [f.closing] ++ f.gap ++ f.middle ++ f.tail

/-- An entry of the table. -/
def entry (literal : String) : String := f.indent ++ literal ++ ","

/-- The line with the number of coefficients. -/
def sizeFill : List (Slot × String) := (f.size.map fun slot => (slot, p.count)).toList

/-- The line that opens the table. -/
def openingFill : Slot × String := (f.opening, if f.sizeInOpening then p.count else "")

/-- The lines with a hole outside the comment, and what stands in their holes. -/
def fills : List (Slot × String) :=
  f.sizeFill p ++ [f.openingFill p, (f.low, p.xMin), (f.high, p.xMax), (f.reference, p.reference)]

/-- The lines before the table. -/
def beforeTable : List String :=
  f.head ++ Comment.block p.comment f.token "" ++ (f.sizeFill p).map fun s => s.1.fill s.2

/-- The lines of a program. -/
def lines : List String :=
  f.beforeTable p ++ [(f.openingFill p).1.fill (f.openingFill p).2] ++ p.coeffs.map f.entry ++
    [f.closing] ++ f.gap ++ [f.low.fill p.xMin, f.high.fill p.xMax] ++ f.middle ++
    [f.reference.fill p.reference] ++ f.tail

/-- The characters of an entry of a table. -/
def entryChars : List Char := ' ' :: '\t' :: ',' :: Decimal.literalChars

/-- No part of a program can be taken for another one. -/
structure Separate : Prop where
  /-- Lines with a hole begin differently from each other and from the comment. -/
  slots : (f.slots.map Slot.before ++ [f.token ++ " "]).Pairwise fun s t => Clash s t = true
  /-- No line that never varies begins as one of them or as the description. -/
  fixed : ∀ slot ∈ f.description :: f.slots, ∀ l ∈ f.fixedLines, slot.begins l = false
  /-- Each has a character that no entry of a table has. -/
  entries : ∀ slot ∈ f.description :: f.slots, ∃ c ∈ slot.before.toList, c ∉ entryChars
  /-- An entry begins with blanks. -/
  indent : ∀ c ∈ f.indent.toList, c = ' ' ∨ c = '\t'
  /-- The line that closes the table does not end as an entry does. -/
  closing : f.closing.toList.getLast? ≠ some ','
  /-- Every part is on one line. -/
  single : ∀ s ∈ f.token :: (f.slots.map Slot.before ++ f.slots.map Slot.after ++ f.fixedLines),
    isOneLine s = true
  /-- The last line is not empty. -/
  last : f.fixedLines.getLast? ≠ some ""

/-- The test for separate parts, on the characters of the token, the blanks before an entry, the end
of the table, the two parts of the lines with a hole, and the lines that never vary. -/
def isSeparate (token indent closing : List Char) (befores afters fixed : List (List Char)) :
    Bool :=
  let marks := (token ++ " f(x)=".toList) :: befores
  (befores ++ [token ++ [' ']]).Pairwise
    (fun s t => (!s.isPrefixOf t && !t.isPrefixOf s) = true) &&
  marks.all (fun s => fixed.all fun l => !s.isPrefixOf l) &&
  marks.all (fun s => s.any fun c => !entryChars.contains c) &&
  indent.all (fun c => c == ' ' || c == '\t') &&
  closing.getLast? != some ',' &&
  (token :: (befores ++ afters ++ fixed)).all (fun s => !s.any isLineBreak) &&
  fixed.getLast? != some []

end LoopTemplate

/-- A template whose parts cannot be confused. -/
structure LoopFrame extends LoopTemplate where
  separate : toLoopTemplate.Separate

section Spelled

/-- Texts and their characters, one by one. -/
abbrev Spelled (texts : List String) (chars : List (List Char)) : Prop :=
  List.Forall₂ (fun s cs => s = String.ofList cs) texts chars

theorem Spelled.map_toList {texts : List String} {chars : List (List Char)}
    (spelled : Spelled texts chars) : texts.map String.toList = chars := by
  induction spelled with
  | nil => rfl
  | cons first _ ih => rw [List.map_cons, ih, first, String.toList_ofList]

/-- The test for separate parts decides whether they are. -/
theorem LoopTemplate.separate_of_isSeparate (f : LoopTemplate) {token indent closing : List Char}
    {befores afters fixed : List (List Char)}
    (signs : Spelled [f.token, f.indent, f.closing] [token, indent, closing])
    (starts : Spelled (f.slots.map Slot.before) befores)
    (ends : Spelled (f.slots.map Slot.after) afters) (whole : Spelled f.fixedLines fixed)
    (tested : isSeparate token indent closing befores afters fixed = true) : f.Separate := by
  have signs := signs.map_toList
  have starts := starts.map_toList
  have ends := ends.map_toList
  have whole := whole.map_toList
  simp only [List.map_cons, List.map_nil, List.cons.injEq, and_true] at signs
  obtain ⟨rfl, rfl, rfl⟩ := signs
  subst starts ends whole
  have marks : (f.token.toList ++ " f(x)=".toList) :: (f.slots.map Slot.before).map String.toList =
      (f.description :: f.slots).map fun slot => slot.before.toList := by
    simp [description]
  simp only [isSeparate, marks, Bool.and_eq_true, decide_eq_true_eq] at tested
  obtain ⟨⟨⟨⟨⟨⟨slots, fixed⟩, entries⟩, indent⟩, closing⟩, single⟩, last⟩ := tested
  -- Each conjunct of the test is a field, up to the characters of the texts.
  refine ⟨?_, ?_, ?_, ?_, ?_, ?_, ?_⟩
  · have chars : (f.slots.map Slot.before).map String.toList ++ [f.token.toList ++ [' ']] =
        (f.slots.map Slot.before ++ [f.token ++ " "]).map String.toList := by
      simp
    rw [chars, List.pairwise_map] at slots
    exact slots.imp fun apart => by simpa [Clash] using apart
  · simpa [Slot.begins] using fixed
  · simpa using entries
  · simpa using indent
  · simpa using closing
  · simpa [isOneLine, or_imp, forall_and] using single
  · simpa using last

end Spelled

end ClenshawCode
