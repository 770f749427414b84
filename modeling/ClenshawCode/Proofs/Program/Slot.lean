import ClenshawCode.Proofs.Text.Lines
import Mathlib

/-!
# Lines with a hole

A line of a generated program that varies has a fixed beginning and a fixed end. Such a line is
found among others by its beginning, so what stands in its hole can be read back, provided that no
other line begins so. Two beginnings of which neither continues the other never meet in one line.

## Main definitions

* `Slot`, `Slot.fill`: a line with a hole, and the line for a content
* `Slot.begins`, `Slot.contents`: the lines that begin as a slot does, and what they hold
* `Clash`: two beginnings of which neither continues the other
-/

namespace ClenshawCode

open Text

/-- A line with a hole. -/
structure Slot where
  before : String
  after : String
deriving DecidableEq

/-- The line with a content in its hole. -/
def Slot.fill (slot : Slot) (content : String) : String := slot.before ++ content ++ slot.after

/-- Whether a line begins as the slot does. -/
def Slot.begins (slot : Slot) (l : String) : Bool := slot.before.toList.isPrefixOf l.toList

/-- What a line that begins as the slot does holds in its place, if it also ends so. -/
def Slot.content? (slot : Slot) (l : String) : Option String :=
  let rest := l.toList.drop slot.before.toList.length
  if slot.after.toList.isSuffixOf rest then
    some (String.ofList (rest.take (rest.length - slot.after.toList.length)))
  else none

/-- What the lines that begin as the slot does hold in its place. -/
def Slot.contents (slot : Slot) (ls : List String) : List (Option String) :=
  (ls.filter slot.begins).map slot.content?

/-- Two beginnings of which neither continues the other. -/
def Clash (s t : String) : Bool :=
  !s.toList.isPrefixOf t.toList && !t.toList.isPrefixOf s.toList

section Slots

variable {slot : Slot} {ls : List String}

@[simp] theorem Slot.toList_fill (slot : Slot) (content : String) :
    (slot.fill content).toList = slot.before.toList ++ content.toList ++ slot.after.toList := by
  simp [fill]

@[simp] theorem Slot.begins_fill (slot : Slot) (content : String) :
    slot.begins (slot.fill content) = true := by
  simp [begins, List.append_assoc]

/-- What was put into the hole is read back. -/
@[simp] theorem Slot.content?_fill (slot : Slot) (content : String) :
    slot.content? (slot.fill content) = some content := by
  simp [content?, List.append_assoc]

@[simp] theorem Slot.contents_nil (slot : Slot) : slot.contents [] = [] := rfl

@[simp] theorem Slot.contents_append (slot : Slot) (ls ls' : List String) :
    slot.contents (ls ++ ls') = slot.contents ls ++ slot.contents ls' := by
  simp [contents]

theorem Slot.contents_cons_cons (slot : Slot) (l l' : String) (ls : List String) :
    slot.contents (l :: l' :: ls) = slot.contents [l] ++ slot.contents (l' :: ls) :=
  slot.contents_append [l] (l' :: ls)

/-- A line with another character in a column of the beginning begins otherwise. -/
theorem Slot.begins_of_column {l : String} {column : ℕ} {c : Char}
    (mark : slot.before.toList[column]? = some c) (other : l.toList[column]? ≠ some c) :
    slot.begins l = false := by
  rw [begins, Bool.eq_false_iff, Ne, List.isPrefixOf_iff_prefix]
  -- The beginning would put its own character into the column.
  rintro ⟨rest, whole⟩
  have inside : column < slot.before.toList.length := (List.getElem?_eq_some_iff.mp mark).1
  rw [← whole, List.getElem?_append_left inside] at other
  exact other mark

/-- Lines that begin otherwise hold nothing. -/
theorem Slot.contents_eq_nil (other : ∀ l ∈ ls, slot.begins l = false) : slot.contents ls = [] := by
  simpa [contents] using other

@[simp] theorem Slot.contents_fill (slot : Slot) (content : String) :
    slot.contents [slot.fill content] = [some content] := by
  simp [contents]

theorem clash_symm {s t : String} (clash : Clash s t = true) : Clash t s = true := by
  rw [Clash, Bool.and_comm]
  exact clash

/-- A line with one of two clashing beginnings does not have the other. -/
theorem begins_eq_false_of_clash {s : String} (clash : Clash slot.before s = true) {l : String}
    (starts : s.toList <+: l.toList) : slot.begins l = false := by
  simp only [Clash, Bool.and_eq_true, Bool.not_eq_true', List.isPrefixOf_iff_prefix,
    Bool.eq_false_iff, Ne] at clash
  rw [Slot.begins, Bool.eq_false_iff, Ne, List.isPrefixOf_iff_prefix]
  intro both
  -- Of two prefixes of one line the shorter one is a prefix of the other.
  rcases List.prefix_or_prefix_of_prefix both starts with first | second
  · exact clash.1 first
  · exact clash.2 second

theorem Slot.begins_fill_of_clash {slot' : Slot} (clash : Clash slot.before slot'.before = true)
    (content : String) : slot.begins (slot'.fill content) = false := by
  refine begins_eq_false_of_clash clash ?_
  rw [toList_fill, List.append_assoc]
  exact List.prefix_append _ _

/-- Among filled lines with clashing beginnings each slot is found once, with its content. -/
theorem Slot.contents_fills {fills : List (Slot × String)} {content : String}
    (apart : (fills.map fun f => f.1.before).Pairwise fun s t => Clash s t = true)
    (member : (slot, content) ∈ fills) :
    slot.contents (fills.map fun f => f.1.fill f.2) = [some content] := by
  -- The slot is that of the first line or of a later one; all others clash with it.
  induction fills with
  | nil => cases member
  | cons first rest ih =>
    rw [List.map_cons, List.pairwise_cons] at apart
    obtain ⟨clashes, apart⟩ := apart
    rw [List.map_cons, ← List.singleton_append, contents_append]
    rcases List.mem_cons.mp member with rfl | later
    · rw [contents_fill, contents_eq_nil, List.append_nil]
      intro l inside
      obtain ⟨f, inRest, rfl⟩ := List.mem_map.mp inside
      exact begins_fill_of_clash (clashes _ (List.mem_map_of_mem inRest)) f.2
    · rw [ih apart later, contents_eq_nil, List.nil_append]
      intro l inside
      rw [List.mem_singleton.mp inside]
      exact begins_fill_of_clash (clash_symm (clashes _ (List.mem_map_of_mem later))) first.2

end Slots

end ClenshawCode
