import ClenshawCode.Text.Blank
import Mathlib.Data.List.Basic

/-!
# Texts and their lines

A program is a list of lines joined by line feeds. When no line holds a character that breaks lines,
splitting the text at its line feeds gives the lines back, and so does splitting it at everything
that breaks lines, unless the last line is empty.

## Main definitions

* `isOneLine`: texts without a line break
* `lines`: the lines of a text by its line feeds
* `brokenChars`, `brokenLines`: the lines of a text by all line breaks
* `between?`: the lines between one that opens and one that closes
* `DifferAt`: lines that differ in one place at most
* `VariesAt`: lines of which one varies with a parameter
-/

namespace ClenshawCode.Text

/-- Whether a text is free of line breaks. -/
def isOneLine (s : String) : Bool := !s.toList.any isLineBreak

/-- The lines of a text: what stands between its line feeds. -/
def lines (s : String) : List String := (s.toList.splitOn '\n').map String.ofList

/-- Characters, cut into lines at all that break lines. A carriage return and a line feed
behind it break once, and a break at the end opens no further line. -/
def brokenChars : List Char → List (List Char)
  | [] => []
  | '\r' :: '\n' :: rest => [] :: brokenChars rest
  | c :: rest =>
    if isLineBreak c then [] :: brokenChars rest
    else match brokenChars rest with
      | [] => [[c]]
      | line :: others => (c :: line) :: others

/-- The lines of a text by all characters that break lines. -/
def brokenLines (s : String) : List String := (brokenChars s.toList).map String.ofList

/-- The lines between the first one that opens and the next one behind it that closes. -/
def between? (opens closes : String → Bool) (ls : List String) : Option (List String) :=
  match ls.dropWhile fun l => !opens l with
  | [] => none
  | _ :: rest => if rest.any closes then some (rest.takeWhile fun l => !closes l) else none

/-- Lines that differ at most in the one with an index. -/
def DifferAt (k : ℕ) (ls ls' : List String) : Prop :=
  ls.length = ls'.length ∧ ∀ j, j ≠ k → ls[j]? = ls'[j]?

/-- Lines of which the one with an index varies with a parameter, and no other one does. -/
def VariesAt {α : Type} (k : ℕ) (ls : α → List String) (line : α → String) : Prop :=
  ∃ before after, before.length = k ∧ ∀ a, ls a = before ++ line a :: after

section OneLine

variable {s t : String}

@[simp] theorem isOneLine_append : isOneLine (s ++ t) = (isOneLine s && isOneLine t) := by
  simp [isOneLine]

theorem isOneLine_iff : isOneLine s = true ↔ ∀ c ∈ s.toList, isLineBreak c = false := by
  simp [isOneLine]

/-- A text without line breaks has no line feed. -/
theorem not_mem_of_isOneLine (single : isOneLine s = true) : '\n' ∉ s.toList := by
  intro member
  have unbroken := isOneLine_iff.mp single '\n' member
  revert unbroken
  decide

end OneLine

section Lines

variable {ls : List String}

theorem toList_join (separator : String) (ls : List String) :
    (join separator ls).toList = separator.toList.intercalate (ls.map String.toList) := by
  induction ls with
  | nil => rfl
  | cons s rest ih =>
    cases rest with
    | nil => simp [join]
    | cons t rest => simp [join, ih, List.intercalate]

/-- Joined lines are found again. -/
theorem lines_join (nonempty : ls ≠ []) (single : ∀ l ∈ ls, isOneLine l = true) :
    lines (join "\n" ls) = ls := by
  -- Splitting undoes joining if the separator occurs in no part.
  have apart : ∀ cs ∈ ls.map String.toList, '\n' ∉ cs := by
    intro cs member
    obtain ⟨l, inside, rfl⟩ := List.mem_map.mp member
    exact not_mem_of_isOneLine (single l inside)
  have feed : "\n".toList = ['\n'] := rfl
  rw [lines, toList_join, feed, List.splitOn_intercalate '\n' apart (by simpa using nonempty),
    List.map_map]
  exact (List.map_congr_left fun l _ => String.ofList_toList).trans (List.map_id' ls)

/-- A line without breaks is cut off by the line feed behind it. -/
theorem brokenChars_append_feed {cs : List Char} (unbroken : ∀ c ∈ cs, isLineBreak c = false)
    (rest : List Char) : brokenChars (cs ++ '\n' :: rest) = cs :: brokenChars rest := by
  induction cs with
  | nil =>
    have breaks : isLineBreak '\n' = true := by decide
    simp [brokenChars, breaks]
  | cons c cs ih =>
    have kept : isLineBreak c = false := unbroken c List.mem_cons_self
    have others := ih fun a member => unbroken a (List.mem_cons_of_mem c member)
    -- A carriage return in front of the line feed would break with it.
    have notReturn : c ≠ '\r' := by
      rintro rfl
      cases kept
    rw [List.cons_append, brokenChars, others]
    · simp [kept]
    · simp [notReturn]

/-- A last line without breaks is a line unless it is empty. -/
theorem brokenChars_of_unbroken {cs : List Char} (nonempty : cs ≠ [])
    (unbroken : ∀ c ∈ cs, isLineBreak c = false) : brokenChars cs = [cs] := by
  induction cs with
  | nil => exact absurd rfl nonempty
  | cons c cs ih =>
    have kept : isLineBreak c = false := unbroken c List.mem_cons_self
    have notReturn : c ≠ '\r' := by
      rintro rfl
      cases kept
    rw [brokenChars]
    · cases cs with
      | nil => simp [kept, brokenChars]
      | cons c' cs =>
        have others := ih (List.cons_ne_nil _ _) fun a member =>
          unbroken a (List.mem_cons_of_mem c member)
        simp [kept, others]
    · simp [notReturn]

/-- Joined lines are found again by all line breaks, if the last one is not empty. -/
theorem brokenLines_join (single : ∀ l ∈ ls, isOneLine l = true)
    (last : ∀ l ∈ ls.getLast?, l ≠ "") : brokenLines (join "\n" ls) = ls := by
  induction ls with
  | nil => rfl
  | cons s rest ih =>
    have unbroken := isOneLine_iff.mp (single s List.mem_cons_self)
    cases rest with
    | nil =>
      -- An empty last line would leave no trace.
      have nonempty : s.toList ≠ [] := by
        simpa using last s rfl
      rw [brokenLines, join, brokenChars_of_unbroken nonempty unbroken]
      simp
    | cons t rest =>
      have others := ih (fun l member => single l (List.mem_cons_of_mem s member)) last
      have split : (join "\n" (s :: t :: rest)).toList =
          s.toList ++ '\n' :: (join "\n" (t :: rest)).toList := by
        simp [join]
      rw [brokenLines] at others ⊢
      rw [split, brokenChars_append_feed unbroken, List.map_cons, others, String.ofList_toList]

end Lines

section Between

variable {opens closes : String → Bool} {before inside : List String} {first last : String}

theorem between?_eq (after : List String) (unopened : ∀ l ∈ before, opens l = false)
    (opened : opens first = true) (unclosed : ∀ l ∈ inside, closes l = false)
    (closed : closes last = true) :
    between? opens closes (before ++ first :: (inside ++ last :: after)) = some inside := by
  have start : (before ++ first :: (inside ++ last :: after)).dropWhile (fun l => !opens l) =
      first :: (inside ++ last :: after) := by
    rw [List.dropWhile_append_of_pos (by simpa using unopened), List.dropWhile_cons, opened]
    rfl
  have stop : (inside ++ last :: after).takeWhile (fun l => !closes l) = inside := by
    rw [List.takeWhile_append_of_pos (by simpa using unclosed), List.takeWhile_cons, closed]
    simp
  have found : (inside ++ last :: after).any closes = true := by
    simp [closed]
  rw [between?, start]
  simp only [found, stop, if_true]

end Between

section Variation

variable {α : Type} {k : ℕ} {ls : α → List String} {line : α → String}

theorem VariesAt.append_left (varies : VariesAt k ls line) (before : List String) :
    VariesAt (before.length + k) (fun a => before ++ ls a) line := by
  obtain ⟨front, back, length, split⟩ := varies
  refine ⟨before ++ front, back, by rw [List.length_append, length], fun a => ?_⟩
  simp only [split, List.append_assoc]

theorem VariesAt.append_right (varies : VariesAt k ls line) (after : List String) :
    VariesAt k (fun a => ls a ++ after) line := by
  obtain ⟨front, back, length, split⟩ := varies
  refine ⟨front, back ++ after, length, fun a => ?_⟩
  simp only [split, List.append_assoc, List.cons_append]

/-- A line for each item of a list, of which one varies. -/
theorem variesAt_map_set (line : α → String) (items : List α) {i : ℕ} (inside : i < items.length) :
    VariesAt i (fun a => (items.set i a).map line) line := by
  refine ⟨(items.take i).map line, (items.drop (i + 1)).map line, ?_, fun a => ?_⟩
  · rw [List.length_map, List.length_take, Nat.min_eq_left (Nat.le_of_lt inside)]
  · simp only [List.set_eq_take_append_cons_drop, if_pos inside, List.map_append, List.map_cons]

/-- Two values of the parameter give lines that differ in one place, where each has its own. -/
theorem VariesAt.differAt (varies : VariesAt k ls line) (a b : α) :
    DifferAt k (ls a) (ls b) ∧ (ls a)[k]? = some (line a) ∧ (ls b)[k]? = some (line b) := by
  obtain ⟨front, back, rfl, split⟩ := varies
  rw [split, split]
  refine ⟨⟨by simp, fun j other => ?_⟩, by simp, by simp⟩
  by_cases inFront : j < front.length
  · rw [List.getElem?_append_left inFront, List.getElem?_append_left inFront]
  · -- Behind the line that varies the indices are positive.
    obtain ⟨i, offset⟩ : ∃ i, j - front.length = i + 1 := ⟨j - front.length - 1, by omega⟩
    rw [List.getElem?_append_right (Nat.not_lt.mp inFront),
      List.getElem?_append_right (Nat.not_lt.mp inFront), offset, List.getElem?_cons_succ,
      List.getElem?_cons_succ]

end Variation

end ClenshawCode.Text
