import ClenshawCode.Comment
import ClenshawCode.Proofs.Text.Lines

/-!
# Descriptions on one line

Joining the lines of a description leaves no line break: a run of blanks that holds one becomes a
space, any other run holds none, and whatever is no blank breaks no line. Dropping blanks at the
ends adds nothing. So a description that is a text always has a form fit for a comment.

## Main definitions

* `Comment.sanitized`: the form of a description that is a text
-/

namespace ClenshawCode

namespace Comment

open Text

/-- The form in which a text becomes part of a comment. -/
def sanitized (s : String) : String :=
  if s.toList.any isLineBreak then String.ofList (trim (joinLines s.toList)) else s

theorem sanitize_text (s : String) : (sanitize (.text s)).result = .ok (sanitized s) := by
  rw [sanitize, sanitized]
  split <;> rfl

/-- Joined runs hold no line break. The run that is being read consists of blanks. -/
theorem not_isLineBreak_of_mem_joinRuns {run cs : List Char} {c : Char}
    (member : c ∈ joinRuns run cs) : isLineBreak c = false := by
  have space : isLineBreak ' ' = false := by decide
  have flushed (run : List Char)
      (member : c ∈ if run.any isLineBreak then [' '] else run.reverse) :
      isLineBreak c = false := by
    split at member
    · rw [List.mem_singleton.mp member]
      exact space
    · rename_i unbroken
      rw [List.any_eq_true] at unbroken
      by_contra breaks
      exact unbroken ⟨c, List.mem_reverse.mp member, by simpa using breaks⟩
  -- The run grows while blanks are read, and it may already hold line breaks.
  induction cs generalizing run with
  | nil => exact flushed run member
  | cons c' rest ih =>
    rw [joinRuns] at member
    split at member
    · exact ih member
    · rename_i word
      rcases List.mem_append.mp member with inRun | inRest
      · exact flushed run inRun
      · rcases List.mem_cons.mp inRest with rfl | later
        · by_contra breaks
          exact word (isBlank_of_isLineBreak (by simpa using breaks))
        · exact ih later

theorem mem_of_mem_trim {c : Char} {cs : List Char} (member : c ∈ trim cs) : c ∈ cs := by
  -- The blanks at the end are dropped at the front of the reversed text.
  rw [trim, trimEnd, List.mem_reverse] at member
  have kept := (List.dropWhile_sublist isBlank).subset member
  exact (List.dropWhile_sublist isBlank).subset (List.mem_reverse.mp kept)

/-- A description has one line when it becomes part of a comment. -/
theorem isOneLine_sanitized (s : String) : isOneLine (sanitized s) = true := by
  rw [sanitized]
  split
  · rw [isOneLine_iff, String.toList_ofList]
    exact fun c member => not_isLineBreak_of_mem_joinRuns (mem_of_mem_trim member)
  · rename_i unbroken
    rw [Bool.not_eq_true] at unbroken
    rw [isOneLine, unbroken]
    rfl

end Comment

end ClenshawCode
