import ClenshawCode.Program.Shader.Syntax
import Mathlib.Data.List.Basic

/-!
# The words and signs of shader code

A line of shader code is read without the comment at its end, as words and single signs between
blanks. An expression is written so that its tokens are those of its parts in order, whatever stands
behind it, as long as that does not continue its last word.

## Main definitions

* `Shader.uncomment`: a line without the comment at its end
* `Shader.Token`, `Shader.tokens`: words and signs, and those of a text
* `Shader.Expr.tokens`: the tokens that an expression is written with
-/

namespace ClenshawCode.Shader

/-- A line without the comment at its end. -/
def uncomment : List Char → List Char
  | '/' :: '/' :: _ => []
  | c :: rest => c :: uncomment rest
  | [] => []

/-- A word of letters, digits, underscores and points, or a single other character. -/
inductive Token where
  | word (s : String)
  | sign (c : Char)
deriving DecidableEq, Repr

/-- The characters of words. -/
def isWordChar (c : Char) : Bool := c.isAlphanum || c = '_' || c = '.'

/-- The token of a word that has been read, the last character first. -/
def wordTokens (word : List Char) : List Token :=
  if word.isEmpty then [] else [.word (String.ofList word.reverse)]

/-- The tokens of a text behind a word that is being read. -/
def tokensFrom : (word : List Char) → List Char → List Token
  | word, [] => wordTokens word
  | word, c :: rest =>
    if isWordChar c then tokensFrom (c :: word) rest
    else wordTokens word ++ (if Text.isBlank c then [] else [.sign c]) ++ tokensFrom [] rest

/-- The words and signs of a text. -/
def tokens (cs : List Char) : List Token := tokensFrom [] cs

section Words

variable {ws cs rest : List Char} {c : Char}

/-- What follows a word does not continue it. -/
def EndsWord (rest : List Char) : Prop := ∀ c ∈ rest.head?, isWordChar c = false

theorem endsWord_cons (other : isWordChar c = false) : EndsWord (c :: rest) := by
  intro c' member
  cases member
  exact other

/-- The characters of a word are collected. -/
theorem tokensFrom_append_word (word : List Char) (allWord : ∀ c ∈ ws, isWordChar c = true) :
    tokensFrom word (ws ++ rest) = tokensFrom (ws.reverse ++ word) rest := by
  induction ws generalizing word with
  | nil => rfl
  | cons c ws ih =>
    have inWord : isWordChar c = true := allWord c List.mem_cons_self
    rw [List.cons_append, tokensFrom, inWord, if_pos rfl,
      ih _ fun a member => allWord a (List.mem_cons_of_mem c member)]
    simp

/-- A text is cut into tokens at a place where no word goes on. -/
theorem tokensFrom_append (word : List Char) (ends : EndsWord rest) :
    tokensFrom word (cs ++ rest) = tokensFrom word cs ++ tokens rest := by
  -- The word that is being read grows with the text in front of the cut.
  induction cs generalizing word with
  | nil =>
    cases rest with
    | nil => simp [tokens, tokensFrom, wordTokens]
    | cons c rest =>
      have other : isWordChar c = false := ends c rfl
      simp [tokens, tokensFrom, other, wordTokens]
  | cons c cs ih =>
    rw [List.cons_append, tokensFrom, tokensFrom]
    split
    · exact ih _
    · rw [ih]
      simp only [List.append_assoc]

theorem tokens_append (ends : EndsWord rest) :
    tokens (cs ++ rest) = tokens cs ++ tokens rest := tokensFrom_append [] ends

theorem tokens_blank (other : isWordChar c = false) (blank : Text.isBlank c = true) :
    tokens (c :: rest) = tokens rest := by
  simp [tokens, tokensFrom, other, blank, wordTokens]

theorem tokens_sign (other : isWordChar c = false) (visible : Text.isBlank c = false) :
    tokens (c :: rest) = .sign c :: tokens rest := by
  simp [tokens, tokensFrom, other, visible, wordTokens]

theorem tokens_space : tokens (' ' :: rest) = tokens rest :=
  tokens_blank (by decide) (by decide)

theorem tokens_spaces (n : ℕ) : tokens (List.replicate n ' ' ++ rest) = tokens rest := by
  induction n with
  | zero => rfl
  | succ n ih => rw [List.replicate_succ, List.cons_append, tokens_space, ih]

/-- A word is one token. -/
theorem tokens_word (nonempty : ws ≠ []) (allWord : ∀ c ∈ ws, isWordChar c = true) :
    tokens ws = [.word (String.ofList ws)] := by
  have read : tokensFrom [] (ws ++ []) = tokensFrom (ws.reverse ++ []) [] :=
    tokensFrom_append_word [] allWord
  rw [List.append_nil, List.append_nil] at read
  rw [tokens, read, tokensFrom, wordTokens, List.reverse_reverse]
  simp [nonempty]

end Words

section Comments

variable {cs rest : List Char}

/-- Characters without a slash stay. -/
theorem uncomment_append (plain : '/' ∉ cs) : uncomment (cs ++ rest) = cs ++ uncomment rest := by
  induction cs with
  | nil => rfl
  | cons c cs ih =>
    rw [List.mem_cons, not_or] at plain
    obtain ⟨first, others⟩ := plain
    rw [List.cons_append, uncomment, ih others]
    · rfl
    · intro tail same
      exact absurd same.symm first

end Comments

end ClenshawCode.Shader
