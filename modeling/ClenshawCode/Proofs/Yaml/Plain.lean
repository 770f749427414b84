import ClenshawCode.Proofs.Yaml.Quoted
import ClenshawCode.Yaml.Scalar.Plain

/-!
# A scalar without quotes reads back

A text without quotes is read word by word, and what separates two words belongs to it if another
word follows. The writer may put a new line in the place of a single space; on the new line the text
goes on behind the indentation. It ends where the next line is not indented. Texts that hold the
mark of a value or of a comment are not written without quotes, so that no word ends too early.

## Main definitions

* `Yaml.StartsWord`, `Yaml.StartsLine`: texts with which a word, or a line that is not indented,
  begins
* `Yaml.Plain.Reads`: what the text of a scalar is read as

## Main results

* `Yaml.Plain.reads_plainChars`: what the writer makes of a text is read as the text
* `Yaml.Plain.reads_name`: a name in front of the mark of a value
-/

namespace ClenshawCode.Yaml

/-- Texts that are empty or begin with a word or mark, and not with what may stand in front of it.
-/
def StartsWord (cs : List Char) : Prop :=
  ∀ c ∈ cs.head?, isGap c = false ∧ c ≠ '#' ∧ c ≠ '\uFEFF'

theorem startsWord_cons {c : Char} (begins : isGap c = false ∧ c ≠ '#' ∧ c ≠ '\uFEFF')
    (rest : List Char) : StartsWord (c :: rest) := by
  intro d first
  obtain rfl : c = d := Option.some.inj first
  exact begins

/-- Texts with which a line begins that is not indented. -/
structure StartsLine (next : List Char) : Prop where
  separator : atSeparator next = false
  word : StartsWord next

namespace Plain

/-- What the text of a scalar is read as. -/
def Reads (least : ℕ) (cs : List Char) (scalar : Scalar) : Prop :=
  ∀ fuel, cs.length ≤ fuel → read false least fuel cs = scalar

section Pieces

variable {least indent : ℕ} {c : Char} {cs content next : List Char} {crossed : Bool}

/-- What does not go on behind a gap is read as no more than its first word. -/
theorem read_of_not_goesOn (fuel : ℕ)
    (stops : (gap (word false cs).2).goesOn false least = false) :
    read false least (fuel + 1) cs =
      ⟨(word false cs).1, (gap (word false cs).2).crossed, (gap (word false cs).2).rest⟩ := by
  rw [read, stops]
  rfl

theorem word_of_endsWord (ends : endsWord false c cs = true) :
    word false (c :: cs) = ([], c :: cs) := by
  rw [word, ends, if_pos rfl]

theorem endsWord_of_isGap (gaps : isGap c = true) : endsWord false c cs = true := by
  rw [endsWord, gaps, Bool.true_or, Bool.true_or]

/-- A character of a word. -/
theorem read_cons (inside : endsWord false c cs = false) (fuel : ℕ) :
    read false least (fuel + 1) (c :: cs) =
      { read false least (fuel + 1) cs with
        content := c :: (read false least (fuel + 1) cs).content } := by
  have taken : word false (c :: cs) = (c :: (word false cs).1, (word false cs).2) := by
    rw [word, inside, if_neg Bool.false_ne_true]
  rw [read, read, taken]
  dsimp only
  -- What follows the word is the same with the character in front and without it.
  split_ifs <;> rfl

theorem Reads.char (more : Reads least cs ⟨content, crossed, next⟩)
    (inside : endsWord false c cs = false) :
    Reads least (c :: cs) ⟨c :: content, crossed, next⟩ := by
  intro fuel enough
  obtain ⟨fuel, rfl, left⟩ := exists_fuel enough
  rw [read_cons inside, more (fuel + 1) (left.trans (Nat.le_succ fuel))]

/-- A gap is read as its content if the scalar goes on behind it. -/
theorem Reads.gap {g : Gap} (more : Reads least g.rest ⟨content, crossed, next⟩)
    (gaps : isGap c = true) (found : Plain.gap (c :: cs) = g)
    (goesOn : g.goesOn false least = true) (word : content ≠ [])
    (fewer : g.rest.length ≤ cs.length) :
    Reads least (c :: cs) ⟨g.content ++ content, crossed, next⟩ := by
  intro fuel enough
  obtain ⟨fuel, rfl, left⟩ := exists_fuel enough
  have nonempty : content.isEmpty = false := List.isEmpty_eq_false_iff.mpr word
  rw [read, word_of_endsWord (endsWord_of_isGap gaps)]
  simp only [found, goesOn, if_true, more fuel (fewer.trans left), nonempty, Bool.false_eq_true,
    if_false, List.nil_append]

/-- Spaces between two words. -/
theorem Reads.spaces (more : Reads least (c :: cs) ⟨content, crossed, next⟩) (word : content ≠ [])
    (other : isGap c = false) (comment : c ≠ '#') (spaces : ℕ) :
    Reads least (List.replicate spaces ' ' ++ c :: cs)
      ⟨List.replicate spaces ' ' ++ content, crossed, next⟩ := by
  cases spaces with
  | zero => exact more
  | succ spaces =>
    have space : (c == ' ') = false :=
      (Bool.or_eq_false_iff.mp (isBlank_of_isGap other).1).1
    have taken : (List.replicate (spaces + 1) ' ' ++ c :: cs).takeWhile (· == ' ') =
        List.replicate (spaces + 1) ' ' := by
      simp [space]
    have skipped : skipSpaces (List.replicate (spaces + 1) ' ' ++ c :: cs) = c :: cs := by
      simp [skipSpaces, space]
    have found : Plain.gap (' ' :: (List.replicate spaces ' ' ++ c :: cs)) =
        ⟨List.replicate (spaces + 1) ' ', false, 0, c :: cs⟩ := by
      change Plain.gap (List.replicate (spaces + 1) ' ' ++ c :: cs) = _
      rw [Plain.gap, taken, skipped]
      simp only [takeBreak?_of_isGap other]
    refine more.gap rfl found ?_ word (by simp)
    simp [Gap.goesOn, startsWith, comment]

/-- The indentation of a line in front of a word. -/
theorem blankLines_spaces (column : ℕ) (line : ∀ c ∈ cs.head?, isGap c = false) :
    blankLines column (List.replicate indent ' ' ++ cs) = (some [], column + indent, cs) := by
  induction indent generalizing column with
  | zero =>
    cases cs with
    | nil => rfl
    | cons c rest =>
      have other := line c rfl
      obtain ⟨blank, break'⟩ := isBlank_of_isGap other
      have space : (c == ' ') = false := (Bool.or_eq_false_iff.mp blank).1
      rw [List.replicate_zero, List.nil_append, blankLines, space, break']
      · rfl
      · rintro _ rfl
        cases break'
  | succ indent ih =>
    rw [List.replicate_succ, List.cons_append, blankLines]
    · rw [if_pos (by rfl), ih, Nat.add_right_comm, Nat.add_assoc]
    · exact fun _ impossible => absurd impossible (by decide)

/-- The gap at the end of a line. -/
theorem gap_feed (indent : ℕ) (separator : atSeparator (List.replicate indent ' ' ++ cs) = false)
    (line : ∀ c ∈ cs.head?, isGap c = false) :
    gap ('\n' :: (List.replicate indent ' ' ++ cs)) = ⟨[' '], true, indent, cs⟩ := by
  have feed : takeBreak? ('\n' :: (List.replicate indent ' ' ++ cs)) =
      some ('\n', List.replicate indent ' ' ++ cs) := rfl
  have skipped : skipSpaces ('\n' :: (List.replicate indent ' ' ++ cs)) =
      '\n' :: (List.replicate indent ' ' ++ cs) := rfl
  rw [gap, skipped]
  simp only [feed, separator, blankLines_spaces 0 line, Nat.zero_add]
  rfl

/-- A new line in the place of a space. -/
theorem Reads.freshLine (more : Reads least (c :: cs) ⟨content, crossed, next⟩)
    (word : content ≠ []) (other : isGap c = false) (comment : c ≠ '#') (fits : least ≤ indent)
    (positive : 0 < indent) :
    Reads least (Pen.freshLine indent ++ c :: cs) ⟨' ' :: content, crossed, next⟩ := by
  have separator : atSeparator (List.replicate indent ' ' ++ c :: cs) = false := by
    obtain ⟨indent, rfl⟩ := Nat.exists_eq_add_of_lt positive
    rw [Nat.zero_add, List.replicate_succ, List.cons_append]
    exact atSeparator_cons (by decide) (by decide)
  have line (d : Char) (first : d ∈ (c :: cs).head?) : isGap d = false := by
    obtain rfl : c = d := Option.some.inj first
    exact other
  refine more.gap rfl (gap_feed indent separator line) ?_ word (by simp)
  simp [Gap.goesOn, startsWith, comment, fits]

/-- The scalar ends at a line that is not indented. -/
theorem reads_feed (line : StartsLine next) (positive : 0 < least) :
    Reads least ('\n' :: next) ⟨[], true, next⟩ := by
  intro fuel enough
  obtain ⟨fuel, rfl, -⟩ := exists_fuel enough
  have found : gap ('\n' :: next) = ⟨[' '], true, 0, next⟩ := 
    gap_feed 0 line.separator fun c first => (line.word c first).1
  -- The next line is indented less than the scalar has to be.
  have stops : Gap.goesOn false least ⟨[' '], true, 0, next⟩ = false := by
    simp [Gap.goesOn, Nat.not_le.mpr positive]
  have ends :=
    word_of_endsWord (endsWord_of_isGap (rfl : isGap '\n' = true) : endsWord _ _ next = _)
  rw [read_of_not_goesOn, ends, found]
  rw [ends, found, stops]

/-- The scalar ends at the mark of a value. -/
theorem reads_colon (value : atGap next = true) :
    Reads least (':' :: next) ⟨[], false, ':' :: next⟩ := by
  intro fuel enough
  obtain ⟨fuel, rfl, -⟩ := exists_fuel enough
  have ends : word false (':' :: next) = ([], ':' :: next) := by
    refine word_of_endsWord ?_
    rw [atGap] at value
    simp [endsWord, valueFollows, value]
  have found : gap (':' :: next) = ⟨[], false, 0, ':' :: next⟩ := rfl
  rw [read_of_not_goesOn, ends, found]
  rw [ends, found]
  rfl

end Pieces

/-- A name in front of the mark of a value. -/
theorem reads_name (least : ℕ) {name next : List Char}
    (word : ∀ c ∈ name, isGap c = false ∧ c ≠ ':') (value : atGap next = true) :
    Reads least (name ++ ':' :: next) ⟨name, false, ':' :: next⟩ := by
  induction name with
  | nil => exact reads_colon value
  | cons c name ih =>
    obtain ⟨other, colon⟩ := word c List.mem_cons_self
    refine (ih fun d member => word d (List.mem_cons_of_mem c member)).char ?_
    simp [endsWord, other, colon]

section Writing

variable {least indent : ℕ} {c : Char} {rest cs next : List Char}

theorem plainChars_of_isGap (other : isGap c = false) (split : Bool) (column : ℕ) :
    Pen.plainChars split indent 0 column (c :: rest) =
      c :: Pen.plainChars split indent 0 (column + 1) rest := by
  have space : c ≠ ' ' := by
    rintro rfl
    cases other
  rw [Pen.plainChars, if_neg space, if_neg (by simp)]
  rfl

/-- A word is written as it is. -/
theorem plainChars_of_word (word : ∀ c ∈ cs, isGap c = false) (split : Bool) (column : ℕ) :
    Pen.plainChars split indent 0 column cs = cs := by
  induction cs generalizing column with
  | nil => rfl
  | cons c rest ih =>
    rw [plainChars_of_isGap (word c List.mem_cons_self),
      ih fun d member => word d (List.mem_cons_of_mem c member)]

/-- A word ends in what is written where it ends in the text. -/
theorem atGap_plainChars (split : Bool) (column : ℕ) (inside : atGap rest = false) :
    atGap (Pen.plainChars split indent 0 column rest ++ next) = false := by
  cases rest with
  | nil => cases inside
  | cons c rest =>
    have other : isGap c = false := inside
    rw [plainChars_of_isGap other]
    exact inside

/-- What the writer makes of a text that may stand without quotes is read as the text. The spaces
that the writer holds back stand in front of the text. -/
theorem reads_plainChars (positive : 0 < least) (fits : least ≤ indent) (line : StartsLine next)
    (split : Bool) {before : Char} {spaces : ℕ} (column : ℕ)
    (simple : ∀ c ∈ cs, Style.isSimple c = true) (last : cs.getLast? ≠ some ' ')
    (unmarked : Style.holdsMark before cs = false) (held : cs = [] → spaces = 0)
    (gaps : 0 < spaces → isGap before = true) :
    Reads least (Pen.plainChars split indent spaces column cs ++ '\n' :: next)
      ⟨List.replicate spaces ' ' ++ cs, true, next⟩ := by
  induction cs generalizing before spaces column with
  | nil =>
    obtain rfl := held rfl
    exact reads_feed line positive
  | cons c rest ih =>
    have others (d : Char) (member : d ∈ rest) := simple d (List.mem_cons_of_mem c member)
    have ending : rest.getLast? ≠ some ' ' := by
      intro space
      refine last ?_
      rw [List.getLast?_cons, space]
      rfl
    rw [Style.holdsMark, Bool.or_eq_false_iff, Bool.or_eq_false_iff] at unmarked
    obtain ⟨⟨value, comment⟩, unmarked⟩ := unmarked
    rw [Pen.plainChars]
    split_ifs with space fold
    · -- A space is held back; a gap is now in front of what follows.
      subst space
      have more := ih column others ending unmarked
        (fun empty : rest = [] => absurd (by rw [empty]; rfl) last : rest = [] → spaces + 1 = 0)
        fun _ => rfl
      rwa [List.replicate_succ', List.append_assoc, List.singleton_append] at more
    all_goals
      have other : isGap c = false := isGap_of_isSimple (simple c List.mem_cons_self) space
      have inside (column : ℕ) :
          endsWord false c (Pen.plainChars split indent 0 column rest ++ '\n' :: next) = false := by
        rw [endsWord, other, Bool.false_and, Bool.or_false, Bool.false_or]
        by_cases colon : c = ':'
        · subst colon
          rw [beq_self_eq_true, Bool.true_and] at value ⊢
          simpa [valueFollows, atGap] using atGap_plainChars split column value
        · simp [colon]
      have more (column : ℕ) := (ih column others ending unmarked
        (fun _ => rfl : rest = [] → 0 = 0) (fun none => absurd none (lt_irrefl 0))).char
          (inside column)
      -- Behind a space the mark of a comment would not be part of the text.
      have hash (some : 0 < spaces) : c ≠ '#' := by
        rintro rfl
        rw [gaps some] at comment
        cases comment
    · -- A new line takes the place of the one space that was held back.
      obtain ⟨⟨rfl, -⟩, -⟩ : (spaces = 1 ∧ Pen.margin < column) ∧ split = true := by
        simpa using fold
      rw [List.append_assoc]
      exact (more _).freshLine (List.cons_ne_nil c rest) other (hash Nat.one_pos) fits
        (positive.trans_le fits)
    · rw [List.append_assoc]
      rcases Nat.eq_zero_or_pos spaces with rfl | some
      · exact more _
      · exact (more _).spaces (List.cons_ne_nil c rest) other (hash some) spaces

/-- A text that may stand without quotes begins like a word. -/
theorem head_of_isPlain (plain : Style.isPlain (c :: rest) = true) :
    StartsWord [c] ∧ Style.isMark c = false ∧
      (c = '?' ∨ c = ':' ∨ c = '-' → atGap rest = false) ∧ Style.holdsMark c rest = false := by
  simp only [Style.isPlain, Style.startsLikeMark, startsWith, List.all_cons, Bool.and_eq_true,
    Bool.not_eq_true', Bool.or_eq_false_iff, Bool.and_eq_false_iff, beq_eq_false_iff_ne] at plain
  obtain ⟨⟨⟨⟨⟨simple, -⟩, space⟩, -⟩, ⟨⟨mark, bare⟩, -⟩, -⟩, unmarked⟩ := plain
  refine ⟨?_, mark, fun known => ?_, unmarked⟩
  · refine startsWord_cons ⟨isGap_of_isSimple simple space, ?_, ne_of_isSimple simple rfl⟩ []
    rintro rfl
    cases mark
  · rcases bare with ⟨⟨question, colon⟩, hyphen⟩ | bare
    · rcases known with same | same | same
      exacts [absurd same question, absurd same colon, absurd same hyphen]
    · exact bare

/-- What the writer makes of a text that may stand without quotes is read as the text. -/
theorem reads_of_isPlain (positive : 0 < least) (fits : least ≤ indent) (line : StartsLine next)
    (split : Bool) (column : ℕ) (plain : Style.isPlain cs = true) :
    Reads least (Pen.plainChars split indent 0 column cs ++ '\n' :: next) ⟨cs, true, next⟩ := by
  have holds : Style.holdsMark '-' cs = false := by
    cases cs with
    | nil => rfl
    | cons c rest =>
      obtain ⟨-, mark, bare, unmarked⟩ := head_of_isPlain plain
      have value : (c == ':' && atGap rest) = false := by
        by_cases colon : c = ':'
        · rw [bare (.inr (.inl colon)), Bool.and_false]
        · simp [colon]
      rw [Style.holdsMark, value, unmarked]
      simp [show isGap '-' = false from rfl]
  simp only [Style.isPlain, Bool.and_eq_true, List.all_eq_true, bne_iff_ne] at plain
  obtain ⟨⟨⟨⟨simple, -⟩, last⟩, -⟩, -⟩ := plain
  exact reads_plainChars positive fits line split column simple last holds (fun _ => rfl)
    fun none => absurd none (lt_irrefl 0)

end Writing

end Plain

end ClenshawCode.Yaml
