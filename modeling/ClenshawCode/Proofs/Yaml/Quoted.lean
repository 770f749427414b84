import ClenshawCode.Proofs.Results
import ClenshawCode.Proofs.Text.Hexadecimal
import ClenshawCode.Yaml.Pen
import ClenshawCode.Yaml.Scalar.Quoted

/-!
# A scalar in quotes reads back

What is written between quotes is put together from pieces that are read one after another: a
character that stands for itself, an escape, a space, some line ends, and a new line on which the
scalar goes on. Each piece adds its content in front of what is read behind it. The writer holds
spaces and line feeds back until it knows what follows them, so its induction goes over the text
with what is held back in front.

## Main definitions

* `Yaml.Quoted.Reads`: what the text behind an opening quote is read as
* `Yaml.Quoted.Solid`: texts that do not begin with blanks in front of a line end
-/

namespace ClenshawCode.Yaml

section Characters

variable {c : Char}

theorem ne_of_isSimple (simple : Style.isSimple c = true) {d : Char}
    (odd : Style.isSimple d = false) : c ≠ d := by
  rintro rfl
  rw [simple] at odd
  cases odd

/-- Of the printable characters only the space is a gap. -/
theorem isGap_of_isSimple (simple : Style.isSimple c = true) (space : c ≠ ' ') :
    isGap c = false := by
  have other (d : Char) (odd : Style.isSimple d = false) : (c == d) = false :=
    beq_eq_false_iff_ne.mpr (ne_of_isSimple simple odd)
  have isSpace : (c == ' ') = false := beq_eq_false_iff_ne.mpr space
  rw [isGap, isBlank, isBreak, isSpace, other '\t' rfl, other '\n' rfl, other '\r' rfl,
    other '\x85' rfl, other '\u2028' rfl, other '\u2029' rfl]
  rfl

theorem isBlank_of_isGap (other : isGap c = false) :
    isBlank c = false ∧ isBreak c = false := by
  rwa [isGap, Bool.or_eq_false_iff] at other

/-- A character that is no gap begins no line end. -/
theorem takeBreak?_of_isGap (other : isGap c = false) (rest : List Char) :
    takeBreak? (c :: rest) = none := by
  have plain := (isBlank_of_isGap other).2
  rw [takeBreak?, plain]
  · rfl
  · rintro _ rfl
    cases plain

theorem startsWithMark_of_ne {mark : Char} (other : c ≠ mark) (rest : List Char) :
    startsWithMark mark (c :: rest) = false := by
  rw [startsWithMark.eq_def]
  split
  · rename_i same
    rw [List.cons.injEq] at same
    simp [← same.1, other]
  · rfl

theorem atSeparator_cons {rest : List Char} (hyphen : c ≠ '-') (point : c ≠ '.') :
    atSeparator (c :: rest) = false := by
  rw [atSeparator, startsWithMark_of_ne hyphen, startsWithMark_of_ne point]
  rfl

/-- A step of reading uses up a character. -/
theorem exists_fuel {cs : List Char} {fuel : ℕ} (enough : (c :: cs).length ≤ fuel) :
    ∃ rest, fuel = rest + 1 ∧ cs.length ≤ rest := by
  rw [List.length_cons] at enough
  exact ⟨fuel - 1, by omega, by omega⟩

end Characters

namespace Quoted

/-- What the text behind an opening quote is read as, with the text behind the closing quote. -/
def Reads (quote : Char) (cs content tail : List Char) : Prop :=
  ∀ fuel, cs.length ≤ fuel → read quote fuel cs = .ok (content, tail)

/-- Texts that do not begin with blanks in front of a line end. -/
def Solid (cs : List Char) : Prop := takeBreak? (cs.dropWhile isBlank) = none

theorem solid_of_isGap {c : Char} (other : isGap c = false) (rest : List Char) :
    Solid (c :: rest) := by
  rw [Solid, List.dropWhile_cons, (isBlank_of_isGap other).1, if_neg Bool.false_ne_true]
  exact takeBreak?_of_isGap other rest

theorem Solid.space {cs : List Char} (solid : Solid cs) : Solid (' ' :: cs) := solid

section Pieces

variable {quote c : Char} {cs content tail : List Char}

theorem reads_closing (ends : startsWith (· == '\x27') tail = false) :
    Reads quote (quote :: tail) [] tail := by
  intro fuel enough
  obtain ⟨fuel, rfl, -⟩ := exists_fuel enough
  rw [read, if_neg, if_pos rfl]
  -- One apostrophe alone is the end: another one would have to follow it.
  rintro both
  simp only [Bool.and_eq_true, decide_eq_true_eq] at both
  obtain ⟨⟨rfl, -⟩, same⟩ := both
  rw [ends] at same
  cases same

/-- A character that stands for itself. -/
theorem Reads.char (more : Reads quote cs content tail) (other : isGap c = false)
    (open' : c ≠ quote) (plain : c = '\\' → quote ≠ '\x22') :
    Reads quote (c :: cs) (c :: content) tail := by
  intro fuel enough
  obtain ⟨fuel, rfl, left⟩ := exists_fuel enough
  rw [read, if_neg, if_neg open', if_neg, other, if_neg Bool.false_ne_true, more fuel left]
  · rfl
  · simpa using plain
  · simp [open'.symm]

/-- Two apostrophes between apostrophes stand for one. -/
theorem Reads.apostrophe (more : Reads '\x27' cs content tail) :
    Reads '\x27' ('\x27' :: '\x27' :: cs) ('\x27' :: content) tail := by
  intro fuel enough
  obtain ⟨fuel, rfl, left⟩ := exists_fuel enough
  rw [read, if_pos rfl, List.drop_one, List.tail_cons,
    more fuel ((Nat.le_succ _).trans left)]
  rfl

/-- A gap is read as its content. -/
theorem read_gap (gaps : isGap c = true) (known : quote = '\x27' ∨ quote = '\x22') (fuel : ℕ) :
    read quote (fuel + 1) (c :: cs) = (do
      let (first, next) ← gap (c :: cs)
      let (content, behind) ← read quote fuel next
      return (first ++ content, behind)) := by
  have apostrophe : c ≠ '\x27' := by
    rintro rfl
    cases gaps
  have mark : c ≠ '\x22' := by
    rintro rfl
    cases gaps
  have backslash : c ≠ '\\' := by
    rintro rfl
    cases gaps
  have different : c ≠ quote := by
    rcases known with rfl | rfl
    · exact apostrophe
    · exact mark
  rw [read, if_neg (by simp [apostrophe]), if_neg different, if_neg (by simp [backslash]),
    if_pos gaps]

/-- The content of a gap comes in front of what follows the gap. -/
theorem Reads.gap {first next : List Char} (more : Reads quote next content tail)
    (gaps : isGap c = true) (known : quote = '\x27' ∨ quote = '\x22')
    (found : Quoted.gap (c :: cs) = .ok (first, next)) (fewer : next.length ≤ cs.length) :
    Reads quote (c :: cs) (first ++ content) tail := by
  intro fuel enough
  obtain ⟨fuel, rfl, left⟩ := exists_fuel enough
  rw [read_gap gaps known, found, except_ok_bind]
  dsimp only
  rw [more fuel (fewer.trans left)]
  rfl

theorem gap_of_solid (solid : Solid cs) :
    Quoted.gap cs = .ok (cs.takeWhile isBlank, cs.dropWhile isBlank) := by
  rw [Solid] at solid
  rw [Quoted.gap]
  simp only [solid]

/-- A space counts if no line ends behind it. -/
theorem Reads.space (more : Reads quote cs content tail)
    (known : quote = '\x27' ∨ quote = '\x22') (solid : Solid cs) :
    Reads quote (' ' :: cs) (' ' :: content) tail := by
  intro fuel enough
  obtain ⟨fuel, rfl, left⟩ := exists_fuel enough
  rw [read_gap rfl known, gap_of_solid solid.space, except_ok_bind]
  cases cs with
  | nil => cases more 0 le_rfl
  | cons c rest =>
    by_cases blank : isBlank c = true
    · -- Further spaces are read together with it.
      have gaps : isGap c = true := by rw [isGap, blank, Bool.true_or]
      have next := more (fuel + 1) (left.trans (Nat.le_succ fuel))
      rw [read_gap gaps known, gap_of_solid solid, except_ok_bind] at next
      obtain ⟨⟨others, behind⟩, found, same⟩ := ok_of_bind_ok next
      obtain ⟨rfl, rfl⟩ := Prod.mk.inj (Except.ok.inj same)
      have taken : (' ' :: c :: rest).takeWhile isBlank = ' ' :: (c :: rest).takeWhile isBlank :=
        rfl
      have dropped : (' ' :: c :: rest).dropWhile isBlank = (c :: rest).dropWhile isBlank := rfl
      dsimp only
      rw [taken, dropped, found]
      rfl
    · have space : isBlank ' ' = true := rfl
      have taken : (' ' :: c :: rest).takeWhile isBlank = [' '] := by
        rw [List.takeWhile_cons_of_pos space, List.takeWhile_cons_of_neg blank]
      have dropped : (' ' :: c :: rest).dropWhile isBlank = c :: rest := by
        rw [List.dropWhile_cons_of_pos space, List.dropWhile_cons_of_neg blank]
      dsimp only
      rw [taken, dropped, more fuel left]
      rfl

end Pieces

section Lines

variable {quote c : Char} {rest content tail : List Char}

/-- The indentation of a line in front of a word. -/
theorem blankLines_spaces (other : isGap c = false) {indent : ℕ} {lineStart : Bool}
    (apart : lineStart = false ∨ 0 < indent) :
    blankLines lineStart (List.replicate indent ' ' ++ c :: rest) = .ok ([], c :: rest) := by
  induction indent generalizing lineStart with
  | zero =>
    obtain ⟨blank, break'⟩ := isBlank_of_isGap other
    obtain rfl : lineStart = false := apart.resolve_right (lt_irrefl 0)
    rw [List.replicate_zero, List.nil_append, blankLines]
    · simp [blank, break']
    · rintro _ rfl
      cases break'
  | succ indent ih =>
    have line := ih (.inl rfl : false = false ∨ 0 < indent)
    rw [List.replicate_succ, List.cons_append, blankLines]
    · rw [atSeparator_cons (by decide) (by decide), Bool.and_false, if_neg Bool.false_ne_true,
        if_pos (by decide), line]
    · exact fun _ impossible => absurd impossible (by decide)

/-- The line feeds of blank lines are kept. -/
theorem blankLines_feeds (other : isGap c = false) {indent : ℕ} (positive : 0 < indent)
    (breaks : ℕ) :
    blankLines true (List.replicate breaks '\n' ++ (List.replicate indent ' ' ++ c :: rest)) =
      .ok (List.replicate breaks '\n', c :: rest) := by
  induction breaks with
  | zero => exact blankLines_spaces other (.inr positive)
  | succ breaks ih =>
    rw [List.replicate_succ, List.cons_append, blankLines]
    · rw [atSeparator_cons (by decide) (by decide), Bool.and_false, if_neg Bool.false_ne_true,
        if_neg (by decide), if_pos (by decide), ih]
      rfl
    · exact fun _ impossible => absurd impossible (by decide)

/-- Line feeds and the indentation behind them are folded. -/
theorem Reads.feeds (more : Reads quote (c :: rest) content tail) (other : isGap c = false)
    (known : quote = '\x27' ∨ quote = '\x22') {indent : ℕ} (positive : 0 < indent) (breaks : ℕ) :
    Reads quote ('\n' :: (List.replicate breaks '\n' ++ (List.replicate indent ' ' ++ c :: rest)))
      (foldBreaks '\n' (List.replicate breaks '\n') ++ content) tail := by
  refine more.gap rfl known ?_ (by simp; omega)
  have feed : takeBreak? ('\n' :: (List.replicate breaks '\n' ++
      (List.replicate indent ' ' ++ c :: rest))) = some ('\n', List.replicate breaks '\n' ++
        (List.replicate indent ' ' ++ c :: rest)) := rfl
  have blanks : ('\n' :: (List.replicate breaks '\n' ++
      (List.replicate indent ' ' ++ c :: rest))).dropWhile isBlank = '\n' ::
        (List.replicate breaks '\n' ++ (List.replicate indent ' ' ++ c :: rest)) := rfl
  rw [Quoted.gap, blanks]
  simp only [feed, blankLines_feeds other positive breaks]
  rfl

end Lines

section Apostrophes

variable {c : Char} {indent breaks spaces : ℕ} {cs rest content tail : List Char}

/-- A text without a space next to a line feed has none in its last part. -/
theorem spaceAtBreak_append (before : List Char)
    (apart : Style.spaceAtBreak (before ++ cs) = false) : Style.spaceAtBreak cs = false := by
  induction before with
  | nil => exact apart
  | cons a before ih =>
    refine ih ?_
    cases joined : before ++ cs with
    | nil => rfl
    | cons b more =>
      rw [List.cons_append, joined, Style.spaceAtBreak, Bool.or_eq_false_iff] at apart
      exact apart.2

/-- The spaces and line feeds that are held back, in front of a word. -/
theorem Reads.held (more : Reads '\x27' (c :: rest) content tail) (other : isGap c = false)
    (positive : 0 < indent) (one : breaks = 0 ∨ spaces = 0) :
    Reads '\x27' (Pen.singleBreaks indent breaks ++ (List.replicate spaces ' ' ++ c :: rest))
      (List.replicate breaks '\n' ++ (List.replicate spaces ' ' ++ content)) tail := by
  rcases Nat.eq_zero_or_pos breaks with rfl | some
  · -- No line ends behind the spaces, since a word does.
    have solid (spaces : ℕ) : Solid (List.replicate spaces ' ' ++ c :: rest) := by
      induction spaces with
      | zero => exact solid_of_isGap other rest
      | succ spaces ih => exact ih.space
    have blanks : Reads '\x27' (List.replicate spaces ' ' ++ c :: rest)
        (List.replicate spaces ' ' ++ content) tail := by
      induction spaces with
      | zero => exact more
      | succ spaces ih => exact (ih (.inl rfl)).space (.inl rfl) (solid spaces)
    exact blanks
  · obtain rfl : spaces = 0 := one.resolve_left some.ne'
    -- The first line feed of several is the end of the line; the others are kept.
    have folded : foldBreaks '\n' (List.replicate breaks '\n') = List.replicate breaks '\n' := by
      obtain ⟨k, rfl⟩ := Nat.exists_eq_add_of_le' some
      rfl
    have read := more.feeds other (.inl rfl) positive breaks
    rw [folded] at read
    rw [Pen.singleBreaks, if_neg some.ne', List.replicate_succ]
    simpa using read

/-- A printable character between apostrophes. -/
theorem Reads.singleChar (more : Reads '\x27' rest content tail)
    (simple : Style.isSimple c = true) (space : c ≠ ' ') :
    Reads '\x27' (Pen.singleChar c ++ rest) (c :: content) tail ∧
      ∃ first others, Pen.singleChar c ++ rest = first :: others ∧ isGap first = false := by
  have other := isGap_of_isSimple simple space
  rw [Pen.singleChar]
  split
  · rename_i apostrophe
    subst apostrophe
    exact ⟨more.apostrophe, _, _, rfl, rfl⟩
  · rename_i plain
    exact ⟨more.char other plain fun _ => by decide, _, _, rfl, other⟩

/-- No spaces are held back in front of a line feed. -/
theorem spaces_eq_zero
    (apart : Style.spaceAtBreak (List.replicate spaces ' ' ++ '\n' :: rest) = false) :
    spaces = 0 := by
  cases spaces with
  | zero => rfl
  | succ spaces =>
    rw [List.replicate_succ', List.append_assoc] at apart
    cases spaceAtBreak_append _ apart

/-- No line feeds are held back in front of a space. -/
theorem breaks_eq_zero
    (apart : Style.spaceAtBreak (List.replicate breaks '\n' ++ ' ' :: rest) = false) :
    breaks = 0 := by
  cases breaks with
  | zero => rfl
  | succ breaks =>
    rw [List.replicate_succ', List.append_assoc] at apart
    cases spaceAtBreak_append _ apart

/-- What is written between apostrophes is read back. First in the text stand the line feeds and the
spaces that are held back. -/
theorem reads_singleChars (positive : 0 < indent) (split begun : Bool) (column : ℕ)
    (ends : startsWith (· == '\x27') tail = false) (one : breaks = 0 ∨ spaces = 0)
    (known : ∀ c ∈ cs, c = '\n' ∨ Style.isSimple c = true)
    (apart : Style.spaceAtBreak
      (List.replicate breaks '\n' ++ (List.replicate spaces ' ' ++ cs)) = false) :
    Reads '\x27' (Pen.singleChars split indent begun breaks spaces column cs ++ '\x27' :: tail)
      (List.replicate breaks '\n' ++ (List.replicate spaces ' ' ++ cs)) tail := by
  -- What is held back is part of the statement, since the writer carries it along.
  induction cs generalizing begun breaks spaces column with
  | nil =>
    have closing : Reads '\x27' ('\x27' :: tail) [] tail := reads_closing ends
    rw [Pen.singleChars, List.append_assoc]
    exact closing.held rfl positive one
  | cons c rest ih =>
    have others : ∀ a ∈ rest, a = '\n' ∨ Style.isSimple a = true :=
      fun a member => known a (List.mem_cons_of_mem c member)
    rw [Pen.singleChars]
    generalize (if breaks = 0 then column else indent) = column
    split
    · -- A line feed is held back.
      rename_i feed
      subst feed
      obtain rfl := spaces_eq_zero (spaceAtBreak_append _ apart)
      have joined : List.replicate (breaks + 1) '\n' ++ (List.replicate 0 ' ' ++ rest) =
          List.replicate breaks '\n' ++ (List.replicate 0 ' ' ++ '\n' :: rest) := by
        rw [List.replicate_succ', List.append_assoc]
        rfl
      rw [← joined] at apart ⊢
      exact ih true (column + 0) (.inr rfl) others apart
    · rename_i feed
      split
      · -- A space is held back, and no line feeds are.
        rename_i space
        subst space
        have joined : List.replicate (spaces + 1) ' ' ++ rest =
            List.replicate spaces ' ' ++ ' ' :: rest := by
          rw [List.replicate_succ', List.append_assoc]
          rfl
        obtain rfl : breaks = 0 := by
          rcases one with zero | rfl
          · exact zero
          · exact breaks_eq_zero apart
        rw [← joined] at apart ⊢
        exact ih _ column (.inl rfl) others apart
      · rename_i space
        have simple := (known c List.mem_cons_self).resolve_left feed
        -- A word: what was held back is written, and nothing is held back behind it.
        have behind := spaceAtBreak_append [c]
          (spaceAtBreak_append (List.replicate spaces ' ') (spaceAtBreak_append _ apart))
        have next (column : ℕ) : Reads '\x27'
            (Pen.singleChars split indent true 0 0 column rest ++ '\x27' :: tail) rest tail :=
          ih true column (.inl rfl) others behind
        split
        · -- The one space that is held back gives way to a new line.
          rename_i fold
          simp only [Bool.and_eq_true, decide_eq_true_eq] at fold
          obtain ⟨⟨⟨rfl, -⟩, -⟩, -⟩ := fold
          obtain rfl : breaks = 0 := one.resolve_right one_ne_zero
          obtain ⟨word, first, more, form, other⟩ :=
            (next (indent + (Pen.singleChar c).length)).singleChar simple space
          rw [form] at word
          have folded : foldBreaks '\n' (List.replicate 0 '\n') = [' '] := rfl
          have read := word.feeds other (.inl rfl) positive 0
          rw [folded] at read
          rw [Pen.freshLine, List.append_assoc, List.append_assoc, form]
          simpa using read
        · obtain ⟨word, first, more, form, other⟩ :=
            (next (column + spaces + (Pen.singleChar c).length)).singleChar simple space
          rw [form] at word
          have read := word.held other positive one
          rw [List.append_assoc, List.append_assoc, List.append_assoc, form]
          exact read

end Apostrophes

section Escapes

variable {c : Char} {indent : ℕ} {cs rest content tail : List Char}

/-- What an escape stands for comes in front of what follows it. -/
theorem Reads.escape {first next : List Char} (more : Reads '\x22' next content tail)
    (found : Quoted.escape cs = .ok (first, next)) (fewer : next.length ≤ cs.length) :
    Reads '\x22' ('\\' :: cs) (first ++ content) tail := by
  intro fuel enough
  obtain ⟨fuel, rfl, left⟩ := exists_fuel enough
  have apostrophe : (decide ('\\' = '\x27') && decide ('\x22' = '\\') &&
      startsWith (· == '\\') cs) = false := rfl
  rw [read, apostrophe, if_neg Bool.false_ne_true, if_neg (by decide), if_pos (by decide), found,
    except_ok_bind]
  dsimp only
  rw [more fuel (fewer.trans left)]
  rfl

/-- The number of a character is that of the character. -/
theorem ofNumber_toNat (c : Char) : ofNumber c.toNat = .ok c := by
  have valid : c.toNat < 0xD800 ∨ 0xDFFF < c.toNat ∧ c.toNat < 0x110000 := c.valid
  rw [ofNumber, if_neg (by omega), if_neg, Char.ofNat_toNat]
  simp only [Bool.and_eq_true, decide_eq_true_eq]
  omega

/-- A character by its number in hexadecimal digits. -/
theorem escape_digits {mark : Char} {hex : List Char} {digits : List ℕ}
    (letter : letters.lookup mark = none) (count : digitCount? mark = some hex.length)
    (read : hex.mapM Text.hexValue? = some digits) (all : digits.length = hex.length)
    (value : Text.ofDigits 16 digits = c.toNat) :
    Quoted.escape (mark :: (hex ++ rest)) = .ok ([c], rest) := by
  rw [Quoted.escape]
  simp only [letter, count, List.take_left, List.drop_left, read, all, if_true, value,
    ofNumber_toNat]
  rfl

/-- The number of a character in capital digits, where it fits. -/
theorem escape_number {mark : Char} {width : ℕ} (letter : letters.lookup mark = none)
    (count : digitCount? mark = some width) (fits : c.toNat < 16 ^ width) :
    Quoted.escape (mark :: (Pen.upperHex width c.toNat ++ rest)) = .ok ([c], rest) := by
  obtain ⟨digits, read, all, value⟩ := Text.mapM_hexValue?_hexChars width c.toNat
  have size : (Pen.upperHex width c.toNat).length = width := by
    rw [Pen.upperHex, List.length_map, Text.length_hexChars]
  refine escape_digits letter (by rw [size, count]) ?_ (all.trans size.symm)
    (value.trans (Nat.mod_eq_of_lt fits))
  rw [Pen.upperHex, Text.mapM_hexValue?_toUpper, read]

/-- A character that is written as an escape. -/
theorem Reads.escaped (more : Reads '\x22' rest content tail) (c : Char) :
    Reads '\x22' (Pen.escape c ++ rest) (c :: content) tail := by
  have numbered {mark : Char} {width : ℕ} (letter : letters.lookup mark = none)
      (count : digitCount? mark = some width) (fits : c.toNat < 16 ^ width) :
      Reads '\x22' ('\\' :: (mark :: Pen.upperHex width c.toNat) ++ rest) (c :: content) tail :=
    more.escape (escape_number letter count fits) (by simp; omega)
  rw [Pen.escape]
  split
  · rename_i letter known
    -- The table of the writer is the one of the reader, turned around.
    obtain ⟨before, behind, form, -⟩ := List.lookup_eq_some_iff.mp known
    have member : (c, letter) ∈ Pen.letters := by simp [form]
    have each : ∀ entry ∈ Pen.letters, letters.lookup entry.2 = some entry.1 := by decide
    have found : Quoted.escape (letter :: rest) = .ok ([c], rest) := by
      rw [Quoted.escape]
      simp only [each _ member]
    exact more.escape found (Nat.le_succ _)
  · have valid : c.toNat < 0xD800 ∨ 0xDFFF < c.toNat ∧ c.toNat < 0x110000 := c.valid
    split_ifs with byte short
    · exact numbered (by decide) rfl (by omega)
    · exact numbered (by decide) rfl (by omega)
    · exact numbered (by decide) rfl (by omega)

end Escapes

section DoubleQuotes

variable {c : Char} {indent column : ℕ} {cs rest content tail : List Char}

/-- A new line behind a backslash does not count, nor does the indentation behind it. -/
theorem Reads.foldLine (more : Reads '\x22' (c :: rest) content tail) (other : isGap c = false)
    (positive : 0 < indent) :
    Reads '\x22' ('\\' :: (Pen.freshLine indent ++ c :: rest)) content tail := by
  have found : Quoted.escape (Pen.freshLine indent ++ c :: rest) = .ok ([], c :: rest) :=
    blankLines_spaces other (.inr positive)
  exact more.escape found (by simp [Pen.freshLine]; omega)

/-- A space at the beginning of a new line is escaped. -/
theorem Reads.foldSpace (more : Reads '\x22' rest content tail) (positive : 0 < indent)
    (others : List Char) :
    Reads '\x22' (Pen.doubleFold indent (' ' :: others) ++ ' ' :: rest) (' ' :: content) tail := by
  have found : Quoted.escape (' ' :: rest) = .ok ([' '], rest) := rfl
  have space := more.escape found (Nat.le_succ _)
  have fold := space.foldLine rfl positive
  have form : Pen.doubleFold indent (' ' :: others) ++ ' ' :: rest =
      '\\' :: (Pen.freshLine indent ++ '\\' :: ' ' :: rest) := by
    rw [Pen.doubleFold, if_pos (by rfl)]
    simp
  rw [form]
  exact fold

theorem doubleFold_of_ne (space : c ≠ ' ') (others : List Char) :
    Pen.doubleFold indent (c :: others) = '\\' :: Pen.freshLine indent := by
  rw [Pen.doubleFold, if_neg, List.append_nil]
  simpa [startsWith] using space

theorem length_doubleFold (indent : ℕ) (cs : List Char) :
    (Pen.doubleFold indent cs).length ≤ indent + 3 := by
  rw [Pen.doubleFold]
  split <;> simp [Pen.freshLine]

theorem exists_escape (c : Char) : ∃ more, Pen.escape c = '\\' :: more := by
  rw [Pen.escape]
  split
  · exact ⟨_, rfl⟩
  · split_ifs <;> exact ⟨_, rfl⟩

/-- No new line begins in front of the margin. -/
theorem not_beyond (before : column ≤ Pen.margin) (condition : Bool) :
    (condition && decide (Pen.margin < column)) = false := by
  rw [decide_eq_false (Nat.not_lt.mpr before), Bool.and_false]

theorem doubleChars_space (before : column ≤ Pen.margin) (split begun escaped : Bool) :
    Pen.doubleChars split indent begun escaped column (' ' :: rest) =
      ' ' :: Pen.doubleChars split indent true false (column + 1) rest := by
  have plain : Pen.needsEscape ' ' = false := rfl
  rw [Pen.doubleChars]
  simp only [plain, not_beyond before, Bool.false_eq_true, if_false]

/-- In front of the margin nothing but a space begins with a gap. -/
theorem exists_head (indent : ℕ) (rest behind : List Char) (space : c ≠ ' ')
    (before : column ≤ Pen.margin) (split begun escaped : Bool) :
    ∃ first more, Pen.doubleChars split indent begun escaped column (c :: rest) ++ behind =
      first :: more ∧ isGap first = false := by
  obtain ⟨hidden, form⟩ := exists_escape c
  rw [Pen.doubleChars]
  simp only [not_beyond before, Bool.false_eq_true, if_false]
  split
  · split
    · exact ⟨'\\', _, by rw [form]; rfl, rfl⟩
    · exact ⟨'\\', _, by rw [form]; rfl, rfl⟩
  · rename_i plain
    simp only [Pen.needsEscape, Bool.or_eq_true, Bool.not_eq_true', not_or,
      Bool.not_eq_false] at plain
    exact ⟨c, _, rfl, isGap_of_isSimple plain.2 space⟩

/-- What is written between double quotes is read back, at any column, and also when a new line
begins in front of it. -/
theorem reads_doubleChars (positive : 0 < indent) (narrow : indent + 1 ≤ Pen.margin) (split : Bool)
    (ends : startsWith (· == '\x27') tail = false) (cs : List Char) :
    (∀ begun escaped column,
      Reads '\x22' (Pen.doubleChars split indent begun escaped column cs ++ '\x22' :: tail) cs
          tail ∧
        Solid (Pen.doubleChars split indent begun escaped column cs ++ '\x22' :: tail)) ∧
    (cs ≠ [] → Reads '\x22' (Pen.doubleFold indent cs ++
      (Pen.doubleChars split indent true true ((Pen.doubleFold indent cs).length - 2) cs ++
        '\x22' :: tail)) cs tail) := by
  -- The second part is needed where a new line begins in front of the character.
  induction cs with
  | nil => exact ⟨fun _ _ _ => ⟨reads_closing ends, solid_of_isGap rfl tail⟩, absurd rfl⟩
  | cons c rest ih =>
    obtain ⟨written, folded⟩ := ih
    have first (begun escaped : Bool) (column : ℕ) :
        Reads '\x22' (Pen.doubleChars split indent begun escaped column (c :: rest) ++
            '\x22' :: tail) (c :: rest) tail ∧
          Solid (Pen.doubleChars split indent begun escaped column (c :: rest) ++
            '\x22' :: tail) := by
      rw [Pen.doubleChars]
      split
      · -- An escape, behind which a new line may begin.
        obtain ⟨hidden, form⟩ := exists_escape c
        dsimp only
        split
        · rename_i fold
          have more : rest ≠ [] := by
            rintro rfl
            simp at fold
          rw [List.append_assoc, List.append_assoc]
          exact ⟨(folded more).escaped c, by rw [form]; exact solid_of_isGap rfl _⟩
        · rw [List.append_assoc]
          exact ⟨(written true true _).1.escaped c, by rw [form]; exact solid_of_isGap rfl _⟩
      · rename_i plain
        simp only [Pen.needsEscape, Bool.or_eq_true, Bool.not_eq_true', not_or, beq_iff_eq,
          Bool.not_eq_false] at plain
        obtain ⟨⟨quote, backslash⟩, simple⟩ := plain
        have word (behind : List Char) (space : c ≠ ' ')
            (read : Reads '\x22' behind rest tail) : Reads '\x22' (c :: behind) (c :: rest) tail :=
          read.char (isGap_of_isSimple simple space) quote fun same => absurd same backslash
        split
        · -- A new line in front of the character.
          dsimp only
          rw [List.append_assoc]
          refine ⟨?_, by rw [Pen.doubleFold]; exact solid_of_isGap rfl _⟩
          by_cases space : c = ' '
          · subst space
            exact (written true false _).1.foldSpace positive rest
          · rw [doubleFold_of_ne space]
            exact (word _ space (written true false _).1).foldLine
              (isGap_of_isSimple simple space) positive
        · obtain ⟨read, solid⟩ := written true false (column + 1)
          by_cases space : c = ' '
          · subst space
            exact ⟨read.space (.inr rfl) solid, solid.space⟩
          · exact ⟨word _ space read, solid_of_isGap (isGap_of_isSimple simple space) _⟩
    refine ⟨first, fun _ => ?_⟩
    -- On a new line the column is small, so no further one begins.
    have small := length_doubleFold indent (c :: rest)
    by_cases space : c = ' '
    · subst space
      rw [doubleChars_space (by omega)]
      exact (written true false _).1.foldSpace positive rest
    · obtain ⟨d, more, form, other⟩ := exists_head indent rest ('\x22' :: tail) space
        (by omega : (Pen.doubleFold indent (c :: rest)).length - 2 ≤ Pen.margin) split true true
      have word := (first true true ((Pen.doubleFold indent (c :: rest)).length - 2)).1
      rw [form] at word ⊢
      rw [doubleFold_of_ne space]
      exact word.foldLine other positive

end DoubleQuotes

end Quoted

end ClenshawCode.Yaml
