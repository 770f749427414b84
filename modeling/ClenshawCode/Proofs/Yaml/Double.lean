import ClenshawCode.Proofs.Decimal.Shape
import ClenshawCode.Proofs.Results
import ClenshawCode.Proofs.Text.Pattern
import ClenshawCode.Proofs.Value.Double
import ClenshawCode.Yaml.Node.OfValue
import ClenshawCode.Yaml.Scalar.Meaning
import ClenshawCode.Yaml.Style

/-!
# A double in YAML reads back

A scalar without quotes is a double if it is spelled like one, and a numeral with an exponent is
spelled so only with a point in it and with a sign in its exponent. What is written for a double
always is. The sign is taken off before the numeral is read and put in front of the double again. A
numeral with an exponent but no point, as other writers have it, is a text.
-/

namespace ClenshawCode.Yaml

open Binary64 Decimal Text.Pattern

section Spelling

variable {cs : List Char}

theorem denotes_digitRun {ws : List Char} (run : Digits ws) (some : ws ≠ []) :
    Denotes Tag.digitRun ws := by
  obtain ⟨c, rest, rfl⟩ := List.exists_cons_of_ne_nil some
  have digit : ∀ c ∈ digitChars, c ∈ "0123456789_".toList := List.all_iff_forall_prop.mp (by decide)
  exact .both (denotes_digit (run c List.mem_cons_self)) (denotes_many_one fun a member =>
    List.contains_iff_mem.mpr
      (digit a (mem_digitChars_of_isDigit (run a (List.mem_cons_of_mem c member)))))

theorem denotes_digitsOrUnderscores {fs : List Char} (run : Digits fs) :
    Denotes Tag.digitsOrUnderscores fs := by
  have digit : ∀ c ∈ digitChars, c ∈ "0123456789_".toList := List.all_iff_forall_prop.mp (by decide)
  exact denotes_many_one fun a member =>
    List.contains_iff_mem.mpr (digit a (mem_digitChars_of_isDigit (run a member)))

theorem denotes_sign (negative : Bool) : Denotes Tag.sign (signed negative []) := by
  cases negative with
  | true => exact denotes_optional (denotes_oneOf (by decide))
  | false => exact denotes_optional_nil _

theorem denotes_exponent {sign : Char} {power : List Char} (signed : sign = '-' ∨ sign = '+')
    (run : Digits power) (some : power ≠ []) : Denotes Tag.exponent ('e' :: sign :: power) := by
  obtain ⟨c, rest, rfl⟩ := List.exists_cons_of_ne_nil some
  have known : sign ∈ "-+".toList := by
    rcases signed with rfl | rfl <;> decide
  have digits : Denotes (onceOrMore digit) (c :: rest) :=
    .both (denotes_digit (run c List.mem_cons_self))
      (denotes_many_one fun a member => run a (List.mem_cons_of_mem c member))
  exact denotes_inOrder_cons (denotes_oneOf (by decide))
    (denotes_inOrder_cons (denotes_oneOf known) (denotes_inOrder_last digits))

/-- With a point in front of the exponent there always is one. -/
theorem point_mem_of_isMagnitude {body : List Char} (form : IsMagnitude true body) :
    '.' ∈ body := by
  cases form with
  | positional => simp
  | scientific c fs sign power first leading places point => simp [fractionChars, point rfl]

/-- A numeral with a point, and with a sign in its exponent, is spelled like a double. -/
theorem denotes_floatPattern (negative : Bool) {pointBeforeExponent : Bool} {body : List Char}
    (form : IsMagnitude pointBeforeExponent body) (pointed : '.' ∈ body) :
    Denotes Tag.floatPattern (signed negative body) := by
  have front : signed negative body = signed negative [] ++ body := by cases negative <;> rfl
  rw [front]
  -- Both forms are of the first alternative: digits, a point, and maybe an exponent.
  refine denotes_anyOf_iff.mpr ⟨_, List.mem_cons_self, ?_⟩
  refine denotes_inOrder_cons (denotes_sign negative) ?_
  cases form with
  | positional ws fs whole some leading places more =>
    have ending := denotes_inOrder_cons (denotes_digitsOrUnderscores places)
      (denotes_inOrder_last (denotes_optional_nil Tag.exponent))
    rw [List.append_nil] at ending
    exact denotes_inOrder_cons (denotes_digitRun whole some)
      (denotes_inOrder_cons (denotes_char '.') ending)
  | scientific c fs sign power first leading places point signed digits two =>
    have single : Digits [c] := by
      intro a member
      rwa [List.mem_singleton.mp member]
    have some : power ≠ [] := by
      rintro rfl
      cases two
    have more : fs ≠ [] := by
      rintro rfl
      have apart (a : Char) (digit : a.isDigit = true) : '.' ≠ a := by
        rintro rfl
        cases digit
      have inPower : '.' ∉ power := fun member => apart '.' (digits '.' member) rfl
      rcases signed with rfl | rfl <;> simp [fractionChars, apart c first, inPower] at pointed
    rw [fractionChars, if_neg more]
    exact denotes_inOrder_cons (denotes_digitRun single (List.cons_ne_nil _ _))
      (denotes_inOrder_cons (denotes_char '.')
        (denotes_inOrder_cons (denotes_digitsOrUnderscores places)
          (denotes_inOrder_last (denotes_optional (denotes_exponent signed digits some)))))

/-- No truth value begins like a number. -/
theorem boolPattern_derivative {c : Char} (head : c ∈ '.' :: '-' :: digitChars) :
    Tag.boolPattern.derivative c = .never := by
  simp only [digitChars, List.mem_cons, List.not_mem_nil, or_false] at head
  rcases head with rfl | rfl | rfl | rfl | rfl | rfl | rfl | rfl | rfl | rfl | rfl | rfl <;> rfl

/-- A text that is spelled like a double and begins with no letter is a double. -/
theorem ofPlain_eq_float {c : Char} {rest : List Char} (head : c ∈ '.' :: '-' :: digitChars)
    (last : (c :: rest).getLast? ≠ some '\n')
    (spelled : Denotes Tag.floatPattern (c :: rest)) : Tag.ofPlain (c :: rest) = .float := by
  have whole : Tag.withoutFinalBreak (c :: rest) = c :: rest := by
    rw [Tag.withoutFinalBreak, if_neg]
    simp [last]
  have word : Tag.boolPattern.accepts (c :: rest) = false := by
    rw [accepts, boolPattern_derivative head, Bool.eq_false_iff]
    exact fun accepted => not_denotes_never (accepts_iff.mp accepted)
  have number : Tag.floatPattern.accepts (c :: rest) = true := accepts_iff.mpr spelled
  -- Truth values are tried before doubles, and nothing is tried in between.
  have found : Tag.patterns.find? (fun entry => entry.2.accepts (c :: rest)) =
      some (.float, Tag.floatPattern) := by
    rw [Tag.patterns, List.find?_cons_of_neg (by simp [word]),
      List.find?_cons_of_pos (by exact number)]
  rw [Tag.ofPlain, whole, found]

/-- The words for what is not finite are spelled like doubles. -/
theorem denotes_floatPattern_words (negative : Bool) :
    Denotes Tag.floatPattern (signed negative ".inf".toList) ∧
      Denotes Tag.floatPattern ".nan".toList := by
  constructor
  · cases negative <;> exact accepts_iff.mp (by decide +kernel)
  · exact accepts_iff.mp (by decide +kernel)

/-- A numeral does not end with a line. -/
theorem getLast?_signed (negative : Bool) (literal : ∀ c ∈ cs, c ∈ literalChars) :
    (signed negative cs).getLast? ≠ some '\n' := by
  have noFeed : '\n' ∉ literalChars := by decide
  exact fun same => noFeed (mem_literalChars_signed literal (List.mem_of_getLast? same))

section Numerals

variable {pointBeforeExponent : Bool} {body : List Char}

/-- A numeral with a point is a double by its spelling. -/
theorem ofPlain_of_point (negative : Bool) (form : IsMagnitude pointBeforeExponent body)
    (pointed : '.' ∈ body) : Tag.ofPlain (signed negative body) = .float := by
  have spelled := denotes_floatPattern negative form pointed
  have last := getLast?_signed negative form.mem_literalChars
  obtain ⟨c, rest, digit, rfl⟩ := form.exists_digit
  cases negative with
  | true => exact ofPlain_eq_float (by decide) last spelled
  | false =>
    exact ofPlain_eq_float (.tail _ (.tail _ (mem_digitChars_of_isDigit digit))) last spelled

/-- No spelling that is given a tag begins with one digit, the first of several, and a letter. -/
theorem derivative_patterns (negative : Bool) {c : Char} (member : c ∈ digitChars)
    (some : c ≠ '0') :
    ∀ entry ∈ Tag.patterns,
      (signed negative [c, 'e']).foldl (fun p c => p.derivative c) entry.2 = .never := by
  simp only [digitChars, List.mem_cons, List.not_mem_nil, or_false] at member
  simp only [Tag.patterns, List.forall_mem_cons]
  rcases member with rfl | rfl | rfl | rfl | rfl | rfl | rfl | rfl | rfl | rfl
  · exact absurd rfl some
  all_goals
    cases negative <;>
      exact ⟨rfl, rfl, rfl, rfl, rfl, rfl, rfl, rfl, fun _ none => absurd none List.not_mem_nil⟩

/-- A numeral without a point has an exponent behind its only digit. It is a text by its spelling.
-/
theorem ofPlain_of_noPoint (negative : Bool) (form : IsMagnitude pointBeforeExponent body)
    (whole : '.' ∉ body) : Tag.ofPlain (signed negative body) = .text := by
  have last := getLast?_signed negative form.mem_literalChars
  have kept : Tag.withoutFinalBreak (signed negative body) = signed negative body := by
    rw [Tag.withoutFinalBreak, if_neg]
    simp [last]
  obtain ⟨c, behind, digit, some, rfl⟩ :
      ∃ c behind, c.isDigit = true ∧ c ≠ '0' ∧ body = c :: 'e' :: behind := by
    cases form with
    | positional => simp at whole
    | scientific c fs sign power first leading =>
      cases fs with
      | nil => exact ⟨c, sign :: power, first, leading, rfl⟩
      | cons => simp [fractionChars] at whole
  have none : Tag.patterns.find?
      (fun entry => entry.2.accepts (signed negative (c :: 'e' :: behind))) = Option.none := by
    rw [List.find?_eq_none]
    intro entry member
    have split : signed negative (c :: 'e' :: behind) = signed negative [c, 'e'] ++ behind := by
      cases negative <;> rfl
    rw [split, accepts_append, derivative_patterns negative (mem_digitChars_of_isDigit digit) some
      entry member, accepts_iff]
    exact not_denotes_never
  rw [Tag.ofPlain, kept, none]

end Numerals

/-- What is written for a double is a double by its spelling. -/
theorem ofPlain_render (x : Float) : Tag.ofPlain (floatLayout.render x).toList = .float := by
  rcases float_cases x with rfl | ⟨negative, rfl⟩ | ⟨negative, bits, finite, rfl⟩
  · rw [Layout.render, view_nan]
    exact ofPlain_eq_float (by decide) (by decide) (denotes_floatPattern_words false).2
  · rw [Layout.render, view_infinity]
    have spelled := (denotes_floatPattern_words negative).1
    cases negative with
    | true => exact ofPlain_eq_float (by decide) (by decide) spelled
    | false => exact ofPlain_eq_float (by decide) (by decide) spelled
  · have form := isMagnitude_magnitudeChars true bits
    rw [render_ofSignedBits _ _ finite, String.toList_ofList]
    exact ofPlain_of_point negative form (point_mem_of_isMagnitude form)

/-- No mark ends a text of the characters of written doubles. -/
theorem holdsMark_of_literal (literal : ∀ c ∈ cs, c ∈ literalChars) (before : Char) :
    Style.holdsMark before cs = false := by
  have known : ∀ c ∈ literalChars, c ≠ ':' ∧ c ≠ '#' := List.all_iff_forall_prop.mp (by decide)
  induction cs generalizing before with
  | nil => rfl
  | cons c rest ih =>
    obtain ⟨colon, hash⟩ := known c (literal c List.mem_cons_self)
    rw [Style.holdsMark, ih fun a member => literal a (List.mem_cons_of_mem c member)]
    simp [colon, hash]

/-- A numeral can stand without quotes. -/
theorem isPlain_signed (negative : Bool) {c : Char} {rest : List Char} (digit : c.isDigit = true)
    (literal : ∀ a ∈ c :: rest, a ∈ literalChars) :
    Style.isPlain (signed negative (c :: rest)) = true := by
  have known : ∀ a ∈ literalChars, Style.isSimple a = true ∧ a ≠ ' ' :=
    List.all_iff_forall_prop.mp (by decide)
  have first : ∀ a ∈ digitChars, Style.isMark a = false ∧ isGap a = false ∧ a ≠ '?' ∧ a ≠ ':' ∧
      a ≠ '-' ∧ a ≠ '.' := List.all_iff_forall_prop.mp (by decide)
  have all : ∀ a ∈ signed negative (c :: rest), a ∈ literalChars := fun a member =>
    mem_literalChars_signed literal member
  have simple : (signed negative (c :: rest)).all Style.isSimple = true :=
    List.all_eq_true.mpr fun a member => (known a (all a member)).1
  have last : (signed negative (c :: rest)).getLast? ≠ some ' ' := fun same =>
    (known ' ' (all ' ' (List.mem_of_getLast? same))).2 rfl
  have space : c ≠ ' ' := (known c (literal c List.mem_cons_self)).2
  obtain ⟨mark, gap, question, colon, hyphen, point⟩ := first c (mem_digitChars_of_isDigit digit)
  have noMark (before : Char) : Style.holdsMark before (c :: rest) = false :=
    holdsMark_of_literal literal before
  have noMark' : Style.holdsMark c rest = false :=
    holdsMark_of_literal (fun a member => literal a (List.mem_cons_of_mem c member)) c
  cases negative with
  | true =>
    -- With a sign the mark of an item or of a separator might be in front; a digit follows.
    change Style.isPlain ('-' :: c :: rest) = true
    have hyphen' : ('-' == c) = false := beq_eq_false_iff_ne.mpr hyphen.symm
    have prefixes : ['-', '-', '-'].isPrefixOf ('-' :: c :: rest) = false ∧
        ['.', '.', '.'].isPrefixOf ('-' :: c :: rest) = false := by
      simp [List.isPrefixOf, hyphen']
    have mark' : Style.startsLikeMark ('-' :: c :: rest) = false := by
      rw [Style.startsLikeMark, prefixes.1, prefixes.2]
      simp [show Style.isMark '-' = false from rfl, atGap, atEndOr, gap]
    rw [Style.isPlain, show ('-' :: c :: rest).all _ = true from simple, mark', noMark]
    simpa [startsWith, signed] using last
  | false =>
    change Style.isPlain (c :: rest) = true
    have hyphen' : ('-' == c) = false := beq_eq_false_iff_ne.mpr hyphen.symm
    have point' : ('.' == c) = false := beq_eq_false_iff_ne.mpr point.symm
    have mark' : Style.startsLikeMark (c :: rest) = false := by
      simp [Style.startsLikeMark, List.isPrefixOf, mark, question, colon, hyphen, hyphen', point']
    rw [Style.isPlain, show (c :: rest).all _ = true from simple, mark', noMark']
    simpa [startsWith, space, signed] using last

/-- What is written for a double stands without quotes. -/
theorem isPlain_render (x : Float) : Style.isPlain (floatLayout.render x).toList = true := by
  rcases float_cases x with rfl | ⟨negative, rfl⟩ | ⟨negative, bits, finite, rfl⟩
  · rw [Layout.render, view_nan]
    decide +kernel
  · rw [Layout.render, view_infinity]
    cases negative <;> decide +kernel
  · have form := isMagnitude_magnitudeChars true bits
    have known := form.mem_literalChars
    obtain ⟨c, rest, digit, cons⟩ := form.exists_digit
    rw [render_ofSignedBits _ _ finite, String.toList_ofList]
    change Style.isPlain (signed negative (magnitudeChars true bits)) = _
    rw [cons] at known ⊢
    exact isPlain_signed negative digit known

/-- What is written for a double is one word. -/
theorem isGap_of_mem_render {x : Float} {c : Char} (member : c ∈ (floatLayout.render x).toList) :
    isGap c = false := by
  have known : ∀ c ∈ literalChars, isGap c = false := List.all_iff_forall_prop.mp (by decide)
  refine known c ?_
  rcases float_cases x with rfl | ⟨negative, rfl⟩ | ⟨negative, bits, finite, rfl⟩
  · rw [Layout.render, view_nan] at member
    exact List.all_iff_forall_prop.mp (by decide) c member
  · rw [Layout.render, view_infinity] at member
    cases negative <;> exact List.all_iff_forall_prop.mp (by decide) c member
  · rw [render_ofSignedBits _ _ finite, String.toList_ofList] at member
    exact mem_literalChars_signed (isMagnitude_magnitudeChars true bits).mem_literalChars member

end Spelling

section Reading

variable {cs : List Char}

/-- The characters of written doubles have no capitals among them. -/
theorem toLowerCase_of_literal (literal : ∀ c ∈ cs, c ∈ literalChars) (before : List Char) :
    Text.toLowerCase before cs = cs := by
  have small : ∀ c ∈ literalChars, Text.smallLetter c = c ∧ c ≠ '\u0130' ∧ c ≠ '\u03A3' :=
    List.all_iff_forall_prop.mp (by decide)
  induction cs generalizing before with
  | nil => rfl
  | cons c rest ih =>
    obtain ⟨same, dotted, sigma⟩ := small c (literal c List.mem_cons_self)
    have others := ih (fun a member => literal a (List.mem_cons_of_mem c member)) (c :: before)
    rw [Text.toLowerCase, if_neg dotted, if_neg sigma, same, others]
    rfl

theorem filter_of_literal (literal : ∀ c ∈ cs, c ∈ literalChars) :
    cs.filter (· ≠ '_') = cs := by
  have other : ∀ c ∈ literalChars, c ≠ '_' := List.all_iff_forall_prop.mp (by decide)
  exact List.filter_eq_self.mpr fun c member => decide_eq_true (other c (literal c member))

theorem splitSign_signed (negative : Bool) {c : Char} (rest : List Char) (minus : c ≠ '-')
    (plus : c ≠ '+') : splitSign (signed negative (c :: rest)) = .ok (negative, c :: rest) := by
  cases negative with
  | true => rfl
  | false =>
    rw [signed, if_neg Bool.false_ne_true, splitSign]
    · exact List.cons_ne_nil c rest
    · exact fun _ same => minus (List.head_eq_of_cons_eq same)
    · exact fun _ same => plus (List.head_eq_of_cons_eq same)

section Finite

variable {bits : ℕ} (finite : bits < infinityBits)

include finite

/-- What is written for a finite double without its sign is read as the positive one. -/
theorem readNumeral_magnitudeChars (pointBeforeExponent : Bool) :
    readNumeral (magnitudeChars pointBeforeExponent bits) = .ok (ofSignedBits false bits) := by
  have known := (isMagnitude_magnitudeChars pointBeforeExponent bits).mem_literalChars
  obtain ⟨d, read, same⟩ := unsigned?_magnitudeChars pointBeforeExponent false finite
  have plain : readPlain? (signed false (magnitudeChars pointBeforeExponent bits)) =
      some (toFloat false d) := readPlain?_signed read
  have body : signed false (magnitudeChars pointBeforeExponent bits) =
      magnitudeChars pointBeforeExponent bits := rfl
  rw [body, same] at plain
  rw [readNumeral, Value.toFloat, readNumeral?, String.toList_ofList, plain_of_literal known,
    dropUnderscores?_of_literal known, Option.bind_some, plain]

/-- What is written for a finite double is read as the double. -/
theorem readFloat_signed (place : ℕ) (pointBeforeExponent negative : Bool) :
    readFloat place (String.ofList (signed negative (magnitudeChars pointBeforeExponent bits))) =
      .ok (.float (ofSignedBits negative bits)) := by
  have form := isMagnitude_magnitudeChars pointBeforeExponent bits
  have known := form.mem_literalChars
  have literal : ∀ a ∈ signed negative (magnitudeChars pointBeforeExponent bits),
      a ∈ literalChars := fun a member => mem_literalChars_signed known member
  obtain ⟨c, rest, digit, cons⟩ := form.exists_digit
  have head : ∀ a ∈ digitChars, a ≠ '-' ∧ a ≠ '+' ∧ a ≠ '.' :=
    List.all_iff_forall_prop.mp (by decide)
  obtain ⟨minus, plus, point⟩ := head c (mem_digitChars_of_isDigit digit)
  have split := splitSign_signed negative rest minus plus
  rw [← cons] at split
  have words : magnitudeChars pointBeforeExponent bits ≠ ".inf".toList ∧
      magnitudeChars pointBeforeExponent bits ≠ ".nan".toList := by
    rw [cons]
    exact ⟨fun same => point (List.head_eq_of_cons_eq same),
      fun same => point (List.head_eq_of_cons_eq same)⟩
  have colon : (magnitudeChars pointBeforeExponent bits).contains ':' = false := by
    have other : ':' ∉ literalChars := by decide
    rw [Bool.eq_false_iff, Ne, List.contains_iff_mem]
    exact fun member => other (known _ member)
  have sign : (if negative then -ofSignedBits false bits else ofSignedBits false bits) =
      ofSignedBits negative bits := by
    cases negative with
    | true => exact neg_ofSignedBits false finite
    | false => rfl
  rw [readFloat, String.toList_ofList, filter_of_literal literal, toLowerCase_of_literal literal,
    split, except_ok_bind]
  dsimp only
  rw [if_neg words.1, if_neg words.2, colon, if_neg Bool.false_ne_true,
    readNumeral_magnitudeChars finite, except_ok_bind, isNaN_ofSignedBits false finite, sign]
  rfl

end Finite

/-- What is written for a double is read as the double, at whatever place it stands. -/
theorem readFloat_render (place : ℕ) (x : Float) :
    readFloat place (floatLayout.render x) = .ok (Value.reread .yaml x) := by
  rcases float_cases x with rfl | ⟨negative, rfl⟩ | ⟨negative, bits, finite, rfl⟩
  · rw [Layout.render, Value.reread, view_nan]
    rfl
  · rw [Layout.render, Value.reread, view_infinity]
    cases negative <;> rfl
  · have written : floatLayout.render (ofSignedBits negative bits) =
        String.ofList (signed negative (magnitudeChars true bits)) := render_ofSignedBits _ _ finite
    rw [written, readFloat_signed finite, Value.reread, view_ofSignedBits negative finite]

end Reading

end ClenshawCode.Yaml
