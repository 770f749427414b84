import ClenshawCode.Json.Reader
import ClenshawCode.Json.Writer
import ClenshawCode.Proofs.Decimal.Shape
import ClenshawCode.Proofs.Results
import ClenshawCode.Proofs.Value.Double

/-!
# A number in JSON reads back

The longest numeral at the front of a text is taken apart into its sign, its digits, its places and
its exponent. What follows a value is a comma or a closing bracket, which belongs to none of them,
so a written number is taken whole. A written double has a point or an exponent and is read as a
double, a written integer has neither and is read as an integer. What is not finite is written by a
word.

## Main definitions

* `Json.delimiters`, `Json.Ends`: the characters that may follow a value
-/

namespace ClenshawCode.Json

open Binary64 Decimal

/-- The characters that may follow a value. -/
def delimiters : List Char := [',', ']', '\x7d']

/-- A text that begins with none but these. -/
def Ends (tail : List Char) : Prop := ∀ c ∈ tail.head?, c ∈ delimiters

theorem ends_cons {c : Char} (known : c ∈ delimiters) (rest : List Char) : Ends (c :: rest) := by
  intro a member
  cases member
  exact known

theorem ends_nil : Ends [] := by
  intro a member
  cases member

/-- A delimiter is no part of a number. -/
theorem Ends.other {tail : List Char} (ends : Ends tail) :
    ∀ c ∈ tail.head?, c.isDigit = false ∧ c ≠ '.' ∧ c ≠ 'e' ∧ c ≠ 'E' := by
  have each : ∀ c ∈ delimiters, c.isDigit = false ∧ c ≠ '.' ∧ c ≠ 'e' ∧ c ≠ 'E' :=
    List.all_iff_forall_prop.mp (by decide)
  exact fun c member => each c (ends c member)

section Parts

variable {ws fs tail : List Char}

theorem digits_append (run : Digits ws) (ends : ∀ c ∈ tail.head?, c.isDigit = false) :
    digits (ws ++ tail) = ws := (takeWhile_digits ws tail run ends).1

/-- Digits without a zero in front are an integral part. -/
theorem wholePart_append (run : Digits ws) (some : ws ≠ [])
    (leading : ws = ['0'] ∨ '0' ∉ ws.head?) (ends : ∀ c ∈ tail.head?, c.isDigit = false) :
    wholePart (ws ++ tail) = ws := by
  rcases leading with rfl | leading
  · rfl
  · obtain ⟨c, rest, rfl⟩ := List.exists_cons_of_ne_nil some
    -- The reader looks for a zero in front first; there is none.
    rw [wholePart.eq_def]
    split
    · rename_i same
      rw [List.cons_append, List.cons.injEq] at same
      exact absurd (by rw [same.1]; rfl) leading
    · exact digits_append run ends

theorem fractionPart_append (run : Digits fs)
    (ends : ∀ c ∈ tail.head?, c.isDigit = false ∧ c ≠ '.') :
    fractionPart (fractionChars fs ++ tail) = fractionChars fs := by
  rw [fractionChars]
  split
  · cases tail with
    | nil => rfl
    | cons c rest =>
      rw [List.nil_append, fractionPart]
      exact fun more same => (ends c rfl).2 (List.head_eq_of_cons_eq same)
  · rename_i some
    have taken := digits_append run fun c member => (ends c member).1
    rw [List.cons_append, fractionPart, taken, if_neg (by simpa using some)]

theorem exponentPart_none (ends : ∀ c ∈ tail.head?, c ≠ 'e' ∧ c ≠ 'E') :
    exponentPart tail = [] := by
  cases tail with
  | nil => rfl
  | cons c rest =>
    obtain ⟨small, large⟩ := ends c rfl
    rw [exponentPart, if_neg (by simp [small, large])]

theorem exponentPart_append {sign : Char} {power : List Char} (signed : sign = '-' ∨ sign = '+')
    (run : Digits power) (some : power ≠ []) (ends : ∀ c ∈ tail.head?, c.isDigit = false) :
    exponentPart ('e' :: sign :: power ++ tail) = 'e' :: sign :: power := by
  have taken := digits_append run ends
  have mark : (sign = '+' || sign = '-') = true := by
    rcases signed with rfl | rfl <;> decide
  have more : power.isEmpty = false := List.isEmpty_eq_false_iff.mpr some
  simp [exponentPart, mark, taken, more]

end Parts

section Numerals

variable {tail : List Char}

theorem signed_append (negative : Bool) (cs tail : List Char) :
    signed negative cs ++ tail = signed negative (cs ++ tail) := by
  cases negative <;> rfl

/-- A text without a minus sign in front is what is left of it behind a sign. -/
theorem unsigned_of_signed {body : List Char} (plain : body.head? ≠ some '-') (negative : Bool) :
    ((signed negative body).head? == some '-') = negative ∧
      (if negative then (signed negative body).drop 1 else signed negative body) = body := by
  cases negative with
  | true => exact ⟨rfl, rfl⟩
  | false => exact ⟨beq_eq_false_iff_ne.mpr plain, rfl⟩

/-- A numeral is the longest one if each of its parts is. -/
theorem number_of_parts (negative : Bool) (ws fraction exponent : List Char) {c : Char}
    (head : ws.head? = some c) (digit : c.isDigit = true)
    (first : wholePart (ws ++ (fraction ++ (exponent ++ tail))) = ws)
    (second : fractionPart (fraction ++ (exponent ++ tail)) = fraction)
    (third : exponentPart (exponent ++ tail) = exponent) :
    number (signed negative (ws ++ (fraction ++ exponent)) ++ tail) =
      (do let v ← Numeral.value ⟨negative, ws, fraction, exponent⟩; return (v, tail)) := by
  let numeral : Numeral := ⟨negative, ws, fraction, exponent⟩
  have more : ws.isEmpty = false := by
    cases ws with
    | nil => cases head
    | cons _ _ => rfl
  have plain : (ws ++ (fraction ++ (exponent ++ tail))).head? ≠ some '-' := by
    rw [List.head?_append, head, Option.some_or, Ne, Option.some.injEq]
    rintro rfl
    cases digit
  obtain ⟨sign, unsigned⟩ := unsigned_of_signed plain negative
  have dropped : (ws ++ (fraction ++ (exponent ++ tail))).drop (ws.length + fraction.length) =
      exponent ++ tail := by
    rw [← List.append_assoc, ← List.length_append, List.drop_left]
  -- The parts are taken off from the front, each up to where the next one begins.
  have parts : numeral? (signed negative (ws ++ (fraction ++ exponent)) ++ tail) =
      some numeral := by
    rw [signed_append, List.append_assoc, List.append_assoc]
    simp only [numeral?, sign, unsigned, first, List.drop_left, second, dropped, third, more]
    rfl
  -- So the numeral is as long as what was written.
  have size : numeral.length = (signed negative (ws ++ (fraction ++ exponent))).length := by
    cases negative <;> simp [numeral, Numeral.length, signed] <;> omega
  have behind : (signed negative (ws ++ (fraction ++ exponent)) ++ tail).drop numeral.length =
      tail := by
    rw [size, List.drop_left]
  rw [number, parts]
  dsimp only
  rw [behind]

/-- A written decimal is read as the double nearest to it. -/
theorem number_signed (negative : Bool) {pointBeforeExponent : Bool} {body : List Char}
    (form : IsMagnitude pointBeforeExponent body) {d : Decimal} (read : unsigned? body = some d)
    (ends : Ends tail) :
    number (signed negative body ++ tail) = .ok (.float (toFloat negative d), tail) := by
  have other := ends.other
  cases form with
  | positional ws fs whole some leading places more =>
    obtain ⟨c, rest, rfl⟩ := List.exists_cons_of_ne_nil some
    -- Without an exponent the places are followed by a delimiter.
    have fraction : '.' :: fs = fractionChars fs := (if_neg more).symm
    have none : exponentPart ([] ++ tail) = [] :=
      exponentPart_none fun c member => (other c member).2.2
    have behind : fractionPart (fractionChars fs ++ ([] ++ tail)) = fractionChars fs :=
      fractionPart_append places fun c member => ⟨(other c member).1, (other c member).2.1⟩
    rw [fraction] at read ⊢
    have parts := number_of_parts negative _ _ _ rfl (whole c List.mem_cons_self)
      (wholePart_append whole some leading (by rw [← fraction]; simp)) behind none
    rw [List.append_nil] at parts
    rw [parts, Numeral.value, List.append_nil, read, ← fraction]
    rfl
  | scientific c fs sign power first leading places point signed digits two =>
    have some : power ≠ [] := by
      rintro rfl
      cases two
    have whole : Digits [c] := by
      intro a member
      rwa [List.mem_singleton.mp member]
    have endsWhole : ∀ a ∈ (fractionChars fs ++ ('e' :: sign :: power ++ tail)).head?,
        a.isDigit = false := by
      rw [fractionChars]
      split <;> simp
    have behind : fractionPart (fractionChars fs ++ ('e' :: sign :: power ++ tail)) =
        fractionChars fs := fractionPart_append places (by simp)
    have parts := number_of_parts negative _ _ _ rfl first
      (wholePart_append whole (List.cons_ne_nil _ _) (.inr (by simpa using leading)) endsWhole)
      behind (exponentPart_append signed digits some fun c member => (other c member).1)
    rw [List.singleton_append] at parts
    rw [parts, Numeral.value, List.append_assoc, List.singleton_append, read]
    simp

theorem toList_intText (n : ℤ) :
    (Text.intText n).toList = signed (n < 0) (Text.natChars n.natAbs) := by
  rw [Text.intText, Text.natText]
  split_ifs with negative
  · rw [String.toList_append, String.toList_ofList, String.toList_ofList, decide_eq_true negative]
    rfl
  · rw [String.toList_ofList, decide_eq_false negative]
    rfl

/-- A written integer is read as itself. -/
theorem number_intText {n : ℤ} (writable : Text.isWritable n = true) (ends : Ends tail) :
    number ((Text.intText n).toList ++ tail) = .ok (.int n, tail) := by
  have other := ends.other
  have run := digits_natChars n.natAbs
  have nonempty := Text.natChars_ne_nil n.natAbs
  have leading : Text.natChars n.natAbs = ['0'] ∨ '0' ∉ (Text.natChars n.natAbs).head? := by
    rcases Nat.eq_zero_or_pos n.natAbs with zero | positive
    · exact .inl (by rw [zero]; rfl)
    · exact .inr (head_natChars positive)
  -- A number that can be written has no more digits than can be read.
  have short : ¬ Text.maxDigits < (Text.natChars n.natAbs).length := by
    rcases Nat.eq_zero_or_pos n.natAbs with zero | positive
    · rw [zero]
      decide
    · rw [Text.isWritable, decide_eq_true_eq] at writable
      generalize Text.maxDigits = most at writable ⊢
      obtain ⟨least, -, -⟩ := Text.digitCount_bounds positive
      have fewer := (Nat.pow_lt_pow_iff_right (by norm_num)).mp (least.trans_lt writable)
      rw [Text.length_natChars positive]
      omega
  obtain ⟨c, rest, form⟩ := List.exists_cons_of_ne_nil nonempty
  have digit : c.isDigit = true := run c (form ▸ List.mem_cons_self)
  have parts := number_of_parts (n < 0) (Text.natChars n.natAbs) [] [] (form ▸ rfl) digit
    (wholePart_append run nonempty leading fun c member => (other c member).1)
    (fractionPart_append (fun c member => absurd member List.not_mem_nil)
      fun c member => ⟨(other c member).1, (other c member).2.1⟩)
    (exponentPart_none fun c member => (other c member).2.2)
  rw [List.append_nil, List.append_nil] at parts
  rw [toList_intText, parts, Numeral.value]
  simp only [List.isEmpty_nil, Bool.and_self, if_true, if_neg short, Text.digitsValue_natChars]
  have sign : (if decide (n < 0) then -(n.natAbs : ℤ) else n.natAbs) = n := by
    split_ifs with negative <;> simp at negative <;> omega
  rw [sign, except_ok_bind, except_pure]

end Numerals

section Words

theorem words_eq : words = [(['n', 'u', 'l', 'l'], .null), (['t', 'r', 'u', 'e'], .bool true),
    (['f', 'a', 'l', 's', 'e'], .bool false), (['N', 'a', 'N'], .nan .json),
    (['I', 'n', 'f', 'i', 'n', 'i', 't', 'y'], .float (infinity false)),
    (['-', 'I', 'n', 'f', 'i', 'n', 'i', 't', 'y'], .float (infinity true))] := rfl

/-- None of the words begins with a digit, with or without a sign. -/
theorem find?_words_number {c : Char} (digit : c.isDigit = true) (negative : Bool)
    (rest : List Char) :
    words.find? (fun word => word.1.isPrefixOf (signed negative (c :: rest))) = none := by
  have heads : ∀ a ∈ digitChars, a ≠ 'n' ∧ a ≠ 't' ∧ a ≠ 'f' ∧ a ≠ 'N' ∧ a ≠ 'I' ∧ a ≠ '-' :=
    List.all_iff_forall_prop.mp (by decide)
  obtain ⟨null, true', false', nan, infinity, minus⟩ := heads c (mem_digitChars_of_isDigit digit)
  rw [words_eq]
  cases negative <;>
    simp [signed, List.isPrefixOf, null.symm, true'.symm, false'.symm, nan.symm, infinity.symm,
      minus.symm]

/-- A text that begins with a digit behind a sign is a number. -/
theorem plainValue_number {c : Char} (digit : c.isDigit = true) (negative : Bool)
    (rest : List Char) :
    plainValue (signed negative (c :: rest)) = number (signed negative (c :: rest)) := by
  have other : ∀ a ∈ digitChars, a ≠ '\x22' := List.all_iff_forall_prop.mp (by decide)
  rw [plainValue.eq_def]
  split
  · rename_i same
    cases negative with
    | true => cases same
    | false =>
      exact absurd (List.head_eq_of_cons_eq same) (other c (mem_digitChars_of_isDigit digit))
  · rw [find?_words_number digit]

/-- A written double is read back, whatever follows it. -/
theorem plainValue_render (x : Float) {tail : List Char} (ends : Ends tail) :
    plainValue ((floatLayout.render x).toList ++ tail) = .ok (Value.reread .json x, tail) := by
  rcases float_cases x with rfl | ⟨negative, rfl⟩ | ⟨negative, bits, finite, rfl⟩
  · rw [Layout.render, Value.reread, view_nan]
    rfl
  · rw [Layout.render, Value.reread, view_infinity]
    cases negative <;> rfl
  · -- A finite double is a number.
    obtain ⟨d, read, same⟩ :=
      unsigned?_magnitudeChars floatLayout.pointBeforeExponent negative finite
    have form := isMagnitude_magnitudeChars floatLayout.pointBeforeExponent bits
    obtain ⟨c, rest, digit, cons⟩ := form.exists_digit
    have number := number_signed negative form read ends
    rw [render_ofSignedBits _ _ finite, String.toList_ofList, Value.reread,
      view_ofSignedBits _ finite]
    rw [cons, signed_append, List.cons_append] at number ⊢
    rw [plainValue_number digit, number, same]

theorem plainValue_intText {n : ℤ} (writable : Text.isWritable n = true) {tail : List Char}
    (ends : Ends tail) : plainValue ((Text.intText n).toList ++ tail) = .ok (.int n, tail) := by
  obtain ⟨c, rest, form⟩ := List.exists_cons_of_ne_nil (Text.natChars_ne_nil n.natAbs)
  have digit : c.isDigit = true := digits_natChars n.natAbs c (form ▸ List.mem_cons_self)
  have number := number_intText writable ends
  rw [toList_intText, form, signed_append, List.cons_append] at number ⊢
  rw [plainValue_number digit, number]

/-- An integer does not begin like a word. -/
theorem beginsWithDouble_intText (n : ℤ) (tail : List Char) :
    beginsWithDouble ((Text.intText n).toList ++ tail) = false := by
  obtain ⟨c, rest, form⟩ := List.exists_cons_of_ne_nil (Text.natChars_ne_nil n.natAbs)
  have digit : c.isDigit = true := digits_natChars n.natAbs c (form ▸ List.mem_cons_self)
  rw [toList_intText, form, signed_append, List.cons_append, beginsWithDouble,
    find?_words_number digit]

end Words

end ClenshawCode.Json
