import ClenshawCode.Proofs.Decimal.Value
import ClenshawCode.Value.Show
import Mathlib.Data.Bool.AllAny

/-!
# A written double reads back

The shortest decimal of a double is written with a point or an exponent, and a numeral is read as
digits, a point among them and an exponent. Reading what was written gives a decimal of the same
value, though not always the same decimal, and with it the double, its sign included. The words for
the infinities and for what is no number read back too.

## Main definitions

* `EndsDigits`: the tails that end a run of digits
* `magnitudeChars`: how a finite double is written, but for its sign
* `literalChars`: the characters of written doubles
-/

namespace ClenshawCode.Decimal

open Binary64 Text

section Reading

variable (ws fs tail : List Char) {e : ℤ}

/-- A tail that ends a run of digits. -/
def EndsDigits (tail : List Char) : Prop := ∀ c ∈ tail.head?, c.isDigit = false ∧ c ≠ '.'

theorem takeWhile_digits (digits : ∀ c ∈ ws, c.isDigit = true)
    (ends : ∀ c ∈ tail.head?, c.isDigit = false) :
    (ws ++ tail).takeWhile Char.isDigit = ws ∧ (ws ++ tail).dropWhile Char.isDigit = tail := by
  rw [List.takeWhile_append_of_pos digits, List.dropWhile_append_of_pos digits]
  cases tail with
  | nil => simp
  | cons c rest =>
    have other : c.isDigit = false := ends c rfl
    simp [other]

/-- A numeral without a point is read as its digits and the exponent. -/
theorem unsigned?_whole (nonempty : ws ≠ []) (digits : ∀ c ∈ ws, c.isDigit = true)
    (ends : EndsDigits tail) (exponent : exponent? tail = some e) :
    unsigned? (ws ++ tail) = some ⟨digitsValue ws, e⟩ := by
  obtain ⟨taken, left⟩ := takeWhile_digits ws tail digits fun c member => (ends c member).1
  have some : ws.isEmpty = false := by simpa using nonempty
  rw [unsigned?, taken, left]
  cases tail with
  | nil => simp [some, exponent]
  | cons c rest =>
    have other : c ≠ '.' := (ends c rfl).2
    simp [some, exponent, other]

/-- A numeral with a point is read as all its digits, shifted by those after the point. -/
theorem unsigned?_point (nonempty : ws ≠ []) (digits : ∀ c ∈ ws, c.isDigit = true)
    (places : ∀ c ∈ fs, c.isDigit = true) (ends : EndsDigits tail)
    (exponent : exponent? tail = some e) :
    unsigned? (ws ++ '.' :: (fs ++ tail)) = some ⟨digitsValue (ws ++ fs), e - fs.length⟩ := by
  obtain ⟨taken, left⟩ := takeWhile_digits ws ('.' :: (fs ++ tail)) digits (by simp)
  obtain ⟨takenPlaces, leftPlaces⟩ :=
    takeWhile_digits fs tail places fun c member => (ends c member).1
  have some : ws.isEmpty = false := by simpa using nonempty
  rw [unsigned?, taken, left]
  simp [some, takenPlaces, leftPlaces, exponent]

end Reading

section Written

theorem endsDigits_nil : EndsDigits [] := by
  intro c member
  cases member

theorem endsDigits_exponent (rest : List Char) : EndsDigits ('e' :: rest) := by
  intro c member
  cases member
  exact ⟨rfl, by decide⟩

/-- An exponent of at least two digits is read back with its sign. -/
theorem exponent?_written (n : ℤ) :
    exponent? ('e' :: (if n < 0 then '-' else '+') :: padZeros 2 (natChars n.natAbs)) =
      some n := by
  have digits : (padZeros 2 (natChars n.natAbs)).all Char.isDigit = true := by
    rw [List.all_eq_true]
    intro c member
    rcases List.mem_append.mp member with zero | digit
    · rw [List.eq_of_mem_replicate zero]
      rfl
    · exact isDigit_of_mem_natChars digit
  have some : (padZeros 2 (natChars n.natAbs)).isEmpty = false := by
    rw [padZeros, List.isEmpty_eq_false_iff]
    exact List.append_ne_nil_of_right_ne_nil _ (natChars_ne_nil _)
  have value : digitsValue (padZeros 2 (natChars n.natAbs)) = n.natAbs := by
    rw [padZeros, digitsValue_append, digitsValue_replicate_zero, Nat.zero_mul, Nat.zero_add,
      digitsValue_natChars]
  rw [exponent?]
  -- The sign that is written is the one that is taken off.
  split_ifs with negative
  · have magnitude : -(n.natAbs : ℤ) = n := by omega
    simp only [takeSign, some, digits, value, magnitude]
    rfl
  · have magnitude : (n.natAbs : ℤ) = n := by omega
    simp only [takeSign, some, digits, value, magnitude]
    rfl

/-- The exponent of the leading digit lies as far above that of the last as there are others. -/
theorem leadingExponent_eq (d : Decimal) :
    d.leadingExponent = d.exponent + (natChars d.digits).length - 1 := rfl

/-- A numeral that ends after its places. -/
theorem unsigned?_places (ws fs : List Char) (nonempty : ws ≠ [])
    (digits : ∀ c ∈ ws, c.isDigit = true) (places : ∀ c ∈ fs, c.isDigit = true) :
    unsigned? (ws ++ '.' :: fs) = some ⟨digitsValue (ws ++ fs), -fs.length⟩ := by
  have read := unsigned?_point ws fs [] nonempty digits places endsDigits_nil rfl
  rwa [List.append_nil, Int.zero_sub] at read

theorem isDigit_of_mem_zeros {k : ℕ} {c : Char} (member : c ∈ List.replicate k '0') :
    c.isDigit = true := by
  rw [List.eq_of_mem_replicate member]
  rfl

/-- A decimal written with a point reads back as a decimal of its value. -/
theorem unsigned?_positional (d : Decimal) :
    ∃ read, unsigned? d.positional = some read ∧ read.value = d.value := by
  have digits : ∀ c ∈ natChars d.digits, c.isDigit = true := fun c => isDigit_of_mem_natChars
  have nonempty := natChars_ne_nil d.digits
  have positive := List.length_pos_iff.mpr nonempty
  have leading := d.leadingExponent_eq
  rw [positional]
  split
  · -- An integer: zeros fill up to the point, and one follows it.
    rename_i whole
    refine ⟨_, unsigned?_places (natChars d.digits ++ List.replicate d.exponent.toNat '0') ['0']
      (List.append_ne_nil_of_left_ne_nil nonempty _) ?_ (by simp), ?_⟩
    · intro c member
      exact (List.mem_append.mp member).elim (digits c) isDigit_of_mem_zeros
    · have shift : (10 : ℚ) ^ d.exponent = 10 ^ d.exponent.toNat := by
        rw [← zpow_natCast, Int.toNat_of_nonneg whole]
      have last : digitsValue ['0'] = 0 := rfl
      rw [value, value, digitsValue_append, digitsValue_append, digitsValue_natChars,
        digitsValue_replicate_zero, last, shift, List.length_replicate]
      simp
  · rename_i fractional
    split
    · -- The point stands among the digits.
      rename_i among
      have cut : (d.leadingExponent + 1).toNat ≤ (natChars d.digits).length := by omega
      refine ⟨_, unsigned?_places ((natChars d.digits).take (d.leadingExponent + 1).toNat)
        ((natChars d.digits).drop (d.leadingExponent + 1).toNat) ?_
        (fun c member => digits c (List.mem_of_mem_take member))
        (fun c member => digits c (List.mem_of_mem_drop member)), ?_⟩
      · rw [Ne, List.take_eq_nil_iff]
        exact not_or.mpr ⟨by omega, nonempty⟩
      · have shift : -(((natChars d.digits).drop (d.leadingExponent + 1).toNat).length : ℤ) =
            d.exponent := by
          rw [List.length_drop]
          omega
        rw [value, value, List.take_append_drop, digitsValue_natChars, shift]
    · -- Zeros stand between the point and the digits.
      rename_i small
      let zeros := List.replicate (-d.leadingExponent - 1).toNat '0'
      have places : ∀ c ∈ zeros ++ natChars d.digits, c.isDigit = true := by
        intro c member
        exact (List.mem_append.mp member).elim isDigit_of_mem_zeros (digits c)
      refine ⟨_, unsigned?_places ['0'] (zeros ++ natChars d.digits) (List.cons_ne_nil _ _)
        (by simp) places, ?_⟩
      have shift : -((zeros ++ natChars d.digits).length : ℤ) = d.exponent := by
        rw [List.length_append, List.length_replicate]
        omega
      have worth : digitsValue (['0'] ++ (zeros ++ natChars d.digits)) = d.digits := by
        have first : digitsValue ['0'] = 0 := rfl
        rw [digitsValue_append, digitsValue_append, digitsValue_replicate_zero, first,
          digitsValue_natChars]
        simp
      rw [value, value, worth, shift]

/-- A decimal written with an exponent reads back as a decimal of its value. -/
theorem unsigned?_scientific (pointBeforeExponent : Bool) (d : Decimal) :
    ∃ read, unsigned? (d.scientific pointBeforeExponent) = some read ∧ read.value = d.value := by
  have digits : ∀ c ∈ natChars d.digits, c.isDigit = true := fun c => isDigit_of_mem_natChars
  have worth := digitsValue_natChars d.digits
  have leading := d.leadingExponent_eq
  have exponent := exponent?_written d.leadingExponent
  rw [scientific]
  cases form : natChars d.digits with
  | nil => exact absurd form (natChars_ne_nil _)
  | cons c rest =>
    rw [form] at digits worth leading
    have first : ∀ a ∈ [c], a.isDigit = true := by
      intro a member
      exact digits a (List.mem_cons.mpr (.inl (List.mem_singleton.mp member)))
    cases rest with
    | nil =>
      have single : d.leadingExponent = d.exponent := by simpa using leading
      cases pointBeforeExponent with
      | false =>
        refine ⟨_, unsigned?_whole [c] _ (List.cons_ne_nil _ _) first (endsDigits_exponent _)
          exponent, ?_⟩
        rw [value, value, worth, single]
      | true =>
        -- The zero behind the point makes the digits worth ten times as much.
        refine ⟨_, unsigned?_point [c] ['0'] _ (List.cons_ne_nil _ _) first (by simp)
          (endsDigits_exponent _) exponent, ?_⟩
        have zero : digitsValue ['0'] = 0 := rfl
        have shift : d.leadingExponent - (['0'].length : ℤ) = d.exponent - 1 := by rw [single]; rfl
        rw [value, value, shift, digitsValue_append, worth, zero, zpow_sub_one₀ (by norm_num)]
        push_cast [List.length_singleton]
        ring
    | cons c' rest =>
      have places : ∀ a ∈ c' :: rest, a.isDigit = true :=
        fun a member => digits a (List.mem_cons_of_mem c member)
      refine ⟨_, unsigned?_point [c] (c' :: rest) _ (List.cons_ne_nil _ _) first places
        (endsDigits_exponent _) exponent, ?_⟩
      have shift : d.leadingExponent - ((c' :: rest).length : ℤ) = d.exponent := by
        rw [leading]
        simp
        ring
      rw [value, value, List.singleton_append, worth, shift]

/-- A written decimal reads back as a decimal of its value. -/
theorem unsigned?_written (pointBeforeExponent : Bool) (d : Decimal) :
    ∃ read, unsigned? (written pointBeforeExponent d) = some read ∧ read.value = d.value := by
  rw [written]
  split
  · exact unsigned?_positional d
  · exact unsigned?_scientific pointBeforeExponent d

/-- How a finite double is written, but for its sign. -/
def magnitudeChars (pointBeforeExponent : Bool) (bits : ℕ) : List Char :=
  if (ofMagnitudeBits bits).1 = 0 then ['0', '.', '0']
  else written pointBeforeExponent (shortest (ofMagnitudeBits bits).1 (ofMagnitudeBits bits).2)

theorem render_ofSignedBits (layout : Layout) (negative : Bool) {bits : ℕ}
    (finite : bits < infinityBits) :
    layout.render (ofSignedBits negative bits) =
      String.ofList (signed negative (magnitudeChars layout.pointBeforeExponent bits)) := by
  rw [Layout.render, view_ofSignedBits negative finite]
  rfl

theorem eq_zero_of_ofMagnitudeBits {bits : ℕ} (zero : (ofMagnitudeBits bits).1 = 0) : bits = 0 := by
  have same := magnitudeBits_ofMagnitudeBits bits
  rwa [zero, Nat.zero_mul, Binary64.magnitudeBits, if_pos rfl, eq_comm] at same

/-- What is written for a finite double is read as a decimal to which it is the nearest double. -/
theorem unsigned?_magnitudeChars (pointBeforeExponent negative : Bool) {bits : ℕ}
    (finite : bits < infinityBits) :
    ∃ read, unsigned? (magnitudeChars pointBeforeExponent bits) = some read ∧
      toFloat negative read = ofSignedBits negative bits := by
  rw [magnitudeChars]
  split
  · rename_i zero
    have read : unsigned? ['0', '.', '0'] = some ⟨0, -1⟩ := rfl
    exact ⟨_, read, by rw [toFloat, if_pos (.inl rfl), eq_zero_of_ofMagnitudeBits zero]⟩
  · obtain ⟨read, found, same⟩ := unsigned?_written pointBeforeExponent
      (shortest (ofMagnitudeBits bits).1 (ofMagnitudeBits bits).2)
    have magnitude : read.magnitudeBits = bits := by
      rw [magnitudeBits_eq_of_value same, magnitudeBits_shortest, magnitudeBits_ofMagnitudeBits]
    exact ⟨read, found, by rw [toFloat_eq, magnitude, Nat.min_eq_left finite.le]⟩

end Written

section Characters

/-- The ten digits. -/
def digitChars : List Char := ['0', '1', '2', '3', '4', '5', '6', '7', '8', '9']

/-- The characters of written doubles: digits, a point, signs and the letters of an exponent and of
the words for what is not finite. -/
def literalChars : List Char := digitChars ++ ['.', '-', '+', 'e', 'i', 'n', 'f', 'a']

theorem mem_digitChars_of_isDigit {c : Char} (digit : c.isDigit = true) : c ∈ digitChars := by
  obtain ⟨lower, upper⟩ := toNat_of_isDigit digit
  have known : c = Char.ofNat c.toNat := (Char.ofNat_toNat c).symm
  rw [known]
  generalize c.toNat = n at lower upper
  interval_cases n <;> decide

theorem mem_literalChars_of_isDigit {c : Char} (digit : c.isDigit = true) : c ∈ literalChars :=
  List.mem_append_left _ (mem_digitChars_of_isDigit digit)

variable {c : Char}

theorem mem_literalChars_positional (d : Decimal) (member : c ∈ d.positional) :
    c ∈ literalChars := by
  have digits : ∀ c ∈ natChars d.digits, c ∈ literalChars :=
    fun c member => mem_literalChars_of_isDigit (isDigit_of_mem_natChars member)
  have zeros (k : ℕ) : ∀ c ∈ List.replicate k '0', c ∈ literalChars :=
    fun c member => mem_literalChars_of_isDigit (isDigit_of_mem_zeros member)
  rw [positional] at member
  split at member
  · simp only [List.mem_append] at member
    rcases member with (digit | zero) | point
    · exact digits c digit
    · exact zeros _ c zero
    · simp only [List.mem_cons, List.not_mem_nil, or_false] at point
      rcases point with rfl | rfl <;> decide
  · split at member
    · simp only [List.mem_append, List.mem_cons] at member
      rcases member with digit | rfl | digit
      · exact digits c (List.mem_of_mem_take digit)
      · decide
      · exact digits c (List.mem_of_mem_drop digit)
    · simp only [List.cons_append, List.mem_append, List.mem_cons] at member
      rcases member with rfl | rfl | zero | digit
      · decide
      · decide
      · exact zeros _ c zero
      · exact digits c digit

theorem mem_literalChars_scientific (d : Decimal) (member : c ∈ d.scientific false) :
    c ∈ literalChars := by
  have digits (n : ℕ) : ∀ c ∈ natChars n, c ∈ literalChars :=
    fun c member => mem_literalChars_of_isDigit (isDigit_of_mem_natChars member)
  rw [scientific] at member
  simp only [List.mem_append, List.mem_cons, padZeros] at member
  rcases member with mantissa | rfl | sign | zero | digit
  · cases form : natChars d.digits with
    | nil => exact absurd form (natChars_ne_nil _)
    | cons first rest =>
      have known := digits d.digits
      rw [form] at mantissa known
      cases rest with
      | nil => exact known c mantissa
      | cons next rest =>
        simp only [List.mem_cons] at mantissa
        rcases mantissa with rfl | rfl | other
        · exact known _ List.mem_cons_self
        · decide
        · exact known c (by simp [other])
  · decide
  · split at sign <;> subst sign <;> decide
  · exact mem_literalChars_of_isDigit (isDigit_of_mem_zeros zero)
  · exact digits _ c digit

theorem mem_literalChars_signed {negative : Bool} {cs : List Char}
    (known : ∀ c ∈ cs, c ∈ literalChars) (member : c ∈ signed negative cs) :
    c ∈ literalChars := by
  rw [signed] at member
  split at member
  · rcases List.mem_cons.mp member with rfl | other
    · decide
    · exact known c other
  · exact known c member

/-- A written double has none but these characters. -/
theorem mem_literalChars_render {x : Float} (member : c ∈ (Value.floatLayout.render x).toList) :
    c ∈ literalChars := by
  have words : ∀ cs ∈ [Value.floatLayout.nan.toList, Value.floatLayout.infinity.toList,
      ['0', '.', '0']], ∀ c ∈ cs, c ∈ literalChars := by
    simp [Value.floatLayout, literalChars, digitChars]
  -- What is no number, an infinity, and a finite double.
  rw [Layout.render] at member
  split at member
  · exact words _ List.mem_cons_self c member
  · rw [String.toList_ofList] at member
    exact mem_literalChars_signed (words _ (by simp)) member
  · rw [String.toList_ofList] at member
    refine mem_literalChars_signed (fun c member => ?_) member
    split at member
    · exact words _ (by simp) c member
    · rw [Value.floatLayout, written] at member
      split at member
      · exact mem_literalChars_positional _ member
      · exact mem_literalChars_scientific _ member

end Characters

section ReadBack

variable {cs : List Char}

theorem plain_of_literal (literal : ∀ c ∈ cs, c ∈ literalChars) : plain cs = cs := by
  have same : ∀ c ∈ literalChars, plainChar c = c := List.all_iff_forall_prop.mp (by decide)
  have bound : ∀ c ∈ literalChars, isMargin c = false := List.all_iff_forall_prop.mp (by decide)
  have kept (cs : List Char) (literal : ∀ c ∈ cs, c ∈ literalChars) :
      cs.dropWhile isMargin = cs := by
    cases cs with
    | nil => rfl
    | cons c rest => rw [List.dropWhile_cons, bound c (literal c List.mem_cons_self)]; rfl
  have mapped : cs.map plainChar = cs :=
    (List.map_congr_left fun c member => same c (literal c member)).trans (List.map_id' cs)
  -- Nothing is dropped at either end.
  rw [plain, mapped, kept cs literal, kept cs.reverse (by simpa using literal),
    List.reverse_reverse]

theorem dropUnderscores?_of_literal (literal : ∀ c ∈ cs, c ∈ literalChars) (afterDigit : Bool) :
    dropUnderscores? afterDigit cs = some cs := by
  have other : ∀ c ∈ literalChars, c ≠ '_' := List.all_iff_forall_prop.mp (by decide)
  induction cs generalizing afterDigit with
  | nil => rfl
  | cons c rest ih =>
    have kept := ih (fun a member => literal a (List.mem_cons_of_mem c member)) c.isDigit
    rw [dropUnderscores?, kept]
    · rfl
    · exact fun same => other c (literal c List.mem_cons_self) same

/-- An unsigned numeral begins with a digit or a point. -/
theorem head_of_unsigned? {c : Char} {rest : List Char} {d : Decimal}
    (read : unsigned? (c :: rest) = some d) : c.isDigit = true ∨ c = '.' := by
  by_contra neither
  obtain ⟨other, point⟩ := not_or.mp neither
  rw [Bool.not_eq_true] at other
  rw [unsigned?, List.takeWhile_cons, List.dropWhile_cons, other] at read
  -- Otherwise no digits are found in front of the point.
  simp [point] at read

/-- A sign in front of a numeral is taken off. -/
theorem takeSign_signed (negative : Bool) {c : Char} (rest : List Char)
    (numeral : c.isDigit = true ∨ c = '.') :
    takeSign (signed negative (c :: rest)) = (negative, c :: rest) := by
  -- A numeral begins with no sign of its own.
  have minus : c ≠ '-' := by
    rintro rfl
    simp at numeral
  have plus : c ≠ '+' := by
    rintro rfl
    simp at numeral
  cases negative with
  | true => rfl
  | false =>
    rw [signed, if_neg Bool.false_ne_true, takeSign]
    · intro tail same
      exact minus (List.head_eq_of_cons_eq same)
    · intro tail same
      exact plus (List.head_eq_of_cons_eq same)

/-- A sign and an unsigned numeral give the double nearest to the decimal. -/
theorem readPlain?_signed {negative : Bool} {body : List Char} {d : Decimal}
    (read : unsigned? body = some d) :
    readPlain? (signed negative body) = some (toFloat negative d) := by
  cases body with
  | nil => cases read
  | cons c rest =>
    have head : c ∈ '.' :: digitChars := by
      rcases head_of_unsigned? read with digit | rfl
      · exact List.mem_cons_of_mem _ (mem_digitChars_of_isDigit digit)
      · exact List.mem_cons_self
    have plain : ∀ a ∈ '.' :: digitChars,
        a.toLower ≠ 'i' ∧ a.toLower ≠ 'n' :=
      List.all_iff_forall_prop.mp (by decide)
    obtain ⟨notI, notN⟩ := plain c head
    have sign := takeSign_signed negative rest (head_of_unsigned? read)
    -- The first character rules out the words for what is not finite.
    have word (first : Char) (others : List Char) (different : c.toLower ≠ first) :
        String.ofList ((c :: rest).map Char.toLower) ≠ String.ofList (first :: others) := by
      intro same
      have heads := String.ofList_injective same
      rw [List.map_cons, List.cons.injEq] at heads
      exact different heads.1
    rw [readPlain?, sign]
    dsimp only
    rw [if_neg, if_neg (word 'n' ['a', 'n'] notN), read]
    · rfl
    · rw [Bool.or_eq_true, decide_eq_true_eq, decide_eq_true_eq]
      exact not_or.mpr ⟨word 'i' ['n', 'f'] notI, word 'i' ['n', 'f', 'i', 'n', 'i', 't', 'y'] notI⟩

/-- A finite double reads back, its sign included. -/
theorem readPlain?_finite (negative : Bool) {bits : ℕ} (finite : bits < infinityBits) :
    readPlain? (Value.floatLayout.render (ofSignedBits negative bits)).toList =
      some (ofSignedBits negative bits) := by
  obtain ⟨read, found, same⟩ := unsigned?_magnitudeChars
    Value.floatLayout.pointBeforeExponent negative finite
  rw [render_ofSignedBits _ negative finite, String.toList_ofList, readPlain?_signed found, same]

/-- Every double reads back from its text. -/
theorem readNumeral?_render (x : Float) :
    readNumeral? (Value.floatLayout.render x) = some x := by
  have literal : ∀ c ∈ (Value.floatLayout.render x).toList, c ∈ literalChars :=
    fun c => mem_literalChars_render
  rw [readNumeral?, plain_of_literal literal, dropUnderscores?_of_literal literal,
    Option.bind_some]
  rcases float_cases x with rfl | ⟨negative, rfl⟩ | ⟨negative, bits, finite, rfl⟩
  · rw [Layout.render, view_nan]
    rfl
  · rw [Layout.render, view_infinity]
    cases negative <;> rfl
  · exact readPlain?_finite negative finite

/-- Different doubles have different texts. -/
theorem render_injective : Function.Injective Value.floatLayout.render := by
  intro x y same
  exact Option.some.inj (by rw [← readNumeral?_render x, same, readNumeral?_render])

end ReadBack

end ClenshawCode.Decimal
