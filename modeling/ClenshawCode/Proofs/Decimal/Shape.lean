import ClenshawCode.Proofs.Decimal.ReadBack

/-!
# The two forms of a written double

But for its sign, a finite double is written in one of two forms: digits on both sides of a point,
or a digit, maybe a point and more digits, and an exponent of two digits or more. There are no zeros
in front of the digits, except for a single one before a point. Readers that do not take every
numeral take these.

## Main definitions

* `Digits`: a text of digits
* `fractionChars`: the places behind a point, or nothing
* `IsMagnitude`: the two forms
-/

namespace ClenshawCode.Decimal

open Binary64 Text

/-- A text of digits. -/
def Digits (cs : List Char) : Prop := ∀ c ∈ cs, c.isDigit = true

theorem Digits.append {cs ds : List Char} (left : Digits cs) (right : Digits ds) :
    Digits (cs ++ ds) := fun c member => (List.mem_append.mp member).elim (left c) (right c)

theorem digits_natChars (n : ℕ) : Digits (natChars n) := fun _ => isDigit_of_mem_natChars

theorem digits_zeros (k : ℕ) : Digits (List.replicate k '0') := fun _ => isDigit_of_mem_zeros

theorem digits_padZeros (width n : ℕ) : Digits (padZeros width (natChars n)) :=
  (digits_zeros _).append (digits_natChars n)

theorem le_length_padZeros (width : ℕ) (cs : List Char) : width ≤ (padZeros width cs).length := by
  rw [padZeros, List.length_append, List.length_replicate]
  omega

/-- The places behind a point, with the point if there are any. -/
def fractionChars (fs : List Char) : List Char := if fs = [] then [] else '.' :: fs

/-- The forms in which a finite double is written, but for its sign. -/
inductive IsMagnitude (pointBeforeExponent : Bool) : List Char → Prop
  /-- Digits, a point and digits. -/
  | positional (ws fs : List Char) (whole : Digits ws) (some : ws ≠ [])
      (leading : ws = ['0'] ∨ '0' ∉ ws.head?) (places : Digits fs) (more : fs ≠ []) :
      IsMagnitude pointBeforeExponent (ws ++ '.' :: fs)
  /-- A digit, maybe a point and more digits, and an exponent with a sign. -/
  | scientific (c : Char) (fs : List Char) (sign : Char) (power : List Char)
      (first : c.isDigit = true) (leading : c ≠ '0') (places : Digits fs)
      (point : pointBeforeExponent = true → fs ≠ []) (signed : sign = '-' ∨ sign = '+')
      (digits : Digits power) (two : 2 ≤ power.length) :
      IsMagnitude pointBeforeExponent (c :: (fractionChars fs ++ 'e' :: sign :: power))

/-- A written double begins with a digit. -/
theorem IsMagnitude.exists_digit {pointBeforeExponent : Bool} {cs : List Char}
    (form : IsMagnitude pointBeforeExponent cs) :
    ∃ c rest, c.isDigit = true ∧ cs = c :: rest := by
  cases form with
  | positional ws fs whole some =>
    obtain ⟨c, rest, rfl⟩ := List.exists_cons_of_ne_nil some
    exact ⟨c, _, whole c List.mem_cons_self, rfl⟩
  | scientific c fs sign power first => exact ⟨c, _, first, rfl⟩

/-- A written double has none but the characters of literals. -/
theorem IsMagnitude.mem_literalChars {pointBeforeExponent : Bool} {cs : List Char}
    (form : IsMagnitude pointBeforeExponent cs) : ∀ c ∈ cs, c ∈ literalChars := by
  have digit (ds : List Char) (run : Digits ds) : ∀ c ∈ ds, c ∈ literalChars :=
    fun c member => mem_literalChars_of_isDigit (run c member)
  have point : '.' ∈ literalChars := by decide
  have mark : 'e' ∈ literalChars := by decide
  cases form with
  | positional ws fs whole some leading places =>
    intro c member
    rcases List.mem_append.mp member with inWhole | inRest
    · exact digit ws whole c inWhole
    · rcases List.mem_cons.mp inRest with rfl | inPlaces
      · exact point
      · exact digit fs places c inPlaces
  | scientific first fs sign power leadingDigit leading places some signed digits =>
    have fraction : ∀ c ∈ fractionChars fs, c ∈ literalChars := by
      rw [fractionChars]
      split
      · simp
      · simpa [point] using digit fs places
    have known : sign ∈ literalChars := by
      rcases signed with rfl | rfl <;> decide
    intro c member
    rcases List.mem_cons.mp member with rfl | member
    · exact mem_literalChars_of_isDigit leadingDigit
    rcases List.mem_append.mp member with inFraction | member
    · exact fraction c inFraction
    rcases List.mem_cons.mp member with rfl | member
    · exact mark
    rcases List.mem_cons.mp member with rfl | inPower
    · exact known
    · exact digit power digits c inPower

/-- The digits of a positive number do not begin with a zero. -/
theorem head_natChars {n : ℕ} (positive : 0 < n) : '0' ∉ (natChars n).head? := by
  have some : Nat.digits 10 n ≠ [] := Nat.digits_ne_nil_iff_ne_zero.mpr positive.ne'
  have last := Nat.getLast_digit_ne_zero 10 positive.ne'
  have small : (Nat.digits 10 n).getLast some < 10 :=
    Nat.digits_lt_base (by norm_num) (List.getLast_mem some)
  rw [natChars, if_neg positive.ne', digitsReversed_eq_digits, List.head?_map, List.head?_reverse,
    List.getLast?_eq_some_getLast some]
  rintro same
  have number := toNat_digitChar ((Nat.digits 10 n).getLast some)
  rw [Option.mem_some_iff.mp same, Nat.mod_eq_of_lt small] at number
  have zero : '0'.toNat = 48 := rfl
  omega

theorem isMagnitude_positional (pointBeforeExponent : Bool) {d : Decimal}
    (positive : 0 < d.digits) : IsMagnitude pointBeforeExponent d.positional := by
  have digits := digits_natChars d.digits
  have nonempty := natChars_ne_nil d.digits
  have leading := d.leadingExponent_eq
  have head := head_natChars positive
  obtain ⟨first, rest, form⟩ := List.exists_cons_of_ne_nil nonempty
  rw [form] at head
  rw [positional]
  split
  · -- Zeros fill up to the point, and one more follows it.
    refine .positional (natChars d.digits ++ List.replicate d.exponent.toNat '0') ['0']
      (digits.append (digits_zeros _)) (List.append_ne_nil_of_left_ne_nil nonempty _) (.inr ?_)
      (digits_zeros 1) (List.cons_ne_nil _ _)
    rw [form]
    exact head
  · split
    · -- The point stands among the digits.
      obtain ⟨k, cut⟩ : ∃ k, (d.leadingExponent + 1).toNat = k + 1 :=
        ⟨d.leadingExponent.toNat, by omega⟩
      refine .positional _ _ (fun c member => digits c (List.mem_of_mem_take member)) ?_ (.inr ?_)
        (fun c member => digits c (List.mem_of_mem_drop member)) ?_
      · rw [cut, form]
        exact List.cons_ne_nil _ _
      · rw [cut, form]
        exact head
      · rw [Ne, List.drop_eq_nil_iff]
        omega
    · -- Nothing but a zero stands in front of the point.
      refine .positional ['0'] (_ ++ natChars d.digits) (digits_zeros 1) (List.cons_ne_nil _ _)
        (.inl rfl) ((digits_zeros _).append digits) (List.append_ne_nil_of_right_ne_nil _ nonempty)

theorem isMagnitude_scientific (pointBeforeExponent : Bool) {d : Decimal}
    (positive : 0 < d.digits) :
    IsMagnitude pointBeforeExponent (d.scientific pointBeforeExponent) := by
  have digits := digits_natChars d.digits
  have head := head_natChars positive
  let sign := if d.leadingExponent < 0 then '-' else '+'
  have signed : sign = '-' ∨ sign = '+' := by
    by_cases negative : d.leadingExponent < 0
    · exact .inl (if_pos negative)
    · exact .inr (if_neg negative)
  let power := padZeros 2 (natChars d.leadingExponent.natAbs)
  have two : 2 ≤ power.length := le_length_padZeros 2 _
  obtain ⟨c, rest, form⟩ := List.exists_cons_of_ne_nil (natChars_ne_nil d.digits)
  rw [form] at digits head
  have built (fs : List Char) (places : Digits fs) (point : pointBeforeExponent = true → fs ≠ []) :=
    IsMagnitude.scientific c fs sign power (digits c List.mem_cons_self)
      (fun same => head (same ▸ rfl)) places point signed (digits_padZeros _ _) two
  rw [scientific, form]
  -- A single digit has no places, unless a point is asked for.
  cases rest with
  | nil =>
    cases pointBeforeExponent with
    | false => exact built [] (fun c member => absurd member List.not_mem_nil) (by simp)
    | true => exact built ['0'] (digits_zeros 1) (by simp)
  | cons next rest =>
    exact built (next :: rest) (fun c member => digits c (.tail _ member)) (by simp)

/-- A finite double is written in one of the two forms. -/
theorem isMagnitude_magnitudeChars (pointBeforeExponent : Bool) (bits : ℕ) :
    IsMagnitude pointBeforeExponent (magnitudeChars pointBeforeExponent bits) := by
  rw [magnitudeChars]
  split
  · exact .positional ['0'] ['0'] (digits_zeros 1) (List.cons_ne_nil _ _) (.inl rfl)
      (digits_zeros 1) (List.cons_ne_nil _ _)
  · rename_i some
    -- Without digits the decimal would read back as zero.
    have positive : 0 < (shortest (ofMagnitudeBits bits).1 (ofMagnitudeBits bits).2).digits := by
      refine Nat.pos_of_ne_zero fun zero => some ?_
      have same := magnitudeBits_shortest (ofMagnitudeBits bits).1 (ofMagnitudeBits bits).2
      rw [magnitudeBits_ofMagnitudeBits, Decimal.magnitudeBits, num, zero, Nat.zero_mul,
        Binary64.magnitudeBits, if_pos rfl] at same
      rw [← same]
      rfl
    rw [written]
    split
    · exact isMagnitude_positional pointBeforeExponent positive
    · exact isMagnitude_scientific pointBeforeExponent positive

end ClenshawCode.Decimal
