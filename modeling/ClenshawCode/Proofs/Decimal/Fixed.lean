import ClenshawCode.Proofs.Decimal.Shape

/-!
# Numerals with a fixed number of places

A finite double with a fixed number of places is a sign, digits, and a point with that many digits
behind it unless the number is zero. So it reads as a decimal.
-/

namespace ClenshawCode.Decimal

open Text

section Fixed

/-- The digits before the point, without zeros in front but for a single one, and those behind it
as many as there are places. -/
theorem withPoint_eq (places n : ℕ) : ∃ whole fraction : List Char,
    whole ≠ [] ∧ (∀ c ∈ whole, c.isDigit = true) ∧ (∀ c ∈ fraction, c.isDigit = true) ∧
      fraction.length = places ∧ digitsValue (whole ++ fraction) = n ∧
      (withPoint places n = whole ++ if places = 0 then [] else '.' :: fraction) ∧
      (whole = ['0'] ∨ '0' ∉ whole.head?) := by
  let digits := padZeros (places + 1) (natChars n)
  have long : places + 1 ≤ digits.length := le_length_padZeros _ _
  refine ⟨digits.take (digits.length - places), digits.drop (digits.length - places), ?_,
    fun c member => digits_padZeros _ _ c (List.mem_of_mem_take member),
    fun c member => digits_padZeros _ _ c (List.mem_of_mem_drop member), ?_, ?_, ?_, ?_⟩
  · rw [Ne, List.take_eq_nil_iff, ← List.length_eq_zero_iff]
    omega
  · rw [List.length_drop]
    omega
  · rw [List.take_append_drop]
    change digitsValue (List.replicate _ '0' ++ natChars n) = n
    rw [digitsValue_append, digitsValue_replicate_zero, digitsValue_natChars, Nat.zero_mul,
      Nat.zero_add]
  · -- Without places there is no point.
    rw [withPoint]
    split
    · rename_i none
      have all : digits.length - places = digits.length := by omega
      rw [all, List.take_length, List.append_nil]
    · rfl
  · obtain ⟨count, known⟩ : ∃ count, digits.length - places = count + 1 :=
      ⟨digits.length - places - 1, by omega⟩
    rw [known]
    by_cases filled : places + 1 ≤ (natChars n).length
    · -- The number has digits enough, and begins with a zero only if it is zero.
      have plain : digits = natChars n := by
        simp only [digits, padZeros, Nat.sub_eq_zero_of_le filled, List.replicate_zero,
          List.nil_append]
      rw [plain]
      rcases Nat.eq_zero_or_pos n with rfl | positive
      · left
        simp [natChars]
      · right
        rw [List.head?_take, if_neg (Nat.succ_ne_zero count)]
        exact head_natChars positive
    · -- The number is filled up with zeros to one digit before the point.
      left
      have width : digits.length = places + 1 := by
        simp only [digits, padZeros, List.length_append, List.length_replicate]
        omega
      obtain ⟨zeros, zero⟩ : ∃ zeros, places + 1 - (natChars n).length = zeros + 1 :=
        ⟨places - (natChars n).length, by omega⟩
      have single : count = 0 := by omega
      simp only [digits, padZeros, zero, single, List.replicate_succ, List.cons_append,
        Nat.zero_add, List.take_succ_cons, List.take_zero]

/-- Digits with a point before the last of them begin with a digit, go on with digits and points,
and read as the number in units of the last place. -/
theorem unsigned?_withPoint (places n : ℕ) : ∃ (c : Char) (rest : List Char) (d : Decimal),
    withPoint places n = c :: rest ∧ unsigned? (c :: rest) = some d ∧ c.isDigit = true ∧
      (∀ a ∈ rest, a.isDigit = true ∨ a = '.') ∧ d.value = n / 10 ^ places := by
  obtain ⟨whole, fraction, nonempty, digits, places', length, worth, written, -⟩ :=
    withPoint_eq places n
  obtain ⟨c, whole, rfl⟩ := List.exists_cons_of_ne_nil nonempty
  have first : c.isDigit = true := digits c List.mem_cons_self
  have others : ∀ a ∈ whole, a.isDigit = true := fun a member =>
    digits a (List.mem_cons_of_mem c member)
  -- Without places no point is read.
  split at written
  · rename_i none
    have empty : fraction = [] := List.eq_nil_of_length_eq_zero (length.trans none)
    have read := unsigned?_whole (c :: whole) [] nonempty digits endsDigits_nil rfl
    rw [List.append_nil] at read written
    refine ⟨c, whole, _, written, read, first, fun a member => .inl (others a member), ?_⟩
    rw [empty, List.append_nil] at worth
    rw [value, worth, none]
    simp
  · refine ⟨c, whole ++ '.' :: fraction, _, written,
      unsigned?_places (c :: whole) fraction nonempty digits places', first, ?_, ?_⟩
    · intro a member
      rcases List.mem_append.mp member with before | after
      · exact .inl (others a before)
      · exact (List.mem_cons.mp after).symm.imp_left (places' a)
    · rw [value, worth, length, zpow_neg, zpow_natCast, div_eq_mul_inv]

/-- A finite double with a fixed number of places is a sign and a numeral, which begins with a
digit and goes on with digits and points. -/
theorem fixed_eq {x : Float} (finite : Binary64.isFinite x = true) (places : ℕ) :
    ∃ (negative : Bool) (c : Char) (rest : List Char) (d : Decimal),
      fixed x places = signed negative (c :: rest) ∧ unsigned? (c :: rest) = some d ∧
        c.isDigit = true ∧ ∀ a ∈ rest, a.isDigit = true ∨ a = '.' := by
  obtain ⟨negative, bits, small, rfl⟩ := Binary64.exists_ofSignedBits finite
  rw [fixed, Binary64.view_ofSignedBits negative small]
  dsimp only
  obtain ⟨c, rest, d, written, read, first, others, -⟩ := unsigned?_withPoint places
    (writtenUnits (Binary64.ofMagnitudeBits bits).1 (Binary64.ofMagnitudeBits bits).2 places)
  rw [written]
  exact ⟨negative, c, rest, d, rfl, read, first, others⟩

end Fixed

end ClenshawCode.Decimal
