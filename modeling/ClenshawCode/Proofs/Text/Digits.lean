import ClenshawCode.Decimal.Numeral
import Mathlib.Data.Nat.Digits.Lemmas

/-!
# Numbers and their digits

A number is written by its decimal digits, so it is read back from them, and a text of digits is
worth what its parts are worth at their places. Different numbers have different texts.
-/

namespace ClenshawCode.Text

/-- The digits of a number, last digit first, are those of the standard library. -/
theorem digitsReversed_eq_digits (n : ℕ) : digitsReversed n = Nat.digits 10 n := by
  induction n using Nat.strongRecOn with
  | ind n ih =>
    -- Both peel off the last digit, so the induction is on a tenth.
    rw [digitsReversed]
    split
    · rename_i zero
      rw [zero, Nat.digits_zero]
    · rename_i nonzero
      rw [ih (n / 10) (by omega), ← Nat.digits_def' (by norm_num) (Nat.pos_of_ne_zero nonzero)]

/-- The value of digits, first digit first. -/
theorem ofDigits_eq (base : ℕ) (digits : List ℕ) :
    ofDigits base digits = Nat.ofDigits base digits.reverse := by
  -- What is worth so far is shifted by every digit that follows.
  have fold (digits : List ℕ) (total : ℕ) :
      digits.foldl (fun total digit => base * total + digit) total =
        total * base ^ digits.length + Nat.ofDigits base digits.reverse := by
    induction digits generalizing total with
    | nil => simp
    | cons digit rest ih =>
      rw [List.foldl_cons, ih, List.reverse_cons, Nat.ofDigits_append, List.length_cons,
        List.length_reverse, Nat.ofDigits_singleton]
      ring
  rw [ofDigits, fold, Nat.zero_mul, Nat.zero_add]

theorem toNat_of_isDigit {c : Char} (digit : c.isDigit = true) :
    48 ≤ c.toNat ∧ c.toNat ≤ 57 := by
  simpa [Char.isDigit, UInt32.le_iff_toNat_le] using digit

theorem toNat_digitChar (n : ℕ) : (digitChar n).toNat = 48 + n % 10 := by
  have small : n % 10 < 10 := Nat.mod_lt _ (by norm_num)
  rw [digitChar]
  generalize n % 10 = k at small
  interval_cases k <;> rfl

theorem isDigit_digitChar (n : ℕ) : (digitChar n).isDigit = true := by
  have small : n % 10 < 10 := Nat.mod_lt _ (by norm_num)
  rw [digitChar]
  generalize n % 10 = k at small
  interval_cases k <;> rfl

/-- A number is written by digits. -/
theorem isDigit_of_mem_natChars {n : ℕ} {c : Char} (member : c ∈ natChars n) :
    c.isDigit = true := by
  rw [natChars] at member
  split at member
  · rw [List.mem_singleton.mp member]
    rfl
  · obtain ⟨digit, -, rfl⟩ := List.mem_map.mp member
    exact isDigit_digitChar digit

theorem natChars_ne_nil (n : ℕ) : natChars n ≠ [] := by
  rw [natChars]
  split
  · exact List.cons_ne_nil _ _
  · rename_i nonzero
    rw [digitsReversed_eq_digits, Ne, List.map_eq_nil_iff, List.reverse_eq_nil_iff,
      Nat.digits_eq_nil_iff_eq_zero]
    exact nonzero

/-- The value of a run of digits from the values of its parts. -/
theorem digitsValue_append (cs ds : List Char) :
    Decimal.digitsValue (cs ++ ds) =
      Decimal.digitsValue cs * 10 ^ ds.length + Decimal.digitsValue ds := by
  simp only [Decimal.digitsValue, ofDigits_eq, List.map_append, List.reverse_append,
    Nat.ofDigits_append, List.length_reverse, List.length_map]
  ring

theorem digitsValue_replicate_zero (n : ℕ) :
    Decimal.digitsValue (List.replicate n '0') = 0 := by
  induction n with
  | zero => rfl
  | succ n ih =>
    rw [List.replicate_succ', digitsValue_append, ih]
    rfl

/-- A number is read back from its digits. -/
theorem digitsValue_natChars (n : ℕ) : Decimal.digitsValue (natChars n) = n := by
  rw [natChars]
  split
  · rename_i zero
    rw [zero]
    rfl
  · have values : ((digitsReversed n).reverse.map digitChar).map (fun c => c.toNat - 48) =
        (Nat.digits 10 n).reverse := by
      rw [digitsReversed_eq_digits, List.map_map]
      refine (List.map_congr_left fun digit member => ?_).trans (List.map_id _)
      have small : digit < 10 := Nat.digits_lt_base (by norm_num) (List.mem_reverse.mp member)
      rw [Function.comp_apply, toNat_digitChar, Nat.mod_eq_of_lt small, Nat.add_sub_cancel_left,
        id]
    rw [Decimal.digitsValue, values, ofDigits_eq, List.reverse_reverse, Nat.ofDigits_digits]

theorem natChars_injective : Function.Injective natChars := by
  intro m n same
  rw [← digitsValue_natChars m, same, digitsValue_natChars]

/-- The number of digits of a positive number. -/
theorem length_natChars {n : ℕ} (positive : 0 < n) :
    (natChars n).length = Decimal.digitCount n := by
  rw [natChars, if_neg positive.ne', List.length_map, List.length_reverse, Decimal.digitCount]

/-- A number has as many digits as its magnitude asks for. -/
theorem digitCount_bounds {n : ℕ} (positive : 0 < n) :
    10 ^ (Decimal.digitCount n - 1) ≤ n ∧ n < 10 ^ Decimal.digitCount n ∧
      0 < Decimal.digitCount n := by
  rw [Decimal.digitCount, digitsReversed_eq_digits]
  have some : 0 < (Nat.digits 10 n).length := by
    rw [List.length_pos_iff, Ne, Nat.digits_eq_nil_iff_eq_zero]
    exact positive.ne'
  refine ⟨?_, Nat.lt_base_pow_length_digits (by norm_num), some⟩
  -- The library bounds the power one place higher by ten times the number.
  have lower := Nat.base_pow_length_digits_le 10 n (by norm_num) positive.ne'
  have split : (Nat.digits 10 n).length = (Nat.digits 10 n).length - 1 + 1 := by omega
  rw [split, pow_succ] at lower
  omega

end ClenshawCode.Text
