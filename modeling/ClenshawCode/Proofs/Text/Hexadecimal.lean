import ClenshawCode.Text.Numeral
import Mathlib.Data.Nat.Basic
import Mathlib.Tactic.IntervalCases
import Mathlib.Tactic.Ring

/-!
# Hexadecimal digits

A number is written with a fixed number of hexadecimal digits, the higher ones cut off, and reading
the digits gives what is left of it.
-/

namespace ClenshawCode.Text

theorem hexValue?_hexChar {n : ℕ} (small : n < 16) : hexValue? (hexChar n) = some n := by
  interval_cases n <;> rfl

theorem ofDigits_concat (base : ℕ) (digits : List ℕ) (digit : ℕ) :
    ofDigits base (digits ++ [digit]) = base * ofDigits base digits + digit := by
  rw [ofDigits, List.foldl_append]
  rfl

theorem length_hexChars (width n : ℕ) : (hexChars width n).length = width := by
  induction width generalizing n with
  | zero => rfl
  | succ width ih => rw [hexChars, List.length_append, ih, List.length_singleton]

/-- Hexadecimal digits are read back, as far as the number fits into them. -/
theorem mapM_hexValue?_hexChars (width n : ℕ) :
    ∃ digits, (hexChars width n).mapM hexValue? = some digits ∧ digits.length = width ∧
      ofDigits 16 digits = n % 16 ^ width := by
  induction width generalizing n with
  | zero => exact ⟨[], rfl, rfl, (Nat.mod_one n).symm⟩
  | succ width ih =>
    -- The last digit is written last, so the induction takes it off at the end.
    obtain ⟨digits, read, size, value⟩ := ih (n / 16)
    refine ⟨digits ++ [n % 16], ?_, by rw [List.length_append, size]; rfl, ?_⟩
    · rw [hexChars, List.mapM_append, read, List.mapM_cons,
        hexValue?_hexChar (Nat.mod_lt n (by norm_num))]
      rfl
    · rw [ofDigits_concat, value, pow_succ', Nat.mod_mul]
      ring

/-- The case of hexadecimal digits does not count. -/
theorem mapM_hexValue?_toUpper (width n : ℕ) :
    ((hexChars width n).map Char.toUpper).mapM hexValue? = (hexChars width n).mapM hexValue? := by
  have each (k : ℕ) (small : k < 16) :
      hexValue? (hexChar k).toUpper = hexValue? (hexChar k) := by
    interval_cases k <;> rfl
  induction width generalizing n with
  | zero => rfl
  | succ width ih =>
    rw [hexChars, List.map_append, List.mapM_append, List.mapM_append, ih, List.map_singleton,
      List.mapM_cons, List.mapM_cons, each _ (Nat.mod_lt n (by norm_num))]

end ClenshawCode.Text
