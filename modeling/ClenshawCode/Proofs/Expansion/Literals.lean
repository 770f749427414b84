import ClenshawCode.Literal
import ClenshawCode.Proofs.Decimal.ReadBack
import ClenshawCode.Proofs.Expansion.Acceptance

/-!
# Literals of accepted numbers

A number within single precision is written without failing under each of the three rules. The
number of places that a shader takes is read back from its text, and the one thing that can go wrong
there is that it is too large. A double is written even when it is not finite.

## Main definitions

* `Value.IsDouble`: the values that are doubles
* `Value.shortest`: the shortest decimal of a number
* `Literal.script`: the literal of the scripting target
-/

namespace ClenshawCode

/-- The values that are doubles. -/
def Value.IsDouble : Value → Prop
  | .float _ => True
  | .nan _ => True
  | _ => False

theorem Value.IsDouble.toFloat_eq {v : Value} (double : v.IsDouble) :
    v.toFloat = .ok v.nearest := by
  cases v with
  | float x => rfl
  | nan _ => rfl
  | _ => exact double.elim

theorem Value.IsDouble.isFinite_eq {v : Value} (double : v.IsDouble) :
    ∃ finite, v.isFinite = .ok finite := by
  cases v with
  | float x => exact ⟨_, rfl⟩
  | nan _ => exact ⟨_, rfl⟩
  | _ => exact double.elim

/-- The shortest decimal of a number. -/
def Value.shortest (v : Value) : String := Value.floatLayout.render v.nearest

namespace Literal

open Text

/-- A literal of the scripting target, from the text of a double and whether it is finite. -/
def script (finite : Bool) (literal : String) : String :=
  if finite then literal else "float('" ++ literal ++ "')"

section Shortest

variable {v : Value}

theorem fullPrecision_eq (rounded : v.toFloat = .ok v.nearest) :
    fullPrecision v = .ok v.shortest := by
  rw [fullPrecision, rounded]
  rfl

theorem scriptFloat_eq {finite : Bool} (rounded : v.toFloat = .ok v.nearest)
    (tested : v.isFinite = .ok finite) :
    scriptFloat v = .ok (script finite v.shortest) := by
  rw [scriptFloat, fullPrecision_eq rounded, tested]
  rfl

end Shortest

section Places

/-- An ASCII digit stands for what it says. -/
theorem digitValue?_of_isDigit {c : Char} (digit : c.isDigit = true) :
    digitValue? c = some (c.toNat - 48) := by
  have bounds := toNat_of_isDigit digit
  have first : (decide (48 ≤ c.toNat) && decide (c.toNat < 48 + 10)) = true := by
    simp only [Bool.and_eq_true, decide_eq_true_eq]
    omega
  -- The ASCII digits are the first of the blocks of digits.
  have found : digitZeros.find? (fun first => first ≤ c.toNat && c.toNat < first + 10) = some 48 :=
    List.find?_cons_of_pos first
  rw [digitValue?, found]
  rfl

/-- A count of places is read back from its text, and refused if it is too large. -/
theorem placesOf_natText (places : ℕ) :
    placesOf (natText places) =
      if 2 ^ 63 ≤ places then .error .precisionDigits
      else if 2 ^ 31 ≤ places then .error .precisionTooBig
      else .ok places := by
  have values : (natChars places).map digitValue? =
      (natChars places).map fun c => some (c.toNat - 48) :=
    List.map_congr_left fun c member => digitValue?_of_isDigit (isDigit_of_mem_natChars member)
  -- Reading stops at the first character that is no digit, and there is none.
  have digits : ((natChars places).map digitValue?).takeWhile Option.isSome =
      (natChars places).map fun c => some (c.toNat - 48) := by
    rw [values, List.takeWhile_eq_self_iff]
    simp
  have number : ofDigits 10 (((natChars places).map fun c => some (c.toNat - 48)).filterMap id) =
      places := by
    rw [List.filterMap_map]
    exact (congrArg (ofDigits 10) (by simp)).trans (digitsValue_natChars places)
  have nonempty : ((natChars places).map fun c => some (c.toNat - 48)).isEmpty = false := by
    simpa using natChars_ne_nil places
  rw [placesOf, natText, String.toList_ofList]
  simp only [digits, number, nonempty, List.length_map, lt_irrefl, if_false, Nat.pow_eq,
    Bool.false_eq_true]

/-- A count that is read as one is short enough to be written. -/
theorem lt_pow_maxDigits {places : ℕ} (few : places < 2 ^ 63) : places < 10 ^ maxDigits :=
  calc places < 2 ^ 63 := few
    _ ≤ 10 ^ 63 := Nat.pow_le_pow_left (by norm_num) 63
    _ ≤ 10 ^ maxDigits := Nat.pow_le_pow_right (by norm_num) (by decide)

/-- A count of places has a text unless it has too many digits. -/
theorem asText_natCast (places : ℕ) :
    (Value.int places).asText =
      if 10 ^ maxDigits ≤ places then .error .tooManyWritten else .ok (natText places) := by
  have text : (Value.int places).plainText = natText places := by
    simp [Value.plainText, Value.shown, intText]
  have writable : isWritable places = decide (places < 10 ^ maxDigits) := by
    rw [isWritable, Int.natAbs_natCast, Nat.pow_eq]
  rw [Value.asText, Value.textLevels, Value.hindrance?, writable, text]
  · by_cases long : 10 ^ maxDigits ≤ places
    · rw [if_pos long, if_neg (by simpa using long)]
    · rw [if_neg long, if_pos (by simpa using long)]
  · intro s same
    cases same
  · intro place m same
    cases same

/-- A number that has a double is written with any count of places that can be read, and the count
decides alone how that fails. -/
theorem fixedSingle_of_toFloat {v : Value} (rounded : v.toFloat = .ok v.nearest) (places : ℕ) :
    fixedSingle v (.int places) =
      if 10 ^ maxDigits ≤ places then .error .tooManyWritten
      else if 2 ^ 63 ≤ places then .error .precisionDigits
      else if 2 ^ 31 ≤ places then .error .precisionTooBig
      else .ok (String.ofList (Decimal.fixed v.nearest places ++ ['f'])) := by
  rw [fixedSingle, rounded, except_ok_bind, asText_natCast]
  by_cases long : 10 ^ maxDigits ≤ places
  · rw [if_pos long, if_pos long]
    rfl
  · rw [if_neg long, if_neg long, except_ok_bind, placesOf_natText]
    split_ifs <;> rfl

/-- A number with a double is written with any count of places below `2 ^ 31`. -/
theorem fixedSingle_of_few {v : Value} (rounded : v.toFloat = .ok v.nearest) {places : ℕ}
    (few : places < 2 ^ 31) :
    fixedSingle v (.int places) =
      .ok (String.ofList (Decimal.fixed v.nearest places ++ ['f'])) := by
  have short : places < 10 ^ maxDigits := lt_pow_maxDigits (few.trans (by norm_num))
  rw [fixedSingle_of_toFloat rounded, if_neg short.not_ge, if_neg (by omega), if_neg (by omega)]

/-- A number within single precision is written with any count of places below `2 ^ 31`. -/
theorem fixedSingle_eq {v : Value} {places : ℕ} (fits : v.Fits) (few : places < 2 ^ 31) :
    fixedSingle v (.int places) =
      .ok (String.ofList (Decimal.fixed v.nearest places ++ ['f'])) :=
  fixedSingle_of_few fits.toFloat_eq few

/-- No literal has more places. -/
theorem fixedSingle_of_many {v : Value} {places : ℕ} (rounded : v.toFloat = .ok v.nearest)
    (many : 2 ^ 31 ≤ places) :
    fixedSingle v (.int places) = .error (if 10 ^ maxDigits ≤ places then .tooManyWritten
      else if 2 ^ 63 ≤ places then .precisionDigits else .precisionTooBig) := by
  rw [fixedSingle_of_toFloat rounded, if_pos many]
  split_ifs <;> rfl

end Places

end Literal

end ClenshawCode
