import ClenshawCode.Json.Reader
import ClenshawCode.Proofs.Results
import ClenshawCode.Proofs.Text.Hexadecimal

/-!
# A string in JSON reads back

Each character of a string is written on its own, so reading takes off what was written for the
first one and goes on with the others. It gives units, of which a character beyond the first 65536
has two; no character has a unit that is half of a pair on its own, and so the units are joined to
the characters again.
-/

namespace ClenshawCode.Json

section Units

/-- The numbers of characters leave out the halves of pairs. -/
theorem toNat_valid (c : Char) : c.toNat < 0xD800 ∨ 0xDFFF < c.toNat ∧ c.toNat < 0x110000 :=
  c.valid

/-- A character is no half of a pair. -/
theorem not_half (c : Char) : isHighHalf c.toNat = false ∧ isLowHalf c.toNat = false := by
  have valid := toNat_valid c
  rw [isHighHalf, isLowHalf]
  simp only [Bool.and_eq_false_iff, decide_eq_false_iff_not]
  omega

/-- The units of one character are joined to it, whatever follows. -/
theorem joinUnits_units (c : Char) (behind : List ℕ) :
    joinUnits (units c ++ behind) = c :: joinUnits behind := by
  have valid := toNat_valid c
  rw [units]
  split
  · -- One unit: it is no half, so nothing that follows is joined to it.
    obtain ⟨high, low⟩ := not_half c
    have kept : unitChar c.toNat = c := by
      rw [unitChar, high, low]
      exact Char.ofNat_toNat c
    rw [List.singleton_append]
    cases behind with
    | nil => simp only [joinUnits, kept]
    | cons next rest =>
      rw [joinUnits, high, Bool.false_and, if_neg Bool.false_ne_true, kept]
  · -- Two units: a high and a low half, from which the number is put together.
    have pair : isHighHalf (0xD800 + (c.toNat - 0x10000) / 0x400) = true ∧
        isLowHalf (0xDC00 + (c.toNat - 0x10000) % 0x400) = true := by
      rw [isHighHalf, isLowHalf]
      simp only [Bool.and_eq_true, decide_eq_true_eq]
      omega
    have number : 0x10000 + (0xD800 + (c.toNat - 0x10000) / 0x400 - 0xD800) * 0x400 +
        (0xDC00 + (c.toNat - 0x10000) % 0x400 - 0xDC00) = c.toNat := by
      omega
    rw [List.cons_append, List.singleton_append, joinUnits, pair.1, pair.2, number,
      Char.ofNat_toNat]
    rfl

theorem joinUnits_flatMap_units (cs : List Char) : joinUnits (cs.flatMap units) = cs := by
  induction cs with
  | nil => rfl
  | cons c rest ih => rw [List.flatMap_cons, joinUnits_units, ih]

end Units

section Escapes

variable {start : ℕ} {behind left : List Char} {us : List ℕ}

/-- A text in which a string ends is not empty. -/
theorem ne_nil_of_stringUnits (read : stringUnits start behind = .ok (us, left)) : behind ≠ [] := by
  rintro rfl
  cases read

/-- A unit that is written by its number is read back. -/
theorem stringUnits_unitEscape {n : ℕ} (small : n < 0x10000)
    (read : stringUnits start behind = .ok (us, left)) :
    stringUnits start (unitEscape n ++ behind) = .ok (n :: us, left) := by
  have more : behind.isEmpty = false := List.isEmpty_eq_false_iff.mpr (ne_nil_of_stringUnits read)
  obtain ⟨digits, known, -, value⟩ := Text.mapM_hexValue?_hexChars 4 n
  have value : Text.ofDigits 16 digits = n := value.trans (Nat.mod_eq_of_lt small)
  -- The reader takes four characters, so the four digits are given names.
  have quad (a b c d : Char) (form : Text.hexChars 4 n = [a, b, c, d]) :
      stringUnits start (unitEscape n ++ behind) = .ok (n :: us, left) := by
    have number : quad? a b c d = some n := by
      rw [quad?, ← form, known, Option.map_some, value]
    rw [unitEscape, form]
    simp only [List.cons_append, List.nil_append]
    rw [stringUnits, number]
    simp only [more, read]
    rfl
  exact quad _ _ _ _ rfl

/-- A character that a letter behind a backslash stands for. -/
theorem stringUnits_letter {letter c : Char} (known : escapedChar? letter = some c)
    (read : stringUnits start behind = .ok (us, left)) :
    stringUnits start ('\\' :: letter :: behind) = .ok (c.toNat :: us, left) := by
  have other : letter ≠ 'u' := by
    rintro rfl
    cases known
  rw [stringUnits]
  · rw [known]
    simp only [read]
    rfl
  · exact other

/-- A character that stands for itself. -/
theorem stringUnits_plain {c : Char} (quote : c ≠ '\x22') (backslash : c ≠ '\\')
    (printable : 0x20 ≤ c.toNat) (read : stringUnits start behind = .ok (us, left)) :
    stringUnits start (c :: behind) = .ok (c.toNat :: us, left) := by
  rw [stringUnits]
  · rw [if_neg quote, if_neg (by omega), read]
    rfl
  · exact fun same => absurd same backslash
  · exact fun rest same => absurd same backslash
  · exact fun letter rest same => absurd same backslash

theorem units_of_lt {c : Char} (small : c.toNat < 0x10000) : units c = [c.toNat] := if_pos small

/-- What is written for a character is read as its units. -/
theorem stringUnits_encodeChar (c : Char) (read : stringUnits start behind = .ok (us, left)) :
    stringUnits start (encodeChar c ++ behind) = .ok (units c ++ us, left) := by
  have letter (mark plain : Char) (known : escapedChar? mark = some plain) (same : c = plain)
      (small : c.toNat < 0x10000) :
      stringUnits start (['\\', mark] ++ behind) = .ok (units c ++ us, left) := by
    rw [units_of_lt small, same]
    exact stringUnits_letter known read
  have numbered (n : ℕ) (same : c.toNat = n) : c = Char.ofNat n := by
    rw [← same, Char.ofNat_toNat]
  rw [encodeChar]
  split_ifs with quote backslash feed carriage tab page back printable
  · exact letter _ _ rfl quote (by rw [quote]; decide)
  · exact letter _ _ rfl backslash (by rw [backslash]; decide)
  · exact letter _ _ rfl feed (by rw [feed]; decide)
  · exact letter _ _ rfl carriage (by rw [carriage]; decide)
  · exact letter _ _ rfl tab (by rw [tab]; decide)
  · exact letter _ _ rfl (numbered _ page) (by omega)
  · exact letter _ _ rfl (numbered _ back) (by omega)
  · simp only [Bool.and_eq_true, decide_eq_true_eq] at printable
    rw [units_of_lt (by omega)]
    exact stringUnits_plain quote backslash printable.1 read
  · -- Every other character is written by the numbers of its units.
    have valid := toNat_valid c
    rw [units]
    split
    · rename_i small
      rw [List.flatMap_singleton]
      exact stringUnits_unitEscape small read
    · simp only [List.flatMap_cons, List.flatMap_nil, List.append_nil, List.append_assoc]
      exact stringUnits_unitEscape (by omega) (stringUnits_unitEscape (by omega) read)

end Escapes

theorem stringUnits_encode (start : ℕ) (cs behind : List Char) :
    stringUnits start (cs.flatMap encodeChar ++ '\x22' :: behind) =
      .ok (cs.flatMap units, behind) := by
  induction cs with
  | nil => simp [stringUnits]
  | cons c rest ih =>
    rw [List.flatMap_cons, List.append_assoc]
    exact stringUnits_encodeChar c ih

/-- A text between quotes is read back, whatever follows it. -/
theorem stringBody_encode (cs behind : List Char) :
    stringBody (cs.flatMap encodeChar ++ '\x22' :: behind) = .ok (String.ofList cs, behind) := by
  rw [stringBody, stringUnits_encode, except_ok_bind]
  dsimp only
  rw [joinUnits_flatMap_units, except_pure]

end ClenshawCode.Json
