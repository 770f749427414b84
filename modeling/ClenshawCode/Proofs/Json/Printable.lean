import ClenshawCode.Proofs.Json.Record

/-!
# A saved expansion in JSON is printable

The text of a saved expansion consists of the printable characters of ASCII alone: numerals and
names do, and in a string every other character is written as an escape. So the text is a single
line, and nothing in it is changed where line ends are unified.

## Main results

* `Json.printable_savedText`: a saved text is printable
* `Json.unifyLineEnds_of_printable`: a printable text has no line ends
-/

namespace ClenshawCode.Json

open Binary64 Decimal

/-- Texts of printable characters of ASCII. -/
def Printable (cs : List Char) : Prop := ∀ c ∈ cs, 0x20 ≤ c.toNat ∧ c.toNat ≤ 0x7E

section Lists

variable {c : Char} {cs ds : List Char}

@[simp] theorem printable_nil : Printable [] := fun _ member => absurd member List.not_mem_nil

@[simp] theorem printable_cons :
    Printable (c :: cs) ↔ (0x20 ≤ c.toNat ∧ c.toNat ≤ 0x7E) ∧ Printable cs :=
  List.forall_mem_cons

@[simp] theorem printable_append : Printable (cs ++ ds) ↔ Printable cs ∧ Printable ds :=
  List.forall_mem_append

theorem printable_flatMap {α : Type} {as : List α} {f : α → List Char}
    (each : ∀ a ∈ as, Printable (f a)) : Printable (as.flatMap f) := by
  intro c member
  obtain ⟨a, inside, member⟩ := List.mem_flatMap.mp member
  exact each a inside c member

/-- Parts are separated by a comma and a space. -/
theorem printable_join {parts : List String} (each : ∀ s ∈ parts, Printable s.toList) :
    Printable (Text.join ", " parts).toList := by
  induction parts with
  | nil => exact printable_nil
  | cons part parts ih =>
    have others := ih fun s member => each s (List.mem_cons_of_mem part member)
    cases parts with
    | nil => exact each part List.mem_cons_self
    | cons next parts =>
      rw [toList_join_cons]
      simpa [each part List.mem_cons_self] using others

end Lists

theorem printable_hexChars (width n : ℕ) : Printable (Text.hexChars width n) := by
  have each : ∀ k < 16, 0x20 ≤ (Text.hexChar k).toNat ∧ (Text.hexChar k).toNat ≤ 0x7E := by decide
  induction width generalizing n with
  | zero => exact printable_nil
  | succ width ih => simp [Text.hexChars, ih, each (n % 16) (Nat.mod_lt n (by norm_num))]

/-- What is written for a character of a string is printable. -/
theorem printable_encodeChar (c : Char) : Printable (encodeChar c) := by
  rw [encodeChar]
  split_ifs with quote backslash feed carriage tab page back plain
  iterate 7 simp
  · simpa using plain
  · exact printable_flatMap fun n _ => by simp [unitEscape, printable_hexChars]

theorem printable_quoted (s : String) : Printable (quoted s).toList := by
  rw [quoted, String.toList_ofList, encode]
  simp [printable_flatMap fun c _ => printable_encodeChar c]

/-- What is written for a double is printable. -/
theorem printable_render (x : Float) : Printable (floatLayout.render x).toList := by
  have known : Printable literalChars := List.all_iff_forall_prop.mp (by decide)
  rcases float_cases x with rfl | ⟨negative, rfl⟩ | ⟨negative, bits, finite, rfl⟩
  · rw [Layout.render, view_nan]
    exact List.all_iff_forall_prop.mp (by decide)
  · rw [Layout.render, view_infinity]
    cases negative <;> exact List.all_iff_forall_prop.mp (by decide)
  · rw [render_ofSignedBits _ _ finite, String.toList_ofList]
    exact fun c member => known c
      (mem_literalChars_signed (isMagnitude_magnitudeChars _ bits).mem_literalChars member)

/-- The text of a saved expansion is printable. -/
theorem printable_savedText (description : String) (lower upper : Float) (xs : List Float) :
    Printable (savedText description lower upper xs).toList := by
  have marks : Printable ": ".toList ∧ Printable "[".toList ∧ Printable "]".toList ∧
      Printable "\x7b".toList ∧ Printable "\x7d".toList := by
    simp
  obtain ⟨colon, opening, closing, begins, ends⟩ := marks
  have numbers : Printable (Text.join ", " (xs.map floatLayout.render)).toList :=
    printable_join fun s member => by
      obtain ⟨x, -, rfl⟩ := List.mem_map.mp member
      exact printable_render x
  have entries := @printable_join
    [quoted "coeffs" ++ ": " ++ ("[" ++ Text.join ", " (xs.map floatLayout.render) ++ "]"),
      quoted "description" ++ ": " ++ quoted description,
      quoted "x_max" ++ ": " ++ floatLayout.render upper,
      quoted "x_min" ++ ": " ++ floatLayout.render lower] (by
    simp only [List.forall_mem_cons, String.toList_append, printable_append, printable_quoted,
      printable_render, numbers, colon, opening, closing, and_self, true_and]
    exact fun _ member => absurd member List.not_mem_nil)
  rw [savedText, recordText, String.toList_append, String.toList_append]
  exact printable_append.mpr ⟨printable_append.mpr ⟨begins, entries⟩, ends⟩

/-- A printable text has no line ends to be unified. -/
theorem unifyLineEnds_of_printable {cs : List Char} (printable : Printable cs) :
    Text.unifyLineEnds cs = cs := by
  induction cs with
  | nil => rfl
  | cons c rest ih =>
    obtain ⟨⟨control, -⟩, others⟩ := printable_cons.mp printable
    have other : c ≠ '\r' := by
      rintro rfl
      exact absurd control (by decide)
    rw [Text.unifyLineEnds, if_neg other, ih others]
    exact fun _ same => absurd same other

end ClenshawCode.Json
