import ClenshawCode.Proofs.Json.Printable
import ClenshawCode.Proofs.Text.Lines
import ClenshawCode.Proofs.Yaml.Flow
import ClenshawCode.Proofs.Yaml.FlowNodes
import ClenshawCode.Proofs.Yaml.Meaning

/-!
# A saved expansion in JSON read as YAML

A list or table in JSON is one in flow context, and a string is a scalar between double quotes. Both
formats have the same escapes, as long as a character has a single unit: a pair of units stands for
two characters in YAML. Numbers are words without quotes. A numeral with a point is a double in
YAML, too; one without a point, and the words for what is not finite, are texts there, which are
converted to the same doubles later.

## Main results

* `Yaml.reads_encode`: a string in JSON is read as the same text
* `Yaml.tokens_savedText`: the tokens of a saved expansion in JSON
* `Yaml.exists_means_plainNode`: what a number means
-/

namespace ClenshawCode.Yaml

open Binary64 Decimal

section Strings

variable {c : Char} {cs content tail : List Char}

/-- What is written for a character in JSON is read as the character if it has a single unit. -/
theorem reads_encodeChar (single : c.toNat < 0x10000)
    (more : Quoted.Reads '\x22' cs content tail) (solid : Quoted.Solid cs) :
    Quoted.Reads '\x22' (Json.encodeChar c ++ cs) (c :: content) tail ∧
      Quoted.Solid (Json.encodeChar c ++ cs) := by
  have letter (mark : Char) (known : Quoted.letters.lookup mark = some c) :
      Quoted.Reads '\x22' (['\\', mark] ++ cs) (c :: content) tail ∧
        Quoted.Solid (['\\', mark] ++ cs) := by
    have found : Quoted.escape (mark :: cs) = .ok ([c], cs) := by
      rw [Quoted.escape]
      simp only [known]
    exact ⟨more.escape found (Nat.le_succ _), Quoted.solid_of_isGap rfl _⟩
  have numbered (n : ℕ) (same : c.toNat = n) : c = Char.ofNat n := by
    rw [← same, Char.ofNat_toNat]
  rw [Json.encodeChar]
  by_cases quote : c = '\x22'
  · rw [if_pos quote]
    exact letter _ (by rw [quote]; rfl)
  rw [if_neg quote]
  by_cases backslash : c = '\\'
  · rw [if_pos backslash]
    exact letter _ (by rw [backslash]; rfl)
  rw [if_neg backslash]
  split_ifs with feed carriage tab page back plain
  · exact letter _ (by rw [feed]; rfl)
  · exact letter _ (by rw [carriage]; rfl)
  · exact letter _ (by rw [tab]; rfl)
  · exact letter _ (by rw [numbered _ page]; rfl)
  · exact letter _ (by rw [numbered _ back]; rfl)
  · -- A printable character is itself, but a space counts only in front of something else.
    rw [List.singleton_append]
    by_cases space : c = ' '
    · subst space
      exact ⟨more.space (.inr rfl) solid, solid.space⟩
    · have simple : Style.isSimple c = true := by
        simpa [Style.isSimple, Char.le_def, UInt32.le_iff_toNat_le] using plain
      have other := isGap_of_isSimple simple space
      exact ⟨more.char other quote fun same => absurd same backslash,
        Quoted.solid_of_isGap other _⟩
  · -- The digits of the number are the same in both formats.
    rw [Json.units_of_lt single, List.flatMap_singleton, Json.unitEscape]
    obtain ⟨digits, read, all, value⟩ := Text.mapM_hexValue?_hexChars 4 c.toNat
    have size := Text.length_hexChars 4 c.toNat
    have found : Quoted.escape ('u' :: (Text.hexChars 4 c.toNat ++ cs)) = .ok ([c], cs) :=
      Quoted.escape_digits (by rfl) (by rw [size]; rfl) read (all.trans size.symm)
        (value.trans (Nat.mod_eq_of_lt single))
    exact ⟨more.escape found (by simp; omega), Quoted.solid_of_isGap rfl _⟩

/-- A string in JSON is read as the same text. -/
theorem reads_encode (single : ∀ c ∈ cs, c.toNat < 0x10000)
    (apart : startsWith (· == '\x27') tail = false) :
    Quoted.Reads '\x22' (cs.flatMap Json.encodeChar ++ '\x22' :: tail) cs tail := by
  -- The induction carries along that no blanks are lost in front of a line end.
  have both : Quoted.Reads '\x22' (cs.flatMap Json.encodeChar ++ '\x22' :: tail) cs tail ∧
      Quoted.Solid (cs.flatMap Json.encodeChar ++ '\x22' :: tail) := by
    induction cs with
    | nil => exact ⟨Quoted.reads_closing apart, Quoted.solid_of_isGap rfl tail⟩
    | cons c rest ih =>
      obtain ⟨more, solid⟩ := ih fun d member => single d (List.mem_cons_of_mem c member)
      rw [List.flatMap_cons, List.append_assoc]
      exact reads_encodeChar (single c List.mem_cons_self) more solid
  exact both.1

/-- A string in JSON is a part of a list or table. -/
theorem givesPart_encode {flow : ℕ} {keyAllowed : Bool} {s : String}
    (single : ∀ c ∈ s.toList, c.toNat < 0x10000) :
    GivesPart flow keyAllowed (Json.quoted s).toList [.scalar false s] := by
  have gives : GivesPart flow keyAllowed
      ('\x22' :: (s.toList.flatMap Json.encodeChar ++ ['\x22']))
      [.scalar false (String.ofList s.toList)] :=
    givesPart_quoted fun tail apart => reads_encode single apart
  rw [Json.quoted, String.toList_ofList]
  rwa [String.ofList_toList] at gives

end Strings

section Numbers

/-- A number in JSON is a word without quotes. -/
theorem isWord_render (x : Float) : IsWord (Json.floatLayout.render x).toList := by
  have known : ∀ c ∈ literalChars, isGap c = false ∧ c ≠ ':' ∧ c ∉ ",?[]\x7b\x7d".toList :=
    List.all_iff_forall_prop.mp (by decide)
  rcases float_cases x with rfl | ⟨negative, rfl⟩ | ⟨negative, bits, finite, rfl⟩
  · rw [Layout.render, view_nan]
    exact ⟨List.all_iff_forall_prop.mp (by decide), false, 'N', "aN".toList, rfl, by decide⟩
  · rw [Layout.render, view_infinity]
    refine ⟨?_, negative, 'I', "nfinity".toList, ?_, by decide⟩
    · cases negative <;> exact List.all_iff_forall_prop.mp (by decide)
    · cases negative <;> rfl
  · have form := isMagnitude_magnitudeChars Json.floatLayout.pointBeforeExponent bits
    obtain ⟨c, rest, digit, cons⟩ := form.exists_digit
    rw [render_ofSignedBits _ _ finite, String.toList_ofList]
    refine ⟨fun a member => known a (mem_literalChars_signed form.mem_literalChars member),
      negative, c, rest, by rw [cons], ?_⟩
    exact .tail _ (.tail _ (mem_digitChars_of_isDigit digit))

theorem givesPart_render {flow : ℕ} {keyAllowed : Bool} (x : Float) :
    GivesPart (flow + 1) keyAllowed (Json.floatLayout.render x).toList
      [.scalar true (Json.floatLayout.render x)] := by
  have gives : GivesPart (flow + 1) keyAllowed (Json.floatLayout.render x).toList
      [.scalar true (String.ofList (Json.floatLayout.render x).toList)] :=
    givesPart_word (isWord_render x)
  rwa [String.ofList_toList] at gives

/-- A number in JSON is a numeral that stands for the double. -/
theorem readNumeral?_json (x : Float) : readNumeral? (Json.floatLayout.render x) = some x := by
  rcases float_cases x with rfl | ⟨negative, rfl⟩ | ⟨negative, bits, finite, rfl⟩
  · rw [Layout.render, view_nan]
    rfl
  · rw [Layout.render, view_infinity]
    cases negative <;> rfl
  · have literal : ∀ c ∈ signed negative (magnitudeChars Json.floatLayout.pointBeforeExponent bits),
        c ∈ literalChars := fun c member =>
      mem_literalChars_signed (isMagnitude_magnitudeChars _ bits).mem_literalChars member
    obtain ⟨d, read, same⟩ :=
      unsigned?_magnitudeChars Json.floatLayout.pointBeforeExponent negative finite
    rw [render_ofSignedBits _ _ finite, readNumeral?, String.toList_ofList,
      plain_of_literal literal,
      dropUnderscores?_of_literal literal, Option.bind_some, readPlain?_signed read, same]

/-- What a number in JSON means in YAML is converted to the same double. -/
theorem exists_means_plainNode (x : Float) :
    ∃ v, Means (Reading.plainNode (Json.floatLayout.render x)) v ∧ v.toDouble = .ok (.float x) := by
  -- A text is converted like any other numeral.
  have converted : (Value.text (Json.floatLayout.render x)).toDouble = .ok (.float x) := by
    have read : Value.toFloat (.text (Json.floatLayout.render x)) = .ok x := by
      rw [Value.toFloat, readNumeral?_json]
    rw [((Value.text _).toDouble_eq).resolve_right (by simp), read]
    rfl
  have text (spelled : Tag.ofPlain (Json.floatLayout.render x).toList = .text) :
      ∃ v, Means (Reading.plainNode (Json.floatLayout.render x)) v ∧
        v.toDouble = .ok (.float x) := by
    refine ⟨_, ?_, converted⟩
    rw [Reading.plainNode, spelled]
    exact .text _
  rcases float_cases x with rfl | ⟨negative, rfl⟩ | ⟨negative, bits, finite, rfl⟩
  · have word : Tag.ofPlain "NaN".toList = .text := by decide +kernel
    refine text ?_
    rw [Layout.render, view_nan]
    exact word
  · refine text ?_
    rw [Layout.render, view_infinity]
    cases negative <;> decide +kernel
  · have form := isMagnitude_magnitudeChars Json.floatLayout.pointBeforeExponent bits
    have written := render_ofSignedBits Json.floatLayout negative finite
    by_cases pointed : '.' ∈ magnitudeChars Json.floatLayout.pointBeforeExponent bits
    · refine ⟨.float (ofSignedBits negative bits), ?_, rfl⟩
      rw [Reading.plainNode, written, String.toList_ofList, ofPlain_of_point negative form pointed]
      exact .float fun place => readFloat_signed finite place _ negative
    · refine text ?_
      rw [written, String.toList_ofList]
      exact ofPlain_of_noPoint negative form pointed

end Numbers

section Saved

variable {description : String} {lower upper : Float} {xs : List Float}

/-- An entry of the text. -/
theorem givesPart_field (name : String) {value : String} {ts : List Token}
    (known : (Json.quoted name).toList = '\x22' :: (name.toList ++ ['\x22']))
    (isKey : IsKey name.toList) (gives : GivesPart 1 false value.toList ts) :
    GivesPart 1 true (Json.quoted name ++ ": " ++ value).toList (entryTokens name ts) := by
  have entry := givesPart_entry isKey gives
  rw [String.ofList_toList] at entry
  simpa [String.toList_append, known, entryTokens] using entry

/-- The tokens of a saved expansion in JSON. -/
theorem tokens_savedText (single : ∀ c ∈ description.toList, c.toNat < 0x10000)
    (lower upper : Float) (xs : List Float) :
    tokens (Json.savedText description lower upper xs).toList =
      (flowTokens description (Json.floatLayout.render lower) (Json.floatLayout.render upper)
        (xs.map Json.floatLayout.render) ++ [Token.streamEnd], none) := by
  have word (name : String) (all : name.toList.all
      (fun c => isGap c = false ∧ c ≠ '\x22' ∧ c ≠ '\\') = true) :
      ∀ c ∈ name.toList, isGap c = false ∧ c ≠ '\x22' ∧ c ≠ '\\' := List.all_iff_forall_prop.mp all
  have items : GivesPart 1 false
      ("[" ++ Text.join ", " (xs.map Json.floatLayout.render) ++ "]").toList
      (itemTokens (xs.map Json.floatLayout.render)) := by
    have list := @givesPart_brackets 1 false .list (xs.map fun x =>
        ((Json.floatLayout.render x).toList, [Token.scalar true (Json.floatLayout.render x)]))
      (List.forall_mem_map.mpr fun x _ => givesPart_render x)
    have comma : ", ".toList = [',', ' '] := rfl
    simpa [itemTokens, Brackets.opening, Brackets.closing, Brackets.start, Brackets.stop,
      Text.toList_join, comma, String.toList_append, Function.comp_def] using list
  have coeffs := givesPart_field "coeffs" (by rfl) ⟨word _ (by decide), by decide⟩ items
  have text := givesPart_field "description" (by rfl) ⟨word _ (by decide), by decide⟩
    (givesPart_encode single)
  have high := givesPart_field "x_max" (by rfl) ⟨word _ (by decide), by decide⟩
    (givesPart_render upper)
  have low := givesPart_field "x_min" (by rfl) ⟨word _ (by decide), by decide⟩
    (givesPart_render lower)
  have table := @givesPart_brackets 0 true .table
    [(_, entryTokens "coeffs" (itemTokens (xs.map Json.floatLayout.render))),
      (_, entryTokens "description" [.scalar false description]),
      (_, entryTokens "x_max" [.scalar true (Json.floatLayout.render upper)]),
      (_, entryTokens "x_min" [.scalar true (Json.floatLayout.render lower)])]
    (by
      simp only [List.forall_mem_cons]
      exact ⟨coeffs, text, high, low, fun _ none => absurd none List.not_mem_nil⟩)
  have comma : ", ".toList = [',', ' '] := rfl
  have whole : GivesPart 0 true (Json.savedText description lower upper xs).toList
      (flowTokens description (Json.floatLayout.render lower) (Json.floatLayout.render upper)
        (xs.map Json.floatLayout.render)) := by
    simpa [flowTokens, Json.savedText, Json.recordText, Brackets.opening, Brackets.closing,
      Brackets.start, Brackets.stop, Text.toList_join, comma, String.toList_append] using table
  exact tokens_of_givesPart whole

end Saved

end ClenshawCode.Yaml
