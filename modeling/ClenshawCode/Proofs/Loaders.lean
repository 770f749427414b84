import ClenshawCode.Demo
import ClenshawCode.Proofs.Yaml.FromJson

/-!
# Both loaders read a saved text alike

A file that is not named as JSON is read as YAML. A saved expansion in JSON is a document in YAML,
too: it holds the same table, in which some of the numbers are texts. As all that is to be a number
is converted when the table is read as an expansion, the same description and the same doubles come
back under any name.

## Main definitions

* `Expansion.HasContents`: the description and the doubles of an expansion

## Main results

* `Expansion.loaders_agree`: the two readers and the demonstration on a saved text
-/

namespace ClenshawCode.Expansion

open Value

/-- The description of an expansion and the doubles that it holds, every bit of them; what is no
number may have any origin. -/
structure HasContents (e : Expansion) (description : String) (lower upper : Float)
    (xs : List Float) : Prop where
  description : e.description = .text description
  low : Stores e.xMin lower
  high : Stores e.xMax upper
  coeffs : List.Forall₂ Stores e.coeffs xs

variable {description : String}

/-- The coefficients of a saved expansion in JSON as YAML has them, and what they are converted to.
-/
theorem exists_means_coeffs (xs : List Float) :
    ∃ vs, List.Forall₂ Yaml.Means
        ((xs.map Json.floatLayout.render).map Yaml.Reading.plainNode) vs ∧
      doubles vs = .ok (xs.map .float) := by
  induction xs with
  | nil => exact ⟨[], .nil, rfl⟩
  | cons x xs ih =>
    obtain ⟨v, means, converted⟩ := Yaml.exists_means_plainNode x
    obtain ⟨vs, others, all⟩ := ih
    refine ⟨v :: vs, .cons means others, ?_⟩
    rw [doubles, converted, all]
    rfl

/-- The graph of a saved expansion in JSON. -/
theorem graph_savedText_json (single : ∀ c ∈ description.toList, c.toNat < 0x10000)
    (lower upper : Float) (xs : List Float) :
    Yaml.graph (Json.savedText description lower upper xs).toList =
      .ok (some 0, Yaml.savedGraph description
        (Yaml.Reading.plainNode (Json.floatLayout.render lower))
        (Yaml.Reading.plainNode (Json.floatLayout.render upper))
        ((xs.map Json.floatLayout.render).map Yaml.Reading.plainNode)) := by
  have allowed : (Json.savedText description lower upper xs).toList.all Yaml.isAllowed = true := by
    rw [List.all_eq_true]
    intro c member
    obtain ⟨least, most⟩ := Json.printable_savedText description lower upper xs c member
    simp [Yaml.isAllowed, least, most]
  rw [Yaml.graph, if_pos allowed, Yaml.tokens_savedText single]
  exact Yaml.ofTokens_flowTokens ..

/-- A saved expansion in JSON is read as one in YAML. -/
theorem exists_ofYaml_json (single : ∀ c ∈ description.toList, c.toNat < 0x10000)
    (lower upper : Float) (xs : List Float) :
    ∃ cells, ofYaml (Json.savedText description lower upper xs) =
      .ok { coeffs := xs.map .float, xMin := .float lower, xMax := .float upper,
            description := .text description, cells } := by
  obtain ⟨low, lowMeans, lowDouble⟩ := Yaml.exists_means_plainNode lower
  obtain ⟨high, highMeans, highDouble⟩ := Yaml.exists_means_plainNode upper
  obtain ⟨vs, means, converted⟩ := exists_means_coeffs xs
  obtain ⟨cells, meaning, table, items⟩ :=
    Yaml.meaning_savedGraph description lowMeans highMeans means
  have read : Yaml.read (Json.savedText description lower upper xs) =
      .ok ⟨.shared .dict 0, cells⟩ := by
    rw [Yaml.read, graph_savedText_json single, except_ok_bind]
    exact meaning
  have coeffs : (cells.resolve (.shared .list 2)).items = .ok vs := by
    rw [Cells.resolve, items]
    rfl
  refine ⟨cells, ?_⟩
  rw [ofYaml, read, except_ok_bind]
  exact ofRecord_of_doubles table rfl rfl rfl rfl coeffs converted lowDouble highDouble

theorem forall₂_float (xs : List Float) : List.Forall₂ Stores (xs.map .float) xs := by
  rw [List.forall₂_map_left_iff, List.forall₂_same]
  exact fun x _ => .float x

/-- An expansion is saved in JSON, and both readers give its description and its doubles back from
the text, if no character of the description has two units. So does the demonstration, whatever the
file is called that holds the text. -/
theorem loaders_agree (e : Expansion) (description : String) (lower upper : Float)
    (xs : List Float) (textual : e.description = .text description)
    (single : ∀ c ∈ description.toList, c.toNat < 0x10000)
    (low : e.xMin.toFloat = .ok lower) (high : e.xMax.toFloat = .ok upper)
    (coeffs : e.coeffs.mapM Value.toFloat = .ok xs) :
    ∃ text fromJson fromYaml, e.toJson = .ok text ∧ ofJson text = .ok fromJson ∧
      ofYaml text = .ok fromYaml ∧ fromJson.HasContents description lower upper xs ∧
      fromYaml.HasContents description lower upper xs ∧
      ∀ (find? : String → Option String) (path : String) (args : List String),
        find? path = some text → ∃ loaded, Demo.load find? (path :: args) = .ok loaded ∧
          loaded.HasContents description lower upper xs := by
  let text := Json.savedText description lower upper xs
  let fromJson := rereadFrom .json {} description lower upper xs
  obtain ⟨cells, readYaml⟩ := exists_ofYaml_json single lower upper xs
  have saved : e.toJson = .ok text := toJson_eq textual ⟨low, high, coeffs⟩
  have readJson : ofJson text = .ok fromJson := ofJson_savedText ..
  have fromJsonHas : fromJson.HasContents description lower upper xs :=
    ⟨rfl, stores_reread .json lower, stores_reread .json upper, forall₂_reread .json xs⟩
  let fromYaml : Expansion :=
    { coeffs := xs.map .float, xMin := .float lower, xMax := .float upper,
      description := .text description, cells }
  have fromYamlHas : fromYaml.HasContents description lower upper xs :=
    ⟨rfl, .float lower, .float upper, forall₂_float xs⟩
  refine ⟨text, fromJson, fromYaml, saved, readJson, readYaml, fromJsonHas, fromYamlHas,
    fun find? path args found => ?_⟩
  -- The text is a single line, so it is not changed before it is read.
  have kept : String.ofList (Text.unifyLineEnds text.toList) = text := by
    rw [Json.unifyLineEnds_of_printable (Json.printable_savedText description lower upper xs),
      String.ofList_toList]
  have loads : Demo.load find? (path :: args) =
      if ".json".toList.isSuffixOf path.toList then ofJson text else ofYaml text := by
    rw [Demo.load, found]
    exact congrArg (fun text => if ".json".toList.isSuffixOf path.toList then ofJson text
      else ofYaml text) kept
  rw [loads]
  split
  · exact ⟨fromJson, readJson, fromJsonHas⟩
  · exact ⟨fromYaml, readYaml, fromYamlHas⟩

/-- Numbers that are texts in YAML, and a description that would be something else without quotes.
-/
theorem loaders_agree_words :
    ∃ text fromJson fromYaml,
      toJson { quadratic with
        description := .text "\u00E9: [\x22#\x22]"
        coeffs := [.float 1e-7, .nan .json, .float (Binary64.infinity true)] } = .ok text ∧
      ofJson text = .ok fromJson ∧ ofYaml text = .ok fromYaml ∧
      fromJson.HasContents "\u00E9: [\x22#\x22]" (-1) 1
        [1e-7, Binary64.nan, Binary64.infinity true] ∧
      fromYaml.HasContents "\u00E9: [\x22#\x22]" (-1) 1
        [1e-7, Binary64.nan, Binary64.infinity true] := by
  let e : Expansion := { quadratic with
    description := .text "\u00E9: [\x22#\x22]"
    coeffs := [.float 1e-7, .nan .json, .float (Binary64.infinity true)] }
  have single : ∀ c ∈ "\u00E9: [\x22#\x22]".toList, c.toNat < 0x10000 := by simp
  have coeffs : e.coeffs.mapM Value.toFloat =
      .ok [1e-7, Binary64.nan, Binary64.infinity true] := rfl
  obtain ⟨text, fromJson, fromYaml, saved, readJson, readYaml, fromJsonHas, fromYamlHas, -⟩ :=
    loaders_agree e "\u00E9: [\x22#\x22]" (-1) 1 _ rfl single rfl rfl coeffs
  exact ⟨text, fromJson, fromYaml, saved, readJson, readYaml, fromJsonHas, fromYamlHas⟩

end ClenshawCode.Expansion
