import ClenshawCode.Expansion.Samples
import ClenshawCode.Proofs.Yaml.Meaning
import ClenshawCode.Record

/-!
# An expansion in YAML reads back

The document of a saved expansion is determined by its description and by the doubles that it holds.
Whatever style its description is written in, it is read as that same text, also if without quotes
it would be a number, a date or the beginning of a list. So the expansion that comes back has the
same description and holds the same doubles, every bit of them.

## Main results

* `yaml_round_trip`: a saved expansion is read back
-/

namespace ClenshawCode.Expansion

open Value

variable {e : Expansion} {description : String} {lower upper : Float} {xs : List Float}

/-- The document of an expansion depends only on its description and on the doubles that it holds.
-/
theorem toYaml_eq (textual : e.description = .text description)
    (holds : e.HoldsDoubles lower upper xs) :
    e.toYaml = .ok (Yaml.savedText description lower upper xs) := by
  obtain ⟨low, high, ws, lowIs, highIs, are, record⟩ := exists_toRecord holds
  rw [toYaml, record, except_ok_bind, textual, Yaml.write_saved lowIs highIs are]

/-- The document is read as an expansion that holds the same doubles. -/
theorem exists_ofYaml_savedText (description : String) (lower upper : Float) (xs : List Float) :
    ∃ cells, ofYaml (Yaml.savedText description lower upper xs) =
      .ok (rereadFrom .yaml cells description lower upper xs) := by
  obtain ⟨plain, tag, graph⟩ := Yaml.graph_savedText description lower upper xs
  have means :
      List.Forall₂ Yaml.Means (xs.map Yaml.Reading.numberNode) (xs.map (reread .yaml)) := by
    rw [List.forall₂_map_left_iff, List.forall₂_map_right_iff, List.forall₂_same]
    exact fun x _ => Yaml.means_numberNode x
  obtain ⟨cells, meaning, table, items⟩ := Yaml.meaning_savedGraph description
    (Yaml.means_numberNode lower) (Yaml.means_numberNode upper) means
  have read : Yaml.read (Yaml.savedText description lower upper xs) =
      .ok ⟨.shared .dict 0, cells⟩ := by
    rw [Yaml.read, graph, Yaml.ofTokens_savedTokens tag, except_ok_bind]
    exact meaning
  have coeffs : (cells.resolve (.shared .list 2)).items = .ok (xs.map (reread .yaml)) := by
    rw [Cells.resolve, items]
    rfl
  refine ⟨cells, ?_⟩
  rw [ofYaml, read, except_ok_bind]
  exact ofRecord_savedEntries table coeffs (forall₂_reread .yaml xs) (stores_reread .yaml lower)
    (stores_reread .yaml upper)

/-- An expansion that can be saved in YAML is read back with the same description and with the same
doubles in their places, where one that is no number becomes the reader's own. It is saved as the
same document again. -/
theorem yaml_round_trip (e : Expansion) (description : String) (lower upper : Float)
    (xs : List Float) (textual : e.description = .text description)
    (low : e.xMin.toFloat = .ok lower) (high : e.xMax.toFloat = .ok upper)
    (coeffs : e.coeffs.mapM Value.toFloat = .ok xs) :
    ∃ text loaded, e.toYaml = .ok text ∧ ofYaml text = .ok loaded ∧
      loaded.description = .text description ∧ loaded.coeffs = xs.map (reread .yaml) ∧
      loaded.xMin = reread .yaml lower ∧ loaded.xMax = reread .yaml upper ∧
      loaded.toYaml = .ok text := by
  have holds : e.HoldsDoubles lower upper xs := ⟨low, high, coeffs⟩
  obtain ⟨cells, read⟩ := exists_ofYaml_savedText description lower upper xs
  exact ⟨_, rereadFrom .yaml cells description lower upper xs, toYaml_eq textual holds, read, rfl,
    rfl, rfl, rfl, toYaml_eq rfl (holdsDoubles_rereadFrom ..)⟩

/-- A description that is spelled like a date is read back as a text. -/
theorem yaml_round_trip_date :
    ∃ text loaded, { quadratic with description := .text "2020-01-01" }.toYaml = .ok text ∧
      ofYaml text = .ok loaded ∧ loaded.description = .text "2020-01-01" ∧
      loaded.coeffs = [.float 2, .float 0, .float (-1)] := by
  obtain ⟨text, loaded, saved, read, description, coeffs, -⟩ :=
    yaml_round_trip { quadratic with description := .text "2020-01-01" } "2020-01-01" (-1) 1
      [2, 0, -1] rfl rfl rfl rfl
  have numbers : Binary64.isNaN 2 = false ∧ Binary64.isNaN 0 = false ∧
      Binary64.isNaN (-1) = false := by decide +kernel
  obtain ⟨two, zero, minus⟩ := numbers
  refine ⟨text, loaded, saved, read, description, ?_⟩
  rw [coeffs, List.map_cons, List.map_cons, List.map_cons, List.map_nil, reread_of_number two,
    reread_of_number zero, reread_of_number minus]

end ClenshawCode.Expansion
