import ClenshawCode.Proofs.Expansion.Doubles
import ClenshawCode.Proofs.Program.Loaded
import ClenshawCode.Proofs.Yaml.Record

/-!
# Programs of expansions that were saved and read back

Whatever way an expansion is saved, what is read back is the expansion with doubles in place of its
numbers. A program shows its numbers as doubles anyway, so all lines stay as they are but for the
one with the reference value. That one stays as well unless both bounds are integers and one of them
changes when it is rounded. In that case the interval can even become empty.

## Main definitions

* `Language.ReferenceDiffers`: programs that differ at most in the reference value
* `Expansion.betweenIntegers`: expansions of two terms between integers

## Main results

* `reload_keeps_programs`: what becomes of the programs of an expansion that is saved and read back
-/

namespace ClenshawCode

open Text Value Binary64

theorem Value.Fits.isNaN_nearest {v : Value} (fits : v.Fits) : isNaN v.nearest = false := by
  obtain ⟨negative, bits, small, same, -⟩ := fits.exists_bits
  rw [same, isNaN_ofSignedBits negative small]

namespace Expansion

variable {e : Expansion} {description : String}

section Routes

theorem Accepted.holdsDoubles (accepted : e.Accepted) :
    e.HoldsDoubles e.xMin.nearest e.xMax.nearest (e.coeffs.map Value.nearest) where
  low := accepted.low.toFloat_eq
  high := accepted.high.toFloat_eq
  coeffs := mapM_eq_ok fun c member => (accepted.coeffs c member).toFloat_eq

/-- The values of the doubles of an accepted expansion are those doubles. -/
theorem Accepted.coeffs_of_stores (accepted : e.Accepted) {ws : List Value}
    (are : List.Forall₂ Stores ws (e.coeffs.map Value.nearest)) :
    ws = e.coeffs.map Value.asDouble := by
  obtain ⟨-, coeffs, -, -, -⟩ := accepted
  generalize e.coeffs = cs at coeffs are ⊢
  induction cs generalizing ws with
  | nil =>
    cases are
    rfl
  | cons c rest ih =>
    rw [List.map_cons] at are
    cases are with
    | cons is others =>
      have fits := coeffs c List.mem_cons_self
      rw [is.eq_float fits.isNaN_nearest, ih (fun c member =>
        coeffs c (List.mem_cons_of_mem _ member)) others]
      rfl

/-- What is read back from a text has doubles in place of the numbers. -/
theorem Accepted.rereadFrom_eq (accepted : e.Accepted) (textual : e.description = .text description)
    (origin : Origin) (cells : Cells) :
    rereadFrom origin cells description e.xMin.nearest e.xMax.nearest
      (e.coeffs.map Value.nearest) = e.asDoubles cells := by
  have coeffs := accepted.coeffs_of_stores (forall₂_reread origin (e.coeffs.map Value.nearest))
  rw [rereadFrom, asDoubles, coeffs, reread_of_number accepted.low.isNaN_nearest,
    reread_of_number accepted.high.isNaN_nearest, textual]
  rfl

/-- Whatever way an accepted expansion is saved, it is read back with doubles in place of its
numbers. -/
theorem throughRoute_eq (accepted : e.Accepted) (textual : e.description = .text description)
    (route : Route) : ∃ cells, e.throughRoute route = .ok (e.asDoubles cells) := by
  have holds := accepted.holdsDoubles
  cases route with
  | record =>
    obtain ⟨low, high, ws, lowIs, highIs, are, record⟩ := exists_toRecord holds
    refine ⟨e.cells, ?_⟩
    rw [throughRoute, record, except_ok_bind,
      ofRecord_of_fields rfl rfl rfl rfl rfl rfl are lowIs highIs, accepted.coeffs_of_stores are,
      lowIs.eq_float accepted.low.isNaN_nearest, highIs.eq_float accepted.high.isNaN_nearest]
    rfl
  | json =>
    refine ⟨{}, ?_⟩
    rw [throughRoute, toJson_eq textual holds, except_ok_bind, ofJson_savedText,
      accepted.rereadFrom_eq textual]
  | yaml =>
    obtain ⟨cells, read⟩ := exists_ofYaml_savedText description e.xMin.nearest e.xMax.nearest
      (e.coeffs.map Value.nearest)
    refine ⟨cells, ?_⟩
    rw [throughRoute, toYaml_eq textual holds, except_ok_bind, read,
      accepted.rereadFrom_eq textual]

end Routes

section Bounds

/-- Bounds that are added and subtracted alike as doubles are not rounded to one number, unless they
coincide. -/
theorem Accepted.exact_ne (accepted : e.Accepted) (keeps : KeepsIntegers e.xMin e.xMax)
    (apart : ¬ e.BoundsCoincide) :
    Binary64.exact e.xMin.nearest ≠ Binary64.exact e.xMax.nearest := by
  intro same
  have alike : e.xMin.isInteger = e.xMax.isInteger := by
    by_contra other
    exact apart ⟨other, same⟩
  have kept : e.xMin.IsKept ∧ e.xMax.IsKept := by
    cases integer : e.xMin.isInteger with
    | true => exact keeps integer (alike ▸ integer)
    | false => exact ⟨accepted.low.isKept integer, accepted.high.isKept (alike ▸ integer)⟩
  -- So the bounds are equal as they stand, but the lower one is below the upper one.
  obtain ⟨p, exact, -⟩ := accepted.low.exists_exact
  have exact' : e.xMax.exactly? = some (.finite p) := by
    rw [kept.2, ← same, ← kept.1, exact]
  have below := accepted.ordered
  rw [isBelow, exact, exact'] at below
  exact lt_irrefl p (of_decide_eq_true below)

end Bounds

end Expansion

namespace Language

variable {e : Expansion} {description : String} {reference reference' : Value}

/-- Programs of a language that differ at most in the reference value. -/
def ReferenceDiffers (l : Language) (reference reference' : Value) (text text' : String) : Prop :=
  match l.template? with
  | none => text = text'
  | some f => ∃ k, DifferOn k text text' (f.reference.fill (l.referenceLiteral reference))
      (f.reference.fill (l.referenceLiteral reference'))

/-- Apart from the reference value a program shows doubles only. -/
theorem programLines_asDoubles (l : Language) (cells : Cells) :
    l.programLines (e.asDoubles cells) description reference =
      l.programLines e description reference := by
  have count : (e.asDoubles cells).numCoeffs = e.numCoeffs := List.length_map _
  have comment : Comment.coefficientText (e.asDoubles cells) description =
      Comment.coefficientText e description := by
    rw [Comment.coefficientText, count]
    rfl
  cases known : l.template? with
  | some f =>
    have shown : (e.asDoubles cells).coeffs.map Value.shortest = e.coeffs.map Value.shortest :=
      List.map_map
    rw [programLines_of_template? known, programLines_of_template? known, LoopParts.written,
      LoopParts.written, comment, count, shown]
    rfl
  | none =>
    have shown : (e.asDoubles cells).coeffs.map (Shader.fixedLiteral Shader.defaultPlaces) =
        e.coeffs.map (Shader.fixedLiteral Shader.defaultPlaces) := List.map_map
    simp only [programLines, known]
    rw [Shader.written, Shader.written, comment, shown]
    rfl

/-- With doubles in place of its numbers and with another reference value, a renderable expansion
has programs that differ at most in the reference value. -/
theorem referenceDiffers_asDoubles (l : Language) {cells : Cells}
    (renderable : e.Renderable description reference)
    (renderable' : (e.asDoubles cells).Renderable description reference') :
    l.ReferenceDiffers reference reference' (join "\n" (l.programLines e description reference))
      (join "\n" (l.programLines (e.asDoubles cells) description reference')) := by
  have found := lines_programLines l renderable
  have found' := lines_programLines l renderable'
  rw [programLines_asDoubles] at found' ⊢
  rw [ReferenceDiffers]
  split
  · rename_i known
    simp only [programLines, known]
  · rename_i f known
    obtain ⟨k, varies⟩ := variesAt_reference l known e description
    refine ⟨k, ?_⟩
    rw [DifferOn, found, found']
    exact varies.differAt reference reference'

/-- In a language with loops another text of the reference value makes another program. -/
theorem ReferenceDiffers.ne {l : Language} {f : LoopTemplate} (known : l.template? = some f)
    {text text' : String} (differs : l.ReferenceDiffers reference reference' text text')
    (other : l.referenceLiteral reference ≠ l.referenceLiteral reference') : text ≠ text' := by
  rintro rfl
  rw [ReferenceDiffers, known] at differs
  obtain ⟨k, -, line, line'⟩ := differs
  -- On the line of the reference value each text is read back from its hole.
  have filled := congrArg f.reference.content? (Option.some.inj (line.symm.trans line'))
  rw [Slot.content?_fill, Slot.content?_fill] at filled
  exact other (Option.some.inj filled)

/-- So it is with doubles in place of the numbers. -/
theorem generate_asDoubles_ne {l : Language} {f : LoopTemplate} (known : l.template? = some f)
    {cells : Cells} (renderable : e.Renderable description reference)
    (renderable' : (e.asDoubles cells).Renderable description reference')
    (other : l.referenceLiteral reference ≠ l.referenceLiteral reference') :
    (generate l (e.asDoubles cells)).result ≠ (generate l e).result := by
  rw [generate_eq l renderable, generate_eq l renderable']
  intro same
  exact (referenceDiffers_asDoubles l renderable renderable').ne known other
    (Except.ok.inj same).symm

end Language

/-- Saving and reading back. Let an expansion without a reference of its own be accepted, described
by a text and rendered in all languages. Whatever way it is saved, something is read back.
If at most one bound is an integer, or both are doubles as well, this is accepted again, and all
programs are the same. Otherwise, if the doubles nearest to the bounds are two numbers, it is
accepted again, and the programs differ at most in the reference value; and if they are one number,
it is not accepted, because the interval has become empty. -/
theorem reload_keeps_programs (e : Expansion) (description : String) (valid : e.validate = .ok ())
    (textual : e.description = .text description) (bare : e.reference = none)
    (rendered : ∀ l, ∃ text, (generate l e).result = .ok text) (route : Expansion.Route) :
    ∃ loaded, e.throughRoute route = .ok loaded ∧
      (KeepsIntegers e.xMin e.xMax →
        loaded.validate = .ok () ∧ ∀ l, (generate l loaded).result = (generate l e).result) ∧
      (Binary64.exact e.xMin.nearest ≠ Binary64.exact e.xMax.nearest →
        loaded.validate = .ok () ∧ ∃ reference reference', e.midpointValue = .ok reference ∧
          loaded.midpointValue = .ok reference' ∧ ∀ l, ∃ text text',
            (generate l e).result = .ok text ∧ (generate l loaded).result = .ok text' ∧
              l.ReferenceDiffers reference reference' text text') ∧
      (Binary64.exact e.xMin.nearest = Binary64.exact e.xMax.nearest →
        loaded.validate = .error (.invalid (.domain e.xMin.asDouble e.xMax.asDouble))) := by
  have accepted := Expansion.accepted_of_validate valid
  have apart : ¬ e.BoundsCoincide := by
    intro coincide
    obtain ⟨text, returned⟩ := rendered .c
    rw [generate_of_boundsCoincide (l := .c) rfl valid bare coincide] at returned
    cases returned
  obtain ⟨x, middle⟩ := (e.midpointValue_eq valid bare).2 apart
  have renderable : e.Renderable description (.float x) := ⟨valid, textual, middle, trivial⟩
  obtain ⟨cells, read⟩ := Expansion.throughRoute_eq accepted textual route
  have checked := Expansion.validate_asDoubles valid cells
  -- What is read back can be rendered unless its interval is empty.
  have renders (other : Binary64.exact e.xMin.nearest ≠ Binary64.exact e.xMax.nearest) :
      ∃ y, (e.asDoubles cells).Renderable description (.float y) := by
    have valid' : (e.asDoubles cells).validate = .ok () := checked.trans (if_neg other)
    have apart' : ¬ (e.asDoubles cells).BoundsCoincide := fun coincide => coincide.1 rfl
    obtain ⟨y, middle'⟩ := ((e.asDoubles cells).midpointValue_eq valid' rfl).2 apart'
    exact ⟨y, valid', textual, middle', trivial⟩
  refine ⟨e.asDoubles cells, read, fun keeps => ?_, fun other => ?_, fun same => ?_⟩
  · have other := accepted.exact_ne keeps apart
    obtain ⟨y, renderable'⟩ := renders other
    have values := Expansion.midpointValue_asDoubles valid bare keeps other cells
    rw [middle, renderable'.midpoint] at values
    refine ⟨renderable'.valid, fun l => ?_⟩
    rw [Language.generate_eq l renderable', Language.generate_eq l renderable,
      Language.programLines_asDoubles, Except.ok.inj values]
  · obtain ⟨y, renderable'⟩ := renders other
    exact ⟨renderable'.valid, _, _, middle, renderable'.midpoint, fun l =>
      ⟨_, _, Language.generate_eq l renderable, Language.generate_eq l renderable',
        Language.referenceDiffers_asDoubles l renderable renderable'⟩⟩
  · exact checked.trans (if_pos same)

/-- Saving and reading back an expansion whose bounds are small integers, in YAML. -/
theorem reload_keeps_programs_integers :
    ∃ e loaded : Expansion, e.xMin = .int (-1) ∧ e.xMax = .int 1 ∧ e.validate = .ok () ∧
      e.description = .text "x" ∧ e.reference = none ∧
      (∀ l, ∃ text, (generate l e).result = .ok text) ∧ KeepsIntegers e.xMin e.xMax ∧
      e.throughRoute .yaml = .ok loaded ∧ loaded.validate = .ok () ∧
      ∀ l, (generate l loaded).result = (generate l e).result := by
  let e : Expansion :=
    { coeffs := [.int 2, .bool true], xMin := .int (-1), xMax := .int 1, description := .text "x" }
  have valid : e.validate = .ok () := eq_ok_of_isOk (by decide +kernel)
  have textual : e.description = .text "x" := rfl
  have apart : ¬ e.BoundsCoincide := fun coincide => coincide.1 rfl
  have rendered := exists_generate valid textual rfl apart
  have keeps : KeepsIntegers e.xMin e.xMax :=
    fun _ _ => ⟨by unfold IsKept; decide +kernel, by unfold IsKept; decide +kernel⟩
  obtain ⟨loaded, read, kept, -⟩ := reload_keeps_programs e "x" valid textual rfl rendered .yaml
  obtain ⟨valid', same⟩ := kept keeps
  exact ⟨e, loaded, rfl, rfl, valid, textual, rfl, rendered, keeps, read, valid', same⟩

/-- Two terms between two integers. -/
def Expansion.betweenIntegers (low high : ℤ) : Expansion where
  coeffs := [.float 1, .float 1]
  xMin := .int low
  xMax := .int high
  description := .text "x"

/-- Integers that are no doubles. Two neighbours are rounded to one double, so whatever way the
expansion is saved, it is not accepted when it is read back. The doubles of two others are further
apart than they are, so what is read back has another reference value in its program. -/
theorem reload_betweenIntegers :
    (∃ e, e = Expansion.betweenIntegers 9007199254740992 9007199254740993 ∧ e.validate = .ok () ∧
      (∀ l, ∃ text, (generate l e).result = .ok text) ∧
      ∀ route, ∃ loaded, e.throughRoute route = .ok loaded ∧
        loaded.validate = .error (.invalid (.domain loaded.xMin loaded.xMax))) ∧
    ∃ e, e = Expansion.betweenIntegers 9007199254740993 9007199254740995 ∧ e.validate = .ok () ∧
      (∀ l, ∃ text, (generate l e).result = .ok text) ∧
      ∀ route, ∃ loaded, e.throughRoute route = .ok loaded ∧ loaded.validate = .ok () ∧
        (generate .c loaded).result ≠ (generate .c e).result := by
  constructor
  · let e := Expansion.betweenIntegers 9007199254740992 9007199254740993
    have valid : e.validate = .ok () := eq_ok_of_isOk (by decide +kernel)
    have textual : e.description = .text "x" := rfl
    have apart : ¬ e.BoundsCoincide := fun coincide => coincide.1 rfl
    have same : Binary64.exact e.xMin.nearest = Binary64.exact e.xMax.nearest := by decide +kernel
    refine ⟨e, rfl, valid, exists_generate valid textual rfl apart, fun route => ?_⟩
    obtain ⟨cells, read⟩ :=
      Expansion.throughRoute_eq (Expansion.accepted_of_validate valid) textual route
    exact ⟨_, read, (Expansion.validate_asDoubles valid cells).trans (if_pos same)⟩
  · let e := Expansion.betweenIntegers 9007199254740993 9007199254740995
    have valid : e.validate = .ok () := eq_ok_of_isOk (by decide +kernel)
    have textual : e.description = .text "x" := rfl
    have apart : ¬ e.BoundsCoincide := fun coincide => coincide.1 rfl
    have other : Binary64.exact e.xMin.nearest ≠ Binary64.exact e.xMax.nearest := by decide +kernel
    refine ⟨e, rfl, valid, exists_generate valid textual rfl apart, fun route => ?_⟩
    obtain ⟨cells, read⟩ :=
      Expansion.throughRoute_eq (Expansion.accepted_of_validate valid) textual route
    have valid' : (e.asDoubles cells).validate = .ok () :=
      (Expansion.validate_asDoubles valid cells).trans (if_neg other)
    obtain ⟨x, middle⟩ := (e.midpointValue_eq valid rfl).2 apart
    obtain ⟨y, middle'⟩ :=
      ((e.asDoubles cells).midpointValue_eq valid' rfl).2 fun coincide => coincide.1 rfl
    -- The reference value is computed from the numbers, whatever the cells may hold.
    have shown : e.midpointValue.toOption.map Language.c.referenceLiteral = some "1.5" := by
      decide +kernel
    have shown' : (e.asDoubles cells).midpointValue.toOption.map Language.c.referenceLiteral =
        some "0.5" := by
      change (e.asDoubles {}).midpointValue.toOption.map _ = _
      decide +kernel
    have differ :
        Language.c.referenceLiteral (.float x) ≠ Language.c.referenceLiteral (.float y) := by
      intro same
      rw [middle] at shown
      rw [middle'] at shown'
      exact absurd (shown.symm.trans ((congrArg some same).trans shown')) (by decide)
    exact ⟨_, read, valid', Language.generate_asDoubles_ne (l := .c) rfl
      ⟨valid, textual, middle, trivial⟩ ⟨valid', textual, middle', trivial⟩ differ⟩

end ClenshawCode
