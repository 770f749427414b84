import ClenshawCode.Proofs.Expansion.FixedPlaces
import ClenshawCode.Proofs.Program.Generated

/-!
# The bounds in a program

Each program declares the two bounds, a shader twice. What their literals denote are exact decimals.
In a language with loops these are the shortest decimals, so a lower bound that is below the upper
one stays below it. A shader has ten places: there the order of the bounds is never turned, and it
is kept if they are more than a unit of the last place apart. Otherwise both may have one literal,
and the interval of the shader is empty.

## Main definitions

* `Language.boundSlot`: the line that declares a bound
* `Language.literalDecimal?`: the decimal that a literal denotes
* `Language.WritesBounds`: a text that declares two bounds
* `Expansion.narrow`: an expansion on an interval that ten places cannot show
-/

namespace ClenshawCode

open Text Binary64

/-- The line of a shader that declares a bound. -/
def Shader.boundSlot (upper : Bool) : Slot :=
  ⟨if upper then "    const float xMax = " else "    const float xMin = ", ";"⟩

namespace Language

/-- The line that declares a bound. -/
def boundSlot (l : Language) (upper : Bool) : Slot :=
  match l.template? with
  | some f => if upper then f.high else f.low
  | none => Shader.boundSlot upper

/-- How often a bound is declared: a shader repeats it in the snippet that plots the function. -/
def boundCount : Language → ℕ
  | shader => 2
  | _ => 1

/-- The decimal that a literal denotes. -/
def literalDecimal? : Language → String → Option ℚ
  | shader, s => Shader.literalValue? s
  | _, s => Decimal.textValue? s

/-- A text declares two bounds, with literals that denote two decimals. -/
def WritesBounds (l : Language) (text : String) (low high : ℚ) : Prop :=
  ∃ s s', (l.boundSlot false).contents (Text.lines text) = List.replicate l.boundCount (some s) ∧
    (l.boundSlot true).contents (Text.lines text) = List.replicate l.boundCount (some s') ∧
    l.literalDecimal? s = some low ∧ l.literalDecimal? s' = some high

end Language

namespace Shader

variable {comment literals : List String} {xMin xMax : String} {upper : Bool}

section Slots

theorem begins_boundSlot {l : String} (other : l.toList[4]? ≠ some 'c') :
    (boundSlot upper).begins l = false := by
  have mark : (boundSlot upper).before.toList[4]? = some 'c' := by cases upper <;> rfl
  exact Slot.begins_of_column mark other

theorem begins_boundSlot_of_name {l : String} (other : l.toList[16]? ≠ some 'x') :
    (boundSlot upper).begins l = false := by
  have mark : (boundSlot upper).before.toList[16]? = some 'x' := by cases upper <;> rfl
  exact Slot.begins_of_column mark other

/-- The declarations of the two bounds are told apart by the names. -/
theorem contents_bound_pair :
    (boundSlot upper).contents [(boundSlot false).fill xMin, (boundSlot true).fill xMax] =
      [some (if upper then xMax else xMin)] := by
  have lower : (boundSlot true).begins ((boundSlot false).fill xMin) = false :=
    Slot.begins_of_column (by rfl : (boundSlot true).before.toList[18]? = some 'a')
      (by simp [boundSlot])
  have higher : (boundSlot false).begins ((boundSlot true).fill xMax) = false :=
    Slot.begins_of_column (by rfl : (boundSlot false).before.toList[18]? = some 'i')
      (by simp [boundSlot])
  rw [Slot.contents_cons_cons]
  cases upper with
  | false => rw [Slot.contents_fill, Slot.contents_eq_nil (by simpa using higher)]; rfl
  | true => rw [Slot.contents_fill, Slot.contents_eq_nil (by simpa using lower)]; rfl

/-- A bound is declared once in the body behind the comment. -/
theorem contents_bound_bodyBehind :
    (boundSlot upper).contents ((bodyBehind literals xMin xMax).map Line.text) =
      [some (if upper then xMax else xMin)] := by
  have coefficients : (boundSlot upper).contents
      ((coefficientLines 0 literals).map Line.text) = [] := by
    refine Slot.contents_eq_nil fun l member => ?_
    obtain ⟨line, inside, rfl⟩ := List.mem_map.mp member
    obtain ⟨i, literal, -, rfl⟩ := exists_of_mem_coefficientLines inside
    exact begins_boundSlot_of_name (by simp [Line.text, coefficientName])
  have blank : (boundSlot upper).contents [Line.blank.text] = [] :=
    Slot.contents_eq_nil (by simpa using begins_boundSlot (by decide))
  -- The constants that are computed from the bounds have other names.
  have constants : (boundSlot upper).contents
      (((mappingLines xMin xMax).drop 2).map Line.text) = [] := by
    have fixed : (mappingLines xMin xMax).drop 2 = (mappingLines "" "").drop 2 := rfl
    rw [fixed]
    refine Slot.contents_eq_nil fun l member => begins_boundSlot_of_name ?_
    revert l
    exact List.all_iff_forall_prop.mp (by decide)
  have steps : (boundSlot upper).contents
      (((unrolledSteps literals.length).map stepLine).map Line.text) = [] := by
    refine Slot.contents_eq_nil fun l member => begins_boundSlot ?_
    obtain ⟨line, inside, rfl⟩ := List.mem_map.mp member
    obtain ⟨step, -, rfl⟩ := List.mem_map.mp inside
    simp [stepLine, Line.text]
  have result : (boundSlot upper).contents [resultLine.text] = [] :=
    Slot.contents_eq_nil (by
      simpa using begins_boundSlot (by simp [resultLine, Line.text]))
  have mapping : (mappingLines xMin xMax).map Line.text =
      [(boundSlot false).fill xMin, (boundSlot true).fill xMax] ++
        ((mappingLines xMin xMax).drop 2).map Line.text := by
    simp [mappingLines, Line.text, boundSlot, Slot.fill, Expr.text]
  simp only [bodyBehind, List.map_append, List.map_cons, List.map_nil, Slot.contents_append,
    coefficients, blank, mapping, contents_bound_pair, constants, steps, result, List.nil_append,
    List.append_nil]

/-- A bound is declared once in the snippet that plots the function. -/
theorem contents_bound_plotLines :
    (boundSlot upper).contents (plotLines xMin xMax) = [some (if upper then xMax else xMin)] := by
  -- The bounds stand behind four fixed lines of the snippet, and nothing else in it varies.
  have split : plotLines xMin xMax = (plotLines "" "").take 4 ++
      ([(boundSlot false).fill xMin, (boundSlot true).fill xMax] ++
        (plotLines "" "").drop 6) := rfl
  have before : (boundSlot upper).contents ((plotLines "" "").take 4) = [] := by
    refine Slot.contents_eq_nil fun l member => begins_boundSlot ?_
    revert l
    exact List.all_iff_forall_prop.mp (by decide)
  have behind : (boundSlot upper).contents ((plotLines "" "").drop 6) = [] := by
    refine Slot.contents_eq_nil fun l member => begins_boundSlot ?_
    revert l
    exact List.all_iff_forall_prop.mp (by decide)
  rw [split, Slot.contents_append, before, Slot.contents_append, contents_bound_pair, behind]
  rfl

/-- A shader declares each bound twice. -/
theorem contents_bound_lines (upper : Bool) :
    (boundSlot upper).contents (lines comment literals xMin xMax) =
      List.replicate 2 (some (if upper then xMax else xMin)) := by
  have evaluator : (boundSlot upper).contents
      (Comment.block Comment.evaluatorLines "//" "" ++ [evaluatorOpening]) = [] := by
    refine Slot.contents_eq_nil fun l member => begins_boundSlot ?_
    exact (List.all_iff_forall_prop.mp (by decide) : ∀ l ∈ Comment.block Comment.evaluatorLines
      "//" "" ++ [evaluatorOpening], l.toList[4]? ≠ some 'c') l member
  have commented : (boundSlot upper).contents (comment.map ("    // " ++ ·)) = [] := by
    refine Slot.contents_eq_nil fun l member => ?_
    obtain ⟨s, -, rfl⟩ := List.mem_map.mp member
    exact begins_boundSlot (by simp)
  have closing : (boundSlot upper).contents ["\x7d", ""] = [] :=
    Slot.contents_eq_nil fun l member => begins_boundSlot (by
      rcases List.mem_pair.mp member with rfl | rfl <;> simp)
  rw [lines_eq, Slot.contents_append, evaluator, Slot.contents_append, commented,
    Slot.contents_append, contents_bound_bodyBehind, Slot.contents_append, closing,
    contents_bound_plotLines]
  rfl

end Slots

end Shader

section Order

variable {e : Expansion} {x y : Float}

/-- Two doubles that are bounds of an accepted expansion are finite and in order. -/
theorem exists_bits_of_bounds (accepted : e.Accepted) (low : e.xMin = .float x)
    (high : e.xMax = .float y) :
    ∃ negative bits negative' bits', x = ofSignedBits negative bits ∧
      y = ofSignedBits negative' bits' ∧ bits < infinityBits ∧ bits' < infinityBits ∧
      withSign negative (magnitude bits) < withSign negative' (magnitude bits') := by
  have finite := accepted.low.finite
  have finite' := accepted.high.finite
  have ordered := accepted.ordered
  rw [low] at finite ordered
  rw [high] at finite' ordered
  obtain ⟨negative, bits, small, same⟩ := exists_ofSignedBits finite
  obtain ⟨negative', bits', small', same'⟩ := exists_ofSignedBits finite'
  have same : x = ofSignedBits negative bits := same
  have same' : y = ofSignedBits negative' bits' := same'
  refine ⟨negative, bits, negative', bits', same, same', small, small', ?_⟩
  -- The bounds were compared as exact numbers.
  subst same same'
  have compared : (exact (ofSignedBits negative bits)).lt
      (exact (ofSignedBits negative' bits')) = true := ordered
  rw [exact_ofSignedBits _ small, exact_ofSignedBits _ small'] at compared
  exact of_decide_eq_true compared

end Order

section Programs

variable {e : Expansion} {description literal : String} {negative negative' : Bool}
  {bits bits' : ℕ}

/-- A program of a language with loops declares its bounds once. -/
theorem contents_bound_of_template? {l : Language} {f : LoopTemplate} (known : l.template? = some f)
    (plain : (LoopParts.written e description literal).IsPlain) (upper : Bool) :
    (l.boundSlot upper).contents
        (Text.lines (join "\n" (f.lines (.written e description literal)))) =
      List.replicate l.boundCount (some (if upper then e.xMax else e.xMin).shortest) := by
  let frame : LoopFrame := ⟨f, Language.separate_of_template? known⟩
  have once : l.boundCount = 1 := by
    cases l with
    | shader => cases known
    | _ => rfl
  have hole : (l.boundSlot upper, (if upper then e.xMax else e.xMin).shortest) ∈
      f.fills (.written e description literal) := by
    rw [Language.boundSlot, known]
    cases upper <;> simp [LoopTemplate.fills, LoopParts.written]
  rw [once, frame.lines_text plain]
  exact LoopFrame.contents_lines (f := frame) plain hole

/-- A shader declares its bounds twice. -/
theorem contents_bound_shader (accepted : e.Accepted) (places : ℕ) (description : String)
    (upper : Bool) :
    (Shader.boundSlot upper).contents
        (Text.lines (join "\n" (Shader.written places e description))) =
      List.replicate 2 (some (Shader.fixedLiteral places (if upper then e.xMax else e.xMin))) := by
  rw [Shader.lines_text accepted, Shader.written, Shader.contents_bound_lines upper]
  cases upper <;> rfl

/-- In a language with loops the literal of a finite double denotes its shortest decimal. -/
theorem Language.literalDecimal?_shortest {l : Language} {f : LoopTemplate}
    (known : l.template? = some f) {v : Value} (double : v.nearest = ofSignedBits negative bits)
    (finite : bits < infinityBits) :
    l.literalDecimal? v.shortest = some (withSign negative (Decimal.shortestOf bits).value) := by
  have written := Decimal.textValue?_render negative finite
  rw [Value.shortest, double]
  cases l with
  | shader => cases known
  | _ => exact written

/-- A program of a language with loops declares the shortest decimals of the bounds. -/
theorem writesBounds_of_template? {l : Language} {f : LoopTemplate} (known : l.template? = some f)
    (plain : (LoopParts.written e description literal).IsPlain)
    (low : e.xMin = .float (ofSignedBits negative bits)) (finite : bits < infinityBits)
    (high : e.xMax = .float (ofSignedBits negative' bits')) (finite' : bits' < infinityBits) :
    l.WritesBounds (join "\n" (f.lines (.written e description literal)))
      (withSign negative (Decimal.shortestOf bits).value)
      (withSign negative' (Decimal.shortestOf bits').value) := by
  -- Both literals are shortest decimals, and so their values are known.
  refine ⟨e.xMin.shortest, e.xMax.shortest, contents_bound_of_template? known plain false,
    contents_bound_of_template? known plain true, ?_, ?_⟩
  · exact Language.literalDecimal?_shortest known (by rw [low]; rfl) finite
  · exact Language.literalDecimal?_shortest known (by rw [high]; rfl) finite'

/-- A shader declares the bounds in units of the tenth place. -/
theorem writesBounds_shader (accepted : e.Accepted) (description : String)
    (low : e.xMin = .float (ofSignedBits negative bits)) (finite : bits < infinityBits)
    (high : e.xMax = .float (ofSignedBits negative' bits')) (finite' : bits' < infinityBits) :
    Language.shader.WritesBounds
      (join "\n" (Shader.written Shader.defaultPlaces e description))
      (withSign negative (Decimal.fixedUnits 10 bits / 10 ^ 10))
      (withSign negative' (Decimal.fixedUnits 10 bits' / 10 ^ 10)) := by
  refine ⟨Shader.fixedLiteral 10 e.xMin, Shader.fixedLiteral 10 e.xMax,
    contents_bound_shader accepted 10 description false,
    contents_bound_shader accepted 10 description true, ?_, ?_⟩
  · rw [low]
    exact Shader.literalValue?_fixedLiteral_of_few le_rfl finite rfl
  · rw [high]
    exact Shader.literalValue?_fixedLiteral_of_few le_rfl finite' rfl

end Programs

/-- The bounds of a program keep the order of the bounds of its expansion. In a language with loops
the literal of the lower bound denotes less than that of the upper one. In a shader it never denotes
more, and it denotes less if the bounds are more than a unit of the tenth place apart. -/
theorem bound_literals_keep_order (l : Language) (e : Expansion) (text : String) (x y : Float)
    (low : e.xMin = .float x) (high : e.xMax = .float y)
    (generated : (generate l e).result = .ok text) :
    ∃ p q a b, exact x = .finite p ∧ exact y = .finite q ∧ p < q ∧ l.WritesBounds text a b ∧
      a ≤ b ∧ (l ≠ .shader ∨ 1 / 10 ^ 10 < q - p → a < b) := by
  have accepted := Expansion.accepted_of_validate (validate_of_generate generated).1
  obtain ⟨negative, bits, negative', bits', rfl, rfl, finite, finite', order⟩ :=
    exists_bits_of_bounds accepted low high
  refine ⟨withSign negative (magnitude bits), withSign negative' (magnitude bits'), ?_⟩
  cases known : l.template? with
  | some f =>
    obtain ⟨-, description, reference, sign, -, -, rfl⟩ := exists_of_generate known generated
    have kept := withSign_lt Decimal.strictMono_shortestOf Decimal.shortestOf_zero order
    exact ⟨_, _, exact_ofSignedBits _ finite, exact_ofSignedBits _ finite', order,
      writesBounds_of_template? known (isPlain_written sign) low finite high finite', kept.le,
      fun _ => kept⟩
  | none =>
    obtain rfl : l = .shader := by
      cases l with
      | shader => rfl
      | _ => cases known
    obtain ⟨-, description, -, rfl⟩ := exists_of_generate_shader generated
    exact ⟨_, _, exact_ofSignedBits _ finite, exact_ofSignedBits _ finite', order,
      writesBounds_shader accepted description low finite high finite',
        Decimal.withSign_fixedUnits_le order,
      fun apart => Decimal.withSign_fixedUnits_lt (apart.resolve_left fun other => other rfl)⟩

/-- The bounds of the quadratic sample in its shader. -/
theorem bound_literals_keep_order_quadratic :
    ∃ text, (generate .shader Expansion.quadratic).result = .ok text ∧
      ∃ a b, Language.shader.WritesBounds text a b ∧ a < b := by
  have accepted := Expansion.accepted_of_validate Expansion.validate_quadratic
  have generated : (generate .shader Expansion.quadratic).result =
      .ok (join "\n" (Shader.written Shader.defaultPlaces Expansion.quadratic "quadratic")) := by
    rw [generate, Expansion.validate_quadratic, Outcome.bind_result _ rfl]
    exact Shader.renderWith_eq accepted rfl (by decide)
  obtain ⟨p, q, a, b, low, high, -, written, -, apart⟩ :=
    bound_literals_keep_order .shader Expansion.quadratic _ (-1) 1 rfl rfl generated
  refine ⟨_, generated, a, b, written, apart (.inr ?_)⟩
  have lower : exact (-1) = .finite (-1) := by decide +kernel
  have upper : exact 1 = .finite 1 := by decide +kernel
  rw [lower, Exact.finite.injEq] at low
  rw [upper, Exact.finite.injEq] at high
  rw [← low, ← high]
  norm_num

/-- One term on the interval from zero to `1e-11`. -/
def Expansion.narrow : Expansion where
  coeffs := [.float 1]
  xMin := .float 0
  xMax := .float (ofSignedBits false 4442235333156365461)
  description := .text "x"

/-- In the shader of a narrow interval both bounds are zero, though the upper one is above the lower
one. -/
theorem bounds_of_narrow_shader :
    Expansion.narrow.validate = .ok () ∧ Expansion.narrow.xMin.isBelow Expansion.narrow.xMax ∧
      ∃ text, (generate .shader Expansion.narrow).result = .ok text ∧
        Language.shader.WritesBounds text 0 0 := by
  have valid : Expansion.narrow.validate = .ok () := eq_ok_of_isOk (by decide +kernel)
  have accepted := Expansion.accepted_of_validate valid
  have generated : (generate .shader Expansion.narrow).result =
      .ok (join "\n" (Shader.written Shader.defaultPlaces Expansion.narrow "x")) := by
    rw [generate, valid, Outcome.bind_result _ rfl]
    exact Shader.renderWith_eq accepted rfl (by decide)
  have finite : 4442235333156365461 < infinityBits := by decide
  have zero : Expansion.narrow.xMin = .float (ofSignedBits false 0) := rfl
  have none : Decimal.fixedUnits 10 4442235333156365461 = 0 := by decide +kernel
  have written := writesBounds_shader accepted "x" zero (by decide) rfl finite
  rw [none, Decimal.fixedUnits_zero] at written
  refine ⟨valid, accepted.ordered, _, generated, ?_⟩
  simpa [withSign] using written

end ClenshawCode
