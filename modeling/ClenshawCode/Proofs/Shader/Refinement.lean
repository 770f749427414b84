import ClenshawCode.Proofs.Shader.Written

/-!
# Shaders compute the recurrence

The statements that are read from the text of a shader name everything they read, read each
coefficient once, and return what the loop of the recurrence computes from the literals: the code
follows the straight line, and the straight line computes what the loop computes.

## Main definitions

* `Shader.argument`: the environment in which only the argument is known
-/

namespace ClenshawCode.Shader

/-- The environment in which only the argument of the evaluator is known. -/
def argument (x : ℚ) : Env := fun name => if name = "x" then some x else none

section Declarations

variable {literals : List String} {xMin xMax : String}

/-- The body declares each coefficient as its literal. -/
theorem declare_mem_coefficients {i j : ℕ} (inside : j < literals.length) :
    .declare (coefficientName (i + j)) (.literal literals[j]) ∈
      coefficientStatements i literals := by
  induction literals generalizing i j with
  | nil => cases inside
  | cons literal literals ih =>
    cases j with
    | zero => exact List.mem_cons_self
    | succ j =>
      have later := ih (Nat.lt_of_succ_lt_succ inside) (i := i + 1)
      rw [Nat.add_assoc, Nat.add_comm 1 j] at later
      exact List.mem_cons_of_mem _ later

theorem declare_mem_body {i : ℕ} (inside : i < literals.length) :
    .declare (coefficientName i) (.literal literals[i]) ∈ bodyStatements literals xMin xMax := by
  have member := declare_mem_coefficients inside (i := 0)
  rw [Nat.zero_add] at member
  simp only [bodyStatements, List.mem_append]
  exact .inl (.inl (.inl member))

/-- The body declares the bounds as their literals. -/
theorem declare_mem_body_bounds :
    .declare "xMin" (.literal xMin) ∈ bodyStatements literals xMin xMax ∧
      .declare "xMax" (.literal xMax) ∈ bodyStatements literals xMin xMax := by
  simp [bodyStatements, mappingLines, Line.statements]

/-- The body declares each coefficient once. -/
theorem count_declares_body (nonempty : literals ≠ []) {i : ℕ} (inside : i < literals.length) :
    ((bodyStatements literals xMin xMax).flatMap Statement.declares).count (coefficientName i) =
      1 := by
  refine List.count_eq_one_of_mem (wellScoped_body nonempty).nodup.1 ?_
  exact List.mem_flatMap.mpr ⟨_, declare_mem_body inside, List.mem_singleton_self _⟩

end Declarations

/-- A shader means what the recurrence means. For an accepted expansion with a text as its
description it can be written with any count of places below `2 ^ 31`, and with no other. The
program that is read from it names what it reads before it reads it, and never twice; it reads each
coefficient once. It holds the literals of the coefficients and of the bounds, and if the bounds
that it holds differ it returns, on exact rationals, what the loop computes from the literals. -/
theorem shader_computes_recurrence (e : Expansion) (description : String)
    (valid : e.validate = .ok ()) (textual : e.description = .text description) (places : ℕ) :
    (2 ^ 31 ≤ places → ∃ failure, (renderWith (.int places) e).result = .error failure) ∧
    (places < 2 ^ 31 → ∃ (text : String) (program : List Statement) (literals : List String)
        (xMin xMax : String) (coeffs : List ℚ) (low high : ℚ),
      (renderWith (.int places) e).result = .ok text ∧ program? text = some program ∧
      (WellScoped ["x"] program ∧ (program.flatMap Statement.declares).Nodup ∧
        ∀ i < e.numCoeffs,
          (program.flatMap Statement.declares).count (coefficientName i) = 1 ∧
          (program.flatMap Statement.reads).count (coefficientName i) = 1) ∧
      ((e.coeffs.mapM fun c => Literal.fixedSingle c (.int places)) = .ok literals ∧
        Literal.fixedSingle e.xMin (.int places) = .ok xMin ∧
        Literal.fixedSingle e.xMax (.int places) = .ok xMax) ∧
      ((∀ i (inside : i < literals.length),
          .declare (coefficientName i) (.literal literals[i]) ∈ program) ∧
        .declare "xMin" (.literal xMin) ∈ program ∧ .declare "xMax" (.literal xMax) ∈ program) ∧
      (List.Forall₂ (fun s c => literalValue? s = some c) literals coeffs ∧
        literalValue? xMin = some low ∧ literalValue? xMax = some high) ∧
      (low ≠ high → ∀ x, ∃ value, execute (argument x) program = some value ∧
        clenshaw (Table.ofList "tuple" coeffs) x low high = .ok value)) := by
  have accepted := Expansion.accepted_of_validate valid
  refine ⟨renderWith_of_many accepted, fun few => ?_⟩
  have single : ∀ s ∈ Comment.coefficientText e description, Text.isOneLine s = true :=
    fun s => Comment.isOneLine_of_mem_coefficientText
  have numbers : ∀ s ∈ e.coeffs.map (fixedLiteral places), isLiteral s = true := by
    intro s member
    obtain ⟨c, inside, rfl⟩ := List.mem_map.mp member
    exact (fixedLiteral_spec (accepted.coeffs c inside) places).1
  have values : ∃ coeffs, List.Forall₂ (fun s c => literalValue? s = some c)
      (e.coeffs.map (fixedLiteral places)) coeffs := by
    refine exists_values fun s member => ?_
    obtain ⟨c, inside, rfl⟩ := List.mem_map.mp member
    exact (fixedLiteral_spec (accepted.coeffs c inside) places).2
  have nonempty : e.coeffs.map (fixedLiteral places) ≠ [] := by
    simpa using accepted.nonempty
  obtain ⟨lower, low, lowValue⟩ := fixedLiteral_spec accepted.low places
  obtain ⟨upper, high, highValue⟩ := fixedLiteral_spec accepted.high places
  obtain ⟨coeffs, values⟩ := values
  have scope : WellScoped ["x"] (bodyStatements (e.coeffs.map (fixedLiteral places))
      (fixedLiteral places e.xMin) (fixedLiteral places e.xMax)) := wellScoped_body nonempty
  refine ⟨_, bodyStatements (e.coeffs.map (fixedLiteral places)) (fixedLiteral places e.xMin)
      (fixedLiteral places e.xMax), e.coeffs.map (fixedLiteral places), fixedLiteral places e.xMin,
    fixedLiteral places e.xMax, coeffs, low, high, renderWith_eq accepted textual few,
    program?_join single numbers lower upper, ⟨scope, scope.nodup.1, fun i inside => ?_⟩,
    ⟨mapM_eq_ok fun c member => Literal.fixedSingle_eq (accepted.coeffs c member) few,
      Literal.fixedSingle_eq accepted.low few, Literal.fixedSingle_eq accepted.high few⟩,
    ⟨fun i inside => declare_mem_body inside, declare_mem_body_bounds⟩,
    ⟨values, lowValue, highValue⟩, fun proper x => ?_⟩
  · have within : i < (e.coeffs.map (fixedLiteral places)).length := by
      simpa [Expansion.numCoeffs] using inside
    exact ⟨count_declares_body nonempty within, count_reads_body within⟩
  · have some : coeffs ≠ [] := by
      rintro rfl
      exact nonempty (List.forall₂_nil_right_iff.mp values)
    obtain ⟨c, rest, rfl⟩ := List.exists_cons_of_ne_nil some
    exact ⟨_, execute_body values (if_pos rfl) lowValue highValue
      (evaluateUnrolled_rat "tuple" c rest x proper), clenshaw_rat "tuple" c rest x proper⟩

/-- The quadratic sample as a shader with two places. Its bounds are written as `-1.00f` and
`1.00f`, and at a half it returns `1 - (2 * (1 / 2) ^ 2 - 1)`. -/
theorem shader_computes_recurrence_quadratic :
    Expansion.quadratic.validate = .ok () ∧ Expansion.quadratic.description = .text "quadratic" ∧
      2 < 2 ^ 31 ∧ ((-1 : ℚ) ≠ 1) ∧
      ∃ text program, (renderWith (.int 2) Expansion.quadratic).result = .ok text ∧
        program? text = some program ∧
        .declare "xMin" (.literal "-1.00f") ∈ program ∧ literalValue? "-1.00f" = some (-1) ∧
        .declare "xMax" (.literal "1.00f") ∈ program ∧ literalValue? "1.00f" = some 1 ∧
        execute (argument (1 / 2)) program = some (3 / 2) ∧
        clenshaw (Table.ofList "tuple" [2, 0, -1]) (1 / 2 : ℚ) (-1) 1 = .ok (3 / 2) := by
  have valid := Expansion.validate_quadratic
  have accepted := Expansion.accepted_of_validate valid
  have proper : (-1 : ℚ) ≠ 1 := by norm_num
  obtain ⟨-, written⟩ := shader_computes_recurrence Expansion.quadratic "quadratic" valid rfl 2
  obtain ⟨text, program, literals, xMin, xMax, coeffs, low, high, rendered, read, -,
    ⟨texts, lower, upper⟩, ⟨-, member, member'⟩, ⟨values, lowValue, highValue⟩, run⟩ :=
    written (by norm_num)
  have few : 2 < 2 ^ 31 := by norm_num
  -- The literals of the coefficients and of the bounds, and what they denote.
  obtain rfl : ["2.00f", "0.00f", "-1.00f"] = literals := by
    have numerals : Expansion.quadratic.coeffs.map (fixedLiteral 2) =
        ["2.00f", "0.00f", "-1.00f"] := by decide +kernel
    have done := mapM_eq_ok fun c member => Literal.fixedSingle_eq (accepted.coeffs c member) few
    rw [← numerals]
    exact Except.ok.inj (done.symm.trans texts)
  obtain rfl : "-1.00f" = xMin := by
    have numeral : fixedLiteral 2 Expansion.quadratic.xMin = "-1.00f" := by decide +kernel
    rw [← numeral]
    exact Except.ok.inj ((Literal.fixedSingle_eq accepted.low few).symm.trans lower)
  obtain rfl : "1.00f" = xMax := by
    have numeral : fixedLiteral 2 Expansion.quadratic.xMax = "1.00f" := by decide +kernel
    rw [← numeral]
    exact Except.ok.inj ((Literal.fixedSingle_eq accepted.high few).symm.trans upper)
  have two : literalValue? "2.00f" = some 2 := by decide +kernel
  have zero : literalValue? "0.00f" = some 0 := by decide +kernel
  have one : literalValue? "1.00f" = some 1 := by decide +kernel
  have minus : literalValue? "-1.00f" = some (-1) := by decide +kernel
  obtain rfl : -1 = low := Option.some.inj (minus.symm.trans lowValue)
  obtain rfl : 1 = high := Option.some.inj (one.symm.trans highValue)
  obtain rfl : [2, 0, -1] = coeffs := by
    simp only [List.forall₂_cons_left_iff, List.forall₂_nil_left_iff, two, zero, minus,
      Option.some.injEq] at values
    grind
  -- The value of the loop, and with it that of the shader.
  have worth : expansionValue 2 [0, -1] (twiceArgument (1 / 2 : ℚ) (-1) 1) = 3 / 2 := by
    norm_num [expansionValue, twiceArgument, backward]
  obtain ⟨value, executed, computed⟩ := run proper (1 / 2)
  obtain rfl : 3 / 2 = value := by
    have loop := clenshaw_rat "tuple" 2 [0, -1] (1 / 2) proper
    rw [worth] at loop
    exact Except.ok.inj (loop.symm.trans computed)
  exact ⟨valid, rfl, few, proper, text, program, rendered, read, member, minus, member', one,
    executed, computed⟩

end ClenshawCode.Shader
