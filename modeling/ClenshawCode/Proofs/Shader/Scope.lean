import ClenshawCode.Proofs.Shader.Execution

/-!
# Names in shader code

Every name that the body of the evaluator reads has been declared above it, no name is declared
twice, and each coefficient is read once: the first by the result, every other by the step with its
index. The steps go from the highest index down, so a step finds the accumulators above it.

## Main definitions

* `Shader.Statement.reads`, `Shader.Statement.declares`: the names of a statement
* `Shader.WellScoped`: statements that read what is declared and declare what is not
* `Shader.lowerSteps`: the steps of the straight line from an index down
-/

namespace ClenshawCode.Shader

/-- The names that an expression reads. -/
def Expr.reads : Expr → List String
  | .name s => [s]
  | .literal _ => []
  | .group e => e.reads
  | .binary _ left right => left.reads ++ right.reads

/-- The names that a statement reads. -/
def Statement.reads : Statement → List String
  | .declare _ value => value.reads
  | .result value => value.reads

/-- The names that a statement declares. -/
def Statement.declares : Statement → List String
  | .declare name _ => [name]
  | .result _ => []

/-- Behind the names that have been declared, statements read only what is declared by then and
declare nothing again. -/
def WellScoped : (declared : List String) → List Statement → Prop
  | _, [] => True
  | declared, s :: rest =>
    (∀ name ∈ s.reads, name ∈ declared) ∧ (∀ name ∈ s.declares, name ∉ declared) ∧
      WellScoped (s.declares ++ declared) rest

/-- The steps of the straight line for `n` coefficients, from an index down. -/
def lowerSteps (n : ℕ) : (top : ℕ) → List Step
  | 0 => []
  | top + 1 => ⟨top + 1, stepKind n (top + 1)⟩ :: lowerSteps n top

section Scopes

variable {declared : List String} {statements rest : List Statement} {name : String}

/-- Statements are well scoped behind others if they are behind all that is declared by then. -/
theorem WellScoped.append (first : WellScoped declared statements)
    (second : ∀ declared', (∀ name, name ∈ declared' ↔
      name ∈ declared ∨ name ∈ statements.flatMap Statement.declares) →
        WellScoped declared' rest) : WellScoped declared (statements ++ rest) := by
  -- What is declared grows from statement to statement, so it is only known by its members.
  induction statements generalizing declared with
  | nil => exact second declared fun name => by simp
  | cons s statements ih =>
    obtain ⟨known, fresh, later⟩ := first
    refine ⟨known, fresh, ih later fun declared' members => second declared' fun name => ?_⟩
    rw [members, List.mem_append, List.flatMap_cons, List.mem_append]
    tauto

/-- What is declared behind others is none of them, and is declared once. -/
theorem WellScoped.nodup (valid : WellScoped declared statements) :
    (statements.flatMap Statement.declares).Nodup ∧
      ∀ name ∈ statements.flatMap Statement.declares, name ∉ declared := by
  induction statements generalizing declared with
  | nil => simp
  | cons s statements ih =>
    obtain ⟨-, fresh, later⟩ := valid
    obtain ⟨nodup, others⟩ := ih later
    have single : s.declares.Nodup := by cases s <;> simp [Statement.declares]
    rw [List.flatMap_cons]
    -- A name that is declared again would be known when the later statement is reached.
    refine ⟨List.nodup_append.mpr ⟨single, nodup, ?_⟩, ?_⟩
    · rintro name inFirst other inOthers rfl
      exact others name inOthers (List.mem_append_left _ inFirst)
    · intro name member
      rcases List.mem_append.mp member with inFirst | inOthers
      · exact fresh name inFirst
      · exact fun known => others name inOthers (List.mem_append_right _ known)

end Scopes

section Steps

theorem unrolledSteps_eq_lowerSteps (n : ℕ) : unrolledSteps n = lowerSteps n (n + 1) := by
  have lower (top : ℕ) :
      ((List.range top).reverse.map fun i => (⟨i + 1, stepKind n (i + 1)⟩ : Step)) =
        lowerSteps n top := by
    induction top with
    | zero => rfl
    | succ top ih =>
      rw [List.range_succ, List.reverse_append, List.reverse_singleton, List.singleton_append,
        List.map_cons, ih, lowerSteps]
  exact lower (n + 1)

/-- A step reads the argument, accumulators above its own, and its coefficient. -/
theorem mem_reads_stepExpr {n i : ℕ} {name : String}
    (member : name ∈ (stepExpr ⟨i, stepKind n i⟩).reads) :
    name = "xRel2" ∨ (∃ j, i < j ∧ j ≤ n + 1 ∧ name = accumulatorName j) ∨
      (i < n ∧ name = coefficientName i) := by
  have next (within : i + 1 ≤ n + 1) (same : name = accumulatorName (i + 1)) :
      ∃ j, i < j ∧ j ≤ n + 1 ∧ name = accumulatorName j := ⟨i + 1, by omega, within, same⟩
  have afterNext (within : i + 2 ≤ n + 1) (same : name = accumulatorName (i + 2)) :
      ∃ j, i < j ∧ j ≤ n + 1 ∧ name = accumulatorName j := ⟨i + 2, by omega, within, same⟩
  simp only [stepExpr, stepKind] at member
  split_ifs at member with beyond last second
  · cases member
  · exact .inr (.inr ⟨by omega, List.mem_singleton.mp member⟩)
  · simp only [plus, times, Expr.reads, List.mem_append, List.mem_singleton] at member
    rcases member with (argument | above) | coefficient
    · exact .inl argument
    · exact .inr (.inl (next (by omega) above))
    · exact .inr (.inr ⟨by omega, coefficient⟩)
  · simp only [plus, minus, times, Expr.reads, List.mem_append, List.mem_singleton] at member
    rcases member with ((argument | above) | coefficient) | above
    · exact .inl argument
    · exact .inr (.inl (next (by omega) above))
    · exact .inr (.inr ⟨by omega, coefficient⟩)
    · exact .inr (.inl (afterNext (by omega) above))

/-- Steps from an index down declare the accumulators up to it. -/
theorem mem_declares_lowerSteps {n top : ℕ} {name : String} :
    name ∈ ((lowerSteps n top).map stepStatement).flatMap Statement.declares ↔
      ∃ i, 1 ≤ i ∧ i ≤ top ∧ name = accumulatorName i := by
  induction top with
  | zero => simp [lowerSteps]
  | succ top ih =>
    rw [lowerSteps, List.map_cons, List.flatMap_cons, List.mem_append, ih]
    simp only [stepStatement, Statement.declares, List.mem_singleton]
    constructor
    · rintro (rfl | ⟨i, positive, within, rfl⟩)
      · exact ⟨top + 1, by omega, le_rfl, rfl⟩
      · exact ⟨i, positive, by omega, rfl⟩
    · rintro ⟨i, positive, within, rfl⟩
      rcases Nat.eq_or_lt_of_le within with rfl | below
      · exact .inl rfl
      · exact .inr ⟨i, positive, by omega, rfl⟩

/-- Steps from an index down are well scoped once the argument, the coefficients and the
accumulators above it are declared. -/
theorem wellScoped_lowerSteps {n top : ℕ} {declared : List String} (within : top ≤ n + 1)
    (argument : "xRel2" ∈ declared) (coefficients : ∀ i < n, coefficientName i ∈ declared)
    (accumulators : ∀ i, accumulatorName i ∈ declared ↔ top < i ∧ i ≤ n + 1) :
    WellScoped declared ((lowerSteps n top).map stepStatement) := by
  -- The induction follows the steps: behind each one its own accumulator has been declared.
  induction top generalizing declared with
  | zero => trivial
  | succ top ih =>
    refine ⟨?_, ?_, ih (by omega) (List.mem_append_right _ argument)
      (fun i inside => List.mem_append_right _ (coefficients i inside)) fun i => ?_⟩
    · intro name member
      rcases mem_reads_stepExpr member with rfl | ⟨j, above, top', rfl⟩ | ⟨inside, rfl⟩
      · exact argument
      · exact (accumulators j).mpr ⟨above, top'⟩
      · exact coefficients _ inside
    · intro name member
      rw [List.mem_singleton.mp member, accumulators]
      exact fun above => absurd above.1 (lt_irrefl _)
    · rw [List.mem_append, accumulators, stepStatement, Statement.declares, List.mem_singleton,
        accumulatorName_injective.eq_iff]
      dsimp only
      omega

section Counting

variable (i j : ℕ)

/-- A coefficient has the name of no other one. -/
theorem coefficientName_beq : (coefficientName j == coefficientName i) = decide (i = j) := by
  rw [Bool.eq_iff_iff, beq_iff_eq, decide_eq_true_eq, coefficientName_injective.eq_iff, eq_comm]

theorem accumulatorName_beq : (accumulatorName j == coefficientName i) = false :=
  beq_false_of_ne (accumulatorName_ne_coefficientName j i)

theorem argument_beq : ("xRel2" == coefficientName i) = false :=
  beq_false_of_ne (coefficientName_ne (by decide) i).symm

end Counting

/-- A step reads its coefficient once, unless it is a boundary, and no other coefficient. -/
theorem count_reads_stepExpr (n i j : ℕ) :
    (stepExpr ⟨j, stepKind n j⟩).reads.count (coefficientName i) =
      if i = j ∧ j < n then 1 else 0 := by
  rw [stepExpr, stepKind]
  dsimp only
  by_cases inside : j < n
  · rw [if_neg (Nat.not_le.mpr inside)]
    by_cases last : j + 1 = n
    · simp [last, inside, Expr.reads, List.count_cons, coefficientName_beq]
    · by_cases second : j + 2 = n
      · simp [last, second, inside, plus, times, Expr.reads, List.count_cons, argument_beq,
          accumulatorName_beq, coefficientName_beq]
      · simp [last, second, inside, plus, minus, times, Expr.reads, List.count_cons, argument_beq,
          accumulatorName_beq, coefficientName_beq]
  · rw [if_pos (Nat.not_lt.mp inside), if_neg fun both => inside both.2]
    rfl

/-- Steps from an index down read each coefficient between once. -/
theorem count_reads_lowerSteps (n top i : ℕ) :
    (((lowerSteps n top).map stepStatement).flatMap Statement.reads).count (coefficientName i) =
      if 1 ≤ i ∧ i ≤ top ∧ i < n then 1 else 0 := by
  -- The step with the highest index reads its own coefficient, and the others are below.
  induction top with
  | zero =>
    rw [if_neg (by omega)]
    rfl
  | succ top ih =>
    rw [lowerSteps, List.map_cons, List.flatMap_cons, List.count_append, ih, stepStatement,
      Statement.reads, count_reads_stepExpr]
    split_ifs <;> omega

end Steps

section Body

variable {literals : List String} {xMin xMax : String}

/-- The names of the constants and of the argument that the mapping lines declare. -/
def mappingNames : List String := ["xMin", "xMax", "k", "a", "b", "xRel2"]

theorem declares_mappingLines (xMin xMax : String) :
    ((mappingLines xMin xMax).flatMap Line.statements).flatMap Statement.declares =
      mappingNames := rfl

theorem coefficientName_notMem_mappingNames (i : ℕ) : coefficientName i ∉ mappingNames := by
  have firsts : ∀ name ∈ mappingNames, name.toList.head? ≠ some 'c' :=
    List.all_iff_forall_prop.mp (by decide)
  exact fun member => coefficientName_ne (firsts _ member) i rfl

theorem accumulatorName_notMem_mappingNames (i : ℕ) : accumulatorName i ∉ mappingNames := by
  have firsts : ∀ name ∈ mappingNames, name.toList.head? ≠ some 'd' :=
    List.all_iff_forall_prop.mp (by decide)
  exact fun member => accumulatorName_ne (firsts _ member) i rfl

theorem mem_declares_coefficients {i : ℕ} {name : String} :
    name ∈ (coefficientStatements i literals).flatMap Statement.declares ↔
      ∃ j, i ≤ j ∧ j < i + literals.length ∧ name = coefficientName j := by
  induction literals generalizing i with
  | nil =>
    simp only [coefficientStatements, coefficientLines, List.flatMap_nil, List.not_mem_nil,
      false_iff, List.length_nil]
    rintro ⟨j, lower, upper, -⟩
    omega
  | cons literal literals ih =>
    have split : coefficientStatements i (literal :: literals) =
        .declare (coefficientName i) (.literal literal) :: coefficientStatements (i + 1) literals :=
      rfl
    rw [split, List.flatMap_cons, List.mem_append, ih, Statement.declares, List.mem_singleton,
      List.length_cons]
    constructor
    · rintro (rfl | ⟨j, lower, upper, rfl⟩)
      · exact ⟨i, le_rfl, by omega, rfl⟩
      · exact ⟨j, by omega, by omega, rfl⟩
    · rintro ⟨j, lower, upper, rfl⟩
      rcases Nat.eq_or_lt_of_le lower with rfl | above
      · exact .inl rfl
      · exact .inr ⟨j, by omega, by omega, rfl⟩

/-- Declarations of coefficients read nothing. -/
theorem reads_coefficients (i : ℕ) (literals : List String) :
    (coefficientStatements i literals).flatMap Statement.reads = [] := by
  induction literals generalizing i with
  | nil => rfl
  | cons literal literals ih => exact ih (i + 1)

theorem wellScoped_coefficients {declared : List String} {i : ℕ}
    (fresh : ∀ j, i ≤ j → coefficientName j ∉ declared) :
    WellScoped declared (coefficientStatements i literals) := by
  induction literals generalizing i declared with
  | nil => trivial
  | cons literal literals ih =>
    refine ⟨fun name member => (by cases member), ?_, ih fun j above => ?_⟩
    · intro name member
      rw [List.mem_singleton.mp member]
      exact fresh i le_rfl
    · rw [List.mem_append, not_or]
      refine ⟨fun same => ?_, fresh j (by omega)⟩
      have equal := coefficientName_injective (List.mem_singleton.mp same)
      omega

theorem wellScoped_mapping {declared : List String} (argument : "x" ∈ declared)
    (fresh : ∀ name ∈ mappingNames, name ∉ declared) :
    WellScoped declared ((mappingLines xMin xMax).flatMap Line.statements) := by
  simp only [mappingNames, List.mem_cons, List.not_mem_nil, or_false, forall_eq_or_imp,
    forall_eq] at fresh
  simp [mappingLines, Line.statements, WellScoped, Statement.reads, Statement.declares, Expr.reads,
    dividedBy, minus, times, plus, argument, fresh]

/-- The body of the evaluator, behind its argument, is well scoped. -/
theorem wellScoped_body (nonempty : literals ≠ []) :
    WellScoped ["x"] (bodyStatements literals xMin xMax) := by
  have positive : 0 < literals.length := List.length_pos_iff.mpr nonempty
  have notX (i : ℕ) : coefficientName i ≠ "x" := coefficientName_ne (by decide) i
  have notX' (i : ℕ) : accumulatorName i ≠ "x" := accumulatorName_ne (by decide) i
  rw [bodyStatements, unrolledSteps_eq_lowerSteps]
  -- The four parts in order: coefficients, mapping lines, steps and the result.
  refine WellScoped.append (WellScoped.append (WellScoped.append ?_ ?_) ?_) ?_
  · exact wellScoped_coefficients fun j _ => by simp [notX]
  · intro declared members
    refine wellScoped_mapping ((members _).mpr (.inl (List.mem_singleton_self _))) ?_
    intro name inMapping known
    rcases (members name).mp known with argument | coefficient
    · rw [List.mem_singleton.mp argument] at inMapping
      revert inMapping
      decide
    · obtain ⟨j, -, -, rfl⟩ := mem_declares_coefficients.mp coefficient
      exact coefficientName_notMem_mappingNames j inMapping
  · intro declared members
    refine wellScoped_lowerSteps le_rfl ?_ (fun i inside => ?_) fun i => ?_
    · rw [members, List.flatMap_append, declares_mappingLines, List.mem_append]
      exact .inr (.inr (by decide))
    · rw [members, List.flatMap_append, List.mem_append, mem_declares_coefficients]
      exact .inr (.inl ⟨i, Nat.zero_le i, by omega, rfl⟩)
    · rw [members, List.flatMap_append, List.mem_append, mem_declares_coefficients,
        declares_mappingLines, List.mem_singleton]
      constructor
      · rintro (same | ⟨j, -, -, same⟩ | inMapping)
        · exact absurd same (notX' i)
        · exact absurd same (accumulatorName_ne_coefficientName i j)
        · exact absurd inMapping (accumulatorName_notMem_mappingNames i)
      · omega
  · intro declared members
    have accumulator (i : ℕ) (lower : 1 ≤ i) (upper : i ≤ 2) :
        accumulatorName i ∈ declared := by
      rw [members, List.flatMap_append, List.mem_append, mem_declares_lowerSteps]
      exact .inr (.inr ⟨i, lower, by omega, rfl⟩)
    have coefficient : coefficientName 0 ∈ declared := by
      rw [members, List.flatMap_append, List.flatMap_append, List.mem_append, List.mem_append,
        mem_declares_coefficients]
      exact .inr (.inl (.inl ⟨0, le_rfl, by omega, rfl⟩))
    have argument : "xRel2" ∈ declared := by
      rw [members, List.flatMap_append, List.flatMap_append, List.mem_append, List.mem_append,
        declares_mappingLines]
      exact .inr (.inl (.inr (by decide)))
    simp [resultLine, Line.statements, WellScoped, Statement.reads, Statement.declares, Expr.reads,
      minus, times, plus, argument, accumulator, coefficient]

/-- The body of the evaluator reads each coefficient once. -/
theorem count_reads_body {i : ℕ} (inside : i < literals.length) :
    ((bodyStatements literals xMin xMax).flatMap Statement.reads).count (coefficientName i) =
      1 := by
  have mapping : (((mappingLines xMin xMax).flatMap Line.statements).flatMap
      Statement.reads).count (coefficientName i) = 0 := by
    have reads : ((mappingLines xMin xMax).flatMap Line.statements).flatMap Statement.reads =
        ["xMax", "xMin", "k", "xMin", "k", "a", "x", "b"] := rfl
    have firsts : ∀ name ∈ ["xMax", "xMin", "k", "xMin", "k", "a", "x", "b"],
        name.toList.head? ≠ some 'c' := List.all_iff_forall_prop.mp (by decide)
    rw [reads, List.count_eq_zero]
    exact fun member => coefficientName_ne (firsts _ member) i rfl
  have result : (resultLine.statements.flatMap Statement.reads).count (coefficientName i) =
      if i = 0 then 1 else 0 := by
    have reads : resultLine.statements.flatMap Statement.reads =
        ["xRel2", accumulatorName 1, accumulatorName 2, coefficientName 0] := rfl
    rw [reads]
    simp [List.count_cons, argument_beq, accumulatorName_beq, coefficientName_beq]
  rw [bodyStatements, unrolledSteps_eq_lowerSteps, List.flatMap_append, List.flatMap_append,
    List.flatMap_append, reads_coefficients, List.nil_append, List.count_append, List.count_append,
    mapping, count_reads_lowerSteps, result]
  split_ifs <;> omega

end Body

end ClenshawCode.Shader
