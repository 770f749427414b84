import ClenshawCode.Program.Shader.Render
import ClenshawCode.Proofs.Decimal.ReadBack
import ClenshawCode.Proofs.Recurrence.Unrolled
import ClenshawCode.Proofs.Shader.Reader

/-!
# Shader code over the rationals

A number in the code is a decimal, and its statements run from top to bottom, each declaring a name
for the rest. Run so, the body of the evaluator follows the straight line of the recurrence: the
mapping lines compute its argument, and each step assigns to its name what the step of the straight
line assigns to its accumulator. So the body returns the value of the straight line.

## Main definitions

* `Shader.literalValue?`: the value of a number
* `Shader.Expr.eval`, `Shader.execute`: running expressions and statements
* `Shader.Holds`: an environment with the coefficients, the argument and the accumulators
-/

namespace ClenshawCode.Shader

/-- The value of a number: a decimal with a suffix, perhaps with a minus sign. -/
def literalValue? (s : String) : Option ℚ :=
  let (negative, body) := Decimal.takeSign s.toList
  if body.getLast? = some 'f' then
    (Decimal.unsigned? body.dropLast).map fun d => if negative then -d.value else d.value
  else none

/-- The values of names. -/
abbrev Env := String → Option ℚ

/-- The value of an operation; a division by zero has none. -/
def Op.apply : Op → ℚ → ℚ → Option ℚ
  | .add, a, b => some (a + b)
  | .sub, a, b => some (a - b)
  | .mul, a, b => some (a * b)
  | .div, a, b => if b = 0 then none else some (a / b)

/-- The value of an expression. -/
def Expr.eval (env : Env) : Expr → Option ℚ
  | .name s => env s
  | .literal s => literalValue? s
  | .group e => e.eval env
  | .binary op left right => do
    let a ← left.eval env
    let b ← right.eval env
    op.apply a b

/-- The value that statements return. -/
def execute : Env → List Statement → Option ℚ
  | _, [] => none
  | env, .declare name value :: rest => do
    let v ← value.eval env
    execute (Function.update env name (some v)) rest
  | env, .result value :: _ => value.eval env

/-- The declarations of coefficients, the first of which has index `i`. -/
def coefficientStatements (i : ℕ) (literals : List String) : List Statement :=
  (coefficientLines i literals).flatMap Line.statements

/-- The statement of a step. -/
def stepStatement (step : Step) : Statement :=
  .declare (accumulatorName step.index) (stepExpr step)

/-- The statements of the evaluator's body. -/
def bodyStatements (literals : List String) (xMin xMax : String) : List Statement :=
  coefficientStatements 0 literals ++ (mappingLines xMin xMax).flatMap Line.statements ++
    (unrolledSteps literals.length).map stepStatement ++ resultLine.statements

/-- The environment holds the coefficients, the argument and the accumulators. -/
structure Holds (env : Env) (table : Table ℚ) (twice : ℚ) (acc : Accumulators ℚ) : Prop where
  coefficient : ∀ i c, table.item i = .ok c → env (coefficientName i) = some c
  argument : env "xRel2" = some twice
  accumulators : ∀ i d, accumulator acc i = .ok d → env (accumulatorName i) = some d

section Literals

theorem literalValue?_eq {s : String} {negative : Bool} {body : List Char} {d : Decimal}
    (form : Decimal.takeSign s.toList = (negative, body ++ ['f']))
    (read : Decimal.unsigned? body = some d) :
    literalValue? s = some (if negative then -d.value else d.value) := by
  simp [literalValue?, form, read]

/-- A number of one digit on either side of the point. -/
theorem literalValue?_tenths {s : String} {negative : Bool} {a b : Char}
    (form : Decimal.takeSign s.toList = (negative, [a, '.', b, 'f']))
    (first : a.isDigit = true) (second : b.isDigit = true) :
    literalValue? s =
      some ((if negative then -1 else 1) * (Decimal.digitsValue [a, b] : ℚ) / 10) := by
  have read := Decimal.unsigned?_places [a] [b] (List.cons_ne_nil _ _) (by simpa using first)
    (by simpa using second)
  rw [literalValue?_eq form read]
  cases negative <;> simp [Decimal.value, div_eq_mul_inv]

theorem literalValue?_zero : literalValue? "0.0f" = some 0 := by
  have form : Decimal.takeSign "0.0f".toList = (false, ['0', '.', '0', 'f']) := rfl
  have digits : Decimal.digitsValue ['0', '0'] = 0 := rfl
  rw [literalValue?_tenths form rfl rfl, digits]
  norm_num

theorem literalValue?_half : literalValue? "0.5f" = some (1 / 2) := by
  have form : Decimal.takeSign "0.5f".toList = (false, ['0', '.', '5', 'f']) := rfl
  have digits : Decimal.digitsValue ['0', '5'] = 5 := rfl
  rw [literalValue?_tenths form rfl rfl, digits]
  norm_num

theorem literalValue?_one : literalValue? "1.0f" = some 1 := by
  have form : Decimal.takeSign "1.0f".toList = (false, ['1', '.', '0', 'f']) := rfl
  have digits : Decimal.digitsValue ['1', '0'] = 10 := rfl
  rw [literalValue?_tenths form rfl rfl, digits]
  norm_num

theorem literalValue?_two : literalValue? "2.0f" = some 2 := by
  have form : Decimal.takeSign "2.0f".toList = (false, ['2', '.', '0', 'f']) := rfl
  have digits : Decimal.digitsValue ['2', '0'] = 20 := rfl
  rw [literalValue?_tenths form rfl rfl, digits]
  norm_num

theorem literalValue?_four (negative : Bool) :
    literalValue? (if negative then "-4.0f" else "4.0f") = some (if negative then -4 else 4) := by
  have form : Decimal.takeSign (if negative then "-4.0f" else "4.0f").toList =
      (negative, ['4', '.', '0', 'f']) := by cases negative <;> rfl
  have digits : Decimal.digitsValue ['4', '0'] = 40 := rfl
  rw [literalValue?_tenths form rfl rfl, digits]
  cases negative <;> norm_num

end Literals

section Names

variable {i j : ℕ}

theorem toList_coefficientName (i : ℕ) : (coefficientName i).toList = 'c' :: Text.natChars i := by
  simp [coefficientName, Text.natText]

theorem toList_accumulatorName (i : ℕ) :
    (accumulatorName i).toList = 'd' :: '_' :: 'i' :: Text.natChars i := by
  simp [accumulatorName, Text.natText]

theorem coefficientName_injective : Function.Injective coefficientName := by
  intro i j same
  have chars := congrArg String.toList same
  rw [toList_coefficientName, toList_coefficientName, List.cons.injEq] at chars
  exact Text.natChars_injective chars.2

theorem accumulatorName_injective : Function.Injective accumulatorName := by
  intro i j same
  have chars := congrArg String.toList same
  rw [toList_accumulatorName, toList_accumulatorName] at chars
  simp only [List.cons.injEq, true_and] at chars
  exact Text.natChars_injective chars

/-- A name with another first letter is no name of a coefficient. -/
theorem coefficientName_ne {s : String} (other : s.toList.head? ≠ some 'c') (i : ℕ) :
    coefficientName i ≠ s := by
  rintro rfl
  rw [toList_coefficientName] at other
  exact other rfl

/-- A name with another first letter is no name of an accumulator. -/
theorem accumulatorName_ne {s : String} (other : s.toList.head? ≠ some 'd') (i : ℕ) :
    accumulatorName i ≠ s := by
  rintro rfl
  rw [toList_accumulatorName] at other
  exact other rfl

theorem accumulatorName_ne_coefficientName (i j : ℕ) :
    accumulatorName i ≠ coefficientName j :=
  accumulatorName_ne (by simp [toList_coefficientName]) i

end Names

section Steps

variable {env : Env} {table : Table ℚ} {twice : ℚ} {acc : Accumulators ℚ} {step : Step} {d : ℚ}

/-- A step of the code gives its name the value that the straight line gives the accumulator. -/
theorem eval_stepExpr (holds : Holds env table twice acc)
    (assigned : stepValue table twice acc step = .ok d) : (stepExpr step).eval env = some d := by
  obtain ⟨coefficient, argument, accumulators⟩ := holds
  rw [stepValue] at assigned
  rw [stepExpr]
  -- The expression leaves out the same terms as the step does.
  cases kind : step.kind with
  | boundary =>
    rw [kind] at assigned
    cases assigned
    exact literalValue?_zero
  | leading =>
    rw [kind] at assigned
    exact coefficient _ _ assigned
  | second =>
    simp only [kind] at assigned
    obtain ⟨next, found, assigned⟩ := ok_of_bind_ok assigned
    obtain ⟨product, multiplied, assigned⟩ := ok_of_bind_ok assigned
    obtain ⟨c, item, assigned⟩ := ok_of_bind_ok assigned
    cases multiplied
    cases assigned
    simp [plus, times, Expr.eval, Op.apply, argument, accumulators _ _ found, coefficient _ _ item]
  | general =>
    simp only [kind] at assigned
    obtain ⟨next, found, assigned⟩ := ok_of_bind_ok assigned
    obtain ⟨product, multiplied, assigned⟩ := ok_of_bind_ok assigned
    obtain ⟨c, item, assigned⟩ := ok_of_bind_ok assigned
    obtain ⟨sum, added, assigned⟩ := ok_of_bind_ok assigned
    obtain ⟨afterNext, found', assigned⟩ := ok_of_bind_ok assigned
    cases multiplied
    cases added
    cases assigned
    simp [plus, minus, times, Expr.eval, Op.apply, argument, accumulators _ _ found,
      accumulators _ _ found', coefficient _ _ item]

/-- Assigning an accumulator on both sides keeps them in step. -/
theorem Holds.assign (holds : Holds env table twice acc) (i : ℕ) (d : ℚ) :
    Holds (Function.update env (accumulatorName i) (some d)) table twice ((i, d) :: acc) := by
  obtain ⟨coefficient, argument, accumulators⟩ := holds
  -- The name of the accumulator is neither that of a coefficient nor that of the argument.
  refine ⟨?_, ?_, ?_⟩
  · intro j c item
    rw [Function.update_of_ne (accumulatorName_ne_coefficientName i j).symm]
    exact coefficient j c item
  · rw [Function.update_of_ne (accumulatorName_ne (by decide) i).symm]
    exact argument
  · intro j d' found
    by_cases same : j = i
    · subst same
      rw [accumulator_cons_self] at found
      cases found
      exact Function.update_self ..
    · rw [accumulator_cons_of_ne same] at found
      rw [Function.update_of_ne fun equal => same (accumulatorName_injective equal)]
      exact accumulators j d' found

/-- The steps of the code run as those of the straight line do. -/
theorem execute_steps {steps : List Step} {acc' : Accumulators ℚ} (rest : List Statement)
    (holds : Holds env table twice acc) (ran : runSteps table twice steps acc = .ok acc') :
    ∃ env', Holds env' table twice acc' ∧
      execute env (steps.map stepStatement ++ rest) = execute env' rest := by
  -- The simulation: one step on either side keeps the environment and the accumulators in step.
  induction steps generalizing env acc with
  | nil =>
    cases ran
    exact ⟨env, holds, rfl⟩
  | cons step steps ih =>
    obtain ⟨d, assigned, ran⟩ := ok_of_bind_ok ran
    obtain ⟨env', holds', executed⟩ := ih (holds.assign step.index d) ran
    refine ⟨env', holds', ?_⟩
    rw [List.map_cons, List.cons_append, stepStatement, execute, eval_stepExpr holds assigned]
    exact executed

/-- The code returns what the straight line makes of the last two accumulators. -/
theorem execute_result {value : ℚ} (holds : Holds env table twice acc)
    (finished : finish table twice (accumulator acc 1) (accumulator acc 2) = .ok value) :
    execute env resultLine.statements = some value := by
  obtain ⟨coefficient, argument, accumulators⟩ := holds
  rw [finish] at finished
  obtain ⟨halfTwice, halved, finished⟩ := ok_of_bind_ok finished
  obtain ⟨d, first, finished⟩ := ok_of_bind_ok finished
  obtain ⟨product, multiplied, finished⟩ := ok_of_bind_ok finished
  obtain ⟨dd, second, finished⟩ := ok_of_bind_ok finished
  obtain ⟨difference, subtracted, finished⟩ := ok_of_bind_ok finished
  obtain ⟨c, item, finished⟩ := ok_of_bind_ok finished
  obtain ⟨constant, halved', finished⟩ := ok_of_bind_ok finished
  cases halved
  cases multiplied
  cases subtracted
  cases halved'
  cases finished
  simp [resultLine, Line.statements, execute, plus, minus, times, Expr.eval, Op.apply, argument,
    accumulators _ _ first, accumulators _ _ second, coefficient _ _ item, literalValue?_half]

end Steps

section Body

variable {env : Env} {x low high : ℚ}

/-- The declarations of the coefficients declare them and nothing else. -/
theorem execute_coefficients {literals : List String} {coeffs : List ℚ} (rest : List Statement)
    (values : List.Forall₂ (fun s c => literalValue? s = some c) literals coeffs) (i : ℕ)
    (env : Env) :
    ∃ env' : Env,
      (∀ j (inside : j < coeffs.length), env' (coefficientName (i + j)) = some coeffs[j]) ∧
      (∀ name, (∀ j, i ≤ j → coefficientName j ≠ name) → env' name = env name) ∧
      execute env (coefficientStatements i literals ++ rest) = execute env' rest := by
  induction values generalizing i env with
  | nil => exact ⟨env, fun j inside => absurd inside (Nat.not_lt_zero j), fun _ _ => rfl, rfl⟩
  | @cons s c literals coeffs value values ih =>
    obtain ⟨env', declared, kept, executed⟩ :=
      ih (i + 1) (Function.update env (coefficientName i) (some c))
    refine ⟨env', ?_, ?_, ?_⟩
    · intro j inside
      cases j with
      | zero =>
        -- Later declarations have other names, so the first one is not overwritten.
        have self := kept (coefficientName i) fun j later same => by
          have equal := coefficientName_injective same
          omega
        rw [Nat.add_zero, self]
        exact Function.update_self ..
      | succ j =>
        have next := declared j (Nat.lt_of_succ_lt_succ inside)
        rwa [Nat.add_assoc, Nat.add_comm 1 j] at next
    · intro name other
      rw [kept name fun j later => other j (by omega),
        Function.update_of_ne (other i le_rfl).symm]
    · rw [coefficientStatements, coefficientLines, List.flatMap_cons, List.append_assoc,
        Line.statements, List.singleton_append, execute, Expr.eval, value]
      exact executed

/-- The factor and the offset can only be computed when the interval is not a point. -/
theorem scaleOffset_eq_ok {a b : ℚ} (mapped : scaleOffset low high = .ok (a, b)) :
    high - low ≠ 0 ∧ a = 4 * (1 / (high - low)) ∧ b = -4 * low * (1 / (high - low)) - 2 := by
  -- Over a point the division fails, and nothing is returned.
  by_cases proper : low = high
  · subst proper
    simp [scaleOffset, Arithmetic.div, bind, Except.bind] at mapped
  · rw [scaleOffset_rat proper, Except.ok.injEq, Prod.mk.injEq] at mapped
    exact ⟨sub_ne_zero.mpr (Ne.symm proper), mapped.1.symm, mapped.2.symm⟩

/-- The mapping lines compute the argument of the recurrence and declare no coefficient. -/
theorem execute_mapping {xMin xMax : String} {a b : ℚ} (rest : List Statement)
    (argument : env "x" = some x) (lower : literalValue? xMin = some low)
    (upper : literalValue? xMax = some high) (mapped : scaleOffset low high = .ok (a, b)) :
    ∃ env' : Env, env' "xRel2" = some (a * x + b) ∧
      (∀ i, env' (coefficientName i) = env (coefficientName i)) ∧
      execute env ((mappingLines xMin xMax).flatMap Line.statements ++ rest) =
        execute env' rest := by
  obtain ⟨width, rfl, rfl⟩ := scaleOffset_eq_ok mapped
  let k := 1 / (high - low)
  let a := 4 * k
  let b := -4 * low * k - 2
  let bounds := Function.update (Function.update env "xMin" (some low)) "xMax" (some high)
  let constants := Function.update (Function.update (Function.update bounds "k" (some k)) "a"
    (some a)) "b" (some b)
  refine ⟨Function.update constants "xRel2" (some (a * x + b)), Function.update_self .., ?_, ?_⟩
  · intro i
    have other (name : String) (first : name.toList.head? ≠ some 'c') :=
      coefficientName_ne first i
    simp only [constants, bounds]
    rw [Function.update_of_ne (other _ (by decide)), Function.update_of_ne (other _ (by decide)),
      Function.update_of_ne (other _ (by decide)), Function.update_of_ne (other _ (by decide)),
      Function.update_of_ne (other _ (by decide)), Function.update_of_ne (other _ (by decide))]
  · have four : literalValue? "4.0f" = some 4 := literalValue?_four false
    have minusFour : literalValue? "-4.0f" = some (-4) := literalValue?_four true
    simp [mappingLines, Line.statements, execute, dividedBy, minus, times, plus, Expr.eval,
      Op.apply, argument, lower, upper, width, literalValue?_one, literalValue?_two, four,
      minusFour, constants, bounds, a, b, k]

/-- The body of the evaluator returns the value of the straight line. -/
theorem execute_body {literals : List String} {coeffs : List ℚ} {xMin xMax container : String}
    {value : ℚ} (values : List.Forall₂ (fun s c => literalValue? s = some c) literals coeffs)
    (argument : env "x" = some x) (lower : literalValue? xMin = some low)
    (upper : literalValue? xMax = some high)
    (computed : evaluateUnrolled (Table.ofList container coeffs) x low high = .ok value) :
    execute env (bodyStatements literals xMin xMax) = some value := by
  obtain ⟨⟨a, b⟩, mapped, computed⟩ := ok_of_bind_ok computed
  obtain ⟨_, scaled, computed⟩ := ok_of_bind_ok computed
  obtain ⟨_, shifted, computed⟩ := ok_of_bind_ok computed
  obtain ⟨_, counted, computed⟩ := ok_of_bind_ok computed
  obtain ⟨acc, ran, finished⟩ := ok_of_bind_ok computed
  cases scaled
  cases shifted
  cases counted
  obtain ⟨env₁, declared, kept, executed₁⟩ := execute_coefficients
    ((mappingLines xMin xMax).flatMap Line.statements ++
      ((unrolledSteps literals.length).map stepStatement ++ resultLine.statements)) values 0 env
  have argument₁ : env₁ "x" = some x := by
    rw [kept "x" fun j _ => coefficientName_ne (by decide) j, argument]
  obtain ⟨env₂, twice, kept₂, executed₂⟩ := execute_mapping
    ((unrolledSteps literals.length).map stepStatement ++ resultLine.statements)
    argument₁ lower upper mapped
  have holds : Holds env₂ (Table.ofList container coeffs) (a * x + b) [] := by
    refine ⟨?_, twice, ?_⟩
    · intro i c item
      rw [kept₂]
      rcases lt_or_ge i coeffs.length with inside | beyond
      · rw [ofList_item container coeffs inside] at item
        cases item
        have found := declared i inside
        rwa [Nat.zero_add] at found
      · simp [Table.ofList, beyond] at item
    · intro i d found
      cases found
  rw [← values.length_eq] at ran
  obtain ⟨env₃, holds₃, executed₃⟩ := execute_steps resultLine.statements holds ran
  rw [bodyStatements, List.append_assoc, List.append_assoc, executed₁, executed₂, executed₃]
  exact execute_result holds₃ finished

end Body

end ClenshawCode.Shader
