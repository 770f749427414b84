import ClenshawCode.Proofs.Recurrence.Backward
import Mathlib.Data.List.TakeWhile

/-!
# The straight line simulates the loop

The straight line keeps all accumulators, the loop only the last two. After the step with index `i`
every accumulator from `i` up to `n + 1` holds the first component of `backward` for the
coefficients from its index on, which is zero from `n` on. The four kinds of steps are the general
one with the zero terms left out, so one step lemma covers them, and the loop after its turn with
coefficient `i` holds the accumulators `i` and `i + 1`.

## Main definitions

* `stepsDownTo`: the steps of the straight line down to an index
* `Accumulated`: what the accumulators hold after them
-/

namespace ClenshawCode

/-- The steps of the straight line for `n` coefficients down to the one with index `i`. -/
def stepsDownTo (n i : ℕ) : List Step :=
  (unrolledSteps n).takeWhile fun step => decide (i ≤ step.index)

/-- The accumulators from `i` up to the boundary hold the values of the recurrence. -/
def Accumulated (twice : Rat) (coeffs : List Rat) (i : ℕ) (acc : Accumulators Rat) : Prop :=
  ∀ j, i ≤ j → j ≤ coeffs.length + 1 →
    accumulator acc j = .ok (backward twice (coeffs.drop j)).1

section Steps

theorem unrolledSteps_eq (n : ℕ) :
    unrolledSteps n = (List.range' 1 (n + 1)).reverse.map fun j => ⟨j, stepKind n j⟩ := by
  rw [unrolledSteps, List.range'_eq_map_range, ← List.map_reverse, List.map_map]
  refine List.map_congr_left fun i _ => ?_
  rw [Function.comp_apply, Nat.add_comm]

/-- The steps for `n` coefficients with an index of at least `i`, the highest index first. -/
theorem stepsDownTo_eq {n i : ℕ} (positive : 0 < i) (within : i ≤ n + 2) :
    stepsDownTo n i = (List.range' i (n + 2 - i)).reverse.map fun j => ⟨j, stepKind n j⟩ := by
  have split : List.range' 1 (n + 1) = List.range' 1 (i - 1) ++ List.range' i (n + 2 - i) := by
    have next : 1 + (i - 1) = i := by omega
    have count : i - 1 + (n + 2 - i) = n + 1 := by omega
    rw [← count, ← List.range'_append_1, next]
  -- Highest first, the steps down to `i` are an initial segment: all others have a lower index.
  rw [stepsDownTo, unrolledSteps_eq, split, List.reverse_append, List.map_append,
    List.takeWhile_append_of_pos]
  · rw [List.takeWhile_eq_nil_iff.mpr, List.append_nil]
    intro nonempty
    have below := List.getElem_mem nonempty
    simp only [List.mem_map, List.mem_reverse, List.mem_range'_1] at below
    obtain ⟨j, inside, same⟩ := below
    rw [List.get_eq_getElem, ← same, decide_eq_true_eq]
    have lower : j < i := by omega
    exact Nat.not_le.mpr lower
  · intro step member
    simp only [List.mem_map, List.mem_reverse, List.mem_range'_1] at member
    obtain ⟨j, inside, rfl⟩ := member
    exact decide_eq_true inside.1

/-- All steps. -/
theorem stepsDownTo_one (n : ℕ) : stepsDownTo n 1 = unrolledSteps n := by
  rw [stepsDownTo_eq Nat.one_pos (by omega), unrolledSteps_eq]
  rfl

end Steps

section Simulation

variable (container : String) {twice : Rat} {coeffs : List Rat} {acc : Accumulators Rat} {i : ℕ}

theorem accumulator_cons_self (i : ℕ) (d : Rat) (acc : Accumulators Rat) :
    accumulator ((i, d) :: acc) i = .ok d := by
  simp [accumulator]

theorem accumulator_cons_of_ne {i j : ℕ} (other : j ≠ i) (d : Rat) (acc : Accumulators Rat) :
    accumulator ((i, d) :: acc) j = accumulator acc j := by
  rw [accumulator, accumulator, List.lookup_cons, beq_false_of_ne other]

/-- A step of any kind assigns the value of the recurrence. -/
theorem stepValue_accumulated (above : Accumulated twice coeffs (i + 1) acc) :
    stepValue (Table.ofList container coeffs) twice acc ⟨i, stepKind coeffs.length i⟩ =
      .ok (backward twice (coeffs.drop i)).1 := by
  -- The kind of a step says how many of the accumulators above it are beyond the coefficients.
  rcases lt_or_ge i coeffs.length with inside | beyond
  · have next := above (i + 1) le_rfl (by omega)
    have item := ofList_item container coeffs inside
    have value := backward_drop_fst twice inside
    by_cases last : i + 1 = coeffs.length
    · have kind : stepKind coeffs.length i = .leading := by
        simp [stepKind, last, Nat.not_le.mpr inside]
      have zero₁ := backward_drop_of_le twice last.ge
      have zero₂ := backward_drop_of_le twice (show coeffs.length ≤ i + 2 by omega)
      rw [value, zero₁, zero₂]
      simp [stepValue, kind, item]
    · by_cases second : i + 2 = coeffs.length
      · have kind : stepKind coeffs.length i = .second := by
          simp [stepKind, last, second, Nat.not_le.mpr inside]
        have zero₂ := backward_drop_of_le twice second.ge
        rw [value, zero₂]
        simp [stepValue, kind, item, next]
      · have kind : stepKind coeffs.length i = .general := by
          simp [stepKind, last, second, Nat.not_le.mpr inside]
        have afterNext := above (i + 2) (by omega) (by omega)
        rw [value]
        simp [stepValue, kind, item, next, afterNext]
        ring
  · have kind : stepKind coeffs.length i = .boundary := by simp [stepKind, beyond]
    rw [backward_drop_of_le twice beyond]
    simp [stepValue, kind]

/-- A step extends what the accumulators hold by one index. -/
theorem Accumulated.cons (above : Accumulated twice coeffs (i + 1) acc) :
    Accumulated twice coeffs i ((i, (backward twice (coeffs.drop i)).1) :: acc) := by
  intro j lower upper
  rcases Nat.eq_or_lt_of_le lower with rfl | greater
  · exact accumulator_cons_self i _ acc
  · rw [accumulator_cons_of_ne greater.ne']
    exact above j greater upper

theorem runSteps_append {α : Type} [Arithmetic α] (table : Table α) (twice : α)
    (first second : List Step) (acc : Accumulators α) :
    runSteps table twice (first ++ second) acc =
      (runSteps table twice first acc >>= runSteps table twice second) := by
  induction first generalizing acc with
  | nil => rfl
  | cons step rest ih =>
    simp only [List.cons_append, runSteps, bind_assoc]
    exact bind_congr fun d => ih _

/-- The steps from the boundary down to an index leave the values of the recurrence in the
accumulators. -/
theorem runSteps_stepsDownTo (positive : 0 < i) (within : i ≤ coeffs.length + 2) :
    ∃ acc, runSteps (Table.ofList container coeffs) twice (stepsDownTo coeffs.length i) [] =
        .ok acc ∧ Accumulated twice coeffs i acc := by
  -- The induction runs down from the boundary, below which no accumulator is known yet.
  induction within using Nat.decreasingInduction with
  | self =>
    refine ⟨[], ?_, fun j lower upper => by omega⟩
    rw [stepsDownTo_eq positive le_rfl, Nat.sub_self]
    rfl
  | of_succ i inside ih =>
    obtain ⟨acc, ran, above⟩ := ih (Nat.succ_pos i)
    have count : coeffs.length + 2 - i = coeffs.length + 2 - (i + 1) + 1 := by omega
    have split : stepsDownTo coeffs.length i =
        stepsDownTo coeffs.length (i + 1) ++ [⟨i, stepKind coeffs.length i⟩] := by
      rw [stepsDownTo_eq positive (by omega), stepsDownTo_eq (Nat.succ_pos i) inside, count,
        List.range'_succ]
      simp
    refine ⟨_, ?_, above.cons⟩
    rw [split, runSteps_append, ran, except_ok_bind, runSteps,
      stepValue_accumulated container above]
    rfl

/-- The straight line computes the value of the recurrence. -/
theorem evaluateUnrolled_rat (c : Rat) (rest : List Rat) (x : Rat) {low high : Rat}
    (proper : low ≠ high) :
    evaluateUnrolled (Table.ofList container (c :: rest)) x low high =
      .ok (expansionValue c rest (twiceArgument x low high)) := by
  obtain ⟨acc, ran, holds⟩ :=
    @runSteps_stepsDownTo container (twiceArgument x low high) (c :: rest) 1 Nat.one_pos (by omega)
  rw [stepsDownTo_one] at ran
  have first : accumulator acc 1 = .ok (backward (twiceArgument x low high) rest).1 :=
    holds 1 le_rfl (by simp)
  have second : accumulator acc 2 = .ok (backward (twiceArgument x low high) rest).2 := by
    rw [holds 2 (by omega) (by simp), ← backward_drop_snd]
    rfl
  rw [evaluateUnrolled, scaleOffset_rat proper, except_ok_bind]
  simp only [rat_mul, rat_add, except_ok_bind, ofList_size]
  rw [scale_mul_add_offset x proper, ran, except_ok_bind, first, second]
  exact finish_rat container _ c rest _ _

/-- The straight line simulates the loop on exact rationals. Both map the argument alike. After the
step with index `i` and the turn with coefficient `i` the accumulators `i` and `i + 1` of the
straight line are the two of the loop, and both arrive at one value, so no look-up fails. -/
theorem unrolled_simulates_loop (coeffs : List Rat) (nonempty : coeffs ≠ [])
    (x low high : Rat) (proper : low ≠ high) :
    ∃ twice value : Rat,
      remap x low high = .ok twice ∧
      (∃ a b : Rat, scaleOffset low high = .ok (a, b) ∧ a * x + b = twice) ∧
      (∀ i, 1 ≤ i → i < coeffs.length → ∃ (d dd : Rat) (acc : Accumulators Rat),
        loopState (Table.ofList container coeffs) twice coeffs.length (coeffs.length - i) =
          .ok (d, dd) ∧
        runSteps (Table.ofList container coeffs) twice (stepsDownTo coeffs.length i) [] =
          .ok acc ∧
        accumulator acc i = .ok d ∧ accumulator acc (i + 1) = .ok dd) ∧
      evaluateUnrolled (Table.ofList container coeffs) x low high = .ok value ∧
      clenshaw (Table.ofList container coeffs) x low high = .ok value := by
  obtain ⟨c, rest, rfl⟩ := List.exists_cons_of_ne_nil nonempty
  refine ⟨_, _, remap_rat x proper, ⟨_, _, scaleOffset_rat proper, scale_mul_add_offset x proper⟩,
    ?_, evaluateUnrolled_rat container c rest x proper, clenshaw_rat container c rest x proper⟩
  intro i positive inside
  obtain ⟨acc, ran, holds⟩ :=
    @runSteps_stepsDownTo container (twiceArgument x low high) (c :: rest) i positive (by omega)
  refine ⟨_, _, acc, loopState_backward container _ (c :: rest) inside.le, ran,
    holds i le_rfl (by omega), ?_⟩
  rw [backward_drop_snd]
  exact holds (i + 1) (by omega) (by omega)

/-- Four terms at the point of which twice the mapped argument is `-1`; both forms arrive at
`1 / 2 - 1 - 3 / 2 + 4`. -/
theorem unrolled_simulates_loop_four_terms :
    ([1, 2, 3, 4] : List Rat) ≠ [] ∧ (0 : Rat) ≠ 2 ∧
      remap (1 / 2 : Rat) 0 2 = .ok (-1) ∧
      evaluateUnrolled (Table.ofList "list" ([1, 2, 3, 4] : List Rat)) (1 / 2) 0 2 = .ok 2 ∧
      clenshaw (Table.ofList "list" ([1, 2, 3, 4] : List Rat)) (1 / 2) 0 2 = .ok 2 := by
  have nonempty : ([1, 2, 3, 4] : List Rat) ≠ [] := List.cons_ne_nil _ _
  have proper : (0 : Rat) ≠ 2 := by norm_num
  have mapped : twiceArgument (1 / 2 : Rat) 0 2 = -1 := by norm_num [twiceArgument]
  have worth : expansionValue 1 [2, 3, 4] (-1) = 2 := by norm_num [expansionValue, backward]
  obtain ⟨twice, value, argument, -, -, straight, loop⟩ :=
    unrolled_simulates_loop "list" [1, 2, 3, 4] nonempty (1 / 2) 0 2 proper
  have computed := clenshaw_rat "list" 1 [2, 3, 4] (1 / 2) proper
  obtain rfl : -1 = twice := by
    rw [← mapped]
    exact Except.ok.inj ((remap_rat (1 / 2) proper).symm.trans argument)
  obtain rfl : 2 = value := by
    rw [mapped, worth] at computed
    exact Except.ok.inj (computed.symm.trans loop)
  exact ⟨nonempty, proper, argument, straight, loop⟩

end Simulation

end ClenshawCode
