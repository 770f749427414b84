import ClenshawCode.Proofs.Json.Value

/-!
# What the number of levels changes

Lists and tables in JSON are followed into one another down to a number of levels. The number
decides whether there is a result, but never which one: with as many levels as it needs an operation
has a result, and with fewer it has the same result or comes to a failure that says that it cannot
go deeper. A sequence of such operations is one, and so is the reader.

## Main definitions

* `YieldsWithin`: an operation that has a result with a number of levels
* `Json.Fault.IsDeep`, `Failure.IsDeep`: the failures of an operation that cannot go deeper

## Main results

* `Json.yieldsWithin_read`: a text that was read is read with any number of levels, or is too deep
-/

namespace ClenshawCode

/-- An operation that follows what it is given down to a number of levels has a result if there are
as many as it needs. With fewer it has the same result or comes to a failure of a certain kind. -/
def YieldsWithin {ε α : Type} (Deep : ε → Prop) (need : ℕ) (f : ℕ → Except ε α) (a : α) : Prop :=
  ∀ levels, f levels = .ok a ∨ levels < need ∧ ∃ failure, Deep failure ∧ f levels = .error failure

namespace YieldsWithin

variable {ε α β γ : Type} {Deep : ε → Prop} {need : ℕ} {f : ℕ → Except ε α} {a : α} {b : β}

theorem eq_ok (yields : YieldsWithin Deep need f a) {levels : ℕ} (enough : need ≤ levels) :
    f levels = .ok a := by
  rcases yields levels with done | ⟨few, -⟩
  · exact done
  · omega

theorem of_eq_ok (done : ∀ levels, f levels = .ok a) : YieldsWithin Deep need f a :=
  fun levels => .inl (done levels)

/-- An operation that takes a level and fails without one. -/
theorem succ (none : ∃ failure, Deep failure ∧ f 0 = .error failure)
    (yields : YieldsWithin Deep need (fun levels => f (levels + 1)) a) :
    YieldsWithin Deep (need + 1) f a
  | 0 => .inr ⟨need.succ_pos, none⟩
  | levels + 1 => (yields levels).imp_right fun ⟨few, deep⟩ => ⟨Nat.succ_lt_succ few, deep⟩

/-- With one level to spare an operation needs one less. -/
theorem of_succ (yields : YieldsWithin Deep (need + 1) f a) :
    YieldsWithin Deep need (fun levels => f (levels + 1)) a := fun levels =>
  (yields (levels + 1)).imp_right fun ⟨few, deep⟩ => ⟨Nat.lt_of_succ_lt_succ few, deep⟩

theorem bind {g : ℕ → α → Except ε β} (first : YieldsWithin Deep need f a)
    (next : YieldsWithin Deep need (fun levels => g levels a) b) :
    YieldsWithin Deep need (fun levels => f levels >>= g levels) b := by
  intro levels
  rcases first levels with done | ⟨few, failure, deep, failed⟩
  · have rest : (f levels >>= g levels) = g levels a := by rw [done, except_ok_bind]
    exact (next levels).imp rest.trans fun ⟨few, failure, deep, failed⟩ =>
      ⟨few, failure, deep, rest.trans failed⟩
  · have rest : (f levels >>= g levels) = .error failure := by rw [failed]; rfl
    exact .inr ⟨few, failure, deep, rest⟩

theorem map (yields : YieldsWithin Deep need f a) (g : α → β) :
    YieldsWithin Deep need (fun levels => f levels >>= fun a => .ok (g a)) (g a) :=
  yields.bind (of_eq_ok fun _ => rfl)

/-- A list of operations has the list of their results. -/
theorem mapM {f : ℕ → γ → Except ε α} {items : List γ} {as : List α}
    (each : List.Forall₂ (fun c a => YieldsWithin Deep need (f · c) a) items as) :
    YieldsWithin Deep need (fun levels => items.mapM (f levels)) as := by
  induction each with
  | nil => exact of_eq_ok fun _ => rfl
  | cons first _ ih =>
    simp only [List.mapM_cons]
    exact first.bind (ih.map _)

end YieldsWithin

/-- The failures of an operation that cannot go deeper. -/
def Failure.IsDeep (failure : Failure) : Prop := ∃ nesting, failure = .tooDeep nesting

namespace Json

/-- The faults of a text that is too deep. -/
def Fault.IsDeep (fault : Fault) : Prop := ∃ nesting, fault = .tooDeep nesting

section Reading

theorem yieldsWithin_leafValue {depth : ℕ} {cs left : List Char} {v : Value}
    (read : leafValue depth cs = .ok (v, left)) :
    YieldsWithin Fault.IsDeep depth (fun levels => leafValue levels cs) (v, left) := by
  -- A word for a double takes a level, and everything else is read without one.
  cases word : beginsWithDouble cs with
  | false =>
    rw [leafValue_of_not_beginsWithDouble word] at read
    simp only [leafValue_of_not_beginsWithDouble word]
    exact .of_eq_ok fun _ => read
  | true =>
    cases depth with
    | zero =>
      rw [leafValue, word] at read
      cases read
    | succ depth =>
      rw [leafValue_succ] at read
      refine .succ ⟨_, ⟨.called, rfl⟩, by simp [leafValue, word]⟩ ?_
      simp only [leafValue_succ]
      exact .of_eq_ok fun _ => read

mutual

/-- A value that was read is read with any number of levels, or it is too deep. -/
theorem yieldsWithin_value {fuel depth : ℕ} {cs left : List Char} {v : Value}
    (read : value fuel depth cs = .ok (v, left)) :
    YieldsWithin Fault.IsDeep depth (fun levels => value fuel levels cs) (v, left) := by
  rw [value.eq_def] at read
  split at read
  · cases read
  · cases read
  -- A bracket or a brace takes a level, and what is inside is read with the others.
  · refine .succ ⟨_, ⟨.jsonList, rfl⟩, rfl⟩ fun levels => ?_
    simp only [value]
    split at read
    · exact .inl read
    · obtain ⟨⟨items, behind⟩, inside, same⟩ := ok_of_bind_ok read
      cases same
      exact (yieldsWithin_listItems inside).map (fun r => (Value.list r.1, r.2)) levels
  · refine .succ ⟨_, ⟨.jsonTable, rfl⟩, rfl⟩ fun levels => ?_
    simp only [value]
    split at read
    · exact .inl read
    · obtain ⟨⟨entries, behind⟩, inside, same⟩ := ok_of_bind_ok read
      cases same
      exact (yieldsWithin_objectEntries inside).map
        (fun r => (Value.dict (Value.ofPairs r.1), r.2)) levels
  · rename_i noList noTable list table
    -- What is neither a list nor a table with some levels is neither of them with others.
    have bracket : ∀ n rest, fuel = n + 1 → cs ≠ '[' :: rest := by
      rintro n rest rfl rfl
      cases depth with
      | zero => exact noList n rest rfl rfl rfl
      | succ depth => exact list n depth rest rfl rfl rfl
    have brace : ∀ n rest, fuel = n + 1 → cs ≠ '\x7b' :: rest := by
      rintro n rest rfl rfl
      cases depth with
      | zero => exact noTable n rest rfl rfl rfl
      | succ depth => exact table n depth rest rfl rfl rfl
    have leaf (levels : ℕ) : value fuel levels cs = leafValue levels cs := by
      rw [value.eq_def]
      split
      · exact absurd rfl (bracket _ _ rfl)
      · exact absurd rfl (brace _ _ rfl)
      · exact absurd rfl (bracket _ _ rfl)
      · exact absurd rfl (brace _ _ rfl)
      · rfl
    simp only [leaf]
    exact yieldsWithin_leafValue read
termination_by fuel

/-- So are the items of a list. -/
theorem yieldsWithin_listItems {fuel depth : ℕ} {cs left : List Char} {items : List Value}
    (read : listItems fuel depth cs = .ok (items, left)) :
    YieldsWithin Fault.IsDeep depth (fun levels => listItems fuel levels cs) (items, left) := by
  rw [listItems.eq_def] at read
  split at read
  · cases read
  · obtain ⟨⟨v, behind⟩, item, read⟩ := ok_of_bind_ok read
    simp only [listItems]
    refine (yieldsWithin_value item).bind fun levels => ?_
    dsimp only at read ⊢
    split at read
    · exact .inl read
    · obtain ⟨⟨others, left⟩, more, same⟩ := ok_of_bind_ok read
      cases same
      exact (yieldsWithin_listItems more).map (fun r => (v :: r.1, r.2)) levels
    · cases read
termination_by fuel

/-- So are the entries of an object. -/
theorem yieldsWithin_objectEntries {fuel depth : ℕ} {cs left : List Char}
    {entries : List (Value × Value)} (read : objectEntries fuel depth cs = .ok (entries, left)) :
    YieldsWithin Fault.IsDeep depth (fun levels => objectEntries fuel levels cs)
      (entries, left) := by
  rw [objectEntries.eq_def] at read
  split at read
  · cases read
  · split at read
    · obtain ⟨⟨key, behind⟩, name, read⟩ := ok_of_bind_ok read
      simp only [objectEntries, name, except_ok_bind]
      dsimp only at read ⊢
      split at read
      · obtain ⟨⟨v, behind⟩, item, read⟩ := ok_of_bind_ok read
        refine (yieldsWithin_value item).bind fun levels => ?_
        dsimp only at read ⊢
        split at read
        · exact .inl read
        · obtain ⟨⟨others, left⟩, more, same⟩ := ok_of_bind_ok read
          cases same
          exact (yieldsWithin_objectEntries more).map
            (fun r => ((Value.text key, v) :: r.1, r.2)) levels
        · cases read
      · cases read
    · cases read
termination_by fuel

end

theorem yieldsWithin_readAll {depth : ℕ} {cs : List Char} {v : Value}
    (read : readAll depth cs = .ok v) :
    YieldsWithin Fault.IsDeep depth (fun levels => readAll levels cs) v := by
  rw [readAll] at read
  split at read
  · cases read
  · rename_i plain
    obtain ⟨⟨v, behind⟩, front, all⟩ := ok_of_bind_ok read
    simp only [readAll, if_neg plain]
    exact (yieldsWithin_value front).bind fun levels => .inl all

/-- A text that was read is read as the same value with as many levels or more, and with fewer it is
read as that value or is too deep. -/
theorem yieldsWithin_read {depth : ℕ} {s : String} {v : Value} (found : read depth s = .ok v) :
    YieldsWithin Failure.IsDeep depth (fun levels => read levels s) v := by
  have all : readAll depth s.toList = .ok v := by
    rw [read] at found
    split at found
    · rename_i all
      rwa [Except.ok.inj found] at all
    · cases found
  intro levels
  rcases yieldsWithin_readAll all levels with done | ⟨few, _, ⟨nesting, rfl⟩, failed⟩
  · simp only [read, done]
    exact .inl trivial
  · simp only [read, failed]
    exact .inr ⟨few, _, ⟨nesting, rfl⟩, rfl⟩

end Reading

end Json

end ClenshawCode
