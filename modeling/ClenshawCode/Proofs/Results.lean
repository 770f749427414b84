import ClenshawCode.Outcome
import Mathlib.Data.List.Forall2

/-!
# Operations that succeed

What a sequence of operations gives when each of them succeeds, and what its success says about
them, for plain results and for results with warnings.
-/

namespace ClenshawCode

section Except

variable {ε α β : Type} {a : α} {b : β}

@[simp] theorem except_ok_bind (a : α) (f : α → Except ε β) :
    ((.ok a : Except ε α) >>= f) = f a := rfl

@[simp] theorem except_pure (a : α) : (pure a : Except ε α) = .ok a := rfl

/-- If a sequence has succeeded, so have its first operation and what follows it. -/
theorem ok_of_bind_ok {r : Except ε α} {next : α → Except ε β} (done : (r >>= next) = .ok b) :
    ∃ a, r = .ok a ∧ next a = .ok b := by
  cases r with
  | error failure => cases done
  | ok a => exact ⟨a, rfl, done⟩

/-- A check that has succeeded. -/
theorem eq_ok_of_isOk {r : Except ε Unit} (done : r.isOk = true) : r = .ok () := by
  cases r with
  | error failure => cases done
  | ok _ => rfl

/-- A conversion that fails for no item of a list converts the list. -/
theorem mapM_eq_ok {f : α → Except ε β} {g : α → β} {items : List α}
    (converts : ∀ a ∈ items, f a = .ok (g a)) : items.mapM f = .ok (items.map g) := by
  induction items with
  | nil => rfl
  | cons a rest ih =>
    have others := ih fun b member => converts b (List.mem_cons_of_mem a member)
    rw [List.mapM_cons, converts a List.mem_cons_self, others]
    rfl

end Except

/-- Items that each have a value have a list of values. -/
theorem exists_values {α β : Type} {R : α → β → Prop} {items : List α}
    (all : ∀ a ∈ items, ∃ b, R a b) : ∃ values, List.Forall₂ R items values := by
  induction items with
  | nil => exact ⟨[], .nil⟩
  | cons a rest ih =>
    obtain ⟨b, first⟩ := all a List.mem_cons_self
    obtain ⟨values, others⟩ := ih fun c member => all c (List.mem_cons_of_mem a member)
    exact ⟨b :: values, .cons first others⟩

namespace Outcome

variable {α β : Type} {o : Outcome α} {a : α}

/-- After a result the next operation decides. -/
theorem bind_result (next : α → Outcome β) (done : o.result = .ok a) :
    (o >>= next).result = (next a).result := by
  change (o.andThen next).result = _
  rw [andThen, done]

/-- A failure is the result of the whole sequence. -/
theorem bind_failure {failure : Failure} (next : α → Outcome β)
    (failed : o.result = .error failure) : (o >>= next).result = .error failure := by
  change (o.andThen next).result = _
  rw [andThen, failed]

/-- If a sequence has succeeded, so have its first operation and what follows it. -/
theorem ok_of_bind_result {b : β} {next : α → Outcome β} (done : (o >>= next).result = .ok b) :
    ∃ a, o.result = .ok a ∧ (next a).result = .ok b := by
  cases first : o.result with
  | error failure =>
    rw [bind_failure next first] at done
    cases done
  | ok a =>
    rw [bind_result next first] at done
    exact ⟨a, rfl, done⟩

end Outcome

end ClenshawCode
