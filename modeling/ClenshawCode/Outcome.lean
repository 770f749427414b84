import ClenshawCode.Failure

/-!
# Results with warnings

An operation that renders text may warn its user and still succeed, and it may fail after it has
warned. An outcome keeps both: the warnings in the order in which they were given, and the result.

## Main definitions

* `Warning`: what a user is warned of
* `Outcome`: warnings and a result
* `Outcome.ofExcept`, `Outcome.warn`: an outcome without warnings, and one that only warns
-/

namespace ClenshawCode

/-- What a user is warned of. -/
inductive Warning where
  /-- A description with line breaks was written on one line. -/
  | joinedLines (description : String)
deriving DecidableEq, Repr

/-- The text of a warning. -/
def Warning.message : Warning → String
  | joinedLines description =>
    "Description contains line breaks, joining into one line: " ++ Text.quoted description

/-- The warnings that an operation gave, in order, and its result. -/
structure Outcome (α : Type) where
  warnings : List Warning
  result : Except Failure α

namespace Outcome

variable {α β : Type}

/-- A result without warnings. -/
def ofExcept (result : Except Failure α) : Outcome α := ⟨[], result⟩

/-- A warning and no more. -/
def warn (w : Warning) : Outcome Unit := ⟨[w], .ok ()⟩

/-- One operation after another; the second does not happen if the first fails. -/
def andThen (first : Outcome α) (next : α → Outcome β) : Outcome β :=
  match first.result with
  | .error e => ⟨first.warnings, .error e⟩
  | .ok a => ⟨first.warnings ++ (next a).warnings, (next a).result⟩

instance : Monad Outcome where
  pure a := ofExcept (.ok a)
  bind := andThen

instance : MonadLift (Except Failure) Outcome where
  monadLift := ofExcept

@[simp] theorem pure_warnings (a : α) : (pure a : Outcome α).warnings = [] := rfl

@[simp] theorem pure_result (a : α) : (pure a : Outcome α).result = .ok a := rfl

@[simp] theorem ofExcept_bind_ok (a : α) (next : α → Outcome β) :
    (ofExcept (.ok a) >>= next) = next a := rfl

@[simp] theorem ofExcept_bind_error (e : Failure) (next : α → Outcome β) :
    ((ofExcept (.error e) : Outcome α) >>= next) = ofExcept (.error e) := rfl

end Outcome

end ClenshawCode
