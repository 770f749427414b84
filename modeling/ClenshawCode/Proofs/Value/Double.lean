import ClenshawCode.Proofs.Binary64.Bits
import ClenshawCode.Proofs.Results
import ClenshawCode.Value.Cells
import ClenshawCode.Value.Convert

/-!
# Values that are doubles

A number or a numeral is converted to a double before it is saved. A double that is no number and
comes from a known place is left as it is, and a reader makes one that comes from the reader, so
there are several values for it, but only one for every other double.

## Main definitions

* `Value.Stores`: the values of a double
* `Value.reread`: the value that a reader gives for a double
-/

namespace ClenshawCode.Value

open Binary64

/-- The values of a double. -/
inductive Stores : Value → Float → Prop
  | float (x : Float) : Stores (.float x) x
  | nan (origin : Origin) : Stores (.nan origin) Binary64.nan

/-- The value that a reader gives for a double. -/
def reread (origin : Origin) (x : Float) : Value :=
  match view x with
  | .nan => .nan origin
  | _ => .float x

variable {origin : Origin} {v w : Value} {x : Float}

theorem reread_nan (origin : Origin) : reread origin Binary64.nan = .nan origin := by
  rw [reread, view_nan]

theorem reread_of_number (number : isNaN x = false) : reread origin x = .float x := by
  rw [reread]
  split
  · rename_i none
    rw [isNaN, none] at number
    cases number
  · rfl

theorem stores_reread (origin : Origin) (x : Float) : Stores (reread origin x) x := by
  cases number : isNaN x with
  | false =>
    rw [reread_of_number number]
    exact .float x
  | true =>
    obtain rfl := eq_nan_of_isNaN number
    rw [reread_nan]
    exact .nan origin

/-- A double that is a number has one value. -/
theorem Stores.eq_float (double : Stores v x) (number : isNaN x = false) : v = .float x := by
  cases double with
  | float x => rfl
  | nan origin =>
    rw [isNaN_nan] at number
    cases number

theorem Stores.toDouble (double : Stores v x) : v.toDouble = .ok v := by
  cases double <;> rfl

theorem Stores.toFloat (double : Stores v x) : v.toFloat = .ok x := by
  cases double <;> rfl

/-- Everything but a double that is no number and comes from a known place is made anew. -/
theorem toDouble_eq (v : Value) :
    v.toDouble = (do let x ← v.toFloat; return .float x) ∨ ∃ origin, v = .nan origin := by
  cases v with
  | nan origin => exact .inr ⟨origin, rfl⟩
  | _ => exact .inl rfl

/-- What can be converted to a double has a value that is one. -/
theorem exists_toDouble (converts : v.toFloat = .ok x) :
    ∃ w, v.toDouble = .ok w ∧ Stores w x := by
  rcases v.toDouble_eq with plain | ⟨origin, rfl⟩
  · rw [converts] at plain
    exact ⟨.float x, plain, .float x⟩
  · obtain rfl : Binary64.nan = x := Except.ok.inj converts
    exact ⟨.nan origin, rfl, .nan origin⟩

theorem exists_stores_of_toDouble (converted : v.toDouble = .ok w) :
    ∃ x, v.toFloat = .ok x ∧ Stores w x := by
  rcases v.toDouble_eq with plain | ⟨origin, rfl⟩
  · obtain ⟨x, number, same⟩ := ok_of_bind_ok (plain.symm.trans converted)
    obtain rfl : .float x = w := Except.ok.inj same
    exact ⟨x, number, .float x⟩
  · obtain rfl : .nan origin = w := Except.ok.inj converted
    exact ⟨_, rfl, .nan origin⟩

/-- A double is a number of its own. -/
theorem Stores.expand (double : Stores v x) (cell : Kind → ℕ → Value) :
    v.expand cell = v := by
  cases double <;> rfl

theorem expandItems_of_stores {ws : List Value} {xs : List Float}
    (doubles : List.Forall₂ Stores ws xs) (cell : Kind → ℕ → Value) :
    expandItems cell ws = ws := by
  induction doubles with
  | nil => rfl
  | cons first _ ih => rw [expandItems, first.expand, ih]

/-- A double that is a number is the same number as itself. -/
theorem sameKey_float (number : isNaN x = false) :
    sameKey false (.float x) (.float x) = true := by
  -- A number equals itself, and so does an infinity; only what is no number does not.
  have same : (exact x).same (exact x) = true := by
    rcases float_cases x with rfl | ⟨negative, rfl⟩ | ⟨negative, bits, finite, rfl⟩
    · rw [isNaN_nan] at number
      cases number
    · rw [exact, view_infinity]
      exact beq_self_eq_true negative
    · rw [exact, view_ofSignedBits negative finite]
      exact beq_self_eq_true _
  exact same

end ClenshawCode.Value
