import ClenshawCode.Proofs.Decimal.Minimal
import ClenshawCode.Proofs.Decimal.Order
import ClenshawCode.Proofs.Decimal.Shape
import ClenshawCode.Proofs.Expansion.Literals

/-!
# The general literal is shortest and exact

A finite double is written with a point or an exponent, so that it is never taken for an integer,
and with a minus sign if its sign bit is set. The text denotes a decimal to which the double is
nearest, and no decimal with fewer significant digits is rounded to the double. An integer is
written as the double nearest to it.

## Main definitions

* `Literal.IsShortest`: what a literal of a finite double has to be

## Main results

* `fullPrecision_shortest`: the general literal is of this kind
-/

namespace ClenshawCode

open Binary64 Decimal

/-- The literal of a finite double, by its sign, what is written behind the sign, and the decimal
that this denotes. -/
structure Literal.IsShortest (x : Float) (literal : String) (negative : Bool) (body : List Char)
    (d : Decimal) : Prop where
  text : literal = String.ofList (signed negative body)
  /-- Digits on both sides of a point, or an exponent. -/
  form : IsMagnitude false body
  /-- The sign bit. -/
  sign : negative = true ↔ 2 ^ 63 ≤ x.toBits.toNat
  denotes : unsigned? body = some d
  exact : RoundsTo (withSign negative d.value) x
  reads : readNumeral? literal = some x
  shortest : ∀ (negative' : Bool) (d' : Decimal), RoundsTo (withSign negative' d'.value) x →
    d.significant ≤ d'.significant

section Doubles

variable {bits : ℕ} {d : Decimal}

/-- No decimal that reads back as a magnitude has fewer digits than the shortest one. -/
theorem significant_shortestOf_le (back : d.magnitudeBits = bits) :
    (shortestOf bits).significant ≤ d.significant := by
  rw [shortestOf]
  split
  · -- The zero has no significant digits.
    exact (significant_le_of_value (n := 0) (z := 0) (by simp [value]) (by simp)).trans
      (Nat.zero_le _)
  · rename_i some
    exact significant_shortest_le some back

/-- The sign of a finite double is its first bit. -/
theorem sign_ofSignedBits (negative : Bool) (finite : bits < infinityBits) :
    negative = true ↔ 2 ^ 63 ≤ (ofSignedBits negative bits).toBits.toNat := by
  have below : bits < 2047 * 2 ^ 52 := finite
  rw [toNat_toBits_ofSignedBits negative finite.le]
  cases negative with
  | false => simp; omega
  | true => simp

/-- The text of a finite double is a shortest literal. -/
theorem isShortest_render (negative : Bool) (finite : bits < infinityBits) :
    ∃ body d, Literal.IsShortest (ofSignedBits negative bits)
      (Value.floatLayout.render (ofSignedBits negative bits)) negative body d := by
  obtain ⟨d, read, same⟩ := unsigned?_magnitudeChars_value false bits
  have back : d.magnitudeBits = bits :=
    (magnitudeBits_eq_of_value same).trans (magnitudeBits_shortestOf bits)
  have inRange : (d.num : ℚ) / d.den < overflow := by
    rw [← magnitudeBits_lt_infinityBits_iff d.num d.den_pos]
    exact back.trans_lt finite
  have rounds := roundsTo_magnitudeBits negative d.num d.den_pos inRange
  rw [num_div_den] at rounds
  refine ⟨_, d, render_ofSignedBits Value.floatLayout negative finite,
    isMagnitude_magnitudeChars false bits, sign_ofSignedBits negative finite, read, ?_,
    readNumeral?_render _, fun negative' d' rounds' => ?_⟩
  · rw [← back]
    exact rounds
  · rw [← num_div_den] at rounds'
    rw [significant_eq_of_value same]
    exact significant_shortestOf_le (rounds'.magnitudeBits_eq d'.den_pos finite)

end Doubles

section Integers

/-- An integer that does not overflow is rounded to the nearest double. -/
theorem exists_ofInt? {n : ℤ} (small : n.natAbs < overflow) :
    ∃ x, ofInt? n = some x ∧ RoundsTo n x ∧ (2 ^ 63 ≤ x.toBits.toNat ↔ n < 0) := by
  have ratio : ((n.natAbs : ℕ) : ℚ) / (1 : ℕ) < overflow := by
    rw [Nat.cast_one, div_one]
    exact_mod_cast small
  have finite := (magnitudeBits_lt_infinityBits_iff n.natAbs Nat.one_pos).mpr ratio
  have rounds := roundsTo_magnitudeBits (n < 0) n.natAbs Nat.one_pos ratio
  have value : withSign (n < 0) (((n.natAbs : ℕ) : ℚ) / (1 : ℕ)) = n := by
    rw [Nat.cast_one, div_one, Nat.cast_natAbs, withSign]
    split
    · rename_i negative
      rw [abs_of_neg (of_decide_eq_true negative), Int.cast_neg, neg_neg]
    · rename_i positive
      rw [abs_of_nonneg (not_lt.mp (of_decide_eq_false (Bool.not_eq_true _ ▸ positive)))]
  rw [value] at rounds
  refine ⟨_, if_pos finite, rounds, ?_⟩
  rw [← sign_ofSignedBits _ finite, decide_eq_true_eq]

end Integers

namespace Literal

/-- The general literal of a finite double has a point or an exponent, carries the sign bit as a
minus sign, denotes a decimal that is rounded to the double, and has no more significant digits than
any such decimal. An integer that does not overflow is written as the double nearest to it. Finite
doubles with one literal are the same, zeros of different signs included. -/
theorem fullPrecision_shortest :
    (∀ x : Float, isFinite x = true → ∃ literal negative body d,
      fullPrecision (.float x) = .ok literal ∧ IsShortest x literal negative body d) ∧
    (∀ n : ℤ, n.natAbs < overflow → ∃ x : Float, isFinite x = true ∧ RoundsTo n x ∧
      (2 ^ 63 ≤ x.toBits.toNat ↔ n < 0) ∧ fullPrecision (.int n) = fullPrecision (.float x)) ∧
    ∀ x y : Float, isFinite x = true → isFinite y = true →
      fullPrecision (.float x) = fullPrecision (.float y) → x = y := by
  refine ⟨fun x finite => ?_, fun n small => ?_, fun x y _ _ same => ?_⟩
  · obtain ⟨negative, bits, below, rfl⟩ := exists_ofSignedBits finite
    obtain ⟨body, d, shortest⟩ := isShortest_render negative below
    exact ⟨_, negative, body, d, rfl, shortest⟩
  · obtain ⟨x, rounded, rounds, sign⟩ := exists_ofInt? small
    refine ⟨x, Value.isFinite_of_ofInt? rounded, rounds, sign, ?_⟩
    rw [fullPrecision, Value.toFloat, rounded]
    rfl
  · exact render_injective (Except.ok.inj same)

/-- A double with an exponent, and an integer in the middle between two doubles. -/
theorem fullPrecision_shortest_millionth :
    isFinite 1e-06 = true ∧ fullPrecision (.float 1e-06) = .ok "1e-06" ∧
      (∃ negative body d, IsShortest 1e-06 "1e-06" negative body d) ∧
      fullPrecision (.int 9007199254740993) = .ok "9007199254740992.0" ∧
      ∃ x : Float, RoundsTo (9007199254740993 : ℤ) x ∧
        fullPrecision (.float x) = .ok "9007199254740992.0" := by
  have finite : isFinite 1e-06 = true := by decide +kernel
  have written : fullPrecision (.float 1e-06) = .ok "1e-06" := by
    have text : Value.floatLayout.render 1e-06 = "1e-06" := by decide +kernel
    exact congrArg Except.ok text
  have odd : fullPrecision (.int 9007199254740993) = .ok "9007199254740992.0" := by
    have rounded : ofInt? 9007199254740993 =
        some (ofSignedBits false (Binary64.magnitudeBits 9007199254740993 1)) := by
      have below : Binary64.magnitudeBits 9007199254740993 1 < infinityBits := by decide +kernel
      rw [ofInt?]
      exact if_pos below
    have text : Value.floatLayout.render
        (ofSignedBits false (Binary64.magnitudeBits 9007199254740993 1)) =
          "9007199254740992.0" := by decide +kernel
    rw [fullPrecision, Value.toFloat, rounded]
    exact congrArg Except.ok text
  obtain ⟨doubles, integers, -⟩ := fullPrecision_shortest
  obtain ⟨literal, negative, body, d, known, shortest⟩ := doubles 1e-06 finite
  obtain ⟨x, -, rounds, -, same⟩ := integers 9007199254740993 (by decide +kernel)
  obtain rfl : literal = "1e-06" := Except.ok.inj (known.symm.trans written)
  exact ⟨finite, written, ⟨negative, body, d, shortest⟩, odd, x, rounds, same.symm.trans odd⟩

end Literal

end ClenshawCode
