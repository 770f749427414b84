import ClenshawCode.Proofs.Expansion.Doubles
import ClenshawCode.Proofs.Program.Bounds
import ClenshawCode.Proofs.Program.Isolation

/-!
# Literals stay within single precision

An accepted number is at most the largest finite number of single precision, but what is written is
a decimal of the double nearest to it, and a decimal can be larger than what it was rounded from.
The bits of the double are at most those of the largest number, and decimals do not shrink when the
bits grow. So the decimals of the largest number bound all others, and they are below the magnitudes
that single precision rounds to infinity.

## Main definitions

* `singleOverflow`: the smallest magnitude that single precision rounds to infinity

## Main results

* `literals_within_single`: no literal of a coefficient or a bound overflows
-/

namespace ClenshawCode

open Text Binary64

/-- The smallest magnitude that is rounded to infinity in single precision. It is half a unit of the
last place above the largest finite number. -/
def singleOverflow : ℚ := 2 ^ 128 - 2 ^ 103

section Largest

variable {bits : ℕ}

theorem finite_of_le_singleMaxBits (small : bits ≤ singleMaxBits) : bits < infinityBits := by
  have finite : singleMaxBits < infinityBits := by decide +kernel
  exact small.trans_lt finite

/-- The shortest decimal of the largest number is above it, but only just. -/
theorem shortestOf_lt_singleOverflow (small : bits ≤ singleMaxBits) :
    (Decimal.shortestOf bits).value < singleOverflow := by
  have largest : Decimal.shortestOf singleMaxBits = ⟨34028234663852886, 22⟩ := by decide +kernel
  refine (Decimal.strictMono_shortestOf.monotone small).trans_lt ?_
  -- Decimals do not shrink with the bits, so the largest number decides.
  change (Decimal.shortestOf singleMaxBits).value < _
  rw [largest, Decimal.value, singleOverflow]
  norm_num

/-- With ten places the largest number is written exactly. -/
theorem fixedUnits_lt_singleOverflow (small : bits ≤ singleMaxBits) :
    (Decimal.fixedUnits 10 bits / 10 ^ 10 : ℚ) < singleOverflow := by
  have largest : Decimal.fixedUnits 10 singleMaxBits =
      340282346638528859811704183484516925440 * 10 ^ 10 := by decide +kernel
  have units : (Decimal.fixedUnits 10 bits : ℚ) ≤ Decimal.fixedUnits 10 singleMaxBits := by
    exact_mod_cast Decimal.monotone_fixedUnits 10 small
  refine (div_le_div_of_nonneg_right units (by positivity)).trans_lt ?_
  rw [largest, singleOverflow]
  norm_num

end Largest

namespace Value

variable {v : Value}

/-- A number within single precision is rounded to a double with no more bits than the largest one.
-/
theorem exists_bits_le (single : v.fitsSingle = .ok true) :
    ∃ negative bits, v.nearest = ofSignedBits negative bits ∧ bits ≤ singleMaxBits := by
  have fits := fits_of_fitsSingle single
  obtain ⟨negative, bits, -, same, exact⟩ := fits.exists_bits
  obtain ⟨p, number, rounded⟩ := fits.exists_exact
  refine ⟨negative, bits, same, le_of_magnitude_le ?_⟩
  have number' : withSign negative (magnitude bits) = nearestTo p :=
    Exact.finite.inj (exact.symm.trans rounded)
  -- The magnitude is that of a number rounded within single precision.
  rw [magnitude_singleMaxBits, ← abs_withSign negative (magnitude_nonneg bits), number']
  exact abs_nearestTo_le (abs_le_of_fitsSingle single number)

end Value

section Programs

variable {l : Language} {e : Expansion} {text : String} {v : Value}

/-- The literal of a number within single precision denotes a decimal that does not overflow. -/
theorem exists_literalDecimal? (l : Language) (single : v.fitsSingle = .ok true) :
    ∃ q, l.literalDecimal? (l.coefficientLiteral v) = some q ∧ |q| < singleOverflow := by
  obtain ⟨negative, bits, double, small⟩ := Value.exists_bits_le single
  have finite := finite_of_le_singleMaxBits small
  cases known : l.template? with
  | some f =>
    have nonneg : 0 ≤ (Decimal.shortestOf bits).value := by
      rw [Decimal.value]
      positivity
    rw [Language.coefficientLiteral_of_template? known]
    refine ⟨_, Language.literalDecimal?_shortest known double finite, ?_⟩
    rw [abs_withSign negative nonneg]
    exact shortestOf_lt_singleOverflow small
  | none =>
    obtain rfl := Language.eq_shader_of_template? known
    refine ⟨_, Shader.literalValue?_fixedLiteral_of_few le_rfl finite double, ?_⟩
    rw [abs_withSign negative (by positivity)]
    exact fixedUnits_lt_singleOverflow small

/-- Each coefficient has its line in a shader. -/
theorem Shader.getElem?_coefficientText (accepted : e.Accepted) (places : ℕ) (description : String)
    {i : ℕ} (inside : i < e.coeffs.length) :
    (Text.lines (join "\n" (written places e description)))[
        Language.shader.firstCoefficient + i]? =
      some (coefficientText i (fixedLiteral places e.coeffs[i])) := by
  let literals := e.coeffs.map (fixedLiteral places)
  have inside : i < literals.length := by simpa [literals] using inside
  have varies : VariesAt ((Comment.coefficientText e description).length + 3 + i)
      (fun s => lines (Comment.coefficientText e description) (literals.set i s)
        (fixedLiteral places e.xMin) (fixedLiteral places e.xMax)) (coefficientText i) :=
    variesAt_coefficient inside
  obtain ⟨-, found, -⟩ := varies.differAt literals[i] literals[i]
  have literal : literals[i] = fixedLiteral places e.coeffs[i] := List.getElem_map _
  -- Putting a coefficient where it stands changes nothing.
  rw [List.set_getElem_self, literal] at found
  rw [lines_text accepted]
  exact found

/-- Each coefficient has its line in a generated program. -/
theorem getElem?_coefficientLine (generated : (generate l e).result = .ok text) {i : ℕ}
    (inside : i < e.coeffs.length) :
    (Text.lines text)[l.firstCoefficient + i]? =
      some (l.coefficientLine i (l.coefficientLiteral e.coeffs[i])) := by
  cases known : l.template? with
  | some f =>
    obtain ⟨-, description, reference, finite, -, -, rfl⟩ := exists_of_generate known generated
    let p := LoopParts.written e description (Literal.script finite reference.shortest)
    let frame : LoopFrame := ⟨f, Language.separate_of_template? known⟩
    have inTable : i < p.coeffs.length := by simpa [p, LoopParts.written] using inside
    obtain ⟨-, found, -⟩ := (f.variesAt_entry p inTable).differAt p.coeffs[i] p.coeffs[i]
    have line : l.coefficientLine i (l.coefficientLiteral e.coeffs[i]) = f.entry p.coeffs[i] := by
      rw [Language.coefficientLine, known, Language.coefficientLiteral_of_template? known]
      exact congrArg f.entry (List.getElem_map _).symm
    rw [frame.lines_text (isPlain_written finite), line,
      Language.firstCoefficient_of_template? known]
    -- Putting a coefficient where it stands changes nothing.
    rwa [List.set_getElem_self] at found
  | none =>
    obtain rfl := Language.eq_shader_of_template? known
    obtain ⟨valid, description, -, rfl⟩ := exists_of_generate_shader generated
    have accepted := Expansion.accepted_of_validate valid
    exact Shader.getElem?_coefficientText accepted _ description inside

/-- Each bound is declared in a generated program. -/
theorem contents_bound_of_generate (generated : (generate l e).result = .ok text) (upper : Bool) :
    (l.boundSlot upper).contents (Text.lines text) =
      List.replicate l.boundCount
        (some (l.coefficientLiteral (if upper then e.xMax else e.xMin))) := by
  cases known : l.template? with
  | some f =>
    obtain ⟨-, description, reference, finite, -, -, rfl⟩ := exists_of_generate known generated
    rw [contents_bound_of_template? known (isPlain_written finite),
      Language.coefficientLiteral_of_template? known]
  | none =>
    obtain rfl := Language.eq_shader_of_template? known
    obtain ⟨valid, description, -, rfl⟩ := exists_of_generate_shader generated
    exact contents_bound_shader (Expansion.accepted_of_validate valid) _ description upper

end Programs

/-- No literal of a generated program overflows. What the literal of a coefficient denotes, and what
those of the bounds denote, are decimals below the magnitudes that single precision rounds to
infinity. -/
theorem literals_within_single (l : Language) (e : Expansion) (text : String)
    (generated : (generate l e).result = .ok text) :
    (∀ i (inside : i < e.coeffs.length), ∃ s q, l.literal e.coeffs[i] = .ok s ∧
      (Text.lines text)[l.firstCoefficient + i]? = some (l.coefficientLine i s) ∧
      l.literalDecimal? s = some q ∧ |q| < singleOverflow) ∧
    ∃ p q, l.WritesBounds text p q ∧ |p| < singleOverflow ∧ |q| < singleOverflow := by
  have valid := (validate_of_generate generated).1
  have single {v : Value} (member : v ∈ e.xMin :: e.xMax :: e.coeffs) :=
    Expansion.fitsSingle_of_validate valid member
  constructor
  · intro i inside
    have fits := single (List.mem_cons_of_mem _ (List.mem_cons_of_mem _ (List.getElem_mem inside)))
    obtain ⟨q, denoted, small⟩ := exists_literalDecimal? l fits
    exact ⟨_, q, Language.literal_coefficient (Value.fits_of_fitsSingle fits),
      getElem?_coefficientLine generated inside, denoted, small⟩
  · obtain ⟨p, low, small⟩ := exists_literalDecimal? l (single (v := e.xMin) (by simp))
    obtain ⟨q, high, small'⟩ := exists_literalDecimal? l (single (v := e.xMax) (by simp))
    exact ⟨p, q, ⟨_, _, contents_bound_of_generate generated false,
      contents_bound_of_generate generated true, low, high⟩, small, small'⟩

/-- The shortest decimal of the largest number of single precision, in a program. -/
theorem literals_within_single_largest :
    ∃ e text, e.coeffs = [.float float32Max] ∧ (generate .rust e).result = .ok text ∧
      ∃ s q, Language.rust.literal (.float float32Max) = .ok s ∧
        (Text.lines text)[Language.rust.firstCoefficient]? =
          some (Language.rust.coefficientLine 0 s) ∧
        Language.rust.literalDecimal? s = some q ∧ |q| < singleOverflow := by
  let e : Expansion := { Expansion.quadratic with coeffs := [.float float32Max] }
  obtain ⟨x, middle⟩ : ∃ x, e.midpointValue = .ok (.float x) := ⟨_, rfl⟩
  have renderable : e.Renderable "quadratic" (.float x) :=
    ⟨eq_ok_of_isOk (by decide +kernel), rfl, middle, trivial⟩
  have generated := Language.generate_eq .rust renderable
  obtain ⟨coefficients, -⟩ := literals_within_single .rust e _ generated
  exact ⟨e, _, rfl, generated, coefficients 0 (by decide)⟩

end ClenshawCode
