import ClenshawCode.Proofs.Binary64.Nearest

/-!
# Differences of doubles

The difference of two finite doubles is zero only if they are the same number. It is rounded from
a dyadic number on the grid of the finer one of the two, and on no grid of doubles is a number that
is not zero rounded to zero.
-/

namespace ClenshawCode.Binary64

open Float.Model Float.Model.UnpackedFloat

section Packing

/-- A finite double that is not zero does not have the bits of a zero. -/
private theorem pack_ne_packedZero (s s' : Sign) {m : ℕ} {e : ℤ} (positive : 0 < m)
    (short : m < 2 ^ 53) (lowest : -1074 ≤ e) :
    UnpackedFloat.pack Format.binary64 (.finite s m e positive) ≠
      packedZero Format.binary64 s' := by
  have biased : (e + (Format.binary64.exponentBias : ℤ) + (52 : ℕ)).toNat = (e + 1075).toNat := by
    have bias : (Format.binary64.exponentBias : ℤ) = 1023 := by rfl
    omega
  -- A zero has neither an exponent nor a mantissa.
  have exponents {t : Sign} {k : BitVec 11} {r : BitVec 52}
      (same : packComponents Format.binary64 t k r = packedZero Format.binary64 s') :
      k.toNat = 0 ∧ r.toNat = 0 := by
    have fields := congrArg (@unpackExponent Format.binary64) same
    have fields' := congrArg (@unpackMantissa Format.binary64) same
    rw [packedZero, unpackExponent_packComponents, unpackExponent_packComponents] at fields
    rw [packedZero, unpackMantissa_packComponents, unpackMantissa_packComponents] at fields'
    rw [fields, fields']
    exact ⟨rfl, rfl⟩
  rw [UnpackedFloat.pack]
  simp only [biased]
  split
  · intro same
    exact absurd (exponents same).1 (by decide)
  · rename_i finite
    have small : (e + 1075).toNat + 1 < 2 ^ 11 := Nat.not_le.mp finite
    split
    · intro same
      have none := (exponents same).1
      rw [BitVec.toNat_ofNat] at none
      omega
    · rename_i subnormal
      have digits : m.log2 < 53 := (Nat.log2_lt positive.ne').mpr short
      have fewer : m.log2 + 1 ≠ 53 := subnormal
      have low : m < 2 ^ 52 := (Nat.log2_lt positive.ne').mp (by omega)
      intro same
      have none := (exponents same).2
      rw [BitVec.toNat_ofNat] at none
      omega

end Packing

section Zero

/-- A double equals zero if it is one of the two zeros. -/
theorem beq_zero_iff (x : Float) : (x == 0) = true ↔ ∃ s, x.toModel.unpack = .zero s := by
  have zero : (0 : Float).toModel.unpack = .zero .positive := rfl
  change (x.toModel.unpack.beq (0 : Float).toModel.unpack) = true ↔ _
  rw [zero, beq_iff_ne_notANumber_and_eq]
  constructor
  · rintro ⟨-, -, same | ⟨positive, -⟩ | ⟨negative, -⟩⟩
    · exact ⟨_, same⟩
    · exact ⟨_, positive⟩
    · exact ⟨_, negative⟩
  · rintro ⟨s, same⟩
    rw [same]
    cases s <;> simp

/-- What is packed from a finite number that is not zero is not zero. -/
private theorem pack_beq_zero (s : Sign) {m : ℕ} {e : ℤ} (positive : 0 < m) (short : m < 2 ^ 53)
    (lowest : -1074 ≤ e) :
    ((⟨Float.Model.pack (.finite s m e positive)⟩ : Float) == 0) = false := by
  rw [Bool.eq_false_iff, Ne, beq_zero_iff]
  rintro ⟨s', same⟩
  refine pack_ne_packedZero s s' positive short lowest ?_
  rw [Float.Model.unpack] at same
  exact (unpack_eq_zero_iff_of_valid (Float.Model.pack (.finite s m e positive)).valid).mp same

/-- A positive dyadic number is not rounded to zero, whatever sign it gets. -/
private theorem pack_round_beq_zero (s : Sign) {m : ℕ} {e : ℤ} (positive : 0 < m)
    (lowest : -1074 ≤ e) :
    ((⟨Float.Model.pack (UnpackedFloat.round Format.binary64 s m e)⟩ : Float) == 0) = false := by
  obtain ⟨some, rounded⟩ := round_eq s positive lowest
  obtain ⟨low, short, -⟩ := ofMagnitudeBits_spec (magnitudeBits (m * 2 ^ e.toNat) (2 ^ (-e).toNat))
  rw [rounded]
  exact pack_beq_zero s some short low

/-- A finite double that is zero has no bits besides its sign. -/
theorem ofSignedBits_beq_zero (negative : Bool) {bits : ℕ} (finite : bits < infinityBits) :
    (ofSignedBits negative bits == 0) = true ↔ bits = 0 := by
  rw [beq_zero_iff]
  constructor
  · rintro ⟨s, same⟩
    by_contra some
    obtain ⟨positive, unpacked⟩ :=
      unpack_ofSignedBits negative (Nat.pos_of_ne_zero some) finite
    rw [unpacked] at same
    cases same
  · rintro rfl
    exact ⟨_, unpack_zero negative⟩

end Zero

section Difference

variable {negative negative' : Bool} {bits bits' : ℕ}

/-- A mantissa on a finer grid. -/
theorem apply_shiftLeft (s : Sign) (m : ℕ) {e finer : ℤ} (order : finer ≤ e) :
    (s.apply (m <<< (e - finer).toNat : ℕ) : ℚ) * 2 ^ finer = (s.apply m : ℚ) * 2 ^ e := by
  have power : (2 : ℚ) ^ (e - finer).toNat * 2 ^ finer = 2 ^ e := by
    rw [← zpow_natCast, ← zpow_add₀ two_ne_zero]
    congr 1
    omega
  rw [Nat.shiftLeft_eq, ← power]
  cases s <;> simp [Sign.apply] <;> ring

/-- The difference of two dyadic numbers on the finest grid is zero only if they are equal. -/
private theorem sub_finite (s s' : Sign) {m m' : ℕ} {e e' : ℤ} (positive : 0 < m)
    (positive' : 0 < m') (lowest : -1074 ≤ e) (lowest' : -1074 ≤ e') :
    ((⟨Float.Model.pack (UnpackedFloat.sub Format.binary64 (.finite s m e positive)
        (.finite s' m' e' positive'))⟩ : Float) == 0) = true ↔
      (s.apply m : ℚ) * 2 ^ e = (s'.apply m' : ℚ) * 2 ^ e' := by
  have low : -1074 ≤ min e e' := le_min lowest lowest'
  have grid : (0 : ℚ) < 2 ^ min e e' := by positivity
  have zero : ((⟨Float.Model.pack (.zero .positive)⟩ : Float) == 0) = true := by decide +kernel
  -- On the finer of the two grids both numbers are integers, and it is these that are subtracted.
  rw [← apply_shiftLeft s m (min_le_left e e'), ← apply_shiftLeft s' m' (min_le_right e e'),
    mul_left_inj' grid.ne', Int.cast_inj, UnpackedFloat.sub]
  simp only [decreaseExponent]
  generalize s.apply (m <<< (e - min e e').toNat : ℕ) = a
  generalize s'.apply (m' <<< (e' - min e e').toNat : ℕ) = b
  rw [UnpackedFloat.normalize]
  rcases lt_trichotomy (a - b) 0 with below | same | above
  · rw [Int.compare_eq_lt.mpr below]
    have some : 0 < (-(a - b)).toNat := by omega
    simp only [pack_round_beq_zero .negative some low]
    constructor
    · exact fun impossible => absurd impossible Bool.false_ne_true
    · intro equal
      omega
  · rw [same, Int.compare_eq_eq.mpr rfl]
    constructor
    · intro _
      omega
    · intro _
      exact zero
  · rw [Int.compare_eq_gt.mpr above]
    have some : 0 < (a - b).toNat := by omega
    simp only [pack_round_beq_zero .positive some low]
    constructor
    · exact fun impossible => absurd impossible Bool.false_ne_true
    · intro equal
      omega

/-- The pair that the bits of a double stand for, with a sign. -/
theorem apply_sign_magnitude (negative : Bool) (bits : ℕ) :
    ((sign negative).apply (ofMagnitudeBits bits).1 : ℚ) * 2 ^ (ofMagnitudeBits bits).2 =
      withSign negative (magnitude bits) := by
  rw [magnitude]
  cases negative <;> simp [sign, Sign.apply, withSign]

theorem withSign_magnitude_eq_zero (negative : Bool) (bits : ℕ) :
    withSign negative (magnitude bits) = 0 ↔ bits = 0 := by
  have zero : magnitude bits = 0 ↔ bits = 0 := by
    rw [← (magnitude_nonneg bits).not_lt_iff_eq', ← magnitude_zero, magnitude_lt_iff,
      Nat.pos_iff_ne_zero, not_not]
  cases negative <;> simp [withSign, zero]

/-- The difference of two finite doubles is zero only if they are the same number. -/
theorem sub_beq_zero (finite : bits < infinityBits) (finite' : bits' < infinityBits) :
    (ofSignedBits negative bits - ofSignedBits negative' bits' == 0) = true ↔
      withSign negative (magnitude bits) = withSign negative' (magnitude bits') := by
  have difference (x y : Float) :
      x - y = ⟨Float.Model.pack (UnpackedFloat.sub Format.binary64 x.toModel.unpack
        y.toModel.unpack)⟩ := rfl
  obtain ⟨lowest, short, -⟩ := ofMagnitudeBits_spec bits
  obtain ⟨lowest', short', -⟩ := ofMagnitudeBits_spec bits'
  rw [difference]
  -- A zero has no mantissa in unpacked form, so each of the two is looked at by itself.
  rcases Nat.eq_zero_or_pos bits with rfl | some
  · have none : withSign negative (magnitude 0) = 0 :=
      (withSign_magnitude_eq_zero negative 0).mpr rfl
    rw [unpack_zero, none, eq_comm (a := (0 : ℚ)), withSign_magnitude_eq_zero]
    rcases Nat.eq_zero_or_pos bits' with rfl | some'
    · rw [unpack_zero]
      cases negative <;> cases negative' <;> exact ⟨fun _ => rfl, fun _ => rfl⟩
    · obtain ⟨positive, unpacked⟩ := unpack_ofSignedBits negative' some' finite'
      rw [unpacked, UnpackedFloat.sub, pack_beq_zero _ positive short' lowest']
      exact ⟨fun impossible => absurd impossible Bool.false_ne_true,
        fun zero => absurd zero some'.ne'⟩
  · obtain ⟨positive, unpacked⟩ := unpack_ofSignedBits negative some finite
    rcases Nat.eq_zero_or_pos bits' with rfl | some'
    · have none : withSign negative' (magnitude 0) = 0 :=
        (withSign_magnitude_eq_zero negative' 0).mpr rfl
      have kept : UnpackedFloat.sub Format.binary64 (ofSignedBits negative bits).toModel.unpack
          (.zero (sign negative')) = (ofSignedBits negative bits).toModel.unpack := by
        rw [unpacked]
        rfl
      rw [unpack_zero, none, withSign_magnitude_eq_zero, kept, unpacked,
        pack_beq_zero _ positive short lowest]
      exact ⟨fun impossible => absurd impossible Bool.false_ne_true,
        fun zero => absurd zero some.ne'⟩
    · obtain ⟨positive', unpacked'⟩ := unpack_ofSignedBits negative' some' finite'
      rw [unpacked, unpacked', sub_finite _ _ positive positive' lowest lowest',
        apply_sign_magnitude, apply_sign_magnitude]

end Difference

end ClenshawCode.Binary64
