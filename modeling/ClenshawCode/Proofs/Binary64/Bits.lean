import ClenshawCode.Binary64
import Mathlib

/-!
# Doubles and their bits

A double is no more than its bits, and every pattern that does not spell out a foreign kind of "no
number" belongs to one double. So each double is either the one that is no number, or an infinity,
or given by a sign and the bits of a finite magnitude, and `Binary64.view` reads the last two back.

The first section crosses the packed and the unpacked form of the logical model of `Float`; the
second one speaks about `Float` alone.
-/

namespace ClenshawCode.Binary64

open Float.Model Float.Model.UnpackedFloat

section Packing

private theorem sign_toBitVec_ofBitVec (b : BitVec 1) : (Sign.ofBitVec b).toBitVec = b := by
  revert b
  decide

private theorem unpackSign_toNat (b : BitVec 64) :
    (@unpackSign Format.binary64 b).toNat = b.toNat / 2 ^ 63 := by
  have small : b.toNat < 2 ^ 64 := b.isLt
  simp [unpackSign, BitVec.extractLsb, Nat.shiftRight_eq_div_pow]
  omega

private theorem unpackExponent_toNat (b : BitVec 64) :
    (@unpackExponent Format.binary64 b).toNat = b.toNat / 2 ^ 52 % 2 ^ 11 := by
  simp [unpackExponent, BitVec.extractLsb, Nat.shiftRight_eq_div_pow]

private theorem unpackMantissa_toNat (b : BitVec 64) :
    (@unpackMantissa Format.binary64 b).toNat = b.toNat % 2 ^ 52 := by
  simp [unpackMantissa, BitVec.extractLsb]

/-- The three fields of a bit pattern, put together again. -/
private theorem packComponents_fields (b : BitVec 64) :
    packComponents Format.binary64 (Sign.ofBitVec (@unpackSign Format.binary64 b))
      (@unpackExponent Format.binary64 b) (@unpackMantissa Format.binary64 b) =
        b := by
  rw [packComponents, sign_toBitVec_ofBitVec]
  apply BitVec.eq_of_toNat_eq
  rw [BitVec.toNat_append, BitVec.toNat_append,
    ← Nat.shiftLeft_add_eq_or_of_lt (BitVec.isLt _),
    ← Nat.shiftLeft_add_eq_or_of_lt (BitVec.isLt _), unpackSign_toNat, unpackExponent_toNat,
    unpackMantissa_toNat]
  simp only [Nat.shiftLeft_eq]
  omega

private theorem pack_subnormal (s : Sign) {m : ℕ} {e : ℤ} (positive : 0 < m)
    (small : m < 2 ^ 52) (lowest : e = -1074) :
    pack Format.binary64 (.finite s m e positive) =
      packComponents Format.binary64 s 0#_ (BitVec.ofNat _ m) := by
  have short : m.log2 < 52 := (Nat.log2_lt positive.ne').mpr small
  have biased : (e + (Format.binary64.exponentBias : ℤ) + (52 : ℕ)).toNat = 1 := by
    rw [lowest]
    rfl
  unfold UnpackedFloat.pack
  simp only [biased]
  rw [if_neg (by decide), if_neg]
  simp only [Format.mantissaBits]
  omega

private theorem pack_normal (s : Sign) {m k : ℕ} {e : ℤ} (positive : 0 < m) (lower : 2 ^ 52 ≤ m)
    (upper : m < 2 ^ 53) (finite : k < 2047) (exponent : e = (k : ℤ) - 1075) :
    pack Format.binary64 (.finite s m e positive) =
      packComponents Format.binary64 s (BitVec.ofNat _ k) (BitVec.ofNat _ m) := by
  have short : m.log2 < 53 := (Nat.log2_lt positive.ne').mpr upper
  have long : 52 ≤ m.log2 := (Nat.le_log2 positive.ne').mpr lower
  have biased : (e + (Format.binary64.exponentBias : ℤ) + (52 : ℕ)).toNat = k := by
    have bias : (Format.binary64.exponentBias : ℤ) = 1023 := by rfl
    omega
  unfold UnpackedFloat.pack
  simp only [biased]
  rw [if_neg, if_pos]
  · simp only [Format.mantissaBits]
    omega
  · exact Nat.not_le.mpr (by omega)

/-- A pattern survives being unpacked and packed, unless it is a foreign "no number". -/
private theorem pack_unpack {b : BitVec 64}
    (canonical : @unpackExponent Format.binary64 b = -1#_ →
      @unpackMantissa Format.binary64 b ≠ 0#_ → b = packedNaN Format.binary64) :
    pack Format.binary64 (UnpackedFloat.unpack Format.binary64 b) = b := by
  have fields := packComponents_fields b
  rw [UnpackedFloat.unpack]
  dsimp only
  -- The cases are those of the format: all ones, all zeros or neither in the exponent.
  split
  · rename_i allOnes
    split
    · rename_i zero
      rw [allOnes, zero] at fields
      exact fields
    · rename_i nonzero
      exact (canonical allOnes nonzero).symm
  · rename_i notOnes
    split
    · rename_i zeroExponent
      split
      · rename_i zero
        rw [zeroExponent, zero] at fields
        exact fields
      · rename_i nonzero
        -- A subnormal number, whose exponent is the lowest one.
        have small := (@unpackMantissa Format.binary64 b).isLt
        rw [pack_subnormal _ _ small, BitVec.ofNat_toNat, BitVec.setWidth_eq, ← zeroExponent]
        · exact fields
        · rw [zeroExponent]
          rfl
    · rename_i nonzeroExponent
      -- A normal number: unpacking has put a leading digit in front, which packing drops.
      have small : (@unpackMantissa Format.binary64 b).toNat < 2 ^ 52 := BitVec.isLt _
      have wide : (@unpackExponent Format.binary64 b).toNat < 2 ^ 11 := BitVec.isLt _
      have mantissa : (1#1 ++ @unpackMantissa Format.binary64 b).toNat =
          2 ^ 52 + (@unpackMantissa Format.binary64 b).toNat := by
        rw [BitVec.toNat_append, ← Nat.shiftLeft_add_eq_or_of_lt small]
        rfl
      have finite : (@unpackExponent Format.binary64 b).toNat < 2047 := by
        by_contra huge
        apply notOnes
        apply BitVec.eq_of_toNat_eq
        have top : (@unpackExponent Format.binary64 b).toNat = 2047 := by omega
        rw [top]
        rfl
      have low : BitVec.ofNat 52 (2 ^ 52 + (@unpackMantissa Format.binary64 b).toNat) =
          @unpackMantissa Format.binary64 b := by
        apply BitVec.eq_of_toNat_eq
        rw [BitVec.toNat_ofNat, Nat.add_mod_left, Nat.mod_eq_of_lt small]
      refine (pack_normal _ _ (by omega) (by omega) finite rfl).trans ?_
      rw [mantissa, low, BitVec.ofNat_toNat, BitVec.setWidth_eq]
      exact fields

/-- The bits of a double determine it. -/
theorem ofBits_toBits (x : Float) : Float.ofBits x.toBits = x := by
  obtain ⟨⟨bits, valid⟩⟩ := x
  have same := pack_unpack valid.eq_packedNaN
  simp [Float.ofBits, Float.toBits, Float.Model.ofBits, Float.Model.pack, same]

theorem infinityBits_eq : infinityBits = 2047 * 2 ^ 52 := rfl

/-- The bits of a number are those it was made of. -/
theorem toBits_ofBits {b : UInt64} (number : b.toNat % 2 ^ 63 ≤ infinityBits) :
    (Float.ofBits b).toBits = b := by
  have same : pack Format.binary64 (UnpackedFloat.unpack Format.binary64 b.toBitVec) =
      b.toBitVec := by
    apply pack_unpack
    intro allOnes nonzero
    exfalso
    -- An exponent of all ones leaves no bits for the mantissa within the given bound.
    have exponent := congrArg BitVec.toNat allOnes
    rw [unpackExponent_toNat] at exponent
    have top : b.toBitVec.toNat / 2 ^ 52 % 2 ^ 11 = 2047 := exponent
    apply nonzero
    apply BitVec.eq_of_toNat_eq
    rw [unpackMantissa_toNat]
    have whole : b.toBitVec.toNat = b.toNat := rfl
    rw [whole] at top ⊢
    rw [infinityBits_eq] at number
    change b.toNat % 2 ^ 52 = 0
    omega
  simp [Float.ofBits, Float.toBits, Float.Model.ofBits, Float.Model.pack, same]

/-- What is no number is the one double that is none. -/
theorem eq_nan {x : Float} (beyond : infinityBits < x.toBits.toNat % 2 ^ 63) : x = nan := by
  obtain ⟨⟨bits, valid⟩⟩ := x
  have whole : (Float.toBits ⟨⟨bits, valid⟩⟩).toNat = bits.toBitVec.toNat := rfl
  rw [whole, infinityBits_eq] at beyond
  have small : bits.toBitVec.toNat < 2 ^ 64 := bits.toBitVec.isLt
  have allOnes : @unpackExponent Format.binary64 bits.toBitVec = -1#_ := by
    apply BitVec.eq_of_toNat_eq
    rw [unpackExponent_toNat]
    change _ = 2047
    omega
  have nonzero : @unpackMantissa Format.binary64 bits.toBitVec ≠ 0#_ := by
    intro zero
    have low := congrArg BitVec.toNat zero
    rw [unpackMantissa_toNat] at low
    change _ = 0 at low
    omega
  have canonical := valid.eq_packedNaN allOnes nonzero
  have same : bits = 0x7FF8000000000000 := UInt64.eq_of_toBitVec_eq canonical
  subst same
  rfl

/-- The bits of a double with a sign, put together from its other bits. -/
theorem toNat_toBits_ofSignedBits (negative : Bool) {bits : ℕ} (number : bits ≤ infinityBits) :
    (ofSignedBits negative bits).toBits.toNat = bits + if negative then 2 ^ 63 else 0 := by
  rw [infinityBits_eq] at number
  have sum : (UInt64.ofNat (bits + if negative then 2 ^ 63 else 0)).toNat =
      bits + if negative then 2 ^ 63 else 0 := by
    rw [UInt64.toNat_ofNat']
    apply Nat.mod_eq_of_lt
    split <;> omega
  have rest : (bits + if negative then 2 ^ 63 else 0) % 2 ^ 63 = bits := by
    split <;> omega
  rw [ofSignedBits, Nat.pow_eq, toBits_ofBits]
  · exact sum
  · rw [sum, rest]
    exact number

/-- The sign of a double. -/
def sign (negative : Bool) : Sign := if negative then .negative else .positive

/-- A zero in unpacked form. -/
theorem unpack_zero (negative : Bool) :
    (ofSignedBits negative 0).toModel.unpack = .zero (sign negative) := by
  cases negative <;> rfl

private theorem exists_finite_eq {s s' : Sign} {m m' : ℕ} {e e' : ℤ} (positive : 0 < m)
    (signs : s = s') (mantissas : m = m') (exponents : e = e') :
    ∃ some, UnpackedFloat.finite s m e positive = .finite s' m' e' some := by
  subst signs mantissas exponents
  exact ⟨positive, rfl⟩

/-- The sign in a bit pattern. -/
private theorem unpackSign_eq {b : BitVec 64} {negative : Bool} {bits : ℕ} (small : bits < 2 ^ 63)
    (value : b.toNat = bits + if negative then 2 ^ 63 else 0) :
    Sign.ofBitVec (@unpackSign Format.binary64 b) = sign negative := by
  have one : (@unpackSign Format.binary64 b).toNat = if negative then 1 else 0 := by
    rw [unpackSign_toNat, value]
    cases negative with
    | false => simp; omega
    | true => simp; omega
  have bit : @unpackSign Format.binary64 b = if negative then 1#1 else 0#1 := by
    apply BitVec.eq_of_toNat_eq
    rw [one]
    cases negative <;> rfl
  rw [bit]
  cases negative <;> rfl

/-- The exponent and the mantissa in a bit pattern do not depend on its sign. -/
private theorem unpackFields_eq {b : BitVec 64} {negative : Bool} {bits : ℕ} (small : bits < 2 ^ 63)
    (value : b.toNat = bits + if negative then 2 ^ 63 else 0) :
    (@unpackExponent Format.binary64 b).toNat = bits / 2 ^ 52 ∧
      (@unpackMantissa Format.binary64 b).toNat = bits % 2 ^ 52 := by
  rw [unpackExponent_toNat, unpackMantissa_toNat, value]
  cases negative with
  | false => simp; omega
  | true => simp; omega

/-- Any other finite double in unpacked form is its sign and the pair that its bits stand for. -/
theorem unpack_ofSignedBits (negative : Bool) {bits : ℕ} (positive : 0 < bits)
    (finite : bits < infinityBits) :
    ∃ some, (ofSignedBits negative bits).toModel.unpack =
      .finite (sign negative) (ofMagnitudeBits bits).1 (ofMagnitudeBits bits).2 some := by
  have below : bits < 2047 * 2 ^ 52 := finite
  -- From here on the double is its bit pattern, of which the three fields are known.
  obtain ⟨b, pattern⟩ : ∃ b, b = (ofSignedBits negative bits).toModel.toBits.toBitVec := ⟨_, rfl⟩
  have value : b.toNat = bits + if negative then 2 ^ 63 else 0 := by
    rw [pattern]
    exact toNat_toBits_ofSignedBits negative finite.le
  have signed := unpackSign_eq (by omega) value
  obtain ⟨exponent, mantissa⟩ := unpackFields_eq (by omega) value
  rw [Float.Model.unpack, ← pattern, UnpackedFloat.unpack]
  dsimp only
  have notOnes : @unpackExponent Format.binary64 b ≠ -1#_ := by
    intro allOnes
    have top := congrArg BitVec.toNat allOnes
    rw [exponent] at top
    change _ = 2047 at top
    omega
  rw [if_neg notOnes]
  split
  · -- Without an exponent the mantissa has no leading digit of its own.
    rename_i zeroExponent
    have none : bits / 2 ^ 52 = 0 := by
      rw [← exponent, zeroExponent]
      rfl
    split
    · rename_i zero
      have low : bits % 2 ^ 52 = 0 := by
        rw [← mantissa, zero]
        rfl
      omega
    · have subnormal : ofMagnitudeBits bits = (bits, -1074) := if_pos none
      rw [subnormal]
      refine exists_finite_eq _ signed ?_ ?_
      · rw [mantissa]
        omega
      · rw [zeroExponent]
        rfl
  · rename_i nonzeroExponent
    have some : bits / 2 ^ 52 ≠ 0 := by
      intro none
      apply nonzeroExponent
      apply BitVec.eq_of_toNat_eq
      rw [exponent, none]
      rfl
    have normal : ofMagnitudeBits bits =
        (2 ^ 52 + bits % 2 ^ 52, ((bits / 2 ^ 52 : ℕ) : ℤ) - 1075) := if_neg some
    have small : (@unpackMantissa Format.binary64 b).toNat < 2 ^ 52 := BitVec.isLt _
    rw [normal]
    refine exists_finite_eq _ signed ?_ ?_
    · rw [BitVec.toNat_append, ← Nat.shiftLeft_add_eq_or_of_lt small, mantissa]
      rfl
    · rw [exponent]
      rfl

end Packing

section Views

/-- The negative of a finite double has the other sign and the same bits. -/
theorem neg_ofSignedBits (negative : Bool) {bits : ℕ} (finite : bits < infinityBits) :
    -ofSignedBits negative bits = ofSignedBits (!negative) bits := by
  have flipped : -sign negative = sign (!negative) := by cases negative <;> rfl
  have unpacked : (ofSignedBits negative bits).toModel.unpack.neg =
      (ofSignedBits (!negative) bits).toModel.unpack := by
    rcases Nat.eq_zero_or_pos bits with rfl | positive
    · rw [unpack_zero, unpack_zero, ← flipped]
      rfl
    · obtain ⟨some, known⟩ := unpack_ofSignedBits negative positive finite
      obtain ⟨some', known'⟩ := unpack_ofSignedBits (!negative) positive finite
      rw [known, known', ← flipped]
      rfl
  have packed : -ofSignedBits negative bits =
      ⟨Float.Model.pack (ofSignedBits negative bits).toModel.unpack.neg⟩ := rfl
  rw [packed, unpacked]
  exact ofBits_toBits _

/-- Every double is given by its sign and its other bits. -/
theorem eq_ofSignedBits (x : Float) :
    x = ofSignedBits (decide (2 ^ 63 ≤ x.toBits.toNat)) (x.toBits.toNat % 2 ^ 63) := by
  have wide : x.toBits.toNat < 2 ^ 64 := x.toBits.toNat_lt
  have whole : (x.toBits.toNat % 2 ^ 63 +
      if decide (2 ^ 63 ≤ x.toBits.toNat) = true then 2 ^ 63 else 0) = x.toBits.toNat := by
    split
    · rename_i large
      rw [decide_eq_true_eq] at large
      omega
    · rename_i small
      rw [decide_eq_true_eq] at small
      omega
  rw [ofSignedBits, Nat.pow_eq, whole, UInt64.ofNat_toNat, ofBits_toBits]

theorem view_nan : view nan = .nan := by
  decide +kernel

theorem view_infinity (negative : Bool) : view (infinity negative) = .infinite negative := by
  cases negative <;> decide +kernel

/-- A finite double is seen as the pair that its bits stand for. -/
theorem view_ofSignedBits (negative : Bool) {bits : ℕ} (finite : bits < infinityBits) :
    view (ofSignedBits negative bits) =
      .finite negative (ofMagnitudeBits bits).1 (ofMagnitudeBits bits).2 := by
  have whole := toNat_toBits_ofSignedBits negative finite.le
  have below : bits < 2047 * 2 ^ 52 := finite
  have rest : (ofSignedBits negative bits).toBits.toNat % 2 ^ 63 = bits := by
    rw [whole]
    split <;> omega
  have sign : decide (2 ^ 63 ≤ (ofSignedBits negative bits).toBits.toNat) = negative := by
    rw [whole]
    cases negative <;> simp; omega
  rw [view]
  simp only [Nat.pow_eq, rest, sign]
  rw [if_neg (by omega), if_neg (by omega)]

/-- Every double is no number, or an infinity, or given by a sign and the bits of a finite one. -/
theorem float_cases (x : Float) :
    x = nan ∨ (∃ negative, x = infinity negative) ∨
      ∃ negative bits, bits < infinityBits ∧ x = ofSignedBits negative bits := by
  rcases lt_trichotomy infinityBits (x.toBits.toNat % 2 ^ 63) with beyond | top | finite
  · exact .inl (eq_nan beyond)
  · refine .inr (.inl ⟨decide (2 ^ 63 ≤ x.toBits.toNat), ?_⟩)
    rw [infinity, top]
    exact eq_ofSignedBits x
  · exact .inr (.inr ⟨_, _, finite, eq_ofSignedBits x⟩)

theorem isNaN_nan : isNaN nan = true := by
  rw [isNaN, view_nan]

theorem isNaN_infinity (negative : Bool) : isNaN (infinity negative) = false := by
  rw [isNaN, view_infinity]

theorem isNaN_ofSignedBits (negative : Bool) {bits : ℕ} (finite : bits < infinityBits) :
    isNaN (ofSignedBits negative bits) = false := by
  rw [isNaN, view_ofSignedBits negative finite]

/-- There is one double that is no number. -/
theorem eq_nan_of_isNaN {x : Float} (none : isNaN x = true) : x = nan := by
  rcases float_cases x with rfl | ⟨negative, rfl⟩ | ⟨negative, bits, finite, rfl⟩
  · rfl
  · rw [isNaN_infinity] at none
    cases none
  · rw [isNaN_ofSignedBits negative finite] at none
    cases none

theorem isFinite_ofSignedBits (negative : Bool) {bits : ℕ} (finite : bits < infinityBits) :
    isFinite (ofSignedBits negative bits) = true := by
  rw [isFinite, view_ofSignedBits negative finite]

/-- A finite double is given by a sign and bits below those of the infinities. -/
theorem exists_ofSignedBits {x : Float} (finite : isFinite x = true) :
    ∃ negative bits, bits < infinityBits ∧ x = ofSignedBits negative bits := by
  rcases float_cases x with rfl | ⟨negative, rfl⟩ | found
  · rw [isFinite, view_nan] at finite
    cases finite
  · rw [isFinite, view_infinity] at finite
    cases finite
  · exact found

end Views

end ClenshawCode.Binary64
