import Mathlib
import Fluxion.Decimal.Binary64

/-!
# The three sorts of floats

A float that is taken apart into a NaN, an infinity or a finite number is one.
The bits of an infinity say which float it is.
-/

namespace Fluxion.Decimal.Binary64

open Float.Model Float.Model.UnpackedFloat

/-- A float is its bits. -/
theorem eq_of_toBits_eq {x y : Float} (same : x.toBits = y.toBits) : x = y := by
  rcases x with ⟨⟨bits, _⟩⟩
  rcases y with ⟨⟨bits', _⟩⟩
  have sameBits : bits = bits' := same
  subst sameBits
  rfl

/-! ## Fields -/

/-- The exponent field of a float. -/
def exponentField (x : Float) : Nat :=
  x.toBits.toNat / hiddenBit % Nat.pow 2 11

/-- The fraction field of a float. -/
def fractionField (x : Float) : Nat :=
  x.toBits.toNat % hiddenBit

theorem toNat_unpackExponent (x : Float) :
    (@unpackExponent Format.binary64 x.toModel.toBits.toBitVec).toNat =
      exponentField x := by
  simp [unpackExponent, Nat.shiftRight_eq_div_pow, exponentField, Float.toBits, hiddenBit]

theorem toNat_unpackMantissa (x : Float) :
    (@unpackMantissa Format.binary64 x.toModel.toBits.toBitVec).toNat =
      fractionField x := by
  simp [unpackMantissa, fractionField, Float.toBits, hiddenBit]

theorem isFinite_iff (x : Float) : x.isFinite = true ↔ exponentField x ≠ 2047 := by
  rw [← toNat_unpackExponent, Float.isFinite, Float.Model.isFinite, Float.Model.unpack,
    UnpackedFloat.unpack]
  dsimp only
  split
  · next allOnes =>
    rw [allOnes]
    split <;> simp [UnpackedFloat.isFinite]
  · next others =>
    have different : (@unpackExponent Format.binary64 x.toModel.toBits.toBitVec).toNat ≠
        2047 := fun same => others (BitVec.eq_of_toNat_eq same)
    split
    · split <;> simp [UnpackedFloat.isFinite, different]
    · simp [UnpackedFloat.isFinite, different]

theorem isNaN_iff (x : Float) :
    x.isNaN = true ↔ exponentField x = 2047 ∧ fractionField x ≠ 0 := by
  rw [← toNat_unpackExponent, ← toNat_unpackMantissa, Float.isNaN, Float.Model.isNaN,
    Float.Model.unpack, UnpackedFloat.unpack]
  dsimp only
  split
  · next allOnes =>
    rw [allOnes]
    split
    · next zero =>
      rw [zero]
      simp [UnpackedFloat.isNaN]
    · next fraction =>
      have different : (@unpackMantissa Format.binary64 x.toModel.toBits.toBitVec).toNat ≠
          0 := fun same => fraction (BitVec.eq_of_toNat_eq same)
      simp [UnpackedFloat.isNaN, different]
  · next others =>
    have different : (@unpackExponent Format.binary64 x.toModel.toBits.toBitVec).toNat ≠
        2047 := fun same => others (BitVec.eq_of_toNat_eq same)
    split
    · split <;> simp [UnpackedFloat.isNaN, different]
    · simp [UnpackedFloat.isNaN, different]

/-! ## Sorts -/

theorem isFinite_of_ofFloat {x : Float} {negative : Bool} {mantissa : Nat} {exponent : Int}
    (apart : ofFloat x = finite negative mantissa exponent) : x.isFinite = true := by
  rw [isFinite_iff]
  intro allOnes
  unfold exponentField at allOnes
  rw [ofFloat, ofBits] at apart
  rw [if_pos allOnes] at apart
  split at apart <;> cases apart

theorem isNaN_of_ofFloat {x : Float} (apart : ofFloat x = nan) : x.isNaN = true := by
  rw [isNaN_iff]
  unfold exponentField fractionField
  rw [ofFloat, ofBits] at apart
  split at apart
  · next allOnes =>
    split at apart
    · cases apart
    · next fraction => exact ⟨allOnes, fraction⟩
  · split at apart <;> cases apart

/-- An infinity is the quotient of one and zero, or its negative. -/
theorem eq_of_ofFloat_infinity {x : Float} {negative : Bool}
    (apart : ofFloat x = infinity negative) :
    x = if negative then -(1.0 / 0.0) else 1.0 / 0.0 := by
  rw [ofFloat, ofBits] at apart
  split at apart
  · next allOnes =>
    split at apart
    · next noFraction =>
      have bound := x.toBits.toNat_lt
      have sign : decide (2 ^ 63 ≤ x.toBits.toNat) = negative := by
        injection apart
      apply eq_of_toBits_eq
      apply UInt64.toNat.inj
      simp only [hiddenBit, Nat.pow_eq] at allOnes noFraction
      cases negative with
      | true =>
          have bits : (-(1.0 / 0.0) : Float).toBits.toNat = 2 ^ 63 + 2047 * 2 ^ 52 := by
            decide +kernel
          rw [decide_eq_true_eq] at sign
          rw [if_pos rfl, bits]
          omega
      | false =>
          have bits : (1.0 / 0.0 : Float).toBits.toNat = 2047 * 2 ^ 52 := by
            decide +kernel
          rw [decide_eq_false_iff_not] at sign
          rw [if_neg (by decide), bits]
          omega
    · cases apart
  · split at apart <;> cases apart

/-- A float that is not a NaN is equal to itself. -/
theorem beq_self_of_isNaN {x : Float} (isNumber : x.isNaN = false) : (x == x) = true := by
  change x.toModel.unpack.beq x.toModel.unpack = true
  change x.toModel.unpack.isNaN = false at isNumber
  cases sort : x.toModel.unpack with
  | notANumber =>
      rw [sort] at isNumber
      cases isNumber
  | infinity sign => cases sign <;> rfl
  | zero sign => rfl
  | finite sign mantissa exponent positive =>
      cases sign <;> simp [UnpackedFloat.beq, UnpackedFloat.compare]

end Fluxion.Decimal.Binary64
