import Fluxion.Proofs.Decimal.Binary64

/-!
# Finite floats, put together

A finite float other than zero is a mantissa and an exponent of which one cannot be
made smaller without the other growing past its bounds. From such a pair and a sign
the model of floating point makes the bits, and taking these apart gives the pair back.
So a float is known by what it is taken apart into.
-/

namespace Fluxion.Decimal.Binary64

open Float.Model Float.Model.UnpackedFloat

/-! ## Canonical pairs -/

/-- The exponent of the largest floats. -/
def greatestExponent : Int :=
  971

/-- A mantissa and an exponent as finite floats other than zero have them. -/
structure Canonical (mantissa : Nat) (exponent : Int) : Prop where
  positive : 0 < mantissa
  fits : mantissa < 2 ^ 53
  least : leastExponent ≤ exponent
  greatest : exponent ≤ greatestExponent
  normal : 2 ^ 52 ≤ mantissa ∨ exponent = leastExponent

/-- The mantissa that two fields stand for. -/
def mantissaOf (field fraction : Nat) : Nat :=
  if field = 0 then fraction else 2 ^ 52 + fraction

/-- The exponent that a field stands for. -/
def exponentOf (field : Nat) : Int :=
  if field = 0 then leastExponent else leastExponent + (field - 1 : Nat)

theorem ofBits_fields {bits : Nat} (isFinite : bits / hiddenBit % Nat.pow 2 11 ≠ 2047) :
    ofBits bits = finite (decide (2 ^ 63 ≤ bits))
      (mantissaOf (bits / hiddenBit % Nat.pow 2 11) (bits % hiddenBit))
      (exponentOf (bits / hiddenBit % Nat.pow 2 11)) := by
  rw [ofBits, mantissaOf, exponentOf, if_neg isFinite]
  split
  · rfl
  · rfl

theorem canonical_of_fields {field fraction : Nat} (fieldBound : field < 2047)
    (fractionBound : fraction < 2 ^ 52) (positive : 0 < mantissaOf field fraction) :
    Canonical (mantissaOf field fraction) (exponentOf field) := by
  unfold mantissaOf at *
  unfold exponentOf
  constructor
  · exact positive
  · split <;> omega
  · split <;> omega
  · rw [greatestExponent, leastExponent]
    split <;> omega
  · split
    · exact Or.inr rfl
    · exact Or.inl (by omega)

theorem canonical_of_ofFloat {x : Float} {negative : Bool} {mantissa : Nat} {exponent : Int}
    (apart : ofFloat x = finite negative mantissa exponent) (positive : 0 < mantissa) :
    Canonical mantissa exponent := by
  have isFinite := (isFinite_iff x).mp (isFinite_of_ofFloat apart)
  have fractionBound := Nat.mod_lt x.toBits.toNat (show 0 < hiddenBit by decide)
  have fieldBound := Nat.mod_lt (x.toBits.toNat / hiddenBit) (show 0 < Nat.pow 2 11 by decide)
  rw [ofFloat, ofBits_fields isFinite] at apart
  cases apart
  exact canonical_of_fields (Nat.lt_of_le_of_ne (Nat.le_of_lt_succ fieldBound) isFinite)
    fractionBound positive

/-! ## Bits -/

/-- The sign of a float as the model of floating point has it. -/
def signOf : Bool → Sign
  | true => .negative
  | false => .positive

/-- What the sign adds to the bits. -/
def signBit : Bool → Nat
  | true => 2 ^ 63
  | false => 0

/-- The fields of a float, put next to each other. -/
def bitsOf (negative : Bool) (field fraction : Nat) : Nat :=
  signBit negative + field * 2 ^ 52 + fraction

theorem ofBits_bitsOf (negative : Bool) {field fraction : Nat} (fieldBound : field < 2047)
    (fractionBound : fraction < 2 ^ 52) :
    ofBits (bitsOf negative field fraction) =
      finite negative (mantissaOf field fraction) (exponentOf field) := by
  have fraction_eq : bitsOf negative field fraction % hiddenBit = fraction := by
    cases negative <;> simp only [bitsOf, signBit, hiddenBit, Nat.pow_eq] <;> omega
  have field_eq : bitsOf negative field fraction / hiddenBit % Nat.pow 2 11 = field := by
    cases negative <;> simp only [bitsOf, signBit, hiddenBit, Nat.pow_eq] <;> omega
  have sign_eq : decide (2 ^ 63 ≤ bitsOf negative field fraction) = negative := by
    cases negative with
    | true =>
        apply decide_eq_true
        rw [bitsOf, signBit]
        omega
    | false =>
        apply decide_eq_false
        rw [bitsOf, signBit]
        omega
  rw [ofBits_fields (by rw [field_eq]; omega), fraction_eq, field_eq, sign_eq]

theorem toNat_packComponents (negative : Bool) (field : BitVec 11) (fraction : BitVec 52) :
    (packComponents Format.binary64 (signOf negative) field fraction).toNat =
      bitsOf negative field.toNat fraction.toNat := by
  have join : ∀ high : Nat, high <<< 11 ||| field.toNat = high * 2 ^ 11 + field.toNat := by
    intro high
    rw [← Nat.shiftLeft_add_eq_or_of_lt field.isLt, Nat.shiftLeft_eq]
  have appended : (packComponents Format.binary64 (signOf negative) field fraction).toNat =
      (((signOf negative).toBitVec ++ field) ++ fraction).toNat := rfl
  rw [appended, BitVec.toNat_append, BitVec.toNat_append, join,
    ← Nat.shiftLeft_add_eq_or_of_lt fraction.isLt, Nat.shiftLeft_eq]
  cases negative with
  | true =>
      have sign : (signOf true).toBitVec.toNat = 1 := rfl
      rw [sign, bitsOf, signBit]
      omega
  | false =>
      have sign : (signOf false).toBitVec.toNat = 0 := rfl
      rw [sign, bitsOf, signBit]
      omega

/-- The float with a sign, a mantissa and an exponent. -/
def put (negative : Bool) {mantissa : Nat} {exponent : Int}
    (canonical : Canonical mantissa exponent) : Float :=
  Float.ofModel (.pack (.finite (signOf negative) mantissa exponent canonical.positive))

theorem pack_finite (negative : Bool) {mantissa : Nat} {exponent : Int}
    (canonical : Canonical mantissa exponent) :
    UnpackedFloat.pack Format.binary64
        (.finite (signOf negative) mantissa exponent canonical.positive) =
      packComponents Format.binary64 (signOf negative)
        (if mantissa < 2 ^ 52 then 0#11 else BitVec.ofNat 11 (exponent + 1075).toNat)
        (BitVec.ofNat 52 mantissa) := by
  have bounded : ¬2 ^ 11 ≤ (exponent + 1023 + 52).toNat + 1 := by
    have greatest := canonical.greatest
    rw [greatestExponent] at greatest
    omega
  rw [UnpackedFloat.pack]
  change (if 2 ^ 11 ≤ (exponent + 1023 + 52).toNat + 1 then _
    else if mantissa.log2 + 1 = 53 then _ else _) = _
  rw [if_neg bounded]
  by_cases subnormal : mantissa < 2 ^ 52
  · have short : mantissa.log2 < 52 := (Nat.log2_lt canonical.positive.ne').mpr subnormal
    rw [if_neg (by omega), if_pos subnormal]
  · have long : mantissa.log2 = 52 :=
      (Nat.log2_eq_iff canonical.positive.ne').mpr ⟨by omega, canonical.fits⟩
    have biased : exponent + 1023 + 52 = exponent + 1075 := by omega
    rw [if_pos (by omega), if_neg subnormal, ← biased]
    rfl

/-- Taking apart undoes putting together. -/
theorem ofFloat_put (negative : Bool) {mantissa : Nat} {exponent : Int}
    (canonical : Canonical mantissa exponent) :
    ofFloat (put negative canonical) = finite negative mantissa exponent := by
  have bits : (put negative canonical).toBits.toNat =
      (UnpackedFloat.pack Format.binary64
        (.finite (signOf negative) mantissa exponent canonical.positive)).toNat := rfl
  have fits := canonical.fits
  have least := canonical.least
  have greatest := canonical.greatest
  rw [leastExponent] at least
  rw [greatestExponent] at greatest
  rw [ofFloat, bits, pack_finite negative canonical, toNat_packComponents, BitVec.toNat_ofNat]
  by_cases subnormal : mantissa < 2 ^ 52
  · have exponent_eq : exponent = leastExponent :=
      canonical.normal.resolve_left (Nat.not_le.mpr subnormal)
    rw [if_pos subnormal, BitVec.toNat_ofNat, Nat.mod_eq_of_lt subnormal,
      ofBits_bitsOf negative (by decide) subnormal, exponent_eq]
    rfl
  · have field : (exponent + 1075).toNat % 2 ^ 11 = (exponent + 1075).toNat :=
      Nat.mod_eq_of_lt (by omega)
    rw [if_neg subnormal, BitVec.toNat_ofNat, field,
      ofBits_bitsOf negative (by omega) (Nat.mod_lt _ (by decide)), mantissaOf, exponentOf,
      if_neg (by omega), if_neg (by omega), leastExponent]
    congr 1 <;> omega

/-! ## A float is what it is taken apart into -/

theorem toNat_toBits (x : Float) :
    x.toBits.toNat =
      bitsOf (decide (2 ^ 63 ≤ x.toBits.toNat)) (exponentField x) (fractionField x) := by
  have bound := x.toBits.toNat_lt
  by_cases negative : 2 ^ 63 ≤ x.toBits.toNat
  · rw [decide_eq_true negative, bitsOf, signBit, exponentField, fractionField]
    simp only [hiddenBit, Nat.pow_eq]
    omega
  · rw [decide_eq_false negative, bitsOf, signBit, exponentField, fractionField]
    simp only [hiddenBit, Nat.pow_eq]
    omega

theorem ofFloat_fields {x : Float} (isFinite : x.isFinite = true) :
    ofFloat x = finite (decide (2 ^ 63 ≤ x.toBits.toNat))
      (mantissaOf (exponentField x) (fractionField x)) (exponentOf (exponentField x)) :=
  ofBits_fields ((isFinite_iff x).mp isFinite)

/-- The mantissa says whether the field is zero, and then the exponent says the field. -/
theorem fields_injective {field fraction field' fraction' : Nat} (bound : fraction < 2 ^ 52)
    (bound' : fraction' < 2 ^ 52)
    (sameMantissa : mantissaOf field fraction = mantissaOf field' fraction')
    (sameExponent : exponentOf field = exponentOf field') :
    field = field' ∧ fraction = fraction' := by
  unfold mantissaOf at sameMantissa
  unfold exponentOf at sameExponent
  split at sameMantissa <;> split at sameMantissa <;> simp_all <;> omega

theorem eq_of_ofFloat_eq {x y : Float} {negative : Bool} {mantissa : Nat} {exponent : Int}
    (apart : ofFloat x = finite negative mantissa exponent)
    (apart' : ofFloat y = finite negative mantissa exponent) : x = y := by
  have bound : fractionField x < 2 ^ 52 := Nat.mod_lt _ (by decide)
  have bound' : fractionField y < 2 ^ 52 := Nat.mod_lt _ (by decide)
  have same : ofFloat x = ofFloat y := apart.trans apart'.symm
  rw [ofFloat_fields (isFinite_of_ofFloat apart), ofFloat_fields (isFinite_of_ofFloat apart'),
    finite.injEq] at same
  rcases same with ⟨sign, sameMantissa, sameExponent⟩
  obtain ⟨field, fraction⟩ := fields_injective bound bound' sameMantissa sameExponent
  apply eq_of_toBits_eq
  apply UInt64.toNat.inj
  rw [toNat_toBits x, toNat_toBits y, sign, field, fraction]

theorem eq_put {x : Float} {negative : Bool} {mantissa : Nat} {exponent : Int}
    (apart : ofFloat x = finite negative mantissa exponent)
    (canonical : Canonical mantissa exponent) : x = put negative canonical :=
  eq_of_ofFloat_eq apart (ofFloat_put negative canonical)

/-- A NaN is the quotient of zero and zero. -/
theorem eq_of_ofFloat_nan {x : Float} (apart : ofFloat x = nan) : x = 0.0 / 0.0 := by
  obtain ⟨field, fraction⟩ := (isNaN_iff x).mp (isNaN_of_ofFloat apart)
  have packed : x.toModel.toBits.toBitVec = packedNaN Format.binary64 := by
    apply x.toModel.valid.eq_packedNaN
    · exact BitVec.eq_of_toNat_eq ((toNat_unpackExponent x).trans field)
    · intro none
      apply fraction
      rw [← toNat_unpackMantissa, none]
      rfl
  apply eq_of_toBits_eq
  apply UInt64.toBitVec_inj.mp
  exact packed.trans (by decide +kernel)

/-- A zero is known by its sign. -/
theorem eq_of_ofFloat_zero {x : Float} {negative : Bool} {exponent : Int}
    (apart : ofFloat x = finite negative 0 exponent) : x = if negative then -0.0 else 0.0 := by
  have fields := ofFloat_fields (isFinite_of_ofFloat apart)
  rw [apart, finite.injEq] at fields
  rcases fields with ⟨_, noMantissa, isExponent⟩
  have field : exponentField x = 0 := by
    unfold mantissaOf at noMantissa
    split at noMantissa
    · assumption
    · omega
  rw [field] at isExponent
  subst isExponent
  have bits : (-0.0 : Float).toBits.toNat = 2 ^ 63 ∧ (0.0 : Float).toBits.toNat = 0 := by
    decide +kernel
  cases negative with
  | true =>
      refine eq_of_ofFloat_eq apart ?_
      rw [if_pos rfl, ofFloat, bits.1]
      rfl
  | false =>
      refine eq_of_ofFloat_eq apart ?_
      rw [if_neg (by decide), ofFloat, bits.2]
      rfl

theorem ofBitVec_unpackSign (x : Float) :
    Sign.ofBitVec (@unpackSign Format.binary64 x.toModel.toBits.toBitVec) =
      signOf (decide (2 ^ 63 ≤ x.toBits.toNat)) := by
  have bound := x.toBits.toNat_lt
  have bit : (@unpackSign Format.binary64 x.toModel.toBits.toBitVec).toNat =
      x.toBits.toNat / 2 ^ 63 % 2 := by
    simp [unpackSign, Nat.shiftRight_eq_div_pow, Float.toBits]
  by_cases negative : 2 ^ 63 ≤ x.toBits.toNat
  · have different : @unpackSign Format.binary64 x.toModel.toBits.toBitVec ≠ 0#1 := by
      intro zero
      rw [zero, BitVec.toNat_zero] at bit
      omega
    rw [decide_eq_true negative, Sign.ofBitVec, if_neg different]
    rfl
  · have zero : @unpackSign Format.binary64 x.toModel.toBits.toBitVec = 0#1 := by
      apply BitVec.eq_of_toNat_eq
      rw [bit, BitVec.toNat_zero]
      omega
    rw [decide_eq_false negative, Sign.ofBitVec, if_pos zero]
    rfl

theorem unpacked_congr {sign sign' : Sign} {mantissa mantissa' : Nat} {exponent exponent' : Int}
    {positive : 0 < mantissa} {positive' : 0 < mantissa'} (sameSign : sign = sign')
    (sameMantissa : mantissa = mantissa') (sameExponent : exponent = exponent') :
    UnpackedFloat.finite sign mantissa exponent positive =
      .finite sign' mantissa' exponent' positive' := by
  subst sameSign sameMantissa sameExponent
  rfl

/-- The model of floating point takes a float apart in the same way. -/
theorem unpack_of_ofFloat {x : Float} {negative : Bool} {mantissa : Nat} {exponent : Int}
    (apart : ofFloat x = finite negative mantissa exponent) (positive : 0 < mantissa) :
    x.toModel.unpack = .finite (signOf negative) mantissa exponent positive := by
  have isFinite := isFinite_of_ofFloat apart
  have field := toNat_unpackExponent x
  have fraction := toNat_unpackMantissa x
  have notAllOnes : @unpackExponent Format.binary64 x.toModel.toBits.toBitVec ≠ -1#11 := by
    intro allOnes
    rw [allOnes] at field
    exact (isFinite_iff x).mp isFinite field.symm
  rw [ofFloat_fields isFinite, finite.injEq] at apart
  rcases apart with ⟨rfl, rfl, rfl⟩
  rw [Float.Model.unpack, UnpackedFloat.unpack]
  dsimp only
  rw [if_neg notAllOnes, ofBitVec_unpackSign]
  by_cases zeros : @unpackExponent Format.binary64 x.toModel.toBits.toBitVec = 0#11
  · have field_eq : exponentField x = 0 := by
      rw [← field, zeros]
      rfl
    have mantissa_eq : mantissaOf (exponentField x) (fractionField x) = fractionField x :=
      if_pos field_eq
    rw [if_pos zeros]
    split
    · next none =>
      rw [none] at fraction
      rw [mantissa_eq, ← fraction] at positive
      exact absurd positive (by decide)
    · refine unpacked_congr rfl (fraction.trans mantissa_eq.symm) ?_
      rw [field, exponentOf, if_pos field_eq, field_eq]
      rfl
  · have field_ne : exponentField x ≠ 0 :=
      fun none => zeros (BitVec.eq_of_toNat_eq (field.trans none))
    rw [if_neg zeros]
    apply unpacked_congr rfl
    · rw [mantissaOf, if_neg field_ne, ← fraction, BitVec.toNat_append]
      rw [← Nat.shiftLeft_add_eq_or_of_lt (BitVec.isLt _)]
      rfl
    · rw [field, exponentOf, if_neg field_ne, leastExponent]
      change (exponentField x : Int) - (1023 + 52) = _
      omega

/-- The model of floating point takes a float apart in the same way. -/
theorem unpack_put (negative : Bool) {mantissa : Nat} {exponent : Int}
    (canonical : Canonical mantissa exponent) :
    (put negative canonical).toModel.unpack =
      .finite (signOf negative) mantissa exponent canonical.positive :=
  unpack_of_ofFloat (ofFloat_put negative canonical) canonical.positive

theorem neg_put {mantissa : Nat} {exponent : Int} (canonical : Canonical mantissa exponent) :
    -(put false canonical) = put true canonical := by
  have negated : -(put false canonical) =
      Float.ofModel (.pack (put false canonical).toModel.unpack.neg) := rfl
  rw [negated, unpack_put]
  rfl

theorem put_beq_zero (negative : Bool) {mantissa : Nat} {exponent : Int}
    (canonical : Canonical mantissa exponent) : (put negative canonical == 0.0) = false := by
  have compared : (put negative canonical == 0.0) =
      (put negative canonical).toModel.unpack.beq (0.0 : Float).toModel.unpack := rfl
  have zero : (0.0 : Float).toModel.unpack = .zero .positive := rfl
  rw [compared, unpack_put, zero]
  cases negative <;> rfl

end Fluxion.Decimal.Binary64
