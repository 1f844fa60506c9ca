import Fluxion.Decimal.Shortest
import Fluxion.Proofs.Decimal.Packing

/-!
# Rounding to the nearest float

The model of floating point rounds a product or a quotient in two shifts: it drops bits
of the mantissa and remembers, in two more bits, where the exact value lies between the
mantissa and the next one. What lies in the neighbourhood of a float is rounded to it,
whatever it was computed from.
-/

namespace Fluxion.Decimal

open Float.Model Float.Model.UnpackedFloat Binary64 Shortest

/-! ## Neighbourhoods as intervals -/

namespace Shortest

/-- The rational numbers in a neighbourhood. -/
structure Neighbourhood.Contains (around : Neighbourhood) (x : ℚ) : Prop where
  lower : (around.lower : ℚ) * 2 ^ around.unit ≤ x
  upper : x ≤ (around.upper : ℚ) * 2 ^ around.unit
  inside : around.closed = false →
    (around.lower : ℚ) * 2 ^ around.unit ≠ x ∧ x ≠ (around.upper : ℚ) * 2 ^ around.unit

/-- A power with a negative exponent is a fraction; multiplied by its denominator it is
whole. -/
theorem zpow_mul_denominator {base : ℚ} (nonzero : base ≠ 0) (exponent : Int) :
    base ^ exponent * base ^ (-exponent).toNat = base ^ exponent.toNat := by
  rw [← zpow_natCast, ← zpow_natCast, ← zpow_add₀ nonzero]
  congr 1
  omega

/-- The common denominator of a power of two and a power of ten. -/
def denominator (p k : Int) : ℚ :=
  2 ^ (-p).toNat * 10 ^ (-k).toNat

theorem denominator_pos (p k : Int) : 0 < denominator p k := by
  unfold denominator
  positivity

theorem cast_binaryScale (p k : Int) : (binaryScale p k : ℚ) = 2 ^ p * denominator p k := by
  rw [denominator, ← mul_assoc, zpow_mul_denominator (by norm_num)]
  simp [binaryScale]

theorem cast_decimalScale (p k : Int) : (decimalScale p k : ℚ) = 10 ^ k * denominator p k := by
  rw [denominator, mul_left_comm, zpow_mul_denominator (by norm_num), mul_comm]
  simp [decimalScale]

/-- Whole numbers in the common denominator compare as what they stand for. -/
theorem scaled_le_iff (a c : Nat) (p k : Int) :
    a * binaryScale p k ≤ c * decimalScale p k ↔ (a : ℚ) * 2 ^ p ≤ c * 10 ^ k := by
  have scaled : ((a * binaryScale p k : Nat) : ℚ) ≤ (c * decimalScale p k : Nat) ↔
      a * binaryScale p k ≤ c * decimalScale p k := Nat.cast_le
  rw [← scaled, Nat.cast_mul, Nat.cast_mul, cast_binaryScale, cast_decimalScale, ← mul_assoc,
    ← mul_assoc]
  exact mul_le_mul_iff_of_pos_right (denominator_pos p k)

theorem le_scaled_iff (a c : Nat) (p k : Int) :
    c * decimalScale p k ≤ a * binaryScale p k ↔ (c : ℚ) * 10 ^ k ≤ a * 2 ^ p := by
  have scaled : ((c * decimalScale p k : Nat) : ℚ) ≤ (a * binaryScale p k : Nat) ↔
      c * decimalScale p k ≤ a * binaryScale p k := Nat.cast_le
  rw [← scaled, Nat.cast_mul, Nat.cast_mul, cast_binaryScale, cast_decimalScale, ← mul_assoc,
    ← mul_assoc]
  exact mul_le_mul_iff_of_pos_right (denominator_pos p k)

/-- What is found to lie in a neighbourhood in whole numbers does. -/
theorem Neighbourhood.contains_of_holds {around : Neighbourhood} {k : Int} {c : Nat}
    (holds : around.holds k c = true) : around.Contains (c * 10 ^ k) := by
  rw [Neighbourhood.holds] at holds
  split at holds
  · next closed =>
    rw [Bool.and_eq_true, decide_eq_true_eq, decide_eq_true_eq, scaled_le_iff, le_scaled_iff]
      at holds
    exact ⟨holds.1, holds.2, fun isOpen => absurd closed (by rw [isOpen]; decide)⟩
  · rw [Bool.and_eq_true, decide_eq_true_eq, decide_eq_true_eq, ← Nat.not_le, ← Nat.not_le,
      le_scaled_iff, scaled_le_iff, not_le, not_le] at holds
    exact ⟨holds.1.le, holds.2.le, fun _ => ⟨holds.1.ne, holds.2.ne⟩⟩

end Shortest

/-! ## Extended mantissas -/

/-- An extended mantissa stands for an exact value: the round bit says whether half a
unit is reached, the sticky bit whether more remains. -/
def Locates (extended : ExtendedMantissa) (x : ℚ) : Prop :=
  match extended with
  | ⟨mantissa, false, false⟩ => x = mantissa
  | ⟨mantissa, false, true⟩ => (mantissa : ℚ) < x ∧ x < mantissa + 1 / 2
  | ⟨mantissa, true, false⟩ => x = mantissa + 1 / 2
  | ⟨mantissa, true, true⟩ => (mantissa : ℚ) + 1 / 2 < x ∧ x < mantissa + 1

theorem Locates.bounds {extended : ExtendedMantissa} {x : ℚ} (locates : Locates extended x) :
    (extended.mantissa : ℚ) ≤ x ∧ x < extended.mantissa + 1 := by
  rcases extended with ⟨mantissa, _ | _, _ | _⟩ <;> simp only [Locates] at locates ⊢ <;>
    constructor <;> linarith

theorem Locates.shiftRightOne {extended : ExtendedMantissa} {x : ℚ}
    (locates : Locates extended x) : Locates extended.shiftRightOne (x / 2) := by
  rcases extended with ⟨mantissa, round, sticky⟩
  have parts : ((mantissa / 2 : Nat) : ℚ) * 2 + (mantissa % 2 : Nat) = mantissa := by
    exact_mod_cast Nat.div_add_mod' mantissa 2
  rcases Nat.mod_two_eq_zero_or_one mantissa with parity | parity <;>
    rw [parity] at parts <;> cases round <;> cases sticky <;>
      simp only [Locates, ExtendedMantissa.shiftRightOne, parity] at locates ⊢ <;>
        push_cast at parts <;> simp <;> grind

theorem Locates.shiftRight {extended : ExtendedMantissa} {x : ℚ}
    (locates : Locates extended x) (count : Nat) :
    Locates (extended >>> count) (x / 2 ^ count) := by
  change Locates (count.repeat ExtendedMantissa.shiftRightOne extended) _
  induction count with
  | zero => simpa [Nat.repeat] using locates
  | succ count ih =>
      rw [Nat.repeat, pow_succ, ← div_div]
      exact ih.shiftRightOne

/-- A whole number that a value is rounded to: it is no further away than half, and only
an even one is that far. -/
structure RoundsTo (x : ℚ) (whole : Nat) : Prop where
  lower : (whole : ℚ) - 1 / 2 ≤ x
  upper : x ≤ whole + 1 / 2
  tie : whole % 2 = 1 → (whole : ℚ) - 1 / 2 ≠ x ∧ x ≠ whole + 1 / 2

theorem Locates.roundedMantissa_eq {extended : ExtendedMantissa} {x : ℚ} {whole : Nat}
    (locates : Locates extended x) (rounds : RoundsTo x whole) :
    extended.roundedMantissa = whole := by
  rcases rounds with ⟨lower, upper, tie⟩
  have next : whole = extended.mantissa ∨ whole = extended.mantissa + 1 := by
    obtain ⟨floor, ceiling⟩ := locates.bounds
    have atLeast : (extended.mantissa : ℚ) < whole + 1 := by linarith
    have atMost : (whole : ℚ) < extended.mantissa + 2 := by linarith
    norm_cast at atLeast atMost
    omega
  rcases extended with ⟨mantissa, _ | _, _ | _⟩ <;> dsimp only at next
  · rcases next with rfl | rfl
    · rfl
    · simp only [Locates] at locates lower
      push_cast at lower
      linarith
  · rcases next with rfl | rfl
    · rfl
    · simp only [Locates] at locates lower
      push_cast at lower
      linarith
  · simp only [Locates] at locates
    change mantissa + mantissa % 2 = whole
    rcases Nat.mod_two_eq_zero_or_one whole with even | odd
    · rcases next with rfl | rfl
      · rw [even]
        rfl
      · omega
    · obtain ⟨notLower, notUpper⟩ := tie odd
      rcases next with rfl | rfl
      · exact absurd locates notUpper
      · push_cast at notLower
        exact absurd (by linarith) notLower
  · rcases next with rfl | rfl
    · simp only [Locates] at locates upper
      linarith
    · rfl

/-! ## Target exponents -/

theorem targetExponent_eq (mantissa : Nat) (exponent : Int) :
    Format.binary64.targetExponent (totalExponent mantissa exponent) =
      max (mantissa.log2 + exponent - 52) leastExponent := by
  have bits : (Format.binary64.mantissaBits : Int) = 53 := rfl
  have least : Format.binary64.minExponent = -1074 := by decide
  rw [Format.targetExponent, totalExponent, bits, least, leastExponent]
  omega

theorem lt_of_floor {mantissa : Nat} {exponent bound : Int} {x : ℚ} (positive : 0 < mantissa)
    (floor : (mantissa : ℚ) * 2 ^ exponent ≤ x) (upper : x < 2 ^ bound) :
    mantissa.log2 + exponent < bound := by
  have leading : (2 : ℚ) ^ (mantissa.log2 : Int) ≤ mantissa := by
    exact_mod_cast Nat.log2_self_le positive.ne'
  have below : (2 : ℚ) ^ (mantissa.log2 + exponent) < 2 ^ bound := by
    calc (2 : ℚ) ^ (mantissa.log2 + exponent)
        = 2 ^ (mantissa.log2 : Int) * 2 ^ exponent := zpow_add₀ (by norm_num) _ _
      _ ≤ mantissa * 2 ^ exponent := by gcongr
      _ ≤ x := floor
      _ < 2 ^ bound := upper
  exact (zpow_lt_zpow_iff_right₀ (by norm_num)).mp below

theorem le_of_ceiling {mantissa : Nat} {exponent bound : Int} {x : ℚ}
    (ceiling : x < (mantissa + 1) * 2 ^ exponent) (lower : 2 ^ bound ≤ x) :
    bound ≤ mantissa.log2 + exponent := by
  have leading : (mantissa + 1 : ℚ) ≤ 2 ^ (mantissa.log2 + 1 : Int) := by
    exact_mod_cast Nat.lt_log2_self (n := mantissa)
  have below : (2 : ℚ) ^ bound < 2 ^ (mantissa.log2 + 1 + exponent) := by
    calc (2 : ℚ) ^ bound ≤ x := lower
      _ < (mantissa + 1) * 2 ^ exponent := ceiling
      _ ≤ 2 ^ (mantissa.log2 + 1 : Int) * 2 ^ exponent := by gcongr
      _ = 2 ^ (mantissa.log2 + 1 + exponent) := (zpow_add₀ (by norm_num) _ _).symm
  have := (zpow_lt_zpow_iff_right₀ (by norm_num)).mp below
  omega

/-! ## The first shift -/

/-- What is known of an exact value before it is rounded: a mantissa, an exponent that is
not above the one it will be rounded at, and where the value lies between the mantissa and
the next. -/
structure Approximates (mantissa : Nat) (exponent : Int) (accuracy : Accuracy) (x : ℚ) : Prop where
  locates : Locates (.ofMantissaAndAccuracy mantissa accuracy) (x / 2 ^ exponent)
  enough : exponent ≤ max (mantissa.log2 + exponent - 52) leastExponent

namespace Approximates

variable {mantissa : Nat} {exponent : Int} {accuracy : Accuracy} {x : ℚ}

theorem floor_ceiling (approximates : Approximates mantissa exponent accuracy x) :
    (mantissa : ℚ) * 2 ^ exponent ≤ x ∧ x < (mantissa + 1) * 2 ^ exponent := by
  have same : (ExtendedMantissa.ofMantissaAndAccuracy mantissa accuracy).mantissa = mantissa := by
    rcases accuracy with _ | (_ | _ | _) <;> rfl
  have scale : (0 : ℚ) < 2 ^ exponent := by positivity
  obtain ⟨floor, ceiling⟩ := approximates.locates.bounds
  rw [same] at floor ceiling
  exact ⟨(le_div_iff₀ scale).mp floor, (div_lt_iff₀ scale).mp ceiling⟩

/-- Between two powers of two the target is known. -/
theorem target_eq (approximates : Approximates mantissa exponent accuracy x) {target : Int}
    (least : leastExponent ≤ target) (lower : 2 ^ (52 + target) ≤ x)
    (upper : x < 2 ^ (53 + target)) :
    max (mantissa.log2 + exponent - 52) leastExponent = target := by
  obtain ⟨floor, ceiling⟩ := approximates.floor_ceiling
  have enough := approximates.enough
  have high := le_of_ceiling ceiling lower
  rcases Nat.eq_zero_or_pos mantissa with rfl | positive
  · rw [Nat.log2_zero] at enough high
    omega
  · have low := lt_of_floor positive floor upper
    omega

/-- Below the normal numbers the target is the least exponent. -/
theorem target_least (approximates : Approximates mantissa exponent accuracy x)
    (upper : x < 2 ^ (52 + leastExponent)) :
    max (mantissa.log2 + exponent - 52) leastExponent = leastExponent := by
  obtain ⟨floor, _⟩ := approximates.floor_ceiling
  have enough := approximates.enough
  rcases Nat.eq_zero_or_pos mantissa with rfl | positive
  · rw [Nat.log2_zero] at enough ⊢
    omega
  · have low := lt_of_floor positive floor upper
    omega

theorem shift (approximates : Approximates mantissa exponent accuracy x) {target : Int}
    (targets : max (mantissa.log2 + exponent - 52) leastExponent = target) :
    ∃ extended, Locates extended (x / 2 ^ target) ∧
      shiftToTargetExponent Format.binary64 mantissa exponent accuracy = (extended, target) := by
  have enough := approximates.enough
  rw [targets] at enough
  have distance : exponent + (target - exponent).toNat = target := by omega
  have scale : (2 : ℚ) ^ target = 2 ^ exponent * 2 ^ (target - exponent).toNat := by
    rw [← zpow_natCast, ← zpow_add₀ (by norm_num), distance]
  refine ⟨ExtendedMantissa.ofMantissaAndAccuracy mantissa accuracy >>>
    (target - exponent).toNat, ?_, ?_⟩
  · rw [scale, ← div_div]
    exact approximates.locates.shiftRight _
  · rw [shiftToTargetExponent, targetExponent_eq, targets, shiftToExponent, distance]

end Approximates

/-! ## The second shift -/

theorem shiftToTargetExponent_of_le {mantissa : Nat} {exponent : Int}
    (low : max (mantissa.log2 + exponent - 52) leastExponent ≤ exponent) :
    shiftToTargetExponent Format.binary64 mantissa exponent .exact =
      (⟨mantissa, false, false⟩, exponent) := by
  have none : (max (mantissa.log2 + exponent - 52) leastExponent - exponent).toNat = 0 := by
    omega
  rw [shiftToTargetExponent, targetExponent_eq, shiftToExponent, none]
  simp [ExtendedMantissa.ofMantissaAndAccuracy, HShiftRight.hShiftRight, Nat.repeat]

/-- A mantissa that rounding has carried to the next power of two is shifted by one bit. -/
theorem shiftToTargetExponent_carry {exponent : Int} (normal : leastExponent < exponent) :
    shiftToTargetExponent Format.binary64 (2 ^ 53) (exponent - 1) .exact =
      (⟨2 ^ 52, false, false⟩, exponent) := by
  have one : (max (((2 ^ 53 : Nat).log2 : Int) + (exponent - 1) - 52) leastExponent -
      (exponent - 1)).toNat = 1 := by
    rw [Nat.log2_two_pow]
    omega
  rw [shiftToTargetExponent, targetExponent_eq, shiftToExponent, one]
  simp [ExtendedMantissa.ofMantissaAndAccuracy, HShiftRight.hShiftRight, Nat.repeat,
    ExtendedMantissa.shiftRightOne]

theorem Binary64.Canonical.target_le {mantissa : Nat} {exponent : Int}
    (canonical : Canonical mantissa exponent) :
    max (mantissa.log2 + exponent - 52) leastExponent ≤ exponent := by
  have short := (Nat.log2_lt canonical.positive.ne').mpr canonical.fits
  have least := canonical.least
  omega

theorem roundWithAccuracy_of {sign : Sign} {mantissa rounded mantissa' : Nat}
    {exponent first second : Int} {accuracy : Accuracy} {extended : ExtendedMantissa}
    (shifts : shiftToTargetExponent Format.binary64 mantissa exponent accuracy = (extended, first))
    (rounds : extended.roundedMantissa = rounded)
    (shiftsAgain : shiftToTargetExponent Format.binary64 rounded first .exact =
      (⟨mantissa', false, false⟩, second))
    (positive : 0 < mantissa') :
    roundWithAccuracy Format.binary64 sign mantissa exponent accuracy =
      .finite sign mantissa' second positive := by
  rw [roundWithAccuracy, shifts]
  dsimp only
  rw [rounds, shiftsAgain]
  exact dif_neg positive.ne'

/-! ## Rounding -/

section Neighbourhood

variable {mantissa : Nat} {exponent : Int} {x : ℚ}

theorem four_units (exponent : Int) : (2 : ℚ) ^ (exponent - 2) * 4 = 2 ^ exponent := by
  rw [zpow_sub₀ (by norm_num)]
  norm_num

theorem unit_neighbourhood (mantissa : Nat) (exponent : Int) :
    (neighbourhood mantissa exponent).unit = exponent - 2 :=
  rfl

theorem upper_neighbourhood (mantissa : Nat) (exponent : Int) :
    ((neighbourhood mantissa exponent).upper : ℚ) = 4 * mantissa + 2 := by
  simp [neighbourhood]

theorem inside_neighbourhood (exponent : Int) (positive : 0 < mantissa) :
    (neighbourhood mantissa exponent).lower < (neighbourhood mantissa exponent).centre ∧
      (neighbourhood mantissa exponent).centre < (neighbourhood mantissa exponent).upper := by
  unfold neighbourhood
  dsimp only
  split <;> omega

/-- The lower end is half a unit below, except next to the floats that lie closer. -/
theorem lower_neighbourhood (exponent : Int) (positive : 0 < mantissa) :
    (4 * mantissa - 2 : ℚ) ≤ (neighbourhood mantissa exponent).lower ∧
      (mantissa % 2 = 1 →
        ((neighbourhood mantissa exponent).lower : ℚ) = 4 * mantissa - 2) := by
  by_cases closer : mantissa = hiddenBit ∧ leastExponent < exponent
  · have lower : (neighbourhood mantissa exponent).lower = 4 * mantissa - 1 := if_pos closer
    rw [lower, Nat.cast_sub (by omega)]
    push_cast
    constructor
    · linarith
    · intro odd
      rw [closer.1] at odd
      exact absurd odd (by decide)
  · have lower : (neighbourhood mantissa exponent).lower = 4 * mantissa - 2 := if_neg closer
    rw [lower, Nat.cast_sub (by omega)]
    push_cast
    exact ⟨le_refl _, fun _ => rfl⟩

/-- A neighbourhood reaches half a unit to each side, or less. -/
theorem roundsTo_of_contains (positive : 0 < mantissa)
    (near : (neighbourhood mantissa exponent).Contains x) :
    RoundsTo (x / 2 ^ exponent) mantissa := by
  rcases near with ⟨lower, upper, inside⟩
  have scale : (0 : ℚ) < 2 ^ (exponent - 2) := by positivity
  obtain ⟨lowest, lowerEnd⟩ := lower_neighbourhood exponent positive
  rw [unit_neighbourhood, upper_neighbourhood] at upper inside
  rw [unit_neighbourhood] at lower
  rw [← four_units exponent]
  constructor
  · rw [le_div_iff₀ (by positivity)]
    nlinarith
  · rw [div_le_iff₀ (by positivity)]
    linarith
  · intro odd
    have isOpen : (neighbourhood mantissa exponent).closed = false := by
      simp [neighbourhood, odd]
    rw [lowerEnd odd] at inside
    obtain ⟨notLower, notUpper⟩ := inside isOpen
    constructor
    · intro same
      rw [eq_div_iff (by positivity)] at same
      exact notLower (by linarith)
    · intro same
      rw [div_eq_iff (by positivity)] at same
      exact notUpper (by linarith)

/-- Below a power of two, a neighbourhood reaches a quarter of a unit down. -/
theorem roundsTo_carry (normal : leastExponent < exponent)
    (near : (neighbourhood (2 ^ 52) exponent).Contains x) (below : x < 2 ^ (52 + exponent)) :
    RoundsTo (x / 2 ^ (exponent - 1)) (2 ^ 53) := by
  have lowerEnd : (neighbourhood (2 ^ 52) exponent).lower = 4 * 2 ^ 52 - 1 :=
    if_pos ⟨rfl, normal⟩
  have scale : (0 : ℚ) < 2 ^ (exponent - 2) := by positivity
  have half : (2 : ℚ) ^ (exponent - 1) = 2 ^ (exponent - 2) * 2 := by
    rw [← zpow_add_one₀ (by norm_num)]
    congr 1
    omega
  have lower := near.lower
  rw [lowerEnd, unit_neighbourhood] at lower
  rw [zpow_add₀ (by norm_num), ← four_units exponent] at below
  rw [half]
  constructor
  · rw [le_div_iff₀ (by positivity)]
    norm_num at lower ⊢
    linarith
  · rw [div_le_iff₀ (by positivity)]
    norm_num at below ⊢
    linarith
  · intro odd
    exact absurd odd (by decide)

theorem lt_of_roundsTo (fits : mantissa < 2 ^ 53) (rounds : RoundsTo (x / 2 ^ exponent) mantissa) :
    x < 2 ^ (53 + exponent) := by
  have scale : (0 : ℚ) < 2 ^ exponent := by positivity
  have largest : (mantissa : ℚ) ≤ 2 ^ 53 - 1 := by
    have step : (mantissa : ℚ) + 1 ≤ 2 ^ 53 := by exact_mod_cast fits
    linarith
  have quotient : x / 2 ^ exponent < 2 ^ (53 : Int) := by
    calc x / 2 ^ exponent ≤ mantissa + 1 / 2 := rounds.upper
      _ < 2 ^ 53 := by linarith
      _ = 2 ^ (53 : Int) := by norm_num
  rw [zpow_add₀ (by norm_num)]
  exact (div_lt_iff₀ scale).mp quotient

/-- Of the normal floats only a power of two is rounded to from below its binade. -/
theorem eq_of_roundsTo_of_lt (normal : 2 ^ 52 ≤ mantissa)
    (rounds : RoundsTo (x / 2 ^ exponent) mantissa) (below : x < 2 ^ (52 + exponent)) :
    mantissa = 2 ^ 52 := by
  have scale : (0 : ℚ) < 2 ^ exponent := by positivity
  rw [zpow_add₀ (by norm_num)] at below
  have quotient : x / 2 ^ exponent < 2 ^ (52 : Int) := (div_lt_iff₀ scale).mpr below
  have small : (mantissa : ℚ) < 2 ^ 52 + 1 := by
    have lower := rounds.lower
    have power : (2 : ℚ) ^ (52 : Int) = 2 ^ 52 := by norm_num
    linarith
  have small' : mantissa < 2 ^ 52 + 1 := by exact_mod_cast small
  omega

/-- What lies in the neighbourhood of a float is rounded to it. -/
theorem roundWithAccuracy_eq {start : Nat} {first : Int} {accuracy : Accuracy}
    (approximates : Approximates start first accuracy x) (canonical : Canonical mantissa exponent)
    (near : (neighbourhood mantissa exponent).Contains x) (sign : Sign) :
    roundWithAccuracy Format.binary64 sign start first accuracy =
      .finite sign mantissa exponent canonical.positive := by
  have rounds := roundsTo_of_contains canonical.positive near
  have upper := lt_of_roundsTo canonical.fits rounds
  have settles : max (start.log2 + first - 52) leastExponent = exponent →
      roundWithAccuracy Format.binary64 sign start first accuracy =
        .finite sign mantissa exponent canonical.positive := by
    intro targets
    obtain ⟨extended, locates, shifts⟩ := approximates.shift targets
    exact roundWithAccuracy_of shifts (locates.roundedMantissa_eq rounds)
      (shiftToTargetExponent_of_le canonical.target_le) canonical.positive
  rcases lt_or_ge x (2 ^ (52 + exponent)) with below | atLeast
  · rcases canonical.least.eq_or_lt with rfl | normal
    · exact settles (approximates.target_least below)
    · -- The value lies in the binade below, and rounding carries.
      have power := eq_of_roundsTo_of_lt
        (canonical.normal.resolve_right normal.ne') rounds below
      subst power
      have carries := roundsTo_carry normal near below
      have lower : (2 : ℚ) ^ (52 + (exponent - 1)) ≤ x := by
        have scale : (0 : ℚ) < 2 ^ (exponent - 1) := by positivity
        have atLeast := (le_div_iff₀ scale).mp carries.lower
        rw [zpow_add₀ (by norm_num)]
        norm_num at atLeast ⊢
        linarith
      have upper' : x < 2 ^ (53 + (exponent - 1)) := by
        have same : 53 + (exponent - 1) = 52 + exponent := by omega
        rwa [same]
      obtain ⟨extended, locates, shifts⟩ :=
        approximates.shift (approximates.target_eq (by omega) lower upper')
      exact roundWithAccuracy_of shifts (locates.roundedMantissa_eq carries)
        (shiftToTargetExponent_carry normal) canonical.positive
  · exact settles (approximates.target_eq canonical.least atLeast upper)

end Neighbourhood

end Fluxion.Decimal
