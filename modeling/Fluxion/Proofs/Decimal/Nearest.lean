import Fluxion.Decimal.Reading
import Fluxion.Proofs.Decimal.Rounding

/-!
# The float nearest to a decimal

A decimal in the neighbourhood of a float is read as that float. A short decimal is read
by one multiplication or division of two floats that are exact; any other goes through
whole numbers of any length. Either way there is one rounding.
-/

namespace Fluxion.Decimal

open Float.Model Float.Model.UnpackedFloat Binary64 Shortest

/-! ## Operations -/

theorem Approximates.product {mantissa : Nat} (exponent : Int) (long : 52 ≤ mantissa.log2) :
    Approximates mantissa exponent .exact (mantissa * 2 ^ exponent) := by
  have scale : (2 : ℚ) ^ exponent ≠ 0 := by positivity
  constructor
  · exact mul_div_cancel_right₀ _ scale
  · omega

theorem locates_quotient (dividend : Nat) {divisor : Nat} (positive : 0 < divisor) :
    Locates (.ofMantissaAndAccuracy (dividend / divisor)
      (accuracyOfFraction (dividend % divisor) divisor)) (dividend / divisor) := by
  have parts : (divisor : ℚ) * (dividend / divisor : Nat) + (dividend % divisor : Nat) =
      dividend := by
    exact_mod_cast Nat.div_add_mod dividend divisor
  have rest : ((dividend % divisor : Nat) : ℚ) < divisor := by
    exact_mod_cast Nat.mod_lt dividend positive
  have scale : (0 : ℚ) < divisor := by exact_mod_cast positive
  generalize dividend / divisor = quotient at *
  generalize dividend % divisor = remainder at *
  have value : (dividend : ℚ) / divisor = quotient + remainder / divisor := by
    field_simp
    linarith
  rw [value, accuracyOfFraction]
  split
  · next none =>
    simp [Locates, ExtendedMantissa.ofMantissaAndAccuracy, none]
  · next some =>
    have some' : (0 : ℚ) < remainder := by exact_mod_cast Nat.pos_of_ne_zero some
    have above : (0 : ℚ) < remainder / divisor := by positivity
    have below : (remainder : ℚ) / divisor < 1 := (div_lt_one scale).mpr rest
    rcases lt_trichotomy (2 * remainder) divisor with less | same | more
    · have half : (remainder : ℚ) / divisor < 1 / 2 := by
        rw [div_lt_iff₀ scale]
        have less' : (2 : ℚ) * remainder < divisor := by exact_mod_cast less
        linarith
      rw [Nat.compare_eq_lt.mpr less]
      exact ⟨by linarith, by linarith⟩
    · have half : (remainder : ℚ) / divisor = 1 / 2 := by
        rw [div_eq_iff scale.ne']
        have same' : (2 : ℚ) * remainder = divisor := by exact_mod_cast same
        linarith
      rw [Nat.compare_eq_eq.mpr same]
      exact congrArg _ half
    · have half : 1 / 2 < (remainder : ℚ) / divisor := by
        rw [lt_div_iff₀ scale]
        have more' : (divisor : ℚ) < 2 * remainder := by exact_mod_cast more
        linarith
      rw [Nat.compare_eq_gt.mpr more]
      exact ⟨by linarith, by linarith⟩

theorem log2_shiftLeft {mantissa : Nat} (positive : 0 < mantissa) (places : Nat) :
    (mantissa <<< places).log2 = mantissa.log2 + places := by
  have low := Nat.log2_self_le positive.ne'
  have high := Nat.lt_log2_self (n := mantissa)
  rw [Nat.log2_eq_iff (Nat.shiftLeft_pos_iff.mpr positive).ne', Nat.shiftLeft_eq, pow_add,
    Nat.add_right_comm, pow_add]
  exact ⟨Nat.mul_le_mul_right _ low, Nat.mul_lt_mul_of_pos_right high (Nat.two_pow_pos _)⟩

theorem long_product {first second : Nat} (long : 52 ≤ first.log2) (positive : 0 < second) :
    52 ≤ (first * second).log2 := by
  have nonzero : first ≠ 0 := by
    rintro rfl
    rw [Nat.log2_zero] at long
    omega
  have low := (Nat.le_log2 nonzero).mp long
  rw [Nat.le_log2 (Nat.mul_ne_zero nonzero positive.ne')]
  exact low.trans (Nat.le_mul_of_pos_right first positive)

/-- A quotient of mantissas has as many bits as the difference of their lengths, or one
less. -/
theorem log2_quotient (dividend : Nat) {divisor : Nat} (positive : 0 < divisor)
    (positive' : 0 < dividend) :
    dividend.log2 ≤ (dividend / divisor).log2 + divisor.log2 + 1 := by
  have low := Nat.log2_self_le positive'.ne'
  have high : dividend < 2 ^ ((dividend / divisor).log2 + 1) * 2 ^ (divisor.log2 + 1) := by
    calc dividend < (dividend / divisor + 1) * divisor :=
          Nat.lt_mul_of_div_lt (Nat.lt_succ_self _) positive
      _ ≤ 2 ^ ((dividend / divisor).log2 + 1) * 2 ^ (divisor.log2 + 1) :=
          Nat.mul_le_mul Nat.lt_log2_self Nat.lt_log2_self.le
  rw [← pow_add] at high
  have := (Nat.pow_lt_pow_iff_right (by decide)).mp (low.trans_lt high)
  omega

theorem Approximates.quotient {dividend divisor : Nat} (positive : 0 < dividend)
    (positive' : 0 < divisor) (first second : Int) :
    Approximates (divCore Format.binary64 dividend first divisor second).1
      (divCore Format.binary64 dividend first divisor second).2.1
      (divCore Format.binary64 dividend first divisor second).2.2
      (dividend * 2 ^ first / (divisor * 2 ^ second)) := by
  have bits : (Format.binary64.mantissaBits : Int) = 53 := rfl
  have least : Format.binary64.minExponent = leastExponent := by decide
  have target : Format.binary64.targetExponent
      (totalExponent dividend first - totalExponent divisor second) =
      max (dividend.log2 + first - (divisor.log2 + second) - 53) leastExponent := by
    rw [Format.targetExponent, totalExponent, totalExponent, bits, least]
    omega
  rw [divCore]
  dsimp only
  rw [target]
  generalize lowered : min (first - second)
    (max (dividend.log2 + first - (divisor.log2 + second) - 53) leastExponent) = exponent
  have distance : ((first - second - exponent).toNat : Int) = first - second - exponent := by
    omega
  constructor
  · have value : (dividend : ℚ) * 2 ^ first / (divisor * 2 ^ second) / 2 ^ exponent =
        (dividend <<< (first - second - exponent).toNat : Nat) / divisor := by
      rw [Nat.shiftLeft_eq]
      push_cast
      rw [← zpow_natCast, distance, zpow_sub₀ (by norm_num), zpow_sub₀ (by norm_num)]
      field_simp
    rw [value]
    exact locates_quotient _ positive'
  · have long := log2_quotient (dividend <<< (first - second - exponent).toNat) positive'
      (Nat.shiftLeft_pos_iff.mpr positive)
    rw [log2_shiftLeft positive] at long
    omega

section Near

variable {mantissa mantissa₁ mantissa₂ : Nat} {exponent exponent₁ exponent₂ : Int}

theorem mul_eq (canonical : Canonical mantissa exponent) (long : 52 ≤ (mantissa₁ * mantissa₂).log2)
    (near : (neighbourhood mantissa exponent).Contains
      (mantissa₁ * 2 ^ exponent₁ * (mantissa₂ * 2 ^ exponent₂)))
    (positive₁ : 0 < mantissa₁) (positive₂ : 0 < mantissa₂) :
    UnpackedFloat.mul Format.binary64 (.finite .positive mantissa₁ exponent₁ positive₁)
        (.finite .positive mantissa₂ exponent₂ positive₂) =
      .finite .positive mantissa exponent canonical.positive := by
  have value : (mantissa₁ : ℚ) * 2 ^ exponent₁ * (mantissa₂ * 2 ^ exponent₂) =
      (mantissa₁ * mantissa₂ : Nat) * 2 ^ (exponent₁ + exponent₂) := by
    rw [zpow_add₀ (by norm_num)]
    push_cast
    ring
  rw [value] at near
  exact roundWithAccuracy_eq (.product _ long) canonical near .positive

theorem div_eq (canonical : Canonical mantissa exponent)
    (near : (neighbourhood mantissa exponent).Contains
      (mantissa₁ * 2 ^ exponent₁ / (mantissa₂ * 2 ^ exponent₂)))
    (positive₁ : 0 < mantissa₁) (positive₂ : 0 < mantissa₂) :
    UnpackedFloat.div Format.binary64 (.finite .positive mantissa₁ exponent₁ positive₁)
        (.finite .positive mantissa₂ exponent₂ positive₂) =
      .finite .positive mantissa exponent canonical.positive :=
  roundWithAccuracy_eq (.quotient positive₁ positive₂ _ _) canonical near .positive

theorem put_mul_put (canonical₁ : Canonical mantissa₁ exponent₁)
    (canonical₂ : Canonical mantissa₂ exponent₂) (canonical : Canonical mantissa exponent)
    (long : 52 ≤ (mantissa₁ * mantissa₂).log2)
    (near : (neighbourhood mantissa exponent).Contains
      (mantissa₁ * 2 ^ exponent₁ * (mantissa₂ * 2 ^ exponent₂))) :
    put false canonical₁ * put false canonical₂ = put false canonical := by
  have product : put false canonical₁ * put false canonical₂ =
      Float.ofModel (.pack (UnpackedFloat.mul Format.binary64
        (put false canonical₁).toModel.unpack (put false canonical₂).toModel.unpack)) := rfl
  rw [product, unpack_put, unpack_put]
  exact congrArg (fun unpacked => Float.ofModel (.pack unpacked))
    (mul_eq canonical long near canonical₁.positive canonical₂.positive)

theorem put_div_put (canonical₁ : Canonical mantissa₁ exponent₁)
    (canonical₂ : Canonical mantissa₂ exponent₂) (canonical : Canonical mantissa exponent)
    (near : (neighbourhood mantissa exponent).Contains
      (mantissa₁ * 2 ^ exponent₁ / (mantissa₂ * 2 ^ exponent₂))) :
    put false canonical₁ / put false canonical₂ = put false canonical := by
  have quotient : put false canonical₁ / put false canonical₂ =
      Float.ofModel (.pack (UnpackedFloat.div Format.binary64
        (put false canonical₁).toModel.unpack (put false canonical₂).toModel.unpack)) := rfl
  rw [quotient, unpack_put, unpack_put]
  exact congrArg (fun unpacked => Float.ofModel (.pack unpacked))
    (div_eq canonical near canonical₁.positive canonical₂.positive)

/-- A float lies in its own neighbourhood. -/
theorem contains_centre (positive : 0 < mantissa) :
    (neighbourhood mantissa exponent).Contains (mantissa * 2 ^ exponent) := by
  obtain ⟨lower, upper⟩ := inside_neighbourhood exponent positive
  have scale : (0 : ℚ) < 2 ^ (exponent - 2) := by positivity
  have centre : (mantissa : ℚ) * 2 ^ exponent =
      ((neighbourhood mantissa exponent).centre : ℚ) * 2 ^ (exponent - 2) := by
    rw [← four_units exponent]
    simp only [neighbourhood, Nat.cast_mul, Nat.cast_ofNat]
    ring
  have above := mul_lt_mul_of_pos_right (Nat.cast_lt.mpr lower) scale
  have below := mul_lt_mul_of_pos_right (Nat.cast_lt.mpr upper) scale
  rw [centre]
  constructor
  · rw [unit_neighbourhood]
    exact above.le
  · rw [unit_neighbourhood]
    exact below.le
  · intro _
    rw [unit_neighbourhood]
    exact ⟨above.ne, below.ne⟩

end Near

/-! ## Whole numbers and powers of ten -/

/-- The canonical pair of a short whole number. -/
theorem canonical_whole {whole : Nat} (positive : 0 < whole) (short : whole < 2 ^ 53) :
    Canonical (whole <<< (52 - whole.log2)) (-(52 - whole.log2 : Nat)) := by
  have bits : whole.log2 < 53 := (Nat.log2_lt positive.ne').mpr short
  have positive' : 0 < whole <<< (52 - whole.log2) := Nat.shiftLeft_pos_iff.mpr positive
  have long : (whole <<< (52 - whole.log2)).log2 = 52 := by
    rw [log2_shiftLeft positive]
    omega
  obtain ⟨low, high⟩ := (Nat.log2_eq_iff positive'.ne').mp long
  constructor
  · exact positive'
  · exact high
  · rw [leastExponent]
    omega
  · rw [greatestExponent]
    omega
  · exact Or.inl low

theorem log2_whole {whole : Nat} (positive : 0 < whole) (short : whole < 2 ^ 53) :
    (whole <<< (52 - whole.log2)).log2 = 52 := by
  have bits : whole.log2 < 53 := (Nat.log2_lt positive.ne').mpr short
  rw [log2_shiftLeft positive]
  omega

theorem value_whole (whole : Nat) :
    ((whole <<< (52 - whole.log2) : Nat) : ℚ) * 2 ^ (-(52 - whole.log2 : Nat) : Int) = whole := by
  rw [Nat.shiftLeft_eq, zpow_neg, zpow_natCast]
  push_cast
  field_simp

theorem toFloat_eq_put {whole : Nat} (positive : 0 < whole) (short : whole < 2 ^ 53) :
    whole.toUInt64.toFloat = put false (canonical_whole positive short) := by
  have bits : whole.log2 < 53 := (Nat.log2_lt positive.ne').mpr short
  have canonical := canonical_whole positive short
  have kept : whole.toUInt64.toNat = whole := by
    rw [Nat.toUInt64, UInt64.toNat_ofNat']
    exact Nat.mod_eq_of_lt (by omega)
  have converted : whole.toUInt64.toFloat = Float.ofModel (.pack
      (UnpackedFloat.normalize Format.binary64 (whole.toUInt64.toNat : Nat) 0 .positive)) := rfl
  have target : Format.binary64.targetExponent (totalExponent whole 0) =
      -(52 - whole.log2 : Nat) := by
    rw [targetExponent_eq, leastExponent]
    omega
  have distance : (0 - -((52 - whole.log2 : Nat) : Int)).toNat = 52 - whole.log2 := by
    omega
  have rounded : UnpackedFloat.round Format.binary64 .positive whole 0 =
      .finite .positive (whole <<< (52 - whole.log2)) (-(52 - whole.log2 : Nat))
        canonical.positive := by
    rw [UnpackedFloat.round, target, decreaseExponent, distance, Int.zero_sub]
    exact roundWithAccuracy_eq (.product _ (log2_whole positive short).ge) canonical
      (contains_centre canonical.positive) .positive
  rw [converted, kept, UnpackedFloat.normalize, Int.compare_eq_gt.mpr (by omega)]
  dsimp only
  rw [Int.toNat_natCast, rounded]
  rfl

/-- Whether a float is a power of ten, with all the bits of its mantissa. -/
def isPowerOfTen (power : Nat) (x : Float) : Bool :=
  match ofFloat x with
  | .finite false mantissa exponent =>
      mantissa.log2 = 52 && mantissa * 2 ^ exponent.toNat = 10 ^ power * 2 ^ (-exponent).toNat
  | _ => false

theorem isPowerOfTen_table :
    ∀ power : Fin 23, isPowerOfTen power Float.exactlyRepresentablePowersOfTen[power] = true := by
  decide +kernel

theorem exists_powerOfTen {power : Nat} {x : Float} (isPower : isPowerOfTen power x = true) :
    ∃ (mantissa : Nat) (exponent : Int) (canonical : Canonical mantissa exponent),
      x = put false canonical ∧ mantissa.log2 = 52 ∧
        (mantissa : ℚ) * 2 ^ exponent = 10 ^ power := by
  unfold isPowerOfTen at isPower
  split at isPower
  · next mantissa exponent apart =>
    simp only [Bool.and_eq_true, decide_eq_true_eq] at isPower
    obtain ⟨long, value⟩ := isPower
    have positive : 0 < mantissa := by
      rcases Nat.eq_zero_or_pos mantissa with rfl | positive
      · cases long
      · exact positive
    have canonical := canonical_of_ofFloat apart positive
    refine ⟨mantissa, exponent, canonical, eq_put apart canonical, long, ?_⟩
    have value' : (mantissa : ℚ) * 2 ^ exponent.toNat = 10 ^ power * 2 ^ (-exponent).toNat := by
      exact_mod_cast value
    rw [← zpow_mul_denominator (by norm_num), ← mul_assoc] at value'
    exact mul_right_cancel₀ (by positivity) value'
  · cases isPower

/-! ## Decimals -/

variable {mantissa : Nat} {exponent : Int}

/-- The neighbourhood of a float contains no number as small as a quarter of the least
float and none beyond the greatest. -/
theorem bounds_of_contains {x : ℚ} (canonical : Canonical mantissa exponent)
    (near : (neighbourhood mantissa exponent).Contains x) :
    2 ^ (leastExponent - 1) ≤ x ∧ x < 2 ^ (53 + greatestExponent) := by
  have rounds := roundsTo_of_contains canonical.positive near
  have scale : (0 : ℚ) < 2 ^ exponent := by positivity
  have one : (1 : ℚ) ≤ mantissa := by exact_mod_cast canonical.positive
  constructor
  · calc (2 : ℚ) ^ (leastExponent - 1) = 1 / 2 * 2 ^ leastExponent := by
          rw [zpow_sub_one₀ (by norm_num)]
          ring
      _ ≤ 1 / 2 * 2 ^ exponent := by
          have := zpow_le_zpow_right₀ (by norm_num : (1 : ℚ) ≤ 2) canonical.least
          linarith
      _ ≤ x := by
          rw [← le_div_iff₀ scale]
          linarith [rounds.lower]
  · calc x < 2 ^ (53 + exponent) := lt_of_roundsTo canonical.fits rounds
      _ ≤ 2 ^ (53 + greatestExponent) :=
          zpow_le_zpow_right₀ (by norm_num) (by have := canonical.greatest; omega)

/-- A short decimal is one product or quotient of exact floats. -/
theorem ofScientific_short (canonical : Canonical mantissa exponent) {c : Nat} {k : Int}
    (positive : 0 < c) (short : c < 2 ^ 53) (small : k.natAbs ≤ 22)
    (near : (neighbourhood mantissa exponent).Contains (c * 10 ^ k)) :
    Float.ofScientific c (k < 0) k.natAbs = put false canonical := by
  rcases exists_powerOfTen (isPowerOfTen_table ⟨k.natAbs, Nat.lt_succ_of_le small⟩) with
    ⟨mantissa', exponent', canonical', isPower, long, value⟩
  have bits := log2_whole positive short
  rw [← value_whole c] at near
  rw [Float.ofScientific, dif_pos ⟨short, small⟩, toFloat_eq_put positive short]
  dsimp only [Fin.getElem_fin] at isPower value ⊢
  rw [isPower]
  by_cases negative : k < 0
  · have power : (10 : ℚ) ^ k = ((mantissa' : ℚ) * 2 ^ exponent')⁻¹ := by
      rw [value, ← zpow_natCast, ← zpow_neg]
      congr 1
      omega
    rw [power, ← div_eq_mul_inv] at near
    rw [if_pos (by simpa using negative)]
    exact put_div_put _ canonical' canonical near
  · have power : (10 : ℚ) ^ k = mantissa' * 2 ^ exponent' := by
      rw [value, ← zpow_natCast]
      congr 1
      omega
    rw [power] at near
    rw [if_neg (by simpa using negative)]
    exact put_mul_put _ canonical' canonical (long_product bits.ge canonical'.positive) near

/-- The exponent of a decimal in the range of the floats is not beyond what the model of
floating point works out. -/
theorem exponent_bounds {c : Nat} {k : Int} (positive : 0 < c)
    (lower : (2 : ℚ) ^ (leastExponent - 1) ≤ c * 10 ^ k)
    (upper : (c * 10 ^ k : ℚ) < 2 ^ (53 + greatestExponent)) :
    k ≤ 2 ^ 11 ∧ -(2 ^ 11 + (c.log2 : Int)) ≤ k := by
  constructor
  · by_contra beyond
    have whole : (1 : ℚ) ≤ c := by exact_mod_cast positive
    have larger : (2 : ℚ) ^ k < 2 ^ (53 + greatestExponent) := by
      calc (2 : ℚ) ^ k ≤ 10 ^ k := zpow_le_zpow_left₀ (by omega) (by norm_num) (by norm_num)
        _ ≤ c * 10 ^ k := le_mul_of_one_le_left (by positivity) whole
        _ < 2 ^ (53 + greatestExponent) := upper
    have := (zpow_lt_zpow_iff_right₀ (by norm_num)).mp larger
    rw [greatestExponent] at this
    omega
  · by_contra beyond
    have leading : (c : ℚ) ≤ 2 ^ (c.log2 + 1 : Int) := by
      exact_mod_cast (Nat.lt_log2_self (n := c)).le
    have power : (10 : ℚ) ^ k ≤ 2 ^ k := by
      have magnitude : -(k.natAbs : Int) = k := by omega
      rw [← magnitude, zpow_neg, zpow_neg, zpow_natCast, zpow_natCast]
      exact inv_anti₀ (by positivity) (by gcongr; norm_num)
    have smaller : (2 : ℚ) ^ (leastExponent - 1) ≤ 2 ^ (c.log2 + 1 + k) := by
      calc (2 : ℚ) ^ (leastExponent - 1) ≤ c * 10 ^ k := lower
        _ ≤ 2 ^ (c.log2 + 1 : Int) * 2 ^ k := by gcongr
        _ = 2 ^ (c.log2 + 1 + k) := (zpow_add₀ (by norm_num) _ _).symm
    have := (zpow_le_zpow_iff_right₀ (by norm_num)).mp smaller
    rw [leastExponent] at this
    omega

/-- What the model of floating point multiplies for a decimal without a fraction. -/
theorem value_of_nonneg (c : Nat) {k : Int} (nonneg : 0 ≤ k) :
    (c * 10 ^ k : ℚ) =
      (c <<< 53 : Nat) * 2 ^ (-53 : Int) * ((10 ^ k.toNat : Nat) * 2 ^ (0 : Int)) := by
  have power : (10 : ℚ) ^ k.toNat = 10 ^ k := by
    rw [← zpow_natCast, Int.toNat_of_nonneg nonneg]
  have unit : (2 : ℚ) ^ 53 * 2 ^ (-53 : Int) = 1 := by norm_num
  rw [Nat.shiftLeft_eq, Nat.cast_mul, Nat.cast_pow, Nat.cast_pow, Nat.cast_ofNat,
    Nat.cast_ofNat, power, mul_assoc (c : ℚ), unit, zpow_zero, mul_one, mul_one]

/-- What the model of floating point divides for a decimal with a fraction. -/
theorem value_of_neg (c : Nat) {k : Int} (negative : k < 0) :
    (c * 10 ^ k : ℚ) = c * 2 ^ (0 : Int) / ((10 ^ (-k).toNat : Nat) * 2 ^ (0 : Int)) := by
  have power : (10 : ℚ) ^ (-k).toNat = (10 ^ k)⁻¹ := by
    rw [← zpow_natCast, Int.toNat_of_nonneg (by omega), zpow_neg]
  push_cast
  rw [power]
  simp

/-- Any other goes through whole numbers. -/
theorem ofScientific_long (canonical : Canonical mantissa exponent) {c : Nat} {k : Int}
    (positive : 0 < c) (long : ¬(c < 2 ^ 53 ∧ k.natAbs ≤ 22))
    (near : (neighbourhood mantissa exponent).Contains (c * 10 ^ k)) :
    Float.ofScientific c (k < 0) k.natAbs = put false canonical := by
  obtain ⟨lower, upper⟩ := bounds_of_contains canonical near
  obtain ⟨highest, lowest⟩ := exponent_bounds positive lower upper
  have restored : (if decide (k < 0) = true then Int.negOfNat k.natAbs else Int.ofNat k.natAbs) =
      k := by
    by_cases negative : k < 0
    · rw [if_pos (decide_eq_true negative), Int.negOfNat_eq, Int.ofNat_eq_natCast]
      omega
    · rw [if_neg (by simpa using negative)]
      exact Int.natAbs_of_nonneg (not_lt.mp negative)
  rw [Float.ofScientific, dif_neg long]
  dsimp only
  rw [restored, Float.Model.ofScientific, UnpackedFloat.ofScientific, dif_neg positive.ne',
    if_neg (not_lt.mpr highest), if_neg (not_lt.mpr lowest)]
  by_cases nonneg : 0 ≤ k
  · have bits : 52 ≤ (c <<< 53).log2 := by
      rw [log2_shiftLeft positive]
      omega
    rw [value_of_nonneg c nonneg] at near
    rw [if_pos nonneg]
    exact congrArg (fun unpacked => Float.ofModel (.pack unpacked))
      (mul_eq canonical (long_product bits (Nat.pow_pos (by decide))) near _ _)
  · rw [value_of_neg c (not_le.mp nonneg)] at near
    rw [if_neg nonneg]
    exact congrArg (fun unpacked => Float.ofModel (.pack unpacked)) (div_eq canonical near _ _)

theorem least_float : (10 : ℚ) ^ (-400 : Int) ≤ 2 ^ (leastExponent - 1) := by
  have whole : 2 ^ 1075 ≤ 10 ^ 400 := by decide +kernel
  have whole' : (2 : ℚ) ^ 1075 ≤ 10 ^ 400 := by exact_mod_cast whole
  have exponent : leastExponent - 1 = -(1075 : Nat) := rfl
  have exponent' : (-400 : Int) = -(400 : Nat) := rfl
  rw [exponent, exponent', zpow_neg, zpow_neg, zpow_natCast, zpow_natCast]
  exact inv_anti₀ (by positivity) whole'

theorem greatest_float : (2 : ℚ) ^ (53 + greatestExponent) ≤ 10 ^ (399 : Int) := by
  have whole : 2 ^ 1024 ≤ 10 ^ 399 := by decide +kernel
  have whole' : (2 : ℚ) ^ 1024 ≤ 10 ^ 399 := by exact_mod_cast whole
  have exponent : 53 + greatestExponent = (1024 : Nat) := rfl
  have exponent' : (399 : Int) = (399 : Nat) := rfl
  rw [exponent, exponent', zpow_natCast, zpow_natCast]
  exact whole'

/-- The number of digits of a whole number says between which powers of ten it lies. -/
theorem wholeDigits_bounds {c : Nat} (positive : 0 < c) :
    10 ^ ((wholeDigits c).length - 1) ≤ c ∧ c < 10 ^ (wholeDigits c).length := by
  have one : 1 < 10 := by decide
  have some : 0 < (wholeDigits c).length := Nat.length_toDigits_pos
  constructor
  · rcases Nat.eq_or_lt_of_le some with single | several
    · rw [← single]
      exact positive
    · have fewer : 0 < (wholeDigits c).length - 1 := by omega
      have notLess := mt (Nat.length_toDigits_le_iff (n := c) one fewer).mpr
      exact not_lt.mp (notLess (by rw [← wholeDigits]; omega))
  · exact (Nat.length_toDigits_le_iff one some).mp (le_refl _)

/-- The digits of a number of the range of the floats are not far from the point. -/
theorem leading_bounds {c : Nat} {k : Int} (positive : 0 < c)
    (lower : (2 : ℚ) ^ (leastExponent - 1) ≤ c * 10 ^ k)
    (upper : (c * 10 ^ k : ℚ) < 2 ^ (53 + greatestExponent)) :
    -400 ≤ (wholeDigits c).length + k ∧ (wholeDigits c).length + k ≤ 400 := by
  obtain ⟨least, most⟩ := wholeDigits_bounds positive
  constructor
  · have most' : (c : ℚ) ≤ 10 ^ ((wholeDigits c).length : Int) := by exact_mod_cast most.le
    have below : (10 : ℚ) ^ (-400 : Int) ≤ 10 ^ ((wholeDigits c).length + k) := by
      calc (10 : ℚ) ^ (-400 : Int) ≤ 2 ^ (leastExponent - 1) := least_float
        _ ≤ c * 10 ^ k := lower
        _ ≤ 10 ^ ((wholeDigits c).length : Int) * 10 ^ k := by gcongr
        _ = 10 ^ ((wholeDigits c).length + k) := (zpow_add₀ (by norm_num) _ _).symm
    exact (zpow_le_zpow_iff_right₀ (by norm_num)).mp below
  · have least' : (10 : ℚ) ^ (((wholeDigits c).length : Int) - 1) ≤ c := by
      have some : 0 < (wholeDigits c).length := Nat.length_toDigits_pos
      have cast : ((wholeDigits c).length : Int) - 1 = ((wholeDigits c).length - 1 : Nat) := by
        omega
      rw [cast, zpow_natCast]
      exact_mod_cast least
    have above : (10 : ℚ) ^ ((wholeDigits c).length - 1 + k) < 10 ^ (399 : Int) := by
      calc (10 : ℚ) ^ ((wholeDigits c).length - 1 + k)
          = 10 ^ (((wholeDigits c).length : Int) - 1) * 10 ^ k := zpow_add₀ (by norm_num) _ _
        _ ≤ c * 10 ^ k := by gcongr
        _ < 2 ^ (53 + greatestExponent) := upper
        _ ≤ 10 ^ (399 : Int) := greatest_float
    have := (zpow_lt_zpow_iff_right₀ (by norm_num)).mp above
    omega

/-- A decimal in the neighbourhood of a float is read as that float. -/
theorem nearest_eq (canonical : Canonical mantissa exponent) {c : Nat} {k : Int}
    (positive : 0 < c) (near : (neighbourhood mantissa exponent).Contains (c * 10 ^ k)) :
    nearest c k = put false canonical := by
  obtain ⟨lower, upper⟩ := bounds_of_contains canonical near
  obtain ⟨leading, leading'⟩ := leading_bounds positive lower upper
  rw [nearest, if_neg (by omega), if_neg (by omega)]
  by_cases short : c < 2 ^ 53 ∧ k.natAbs ≤ 22
  · exact ofScientific_short canonical positive short.1 short.2 near
  · exact ofScientific_long canonical positive short near

end Fluxion.Decimal
