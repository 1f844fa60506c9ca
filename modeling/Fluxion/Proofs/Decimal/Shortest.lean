import Fluxion.Proofs.Decimal.Rounding

/-!
# Seventeen digits are enough

The search for a shortest decimal ends: with seventeen digits the decimals lie closer
together than the ends of a neighbourhood, so one of the two next to the float lies in
it. What is found lies in the neighbourhood, whatever its length.
-/

namespace Fluxion.Decimal.Shortest

open Binary64

/-! ## A grid that is fine enough -/

theorem Neighbourhood.holds_of_between {around : Neighbourhood} {k : Int} {c : Nat}
    (above : around.lower * binaryScale around.unit k < c * decimalScale around.unit k)
    (below : c * decimalScale around.unit k < around.upper * binaryScale around.unit k) :
    around.holds k c = true := by
  rw [Neighbourhood.holds]
  split
  · simp [above.le, below.le]
  · simp [above, below]

theorem Neighbourhood.exists_nearest? {around : Neighbourhood} {k : Int} {c : Nat}
    (holds : around.holds k c = true)
    (next : c = around.centre * binaryScale around.unit k / decimalScale around.unit k ∨
      c = around.centre * binaryScale around.unit k / decimalScale around.unit k + 1) :
    (around.nearest? k).isSome = true := by
  rw [Neighbourhood.nearest?]
  split
  · split <;> rfl
  · rfl
  · rfl
  · next notBelow notNext =>
    rcases next with rfl | rfl
    · rw [holds] at notBelow
      cases notBelow
    · rw [holds] at notNext
      cases notNext

/-- Decimals that lie closer together than the ends of a neighbourhood meet it next to
its centre. -/
theorem Neighbourhood.isSome_nearest? {around : Neighbourhood} {k : Int}
    (inside : around.lower < around.centre ∧ around.centre < around.upper)
    (fine : around.lower * binaryScale around.unit k + decimalScale around.unit k <
      around.upper * binaryScale around.unit k) :
    (around.nearest? k).isSome = true := by
  have scale : 0 < binaryScale around.unit k :=
    Nat.mul_pos (Nat.pow_pos (by decide)) (Nat.pow_pos (by decide))
  have step : 0 < decimalScale around.unit k :=
    Nat.mul_pos (Nat.pow_pos (by decide)) (Nat.pow_pos (by decide))
  have lower := Nat.mul_lt_mul_of_pos_right inside.1 scale
  have upper := Nat.mul_lt_mul_of_pos_right inside.2 scale
  have floor := Nat.div_mul_le_self (around.centre * binaryScale around.unit k)
    (decimalScale around.unit k)
  have ceiling := Nat.lt_div_mul_add (a := around.centre * binaryScale around.unit k) step
  rcases Nat.lt_or_ge (around.lower * binaryScale around.unit k)
    (around.centre * binaryScale around.unit k / decimalScale around.unit k *
      decimalScale around.unit k) with above | notAbove
  · exact exists_nearest? (holds_of_between above (floor.trans_lt upper)) (Or.inl rfl)
  · refine exists_nearest? (holds_of_between ?_ ?_) (Or.inr rfl)
    · rw [Nat.add_mul, Nat.one_mul]
      exact lower.trans ceiling
    · rw [Nat.add_mul, Nat.one_mul]
      omega

/-! ## The first digit -/

theorem pow_ten_le_pow_two :
    (List.range 1024).all (fun n => 10 ^ (n * 30103 / 100000) ≤ 2 ^ n) = true := by
  decide +kernel

theorem pow_two_le_pow_ten :
    (List.range 1075).all (fun n => 2 ^ n ≤ 10 ^ ((n * 30103 + 99999) / 100000)) = true := by
  decide +kernel

/-- The binary logarithm does not overestimate the decimal one. -/
theorem zpow_guess_le {logarithm : Int} (least : leastExponent ≤ logarithm)
    (greatest : logarithm < 1024) :
    (10 : ℚ) ^ (logarithm * 30103 / 100000) ≤ 2 ^ logarithm := by
  rw [leastExponent] at least
  rcases Int.le_total 0 logarithm with nonneg | nonpos
  · obtain ⟨n, rfl⟩ := Int.eq_ofNat_of_zero_le nonneg
    have whole := List.all_eq_true.mp pow_ten_le_pow_two n (List.mem_range.mpr (by omega))
    have guess : (n : Int) * 30103 / 100000 = (n * 30103 / 100000 : Nat) := by omega
    rw [guess, zpow_natCast, zpow_natCast]
    exact_mod_cast of_decide_eq_true whole
  · obtain ⟨n, rfl⟩ : ∃ n : Nat, logarithm = -n := ⟨logarithm.natAbs, by omega⟩
    have whole := List.all_eq_true.mp pow_two_le_pow_ten n (List.mem_range.mpr (by omega))
    have whole' : (2 : ℚ) ^ n ≤ 10 ^ ((n * 30103 + 99999) / 100000) := by
      exact_mod_cast of_decide_eq_true whole
    have guess : -(n : Int) * 30103 / 100000 = -((n * 30103 + 99999) / 100000 : Nat) := by omega
    rw [guess, zpow_neg, zpow_neg, zpow_natCast, zpow_natCast]
    exact inv_anti₀ (by positivity) whole'

/-- A positive number is at least as large as the power of ten of its first digit. -/
theorem zpow_leadingExponent_le {mantissa : Nat} {exponent : Int}
    (canonical : Canonical mantissa exponent) :
    (10 : ℚ) ^ leadingExponent mantissa exponent ≤ mantissa * 2 ^ exponent := by
  rw [leadingExponent]
  split
  · next reaches =>
    have compared := (le_scaled_iff mantissa 1 exponent _).mp (by rwa [Nat.one_mul])
    rwa [Nat.cast_one, one_mul] at compared
  · have bits : mantissa.log2 < 53 := (Nat.log2_lt canonical.positive.ne').mpr canonical.fits
    have leading : (2 : ℚ) ^ (mantissa.log2 : Int) ≤ mantissa := by
      exact_mod_cast Nat.log2_self_le canonical.positive.ne'
    have least := canonical.least
    have greatest := canonical.greatest
    rw [greatestExponent] at greatest
    calc (10 : ℚ) ^ ((mantissa.log2 + exponent) * 30103 / 100000)
        ≤ 2 ^ (mantissa.log2 + exponent) := zpow_guess_le (by omega) (by omega)
      _ = 2 ^ (mantissa.log2 : Int) * 2 ^ exponent := zpow_add₀ (by norm_num) _ _
      _ ≤ mantissa * 2 ^ exponent := by gcongr

/-! ## The search -/

/-- With seventeen digits the decimals lie closer together than the ends of a
neighbourhood. -/
theorem zpow_seventeen_lt {mantissa : Nat} {exponent : Int}
    (canonical : Canonical mantissa exponent) :
    ((neighbourhood mantissa exponent).lower : ℚ) * 2 ^ (exponent - 2) +
        10 ^ (leadingExponent mantissa exponent - 16) <
      (neighbourhood mantissa exponent).upper * 2 ^ (exponent - 2) := by
  have unit : (0 : ℚ) < 2 ^ (exponent - 2) := by positivity
  have step : (10 : ℚ) ^ (leadingExponent mantissa exponent - 16) * 10 ^ 16 ≤
      mantissa * (2 ^ (exponent - 2) * 4) := by
    have sixteen : (10 : ℚ) ^ (16 : Int) = 10 ^ 16 := by norm_num
    rw [four_units, zpow_sub₀ (by norm_num), sixteen, div_mul_cancel₀ _ (by positivity)]
    exact zpow_leadingExponent_le canonical
  have fits : (mantissa : ℚ) < 2 ^ 53 := by exact_mod_cast canonical.fits
  rw [upper_neighbourhood]
  by_cases closer : mantissa = hiddenBit ∧ leastExponent < exponent
  · have lower : (neighbourhood mantissa exponent).lower = 4 * mantissa - 1 := if_pos closer
    have value : (mantissa : ℚ) = 2 ^ 52 := by exact_mod_cast closer.1
    rw [lower, Nat.cast_sub (by have := canonical.positive; omega)]
    push_cast
    rw [value] at step ⊢
    nlinarith
  · have lower : (neighbourhood mantissa exponent).lower = 4 * mantissa - 2 := if_neg closer
    rw [lower, Nat.cast_sub (by have := canonical.positive; omega)]
    push_cast
    nlinarith

theorem isSome_nearest?_seventeen {mantissa : Nat} {exponent : Int}
    (canonical : Canonical mantissa exponent) :
    ((neighbourhood mantissa exponent).nearest?
      (leadingExponent mantissa exponent - 16)).isSome = true := by
  apply Neighbourhood.isSome_nearest? (inside_neighbourhood exponent canonical.positive)
  have scaled := mul_lt_mul_of_pos_right (zpow_seventeen_lt canonical)
    (denominator_pos (exponent - 2) (leadingExponent mantissa exponent - 16))
  rw [add_mul, mul_assoc, mul_assoc, ← cast_binaryScale, ← cast_decimalScale] at scaled
  rw [unit_neighbourhood]
  exact_mod_cast scaled

/-- What the search finds is the choice on some decimal grid. -/
theorem exists_nearest?_shortest {mantissa : Nat} {exponent : Int}
    (canonical : Canonical mantissa exponent) :
    (neighbourhood mantissa exponent).nearest? (shortest mantissa exponent).2 =
      some (shortest mantissa exponent).1 := by
  rw [shortest]
  generalize searched : List.findSome? _ _ = result
  cases result with
  | none =>
      rw [List.findSome?_eq_none_iff] at searched
      have missing := searched 16 (List.mem_range.mpr (by decide))
      rw [Option.map_eq_none_iff] at missing
      have found := isSome_nearest?_seventeen canonical
      rw [Nat.cast_ofNat] at missing
      rw [missing] at found
      cases found
  | some found =>
      obtain ⟨length, _, chosen⟩ := List.exists_of_findSome?_eq_some searched
      rcases Option.map_eq_some_iff.mp chosen with ⟨c, nearest, rfl⟩
      exact nearest

/-- The shortest decimal of a float lies in its neighbourhood. -/
theorem contains_shortest {mantissa : Nat} {exponent : Int}
    (canonical : Canonical mantissa exponent) :
    (neighbourhood mantissa exponent).Contains
      ((shortest mantissa exponent).1 * 10 ^ (shortest mantissa exponent).2) :=
  Neighbourhood.contains_of_holds
    (Neighbourhood.holds_of_nearest? (exists_nearest?_shortest canonical))

end Fluxion.Decimal.Shortest
