import Mathlib
import Fluxion.Derivative.Rule
import Fluxion.Proofs.Evaluation.Real

/-!
# The rules of differentiation over the real numbers

Each rule builds an expression whose value is the derivative of what the rule is
for, where that is differentiable, and which is defined there. A power has two
rules: the one for constant exponents is right for whole numbers, and wherever the
base is positive and the exponent has the derivative zero.
-/

namespace Fluxion.Derivative

variable {α : Type} {r : String → ℝ} (t : Nat → α)

/-! ## Slopes of the elementary functions -/

/-- The slope of an elementary function is its derivative. -/
theorem hasDerivAt_slope {function : Elementary} {u : Expr ℝ α} (m : α)
    (isSmooth : function.IsSmooth (u.valueUnder r)) :
    HasDerivAt function.real ((slope t function (.apply m function u) u).valueUnder r)
      (u.valueUnder r) := by
  cases function with
  | sin => exact Real.hasDerivAt_sin _
  | cos =>
      refine (Real.hasDerivAt_cos _).congr_deriv ?_
      simp [slope]
  | tan =>
      refine (Real.hasDerivAt_tan isSmooth).congr_deriv ?_
      simp [slope]
  | asin =>
      refine (Real.hasDerivAt_arcsin isSmooth.1.ne' isSmooth.2.ne).congr_deriv ?_
      simp [slope]
  | acos =>
      refine (Real.hasDerivAt_arccos isSmooth.1.ne' isSmooth.2.ne).congr_deriv ?_
      simp [slope, neg_div]
  | atan =>
      refine (Real.hasDerivAt_arctan _).congr_deriv ?_
      simp [slope]
  | sqrt =>
      refine (Real.hasDerivAt_sqrt (ne_of_gt isSmooth)).congr_deriv ?_
      simp [slope]
  | ln =>
      refine (Real.hasDerivAt_log (ne_of_gt isSmooth)).congr_deriv ?_
      simp [slope]
  | sec =>
      have nonzero : Real.cos (u.valueUnder r) ≠ 0 := isSmooth
      have reciprocal : HasDerivAt (fun x => 1 / Real.cos x) _ (u.valueUnder r) :=
        (hasDerivAt_const _ (1 : ℝ)).div (Real.hasDerivAt_cos _) nonzero
      have value : (slope t .sec (.apply m .sec u) u).valueUnder r =
          1 / Real.cos (u.valueUnder r) *
            (Real.sin (u.valueUnder r) / Real.cos (u.valueUnder r)) := by
        simp [slope, Real.tan_eq_sin_div_cos]
      refine reciprocal.congr_deriv ?_
      rw [value]
      field_simp
      ring
  | exp => exact Real.hasDerivAt_exp _

/-! ## Rules for the operators -/

variable {f g : ℝ → ℝ} {x : ℝ} {a b da db : Expr ℝ α}

theorem valueUnder_ofConstantPower :
    (ofConstantPower t a b da).valueUnder r =
      b.valueUnder r * a.valueUnder r ^ (b.valueUnder r - 1) * da.valueUnder r := by
  simp [ofConstantPower]

theorem valueUnder_ofPower :
    (ofPower t a b da db).valueUnder r =
      Real.exp (b.valueUnder r * Real.log (a.valueUnder r)) *
        (db.valueUnder r * Real.log (a.valueUnder r) +
          b.valueUnder r * da.valueUnder r / a.valueUnder r) :=
  rfl

/-- The rule for constant exponents where the exponent is a whole number. -/
theorem hasDerivAt_ofConstantPower_of_whole (atA : f x = a.valueUnder r)
    (slopeA : HasDerivAt f (da.valueUnder r) x) {m : α} {n : ℤ}
    (domain : a.valueUnder r ≠ 0 ∨ 1 ≤ n) :
    HasDerivAt (fun y => f y ^ (n : ℝ)) ((ofConstantPower t a (.num m n) da).valueUnder r) x := by
  have realDomain : f x ≠ 0 ∨ (1 : ℝ) ≤ n := by
    rw [atA]
    exact_mod_cast domain
  refine (slopeA.rpow_const realDomain).congr_deriv ?_
  rw [valueUnder_ofConstantPower, atA, Expr.valueUnder_num]
  ring

/-- The rule for constant exponents where the derivative of the exponent is zero. -/
theorem hasDerivAt_ofConstantPower_of_pos (atA : f x = a.valueUnder r) (atB : g x = b.valueUnder r)
    (slopeA : HasDerivAt f (da.valueUnder r) x) (slopeB : HasDerivAt g 0 x)
    (positive : 0 < a.valueUnder r) :
    HasDerivAt (fun y => f y ^ g y) ((ofConstantPower t a b da).valueUnder r) x := by
  refine (slopeA.rpow slopeB (positive.trans_eq atA.symm)).congr_deriv ?_
  rw [valueUnder_ofConstantPower, atA, atB]
  ring

/-- The rule for any other power. -/
theorem hasDerivAt_ofPower (atA : f x = a.valueUnder r) (atB : g x = b.valueUnder r)
    (slopeA : HasDerivAt f (da.valueUnder r) x) (slopeB : HasDerivAt g (db.valueUnder r) x)
    (positive : 0 < a.valueUnder r) :
    HasDerivAt (fun y => f y ^ g y) ((ofPower t a b da db).valueUnder r) x := by
  have power : Real.exp (b.valueUnder r * Real.log (a.valueUnder r)) =
      a.valueUnder r ^ b.valueUnder r := by
    rw [Real.rpow_def_of_pos positive, mul_comm]
  refine (slopeA.rpow slopeB (positive.trans_eq atA.symm)).congr_deriv ?_
  rw [valueUnder_ofPower, power, atA, atB, Real.rpow_sub_one positive.ne']
  ring

theorem hasDerivAt_ofQuotient (atA : f x = a.valueUnder r) (atB : g x = b.valueUnder r)
    (slopeA : HasDerivAt f (da.valueUnder r) x) (slopeB : HasDerivAt g (db.valueUnder r) x)
    (nonzero : b.valueUnder r ≠ 0) (constantExponent : Bool) :
    HasDerivAt (fun y => f y / g y)
      ((ofBinary t constantExponent .div a b da db).valueUnder r) x := by
  refine (slopeA.div slopeB (atB.trans_ne nonzero)).congr_deriv ?_
  rw [atA, atB]
  simp [ofBinary]

/-! ## Where the rules are defined -/

theorem definedUnder_square (m m' : α) {u : Expr ℝ α} (defined : u.DefinedUnder r) :
    (Expr.binary m .pow u (.int m' 2)).DefinedUnder r :=
  ⟨defined, trivial, Or.inr ⟨2, rfl, Or.inr (by decide)⟩⟩

/-- The denominator in the slopes of the inverse sine and cosine. -/
theorem definedUnder_leg {u : Expr ℝ α} (defined : u.DefinedUnder r)
    (inside : -1 < u.valueUnder r ∧ u.valueUnder r < 1) :
    (Expr.apply (t 3) .sqrt (.binary (t 4) .sub (.int (t 5) 1)
        (.binary (t 6) .pow u (.int (t 7) 2)))).DefinedUnder r ∧
      (Expr.apply (t 3) .sqrt (.binary (t 4) .sub (.int (t 5) 1)
        (.binary (t 6) .pow u (.int (t 7) 2)))).valueUnder r ≠ 0 := by
  have positive : 0 < 1 - u.valueUnder r ^ 2 := by
    nlinarith [inside.1, inside.2]
  have radicand : (Expr.binary (t 4) .sub (.int (t 5) 1)
      (.binary (t 6) .pow u (.int (t 7) 2))).valueUnder r = 1 - u.valueUnder r ^ 2 := by
    simp
  constructor
  · refine ⟨⟨trivial, definedUnder_square (t 6) (t 7) defined, trivial⟩, ?_⟩
    rw [Elementary.IsDefined, radicand]
    exact positive.le
  · rw [Expr.valueUnder_apply, radicand]
    exact (Real.sqrt_pos.mpr positive).ne'

theorem definedUnder_slope (m : α) {function : Elementary} {u : Expr ℝ α}
    (defined : u.DefinedUnder r) (isSmooth : function.IsSmooth (u.valueUnder r)) :
    (slope t function (.apply m function u) u).DefinedUnder r := by
  have definedWhole : (Expr.apply m function u).DefinedUnder r := ⟨defined, isSmooth.isDefined⟩
  cases function with
  | sin => exact ⟨defined, trivial⟩
  | cos => exact ⟨trivial, ⟨defined, trivial⟩, trivial⟩
  | tan => exact definedUnder_square (t 1) (t 3) (u := .apply (t 2) .sec u) ⟨defined, isSmooth⟩
  | asin => exact ⟨trivial, definedUnder_leg t defined isSmooth⟩
  | acos => exact ⟨trivial, definedUnder_leg t defined isSmooth⟩
  | atan =>
      refine ⟨trivial, ⟨trivial, definedUnder_square (t 5) (t 6) defined, trivial⟩, ?_⟩
      have positive : 0 < 1 + u.valueUnder r ^ 2 := by
        positivity
      rw [Operator.IsDefined]
      simpa using positive.ne'
  | sqrt =>
      refine ⟨trivial, ⟨trivial, definedWhole, trivial⟩, ?_⟩
      have nonzero : Real.sqrt (u.valueUnder r) ≠ 0 := (Real.sqrt_pos.mpr isSmooth).ne'
      rw [Operator.IsDefined]
      simpa using nonzero
  | ln => exact ⟨trivial, defined, ne_of_gt isSmooth⟩
  | sec => exact ⟨definedWhole, ⟨defined, isSmooth⟩, trivial⟩
  | exp => exact definedWhole

/-- The rules for the operators make defined expressions of defined ones, also where a
base is not positive: there the exponent is a number, and taken to be constant. -/
theorem definedUnder_ofBinary {operator : Operator} {constantExponent : Bool}
    (definedA : a.DefinedUnder r) (definedB : b.DefinedUnder r) (definedDa : da.DefinedUnder r)
    (definedDb : db.DefinedUnder r) (smoothRoot : Expr.IsSmoothRoot r operator a b)
    (constant : operator = .pow → ¬0 < a.valueUnder r → constantExponent = true) :
    (ofBinary t constantExponent operator a b da db).DefinedUnder r := by
  cases operator with
  | add => exact ⟨definedDa, definedDb, trivial⟩
  | sub => exact ⟨definedDa, definedDb, trivial⟩
  | mul => exact ⟨⟨definedDa, definedB, trivial⟩, ⟨definedA, definedDb, trivial⟩, trivial⟩
  | div =>
      refine ⟨⟨⟨definedDa, definedB, trivial⟩, ⟨definedA, definedDb, trivial⟩, trivial⟩,
        definedUnder_square (t 4) (t 5) definedB, ?_⟩
      have nonzero : b.valueUnder r ≠ 0 := smoothRoot
      rw [Operator.IsDefined]
      simpa using nonzero
  | pow =>
      cases constantExponent with
      | true =>
          have power : Operator.IsDefined .pow (a.valueUnder r)
              ((Expr.binary (t 3) .sub b (.int (t 4) 1)).valueUnder r) := by
            rcases smoothRoot with positive | ⟨m, n, rfl, nonzero | positive⟩
            · exact Or.inl positive
            · exact Or.inr ⟨n - 1, by simp, Or.inl nonzero⟩
            · exact Or.inr ⟨n - 1, by simp, Or.inr (Int.sub_nonneg_of_le positive)⟩
          exact ⟨⟨definedB, ⟨definedA, ⟨definedB, trivial, trivial⟩, power⟩, trivial⟩, definedDa,
            trivial⟩
      | false =>
          have positive : 0 < a.valueUnder r := by
            by_contra notPositive
            exact absurd (constant rfl notPositive) Bool.false_ne_true
          exact ⟨⟨⟨definedB, ⟨definedA, positive⟩, trivial⟩, trivial⟩,
            ⟨⟨definedDb, ⟨definedA, positive⟩, trivial⟩,
              ⟨⟨definedB, definedDa, trivial⟩, definedA, positive.ne'⟩, trivial⟩, trivial⟩

end Fluxion.Derivative
