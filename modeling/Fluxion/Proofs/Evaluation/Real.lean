import Mathlib
import Fluxion.Proofs.Evaluation.Assignment

/-!
# Expressions over the real numbers

The operators and elementary functions as functions of real numbers, with exact
arithmetic. Where an operation is undefined, a conventional value stands for the
missing one; an expression that is defined at an assignment has no such value in
it. For differentiation the domains are open, except that a power with a whole
number for its exponent also has a derivative where its base is negative, and
where its base is zero if the exponent is positive.
-/

namespace Fluxion

/-! ## Arithmetic -/

/-- The operators on real numbers. -/
@[simp]
noncomputable def Operator.real : Operator → ℝ → ℝ → ℝ
  | add, x, y => x + y
  | sub, x, y => x - y
  | div, x, y => x / y
  | mul, x, y => x * y
  | pow, x, y => x ^ y

/-- The elementary functions of a real number. -/
@[simp]
noncomputable def Elementary.real : Elementary → ℝ → ℝ
  | sin, x => Real.sin x
  | cos, x => Real.cos x
  | tan, x => Real.tan x
  | asin, x => Real.arcsin x
  | acos, x => Real.arccos x
  | atan, x => Real.arctan x
  | sqrt, x => Real.sqrt x
  | ln, x => Real.log x
  | sec, x => 1 / Real.cos x
  | exp, x => Real.exp x

noncomputable instance : Arithmetic ℝ where
  ofInt whole := whole
  operate := Operator.real
  apply := Elementary.real
  same x y := decide (x = y)

namespace Expr

variable {α : Type} (r : String → ℝ) (m : α)

@[simp]
theorem valueUnder_num (value : ℝ) : (num m value).valueUnder r = value :=
  rfl

@[simp]
theorem valueUnder_int (whole : Int) : (int m whole : Expr ℝ α).valueUnder r = whole :=
  rfl

@[simp]
theorem valueUnder_binary (operator : Operator) (a b : Expr ℝ α) :
    (binary m operator a b).valueUnder r = operator.real (a.valueUnder r) (b.valueUnder r) :=
  rfl

@[simp]
theorem valueUnder_apply (function : Elementary) (u : Expr ℝ α) :
    (apply m function u).valueUnder r = function.real (u.valueUnder r) :=
  rfl

/-- An expression that is a whole number has it for its value. -/
theorem valueUnder_of_isInt {expr : Expr ℝ α} {whole : Int} (isWhole : expr.isInt whole = true) :
    expr.valueUnder r = whole := by
  cases expr with
  | num _ value => exact of_decide_eq_true isWhole
  | var _ _ => cases isWhole
  | binary _ _ _ _ => cases isWhole
  | apply _ _ _ => cases isWhole

end Expr

/-! ## Domains -/

/-- Where an operator is defined. -/
def Operator.IsDefined : Operator → ℝ → ℝ → Prop
  | div, _, y => y ≠ 0
  | pow, x, y => 0 < x ∨ ∃ n : ℤ, y = n ∧ (x ≠ 0 ∨ 0 ≤ n)
  | add, _, _ | sub, _, _ | mul, _, _ => True

/-- Where an elementary function is defined. -/
def Elementary.IsDefined : Elementary → ℝ → Prop
  | tan, x | sec, x => Real.cos x ≠ 0
  | asin, x | acos, x => -1 ≤ x ∧ x ≤ 1
  | sqrt, x => 0 ≤ x
  | ln, x => 0 < x
  | sin, _ | cos, _ | atan, _ | exp, _ => True

/-- Where an elementary function is differentiable. -/
def Elementary.IsSmooth : Elementary → ℝ → Prop
  | tan, x | sec, x => Real.cos x ≠ 0
  | asin, x | acos, x => -1 < x ∧ x < 1
  | sqrt, x | ln, x => 0 < x
  | sin, _ | cos, _ | atan, _ | exp, _ => True

theorem Elementary.IsSmooth.isDefined {function : Elementary} {x : ℝ}
    (isSmooth : function.IsSmooth x) : function.IsDefined x := by
  cases function with
  | sin => exact trivial
  | cos => exact trivial
  | tan => exact isSmooth
  | asin => exact ⟨isSmooth.1.le, isSmooth.2.le⟩
  | acos => exact ⟨isSmooth.1.le, isSmooth.2.le⟩
  | atan => exact trivial
  | sqrt => exact isSmooth.le
  | ln => exact isSmooth
  | sec => exact isSmooth
  | exp => exact trivial

namespace Expr

variable {α β : Type} {r : String → ℝ}

/-- Every operation in an expression is defined where names have numbers. -/
def DefinedUnder (r : String → ℝ) : Expr ℝ α → Prop
  | num _ _ | var _ _ => True
  | binary _ operator a b =>
      a.DefinedUnder r ∧ b.DefinedUnder r ∧ operator.IsDefined (a.valueUnder r) (b.valueUnder r)
  | apply _ function u => u.DefinedUnder r ∧ function.IsDefined (u.valueUnder r)

/-- The operator at the root is differentiable at its operands: a denominator is not
zero, and a power has a positive base, or a whole number for its exponent and then a
base other than zero or a positive exponent. -/
def IsSmoothRoot (r : String → ℝ) (operator : Operator) (a b : Expr ℝ α) : Prop :=
  match operator with
  | .div => b.valueUnder r ≠ 0
  | .pow => 0 < a.valueUnder r ∨
      ∃ (m : α) (n : ℤ), b = .num m n ∧ (a.valueUnder r ≠ 0 ∨ 1 ≤ n)
  | .add | .sub | .mul => True

/-- Every operation in an expression is differentiable where names have numbers. -/
def SmoothUnder (r : String → ℝ) : Expr ℝ α → Prop
  | num _ _ | var _ _ => True
  | binary _ operator a b => a.SmoothUnder r ∧ b.SmoothUnder r ∧ IsSmoothRoot r operator a b
  | apply _ function u => u.SmoothUnder r ∧ function.IsSmooth (u.valueUnder r)

theorem IsSmoothRoot.isDefined {operator : Operator} {a b : Expr ℝ α}
    (isSmooth : IsSmoothRoot r operator a b) :
    operator.IsDefined (a.valueUnder r) (b.valueUnder r) := by
  cases operator with
  | add => exact trivial
  | sub => exact trivial
  | mul => exact trivial
  | div => exact isSmooth
  | pow =>
      rcases isSmooth with positive | ⟨m, n, rfl, nonzero | positive⟩
      · exact Or.inl positive
      · exact Or.inr ⟨n, rfl, Or.inl nonzero⟩
      · exact Or.inr ⟨n, rfl, Or.inr (zero_le_one.trans positive)⟩

theorem SmoothUnder.definedUnder {expr : Expr ℝ α} (isSmooth : expr.SmoothUnder r) :
    expr.DefinedUnder r := by
  induction expr with
  | num _ _ => exact trivial
  | var _ _ => exact trivial
  | binary _ operator a b a_ih b_ih =>
      rcases isSmooth with ⟨smoothA, smoothB, smoothRoot⟩
      exact ⟨a_ih smoothA, b_ih smoothB, smoothRoot.isDefined⟩
  | apply _ function u ih => exact ⟨ih isSmooth.1, isSmooth.2.isDefined⟩

/-- Domains do not depend on marks. -/
theorem definedUnder_map (f : α → β) (expr : Expr ℝ α) :
    (expr.map f).DefinedUnder r ↔ expr.DefinedUnder r := by
  induction expr with
  | num _ _ => exact Iff.rfl
  | var _ _ => exact Iff.rfl
  | binary _ operator a b a_ih b_ih =>
      rw [map, DefinedUnder, DefinedUnder, a_ih, b_ih, valueUnder_map, valueUnder_map]
  | apply _ function u ih => rw [map, DefinedUnder, DefinedUnder, ih, valueUnder_map]

theorem SmoothUnder.map {expr : Expr ℝ α} (isSmooth : expr.SmoothUnder r) (f : α → β) :
    (expr.map f).SmoothUnder r := by
  induction expr with
  | num _ _ => exact trivial
  | var _ _ => exact trivial
  | binary _ operator a b a_ih b_ih =>
      rcases isSmooth with ⟨smoothA, smoothB, smoothRoot⟩
      refine ⟨a_ih smoothA, b_ih smoothB, ?_⟩
      cases operator with
      | add => exact trivial
      | sub => exact trivial
      | mul => exact trivial
      | div => exact (valueUnder_map f r b).trans_ne smoothRoot
      | pow =>
          rcases smoothRoot with positive | ⟨m, n, rfl, nonzero | positive⟩
          · exact Or.inl (positive.trans_eq (valueUnder_map f r a).symm)
          · exact Or.inr ⟨f m, n, rfl, Or.inl ((valueUnder_map f r a).trans_ne nonzero)⟩
          · exact Or.inr ⟨f m, n, rfl, Or.inr positive⟩
  | apply _ function u ih =>
      refine ⟨ih isSmooth.1, ?_⟩
      rw [valueUnder_map]
      exact isSmooth.2

end Expr

end Fluxion
