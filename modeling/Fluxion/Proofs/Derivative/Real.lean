import Mathlib
import Fluxion.Proofs.Derivative.Rules
import Fluxion.Proofs.Derivative.Sharing

/-!
# The derivative is the derivative

Over the real numbers, the value of the symbolic derivative is the derivative of
the value, wherever every operation is differentiable. The rule for powers with
constant exponents asks only whether the derivative of the exponent simplifies
to zero: simplification preserves values, so the derivative of the exponent is
zero at the point in question, and there both rules agree.
-/

namespace Fluxion

variable {α : Type} {r : String → ℝ}

/-! ## Simplification -/

namespace Expr

/-- Without the laws of the units, an operator reduces to a number only, and that is
its value. -/
theorem eq_of_reduct {operator : Operator} {a b : Expr ℝ α} {reduct : Reduct ℝ}
    (reduces : Reduct.of? false operator a b = some reduct) :
    reduct = .value (operator.real (a.valueUnder r) (b.valueUnder r)) := by
  unfold Reduct.of? at reduces
  split at reduces
  · next absorbed =>
    cases reduces
    cases operator with
    | add => cases absorbed
    | sub => cases absorbed
    | pow => cases absorbed
    | mul =>
        rw [Reduct.isAbsorbed, Bool.or_eq_true] at absorbed
        rcases absorbed with isZero | isZero
        · simp [valueUnder_of_isInt r isZero, Arithmetic.ofInt]
        · simp [valueUnder_of_isInt r isZero, Arithmetic.ofInt]
    | div =>
        simp [valueUnder_of_isInt r absorbed, Arithmetic.ofInt]
  · split at reduces
    · cases reduces
      rfl
    · cases reduces

/-- Over the real numbers simplification preserves values. -/
theorem valueUnder_simplify (expr : Expr ℝ α) :
    (expr.simplify false).valueUnder r = expr.valueUnder r := by
  induction expr with
  | num _ _ => rfl
  | var _ _ => rfl
  | binary m operator a b a_ih b_ih =>
      rw [simplify, valueUnder_binary, ← a_ih, ← b_ih]
      cases reduces : Reduct.of? false operator (a.simplify false) (b.simplify false) with
      | none => rfl
      | some reduct =>
          rw [eq_of_reduct (r := r) reduces]
          rfl
  | apply m function u ih =>
      rw [simplify, valueUnder_apply, ← ih]
      cases u.simplify false <;> rfl

/-- Where an exponent is taken to be constant, its derivative is zero. -/
theorem valueUnder_of_isConstantBy {db : Expr ℝ α} (isConstant : db.isConstantBy = true) :
    db.valueUnder r = 0 := by
  rw [← valueUnder_simplify, valueUnder_of_isInt r isConstant, Int.cast_zero]

/-- A number is taken to be constant. -/
theorem isConstantBy_derivative_num (name : String) (m : α) (value : ℝ) :
    ((num m value).derivative name).isConstantBy = true :=
  decide_eq_true rfl

/-! ## Expressions -/

theorem valueUnder_update_self (expr : Expr ℝ α) (r : String → ℝ) (name : String) :
    expr.valueUnder (Function.update r name (r name)) = expr.valueUnder r := by
  rw [Function.update_eq_self]

theorem hasDerivAt_var (name : String) (m : α) (other : String) :
    HasDerivAt (fun x => (var m other : Expr ℝ α).valueUnder (Function.update r name x))
      (((var m other : Expr ℝ α).derivative name).valueUnder r) (r name) := by
  by_cases same : other = name
  · have slope : ((var m other : Expr ℝ α).derivative name).valueUnder r = 1 := by
      simp [derivative, same]
    have identity : (fun x => (var m other : Expr ℝ α).valueUnder (Function.update r name x)) =
        fun x => x := by
      funext x
      rw [valueUnder, same, Function.update_self]
    rw [slope, identity]
    exact hasDerivAt_id' (r name)
  · have slope : ((var m other : Expr ℝ α).derivative name).valueUnder r = 0 := by
      simp [derivative, same]
    have constant : (fun x => (var m other : Expr ℝ α).valueUnder (Function.update r name x)) =
        fun _ => r other := by
      funext x
      rw [valueUnder, Function.update_of_ne same]
    rw [slope, constant]
    exact hasDerivAt_const (r name) (r other)

theorem hasDerivAt_power (name : String) {m : α} {a b : Expr ℝ α}
    (smoothRoot : IsSmoothRoot r .pow a b)
    (slopeA : HasDerivAt (fun x => a.valueUnder (Function.update r name x))
      ((a.derivative name).valueUnder r) (r name))
    (slopeB : HasDerivAt (fun x => b.valueUnder (Function.update r name x))
      ((b.derivative name).valueUnder r) (r name)) :
    HasDerivAt (fun x => (binary m .pow a b).valueUnder (Function.update r name x))
      (((binary m .pow a b).derivative name).valueUnder r) (r name) := by
  have atA := a.valueUnder_update_self r name
  have atB := b.valueUnder_update_self r name
  rw [derivative]
  rcases smoothRoot with positive | ⟨m', n, rfl, domain⟩
  -- Over a positive base both rules are right, whichever is taken.
  · cases isConstant : (b.derivative name).isConstantBy with
    | true =>
        rw [valueUnder_of_isConstantBy isConstant] at slopeB
        exact Derivative.hasDerivAt_ofConstantPower_of_pos (fun _ => m) atA atB slopeA slopeB
          positive
    | false => exact Derivative.hasDerivAt_ofPower (fun _ => m) atA atB slopeA slopeB positive
  · rw [isConstantBy_derivative_num]
    exact Derivative.hasDerivAt_ofConstantPower_of_whole (fun _ => m) atA slopeA domain

/-- The derivative of a smooth expression has the derivative of its value for its value. -/
theorem hasDerivAt_valueUnder (name : String) {expr : Expr ℝ α} (isSmooth : expr.SmoothUnder r) :
    HasDerivAt (fun x => expr.valueUnder (Function.update r name x))
      ((expr.derivative name).valueUnder r) (r name) := by
  induction expr with
  | num _ value =>
      refine (hasDerivAt_const _ value).congr_deriv ?_
      exact Int.cast_zero.symm
  | var m other => exact hasDerivAt_var name m other
  | binary m operator a b a_ih b_ih =>
      rcases isSmooth with ⟨smoothA, smoothB, smoothRoot⟩
      have slopeA := a_ih smoothA
      have slopeB := b_ih smoothB
      have atA := a.valueUnder_update_self r name
      have atB := b.valueUnder_update_self r name
      cases operator with
      | add => exact slopeA.add slopeB
      | sub => exact slopeA.sub slopeB
      | mul =>
          refine (slopeA.mul slopeB).congr_deriv ?_
          rw [atA, atB]
          rfl
      | div =>
          exact Derivative.hasDerivAt_ofQuotient (fun _ => m) atA atB slopeA slopeB smoothRoot
            (b.derivative name).isConstantBy
      | pow => exact hasDerivAt_power name smoothRoot slopeA slopeB
  | apply m function u ih =>
      rcases isSmooth with ⟨smoothU, smoothRoot⟩
      have outer := Derivative.hasDerivAt_slope (fun _ => m) m smoothRoot
      rw [← u.valueUnder_update_self r name] at outer
      exact outer.comp (r name) (ih smoothU)

end Expr

/-! ## Smoothness is open -/

theorem Elementary.isOpen_isSmooth (function : Elementary) : IsOpen {x | function.IsSmooth x} := by
  have cosine : IsOpen {x | Real.cos x ≠ 0} := isOpen_ne.preimage Real.continuous_cos
  cases function with
  | sin => exact isOpen_univ
  | cos => exact isOpen_univ
  | tan => exact cosine
  | asin => exact isOpen_Ioo
  | acos => exact isOpen_Ioo
  | atan => exact isOpen_univ
  | sqrt => exact isOpen_Ioi
  | ln => exact isOpen_Ioi
  | sec => exact cosine
  | exp => exact isOpen_univ

namespace Expr

theorem SmoothUnder.tendsto (name : String) {expr : Expr ℝ α} (isSmooth : expr.SmoothUnder r) :
    Filter.Tendsto (fun x => expr.valueUnder (Function.update r name x)) (nhds (r name))
      (nhds (expr.valueUnder r)) := by
  have continuous := (hasDerivAt_valueUnder name isSmooth).continuousAt.tendsto
  rwa [valueUnder_update_self] at continuous

/-- An expression that is smooth at an assignment is smooth nearby, so no conventional
value takes part in its derivative. -/
theorem SmoothUnder.eventually (name : String) {expr : Expr ℝ α} (isSmooth : expr.SmoothUnder r) :
    ∀ᶠ x in nhds (r name), expr.SmoothUnder (Function.update r name x) := by
  induction expr with
  | num _ _ => exact Filter.Eventually.of_forall fun _ => trivial
  | var _ _ => exact Filter.Eventually.of_forall fun _ => trivial
  | binary m operator a b a_ih b_ih =>
      rcases isSmooth with ⟨smoothA, smoothB, smoothRoot⟩
      have root : ∀ᶠ x in nhds (r name), IsSmoothRoot (Function.update r name x) operator a b := by
        cases operator with
        | add => exact Filter.Eventually.of_forall fun _ => trivial
        | sub => exact Filter.Eventually.of_forall fun _ => trivial
        | mul => exact Filter.Eventually.of_forall fun _ => trivial
        | div => exact (smoothB.tendsto name).eventually_ne smoothRoot
        | pow =>
            rcases smoothRoot with positive | ⟨m', n, rfl, nonzero | positive⟩
            · exact ((smoothA.tendsto name).eventually (lt_mem_nhds positive)).mono
                fun _ positive => Or.inl positive
            · exact ((smoothA.tendsto name).eventually_ne nonzero).mono
                fun _ nonzero => Or.inr ⟨m', n, rfl, Or.inl nonzero⟩
            · exact Filter.Eventually.of_forall fun _ => Or.inr ⟨m', n, rfl, Or.inr positive⟩
      filter_upwards [a_ih smoothA, b_ih smoothB, root] with x nearA nearB nearRoot
      exact ⟨nearA, nearB, nearRoot⟩
  | apply m function u ih =>
      rcases isSmooth with ⟨smoothU, smoothRoot⟩
      have root := (smoothU.tendsto name).eventually
        (function.isOpen_isSmooth.mem_nhds smoothRoot)
      filter_upwards [ih smoothU, root] with x nearU nearRoot
      exact ⟨nearU, nearRoot⟩

end Expr

/-! ## The derivative is defined -/

/-- The derivative of a smooth expression is defined. -/
theorem Expr.SmoothUnder.definedUnder_derivative {expr : Expr ℝ α} (isSmooth : expr.SmoothUnder r)
    (name : String) : (expr.derivative name).DefinedUnder r := by
  induction expr with
  | num _ _ => exact trivial
  | var _ _ => exact trivial
  | binary m operator a b a_ih b_ih =>
      rcases isSmooth with ⟨smoothA, smoothB, smoothRoot⟩
      refine Derivative.definedUnder_ofBinary (fun _ => m) smoothA.definedUnder
        smoothB.definedUnder (a_ih smoothA) (b_ih smoothB) smoothRoot ?_
      rintro rfl notPositive
      rcases smoothRoot with positive | ⟨m', n, rfl, _⟩
      · exact absurd positive notPositive
      · exact Expr.isConstantBy_derivative_num name m' n
  | apply m function u ih =>
      rcases isSmooth with ⟨smoothU, smoothRoot⟩
      exact ⟨Derivative.definedUnder_slope (fun _ => m) m smoothU.definedUnder smoothRoot,
        ih smoothU, trivial⟩

/-! ## Shared nodes -/

/-- Where every operation in an expression is differentiable, its value is
differentiable as a function of the variable `name`, and the derivative is what the
differentiated expression evaluates to. Both expressions are defined where they are
evaluated: the one near the point, the other at it. -/
theorem Dag.hasDerivAt_differentiate (name : String) {next : Nat} {expr : Dag ℝ}
    (isCoherent : Coherent expr) (below : Below next expr) (isSmooth : expr.SmoothUnder r) :
    ∃ (value : ℝ → ℝ) (slope : ℝ),
      (∀ x, evaluateUnder (Function.update r name x) expr = .ok (.scalar (value x))) ∧
      (∀ᶠ x in nhds (r name), expr.DefinedUnder (Function.update r name x)) ∧
      evaluateUnder r (differentiate name next expr).derivative = .ok (.scalar slope) ∧
      (differentiate name next expr).derivative.DefinedUnder r ∧
      HasDerivAt value slope (r name) := by
  obtain ⟨derivativeCoherent, _, unfolds⟩ := differentiate_spec name isCoherent below
  have unfoldedSmooth : (unfold expr).SmoothUnder r := isSmooth.map Tag.source
  refine ⟨_, _, fun x => evaluateUnder_eq isCoherent _, ?_, evaluateUnder_eq derivativeCoherent r,
    ?_, ?_⟩
  · exact (isSmooth.eventually name).mono fun _ near => near.definedUnder
  · have defined := unfoldedSmooth.definedUnder_derivative name
    rw [← unfolds] at defined
    exact (Expr.definedUnder_map Tag.source _).mp defined
  · have differentiable := Expr.hasDerivAt_valueUnder name unfoldedSmooth
    rw [← unfolds] at differentiable
    simpa only [unfold, Expr.valueUnder_map] using differentiable

/-- The product `0*x`. -/
noncomputable def Expr.vanishing : Expr ℝ Unit :=
  .binary () .mul (.num () 0) (.var () "x")

/-- The power `x^(0*x)`, its nodes numbered. -/
noncomputable def Dag.vanishingPower : Dag ℝ × Nat :=
  fresh (fun _ => none) 0 (.binary () .pow (.var () "x") Expr.vanishing)

/-- The exponent of `x^(0*x)` is taken to be constant, although the variable occurs in
it, and at `x = 2` the rule for constant exponents gives the derivative. -/
theorem Dag.hasDerivAt_differentiate_vanishingPower :
    (Expr.vanishing.derivative "x").isConstantBy = true ∧
      ∃ (value : ℝ → ℝ) (slope : ℝ),
        (∀ x, evaluateUnder (Function.update (fun _ => 2) "x" x) vanishingPower.1 =
          .ok (.scalar (value x))) ∧
        (∀ᶠ x in nhds 2, vanishingPower.1.DefinedUnder (Function.update (fun _ => 2) "x" x)) ∧
        evaluateUnder (fun _ => 2)
          (differentiate "x" vanishingPower.2 vanishingPower.1).derivative = .ok (.scalar slope) ∧
        (differentiate "x" vanishingPower.2 vanishingPower.1).derivative.DefinedUnder
          (fun _ => 2) ∧
        HasDerivAt value slope 2 := by
  constructor
  · simp [Expr.vanishing, Expr.isConstantBy, Expr.derivative, Derivative.ofBinary, Expr.simplify,
      Expr.int, Reduct.of?, Reduct.isAbsorbed, Expr.isInt, Arithmetic.isInt, Arithmetic.same,
      Arithmetic.ofInt, Arithmetic.operate]
  · have numbered := coherent_below_fresh (ν := ℝ) (α := Unit) (fun _ => none) 0
    have positive : (0 : ℝ) < 2 := two_pos
    exact hasDerivAt_differentiate "x" (numbered _).1 (numbered _).2
      ⟨trivial, ⟨trivial, trivial, trivial⟩, Or.inl positive⟩

end Fluxion
