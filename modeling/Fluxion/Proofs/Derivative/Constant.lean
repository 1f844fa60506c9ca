import Fluxion.Proofs.Derivative.Sharing
import Fluxion.Proofs.Evaluation.Sharing

/-!
# The derivative by a variable that does not occur

Every rule of differentiation, that for general powers apart, makes its node a
product, a quotient, a sum or a difference which is zero if the derivatives of the
operands are. A zero absorbs the other factor before anything is computed with, so it
does not matter whether that is symbolic, infinite or a NaN.

The rule for general powers is never taken then: by the same fact, the derivative of
the exponent simplifies to zero, and the exponent is seen to be constant.
-/

namespace Fluxion

variable {ν α : Type} [Arithmetic ν]

/-- What is used of zero. -/
structure ZeroLaws (ν : Type) [Arithmetic ν] : Prop where
  isInt : Arithmetic.isInt (Arithmetic.ofInt 0 : ν) 0 = true
  add : Arithmetic.operate .add (Arithmetic.ofInt 0 : ν) (Arithmetic.ofInt 0) = Arithmetic.ofInt 0
  sub : Arithmetic.operate .sub (Arithmetic.ofInt 0 : ν) (Arithmetic.ofInt 0) = Arithmetic.ofInt 0

theorem zeroLaws_float : ZeroLaws Float :=
  ⟨rfl, rfl, rfl⟩

namespace Expr

/-! ## What simplifies to zero -/

section Zero

variable {identities : Bool} {m n n' : α} {operator : Operator} {a b : Expr ν α}

theorem simplify_of_absorbed
    (absorbed :
      Reduct.isAbsorbed operator (a.simplify identities) (b.simplify identities) = true) :
    (binary m operator a b).simplify identities = int m 0 := by
  have reduces : Reduct.of? identities operator (a.simplify identities) (b.simplify identities) =
      some (.value (Arithmetic.ofInt 0)) := by
    unfold Reduct.of?
    exact if_pos absorbed
  rw [simplify, reduces]
  rfl

variable (laws : ZeroLaws ν)

include laws

theorem simplify_mul_of_left (zero : a.simplify identities = int n 0) :
    (binary m .mul a b).simplify identities = int m 0 := by
  refine simplify_of_absorbed ?_
  rw [zero, Reduct.isAbsorbed, Bool.or_eq_true]
  exact Or.inl laws.isInt

theorem simplify_mul_of_right (zero : b.simplify identities = int n 0) :
    (binary m .mul a b).simplify identities = int m 0 := by
  refine simplify_of_absorbed ?_
  rw [zero, Reduct.isAbsorbed, Bool.or_eq_true]
  exact Or.inr laws.isInt

theorem simplify_div_of_numerator (zero : a.simplify identities = int n 0) :
    (binary m .div a b).simplify identities = int m 0 := by
  refine simplify_of_absorbed ?_
  rw [zero]
  exact laws.isInt

theorem simplify_add_of_both (zero : a.simplify identities = int n 0)
    (zero' : b.simplify identities = int n' 0) :
    (binary m .add a b).simplify identities = int m 0 := by
  rw [simplify, zero, zero']
  exact congrArg (num m) laws.add

theorem simplify_sub_of_both (zero : a.simplify identities = int n 0)
    (zero' : b.simplify identities = int n' 0) :
    (binary m .sub a b).simplify identities = int m 0 := by
  rw [simplify, zero, zero']
  exact congrArg (num m) laws.sub

end Zero

/-! ## Derivatives -/

variable {name : String}

/-- What simplifies to zero is the derivative of a constant. -/
theorem isConstantBy_of_simplify {db : Expr ν α} {n : α} (laws : ZeroLaws ν)
    (zero : db.simplify false = int n 0) : db.isConstantBy = true := by
  rw [isConstantBy, zero]
  exact laws.isInt

/-- The derivative by a variable that does not occur simplifies to zero. -/
theorem simplify_derivative_of_absent (laws : ZeroLaws ν) {expr : Expr ν α}
    (absent : name ∉ expr.names) (identities : Bool) :
    (expr.derivative name).simplify identities = int expr.mark 0 := by
  induction expr generalizing identities with
  | num _ _ => rfl
  | var m other =>
      have different : other ≠ name := fun same => absent (by simp [names, same])
      rw [derivative, if_neg different]
      rfl
  | binary m operator a b a_ih b_ih =>
      rw [names, List.mem_append, not_or] at absent
      have zeroA := a_ih absent.1
      have zeroB := b_ih absent.2
      cases operator with
      | add => exact simplify_add_of_both laws (zeroA identities) (zeroB identities)
      | sub => exact simplify_sub_of_both laws (zeroA identities) (zeroB identities)
      | mul =>
          exact simplify_add_of_both laws (simplify_mul_of_left laws (zeroA identities))
            (simplify_mul_of_right laws (zeroB identities))
      | div =>
          exact simplify_div_of_numerator laws (simplify_sub_of_both laws
            (simplify_mul_of_left laws (zeroA identities))
            (simplify_mul_of_right laws (zeroB identities)))
      | pow =>
          rw [derivative, isConstantBy_of_simplify laws (zeroB false)]
          exact simplify_mul_of_right laws (zeroA identities)
  | apply m function u ih => exact simplify_mul_of_right laws (ih absent identities)

end Expr

namespace Dag

omit [Arithmetic ν] in
/-- A variable is absent from the unfolded expression if it is not among the names. -/
theorem absent_unfold {expr : Dag ν} (isCoherent : Coherent expr) {name : String}
    (absent : name ∉ expr.variableNames) : name ∉ (unfold expr).names := by
  intro member
  rw [unfold, Expr.names_map, mem_names_iff] at member
  exact absent ((mem_variableNames_iff isCoherent).mpr member)

omit [Arithmetic ν] in
/-- What unfolds to a number is one. -/
theorem exists_num_of_unfold {expr : Dag ν} {source : Option Token} {value : ν}
    (unfolds : unfold expr = .num source value) : ∃ tag, expr = .num tag value := by
  obtain ⟨tag, same, _⟩ := Expr.map_eq_num_iff.mp unfolds
  exact ⟨tag, same⟩

/-- A power whose exponent does not mention the variable is differentiated by the rule
for constant exponents. -/
theorem derivatives_of_constant_exponent (laws : ZeroLaws ν) (name : String) {next : Nat}
    {expr : Dag ν} (isCoherent : Coherent expr) (below : Below next expr) {tag : Tag}
    {a b : Dag ν} (reached : Reaches expr (.binary tag .pow a b))
    (absent : name ∉ b.variableNames) :
    (expr.derivatives name next)[tag.id]? = some
      { expr := Derivative.ofConstantPower
          (fun k => ⟨next + Derivative.newNodes * expr.place (.binary tag .pow a b) + k,
            tag.source⟩)
          a b (derivativeOf name next expr a)
        constantExponent := true } := by
  rcases exists_supplied_derivatives name isCoherent below with ⟨holds, supplied, results⟩
  have exponentCoherent : Coherent b :=
    Heap.coherent_of_reaches isCoherent (reached.step Expr.right_mem_operands)
  have constant := Expr.simplify_derivative_of_absent laws
    (absent_unfold exponentCoherent absent) false
  have asked := (results _ reached).2.2
  rw [unfold_binary, Expr.hasConstantExponent, Expr.isConstantBy_of_simplify laws constant]
    at asked
  have entry := derivatives_eq name next isCoherent reached
  rw [differentiateNode] at asked entry
  dsimp only at asked entry
  rw [asked] at entry
  exact entry

/-- The derivative by a variable that does not occur simplifies to zero, whatever numbers
there are in the expression. Therefore a power whose exponent does not mention the
variable is always differentiated by the rule for constant exponents. -/
theorem simplify_differentiate_of_absent (name : String) {next : Nat} {expr : Dag Float}
    (isCoherent : Coherent expr) (below : Below next expr) :
    (name ∉ expr.variableNames → ∀ identities, ∃ tag,
      (simplify identities (differentiate name next expr).next
        (differentiate name next expr).derivative).1 = .num tag 0) ∧
    ∀ (tag : Tag) (a b : Dag Float), Reaches expr (.binary tag .pow a b) →
      name ∉ b.variableNames →
      (expr.derivatives name next)[tag.id]? = some
        { expr := Derivative.ofConstantPower
            (fun k => ⟨next + Derivative.newNodes * expr.place (.binary tag .pow a b) + k,
              tag.source⟩)
            a b (derivativeOf name next expr a)
          constantExponent := true } := by
  constructor
  · intro absent identities
    obtain ⟨derivativeCoherent, derivativeBelow, unfolds⟩ :=
      differentiate_spec name isCoherent below
    obtain ⟨_, _, simplified⟩ := simplify_spec identities derivativeCoherent derivativeBelow
    rw [unfolds, Expr.simplify_derivative_of_absent zeroLaws_float
      (absent_unfold isCoherent absent)] at simplified
    exact exists_num_of_unfold simplified
  · intro tag a b reached absent
    exact derivatives_of_constant_exponent zeroLaws_float name isCoherent below reached absent

/-- In `(1*x)^(1*x)` there is no `y`: the derivative by it simplifies to zero, and the
exponent is constant. -/
theorem simplify_differentiate_of_absent_sharedPower :
    "y" ∉ (sharedPower : Dag Float).variableNames ∧
      (∃ tag, (simplify false (differentiate "y" 4 (sharedPower : Dag Float)).next
        (differentiate "y" 4 (sharedPower : Dag Float)).derivative).1 = .num tag 0) ∧
      (∃ tag, (simplify true (differentiate "y" 4 (sharedPower : Dag Float)).next
        (differentiate "y" 4 (sharedPower : Dag Float)).derivative).1 = .num tag 0) ∧
      "y" ∉ (sharedFactor : Dag Float).variableNames ∧
      ∃ result, (derivatives "y" 4 (sharedPower : Dag Float))[3]? = some result ∧
        result.constantExponent = true := by
  obtain ⟨vanishes, constant⟩ := simplify_differentiate_of_absent "y" coherent_sharedPower
    below_sharedPower
  have factorCoherent : Coherent (sharedFactor : Dag Float) :=
    Heap.coherent_of_reaches coherent_sharedPower
      (reaches_sharedPower_iff.mpr (Or.inr (Or.inl rfl)))
  have absent : "y" ∉ (sharedPower : Dag Float).variableNames := by
    rw [mem_variableNames_iff coherent_sharedPower]
    simp [sharedPower, sharedFactor, Expr.int]
  have absentFactor : "y" ∉ (sharedFactor : Dag Float).variableNames := by
    rw [mem_variableNames_iff factorCoherent]
    simp [sharedFactor, Expr.int]
  exact ⟨absent, vanishes absent false, vanishes absent true, absentFactor, _,
    constant _ _ _ (.root _) absentFactor, rfl⟩

end Dag

end Fluxion
