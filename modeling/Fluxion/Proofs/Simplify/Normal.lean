import Fluxion.Proofs.Simplify.Sharing

/-!
# One pass reaches a normal form

Simplification passes over an expression once. Whatever a rule returns, an operand
that is simplified already, a number, or a node that no rule applies to, there is
nothing left in it that a rule applies to. Where there was nothing to begin with, no
node is made, so the result is the very node that was given.

No law of numbers is used: a number is a number, be it an infinity or a NaN.
-/

namespace Fluxion

variable {ν α β : Type} [Arithmetic ν] {identities : Bool}

/-! ## Redexes -/

/-- What there is a rule for: a function of a number, an operator on two numbers, a
product with a zero factor, a quotient with a zero numerator, and on request an
operator with a unit. -/
inductive Redex (identities : Bool) : Expr ν α → Prop
  | apply {m n : α} {function : Elementary} {x : ν} :
      Redex identities (.apply m function (.num n x))
  | operate {m n n' : α} {operator : Operator} {x y : ν} :
      Redex identities (.binary m operator (.num n x) (.num n' y))
  | zero_mul {m : α} {a b : Expr ν α} :
      a.isInt 0 = true → Redex identities (.binary m .mul a b)
  | mul_zero {m : α} {a b : Expr ν α} :
      b.isInt 0 = true → Redex identities (.binary m .mul a b)
  | zero_div {m : α} {a b : Expr ν α} :
      a.isInt 0 = true → Redex identities (.binary m .div a b)
  | one_mul {m : α} {a b : Expr ν α} :
      identities = true → a.isInt 1 = true → Redex identities (.binary m .mul a b)
  | mul_one {m : α} {a b : Expr ν α} :
      identities = true → b.isInt 1 = true → Redex identities (.binary m .mul a b)
  | zero_add {m : α} {a b : Expr ν α} :
      identities = true → a.isInt 0 = true → Redex identities (.binary m .add a b)
  | add_zero {m : α} {a b : Expr ν α} :
      identities = true → b.isInt 0 = true → Redex identities (.binary m .add a b)
  | sub_zero {m : α} {a b : Expr ν α} :
      identities = true → b.isInt 0 = true → Redex identities (.binary m .sub a b)
  | div_one {m : α} {a b : Expr ν α} :
      identities = true → b.isInt 1 = true → Redex identities (.binary m .div a b)
  | pow_one {m : α} {a b : Expr ν α} :
      identities = true → b.isInt 1 = true → Redex identities (.binary m .pow a b)
  | pow_zero {m : α} {a b : Expr ν α} :
      identities = true → b.isInt 0 = true → Redex identities (.binary m .pow a b)

namespace Reduct

variable {m : α} {operator : Operator} {a b : Expr ν α}

theorem of?_eq_none_iff :
    of? identities operator a b = none ↔
      isAbsorbed operator a b = false ∧
        (∀ m x n y, ¬(a = .num m x ∧ b = .num n y)) ∧
        (identities = true → ofUnit? operator a b = none) := by
  unfold of?
  cases isAbsorbed operator a b with
  | true => simp
  | false => cases a <;> cases b <;> grind

/-- There is no rule for an operator that is no redex. -/
theorem of?_eq_none_of_not_redex (notRedex : ¬Redex identities (.binary m operator a b)) :
    of? identities operator a b = none := by
  rw [of?_eq_none_iff]
  refine ⟨?_, ?_, ?_⟩
  · rw [← Bool.not_eq_true]
    intro absorbed
    cases operator with
    | mul =>
        rw [isAbsorbed, Bool.or_eq_true] at absorbed
        rcases absorbed with isZero | isZero
        · exact notRedex (.zero_mul isZero)
        · exact notRedex (.mul_zero isZero)
    | div => exact notRedex (.zero_div absorbed)
    | add => cases absorbed
    | sub => cases absorbed
    | pow => cases absorbed
  · rintro m x n y ⟨rfl, rfl⟩
    exact notRedex .operate
  · intro asked
    cases operator with
    | add =>
        rw [ofUnit?, if_neg fun isZero => notRedex (.zero_add asked isZero),
          if_neg fun isZero => notRedex (.add_zero asked isZero)]
    | sub => rw [ofUnit?, if_neg fun isZero => notRedex (.sub_zero asked isZero)]
    | mul =>
        rw [ofUnit?, if_neg fun isOne => notRedex (.one_mul asked isOne),
          if_neg fun isOne => notRedex (.mul_one asked isOne)]
    | div => rw [ofUnit?, if_neg fun isOne => notRedex (.div_one asked isOne)]
    | pow =>
        rw [ofUnit?, if_neg fun isOne => notRedex (.pow_one asked isOne),
          if_neg fun isZero => notRedex (.pow_zero asked isZero)]

/-- An operator that there is no rule for is no redex. -/
theorem not_redex_of_of?_eq_none (reduces : of? identities operator a b = none) :
    ¬Redex identities (.binary m operator a b) := by
  obtain ⟨notAbsorbed, notNumbers, noUnit⟩ := of?_eq_none_iff.mp reduces
  intro redex
  cases redex with
  | operate => exact notNumbers _ _ _ _ ⟨rfl, rfl⟩
  | zero_mul isZero => simp [isAbsorbed, isZero] at notAbsorbed
  | mul_zero isZero => simp [isAbsorbed, isZero] at notAbsorbed
  | zero_div isZero => simp [isAbsorbed, isZero] at notAbsorbed
  | one_mul asked isOne => simp [ofUnit?, asked, isOne] at noUnit
  | mul_one asked isOne =>
      have unit := noUnit asked
      rw [ofUnit?, if_pos isOne] at unit
      split at unit <;> cases unit
  | zero_add asked isZero => simp [ofUnit?, asked, isZero] at noUnit
  | add_zero asked isZero =>
      have unit := noUnit asked
      rw [ofUnit?, if_pos isZero] at unit
      split at unit <;> cases unit
  | sub_zero asked isZero => simp [ofUnit?, asked, isZero] at noUnit
  | div_one asked isOne => simp [ofUnit?, asked, isOne] at noUnit
  | pow_one asked isOne => simp [ofUnit?, asked, isOne] at noUnit
  | pow_zero asked isZero =>
      have unit := noUnit asked
      rw [ofUnit?, if_pos isZero] at unit
      split at unit <;> cases unit

end Reduct

theorem not_redex_num {m : α} {x : ν} : ¬Redex identities (.num m x) := by
  intro redex
  cases redex

theorem not_redex_var {m : α} {name : String} :
    ¬Redex identities (.var m name : Expr ν α) := by
  intro redex
  cases redex

theorem redex_apply_iff {m : α} {function : Elementary} {u : Expr ν α} :
    Redex identities (.apply m function u) ↔ ∃ n x, u = .num n x := by
  constructor
  · intro redex
    cases redex with
    | apply => exact ⟨_, _, rfl⟩
  · rintro ⟨_, _, rfl⟩
    exact .apply

/-- An operator is a redex exactly if it reduces. -/
theorem redex_binary_iff {m : α} {operator : Operator} {a b : Expr ν α} :
    Redex identities (.binary m operator a b) ↔ Reduct.of? identities operator a b ≠ none := by
  constructor
  · intro redex reduces
    exact Reduct.not_redex_of_of?_eq_none reduces redex
  · intro reduces
    by_cases redex : Redex identities (.binary m operator a b)
    · exact redex
    · exact absurd (Reduct.of?_eq_none_of_not_redex redex) reduces

/-- Whether there is a rule for an expression does not depend on marks. -/
theorem redex_map_iff (f : α → β) {expr : Expr ν α} :
    Redex identities (expr.map f) ↔ Redex identities expr := by
  cases expr with
  | num _ _ => exact iff_of_false not_redex_num not_redex_num
  | var _ _ => exact iff_of_false not_redex_var not_redex_var
  | binary m operator a b =>
      rw [Expr.map, redex_binary_iff, redex_binary_iff, Reduct.of?_map]
  | apply m function u =>
      rw [Expr.map, redex_apply_iff, redex_apply_iff]
      cases u <;> simp [Expr.map]

/-! ## Normal forms -/

namespace Expr

/-- There is no rule for any subexpression. -/
def Normal (identities : Bool) : Expr ν α → Prop
  | num _ _ | var _ _ => True
  | binary m operator a b =>
      ¬Redex identities (.binary m operator a b) ∧ a.Normal identities ∧ b.Normal identities
  | apply m function u => ¬Redex identities (.apply m function u) ∧ u.Normal identities

/-- Simplification leaves nothing that there is a rule for. -/
theorem normal_simplify (expr : Expr ν α) : (expr.simplify identities).Normal identities := by
  induction expr with
  | num _ _ => exact trivial
  | var _ _ => exact trivial
  | binary m operator a b a_ih b_ih =>
      rw [simplify]
      cases reduces : Reduct.of? identities operator (a.simplify identities)
          (b.simplify identities) with
      | none => exact ⟨Reduct.not_redex_of_of?_eq_none reduces, a_ih, b_ih⟩
      | some reduct =>
          cases reduct with
          | value _ => exact trivial
          | left => exact a_ih
          | right => exact b_ih
  | apply m function u ih =>
      rw [simplify]
      cases simplified : u.simplify identities with
      | num _ _ => exact trivial
      | var _ _ => exact ⟨by simp [redex_apply_iff], trivial⟩
      | binary _ _ _ _ => exact ⟨by simp [redex_apply_iff], simplified ▸ ih⟩
      | apply _ _ _ => exact ⟨by simp [redex_apply_iff], simplified ▸ ih⟩

/-- Being normal does not depend on marks. -/
theorem normal_map_iff (f : α → β) {expr : Expr ν α} :
    (expr.map f).Normal identities ↔ expr.Normal identities := by
  induction expr with
  | num _ _ => exact Iff.rfl
  | var _ _ => exact Iff.rfl
  | binary m operator a b a_ih b_ih =>
      rw [map, Normal, Normal, a_ih, b_ih, ← map, redex_map_iff]
  | apply m function u ih => rw [map, Normal, Normal, ih, ← map, redex_map_iff]

end Expr

namespace Dag

/-- An expression is normal if there is no rule for any node that it reaches. -/
theorem normal_iff {expr : Dag ν} :
    expr.Normal identities ↔ ∀ node, Reaches expr node → ¬Redex identities node := by
  induction expr with
  | num _ _ =>
      simp only [Expr.Normal, reaches_num_iff, forall_eq, not_redex_num, not_false_eq_true]
  | var _ _ =>
      simp only [Expr.Normal, reaches_var_iff, forall_eq, not_redex_var, not_false_eq_true]
  | binary tag operator left right left_ih right_ih =>
      simp only [Expr.Normal, left_ih, right_ih, reaches_binary_iff, or_imp, forall_and, forall_eq]
  | apply tag function argument ih =>
      simp only [Expr.Normal, ih, reaches_apply_iff, or_imp, forall_and, forall_eq]

/-- A node that is normal stays the very node it is. -/
theorem simplificationOf_eq_self (next : Nat) {expr node : Dag ν} (isCoherent : Coherent expr)
    (reached : Reaches expr node) (isNormal : node.Normal identities) :
    simplificationOf identities next expr node = node := by
  induction node with
  | num _ _ => exact simplificationOf_eq identities next isCoherent reached
  | var _ _ => exact simplificationOf_eq identities next isCoherent reached
  | binary tag operator left right left_ih right_ih =>
      obtain ⟨notRedex, leftNormal, rightNormal⟩ := isNormal
      have keptLeft := left_ih (reached.step Expr.left_mem_operands) leftNormal
      have keptRight := right_ih (reached.step Expr.right_mem_operands) rightNormal
      rw [simplificationOf_eq identities next isCoherent reached, simplifyNode, keptLeft,
        keptRight, Reduct.of?_eq_none_of_not_redex notRedex]
      exact if_pos ⟨rfl, rfl⟩
  | apply tag function argument ih =>
      obtain ⟨notRedex, argumentNormal⟩ := isNormal
      have kept := ih (reached.step Expr.argument_mem_operands) argumentNormal
      rw [simplificationOf_eq identities next isCoherent reached, simplifyNode, kept]
      cases argument with
      | num _ _ => exact absurd .apply notRedex
      | var _ _ => exact if_pos rfl
      | binary _ _ _ _ => exact if_pos rfl
      | apply _ _ _ => exact if_pos rfl

/-- If the result is the node that was given, it is so with all that it reaches. -/
theorem simplify_eq_self_of_id_eq {next : Nat} {expr : Dag ν} (isCoherent : Coherent expr)
    (below : Below next expr) (same : (simplify identities next expr).1.id = expr.id) :
    (simplify identities next expr).1 = expr := by
  rcases exists_supplied_simplifications identities isCoherent below with
    ⟨holds, supplied, results⟩
  exact supplied.heap.unique (results expr (.root expr)).1
    (supplied.original expr (.root expr)) same

/-- Simplification leaves no redex. It returns the very node that it was given exactly if
there was none in it, so simplifying twice returns what simplifying once does. -/
theorem simplify_reaches_normal_form (identities : Bool) {next : Nat} {expr : Dag ν}
    (isCoherent : Coherent expr) (below : Below next expr) :
    (∀ node, Reaches (simplify identities next expr).1 node → ¬Redex identities node) ∧
      ((simplify identities next expr).1.id = expr.id ↔
        ∀ node, Reaches expr node → ¬Redex identities node) ∧
      ((simplify identities next expr).1.id = expr.id →
        (simplify identities next expr).1 = expr) ∧
      ∀ next', (simplify identities next' (simplify identities next expr).1).1 =
        (simplify identities next expr).1 := by
  obtain ⟨resultCoherent, _, unfolds⟩ := simplify_spec identities isCoherent below
  have resultNormal : (simplify identities next expr).1.Normal identities := by
    rw [← Expr.normal_map_iff Tag.source, ← unfold, unfolds]
    exact Expr.normal_simplify (unfold expr)
  refine ⟨normal_iff.mp resultNormal, ⟨?_, ?_⟩, simplify_eq_self_of_id_eq isCoherent below, ?_⟩
  · intro same
    rw [← normal_iff, ← simplify_eq_self_of_id_eq isCoherent below same]
    exact resultNormal
  · intro noRedex
    exact congrArg Expr.id
      (simplificationOf_eq_self next isCoherent (.root expr) (normal_iff.mpr noRedex))
  · intro next'
    exact simplificationOf_eq_self next' resultCoherent (.root _) resultNormal

/-- In `(1*x)^(1*x)` there is a redex only with the laws of the units. Without them the
power stays the node it is; with them it becomes another, which simplifies no further. -/
theorem simplify_reaches_normal_form_sharedPower :
    (simplify false 4 (sharedPower : Dag Float)).1 = sharedPower ∧
      (simplify true 4 (sharedPower : Dag Float)).1.id ≠ (sharedPower : Dag Float).id ∧
      (∀ node, Reaches (simplify true 4 (sharedPower : Dag Float)).1 node → ¬Redex true node) ∧
      (simplify true 5 (simplify true 4 (sharedPower : Dag Float)).1).1 =
        (simplify true 4 sharedPower).1 := by
  obtain ⟨_, plainKept, plainSame, _⟩ := simplify_reaches_normal_form false
    (coherent_sharedPower (ν := Float)) below_sharedPower
  obtain ⟨noRedex, kept, _, twice⟩ := simplify_reaches_normal_form true
    (coherent_sharedPower (ν := Float)) below_sharedPower
  have noPlainRedex : ∀ node, Reaches (sharedPower : Dag Float) node → ¬Redex false node := by
    intro node reached redex
    rcases reaches_sharedPower_iff.mp reached with rfl | rfl | rfl | rfl
    · cases redex with
      | pow_one asked _ => cases asked
      | pow_zero asked _ => cases asked
    · cases redex with
      | zero_mul isZero => cases isZero
      | mul_zero isZero => cases isZero
      | one_mul asked _ => cases asked
      | mul_one asked _ => cases asked
    · cases redex
    · cases redex
  have unitRedex : Redex true (sharedFactor : Dag Float) := .one_mul rfl rfl
  refine ⟨plainSame (plainKept.mpr noPlainRedex), ?_, noRedex, twice 5⟩
  intro same
  exact kept.mp same _ (reaches_sharedPower_iff.mpr (Or.inr (Or.inl rfl))) unitRedex

end Dag

end Fluxion
