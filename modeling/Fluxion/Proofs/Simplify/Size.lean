import Fluxion.Proofs.Simplify.Early

/-!
# Simplification only shrinks

A rule takes the place of a node together with its operands and leaves a number or one
operand, so it makes the unfolded expression smaller, however deep in the expression it
applies. Where no rule applies nothing is made.

Shared nodes are not multiplied. Whether a node is folded, dropped, kept or rebuilt, what
stands below its simplification are simplifications of nodes of the expression, and one
node has one simplification. So the result has no more nodes than the expression.
-/

namespace Fluxion

variable {ν α : Type} [Arithmetic ν] {identities : Bool}

/-! ## Unfolded sizes -/

namespace Expr

/-- Where there is something that there is a rule for, simplification makes the expression
smaller. -/
theorem size_simplify_lt {expr : Expr ν α} (reducible : ¬expr.Normal identities) :
    (expr.simplify identities).size < expr.size := by
  have le : ∀ part : Expr ν α, (¬part.Normal identities →
      (part.simplify identities).size < part.size) →
      (part.simplify identities).size ≤ part.size := by
    intro part lt
    by_cases isNormal : part.Normal identities
    · exact Nat.le_of_eq (congrArg size (simplify_eq_self isNormal))
    · exact Nat.le_of_lt (lt isNormal)
  induction expr with
  | num _ _ => exact absurd trivial reducible
  | var _ _ => exact absurd trivial reducible
  | binary m operator a b a_ih b_ih =>
      have aLe := le a a_ih
      have bLe := le b b_ih
      rw [simplify]
      cases reduces : Reduct.of? identities operator (a.simplify identities)
          (b.simplify identities) with
      | some reduct =>
          have bPos := b.size_pos
          cases reduct <;> simp only [size] <;> omega
      | none =>
          by_cases aNormal : a.Normal identities
          · by_cases bNormal : b.Normal identities
            · rw [simplify_eq_self aNormal, simplify_eq_self bNormal] at reduces
              exact absurd ⟨Reduct.not_redex_of_of?_eq_none reduces, aNormal, bNormal⟩ reducible
            · have bLt := b_ih bNormal
              simp only [size]
              omega
          · have aLt := a_ih aNormal
            simp only [size]
            omega
  | apply m function u ih =>
      by_cases uNormal : u.Normal identities
      · have redex : Redex identities (.apply m function u) := by
          by_cases redex : Redex identities (.apply m function u)
          · exact redex
          · exact absurd ⟨redex, uNormal⟩ reducible
        obtain ⟨n, x, rfl⟩ := redex_apply_iff.mp redex
        exact Nat.lt_succ_self 1
      · have uLt := ih uNormal
        rw [simplify]
        cases simplified : u.simplify identities <;> rw [simplified] at uLt <;>
          simp only [size] at uLt ⊢ <;> omega

end Expr

namespace Dag

/-! ## Where nodes come from -/

/-- The simplification of a node is that of an operand, or its operands are simplifications of
operands. -/
theorem simplificationOf_operands (identities : Bool) {next : Nat} {expr node : Dag ν}
    (isCoherent : Coherent expr) (below : Below next expr) (reached : Reaches expr node) :
    (∃ child ∈ node.operands, simplificationOf identities next expr node =
        simplificationOf identities next expr child) ∨
      ∀ inner ∈ (simplificationOf identities next expr node).operands, ∃ child ∈ node.operands,
        inner = simplificationOf identities next expr child := by
  obtain ⟨holds, supplied, results⟩ := exists_supplied_simplifications identities isCoherent below
  have kept : ∀ child ∈ node.operands,
      (simplificationOf identities next expr child).id = child.id →
      child = simplificationOf identities next expr child := by
    intro child member same
    have reachedChild := reached.step member
    exact supplied.heap.unique (supplied.original child reachedChild)
      (results child reachedChild).1 same.symm
  rw [simplificationOf_eq identities next isCoherent reached]
  cases node with
  | num _ _ => exact Or.inr (by simp [simplifyNode, Expr.operands])
  | var _ _ => exact Or.inr (by simp [simplifyNode, Expr.operands])
  | binary tag operator left right =>
      obtain ⟨keptLeft, keptRight⟩ := Expr.forall_operands_binary_iff.mp kept
      dsimp only [simplifyNode]
      cases Reduct.of? identities operator (simplificationOf identities next expr left)
          (simplificationOf identities next expr right) with
      | some reduct =>
          cases reduct with
          | value _ => exact Or.inr (by simp [Expr.operands])
          | left => exact Or.inl ⟨left, Expr.left_mem_operands, rfl⟩
          | right => exact Or.inl ⟨right, Expr.right_mem_operands, rfl⟩
      | none =>
          refine Or.inr ?_
          dsimp only
          split
          · next same =>
            exact Expr.forall_operands_binary_iff.mpr
              ⟨⟨left, Expr.left_mem_operands, keptLeft same.1⟩,
                right, Expr.right_mem_operands, keptRight same.2⟩
          · exact Expr.forall_operands_binary_iff.mpr
              ⟨⟨left, Expr.left_mem_operands, rfl⟩, right, Expr.right_mem_operands, rfl⟩
  | apply tag function argument =>
      have keptArgument := Expr.forall_operands_apply_iff.mp kept
      refine Or.inr ?_
      dsimp only [simplifyNode]
      split
      · simp [Expr.operands]
      · split
        · next same =>
          exact Expr.forall_operands_apply_iff.mpr
            ⟨argument, Expr.argument_mem_operands, keptArgument same⟩
        · exact Expr.forall_operands_apply_iff.mpr
            ⟨argument, Expr.argument_mem_operands, rfl⟩

/-- Below the simplification of a node there are simplifications of nodes below it. -/
theorem exists_origin_of_reaches_simplificationOf (identities : Bool) {next : Nat}
    {expr node inner : Dag ν} (isCoherent : Coherent expr) (below : Below next expr)
    (reached : Reaches expr node)
    (reachedInner : Reaches (simplificationOf identities next expr node) inner) :
    ∃ origin, Reaches expr origin ∧ inner = simplificationOf identities next expr origin := by
  rcases simplificationOf_operands identities isCoherent below reached with
    ⟨child, member, same⟩ | operands
  · rw [same] at reachedInner
    exact exists_origin_of_reaches_simplificationOf identities isCoherent below
      (reached.step member) reachedInner
  · rcases reaches_iff.mp reachedInner with rfl | ⟨start, inOperands, reachedInner⟩
    · exact ⟨node, reached, rfl⟩
    · obtain ⟨child, member, rfl⟩ := operands start inOperands
      exact exists_origin_of_reaches_simplificationOf identities isCoherent below
        (reached.step member) reachedInner
termination_by node.size
decreasing_by all_goals exact size_lt_of_mem_operands member

theorem count_simplify_le (identities : Bool) {next : Nat} {expr : Dag ν}
    (isCoherent : Coherent expr) (below : Below next expr) :
    (simplify identities next expr).1.count ≤ expr.count := by
  obtain ⟨resultCoherent, _, _⟩ := simplify_spec identities isCoherent below
  have among : ∀ node, Reaches (simplify identities next expr).1 node →
      node.id ∈
        expr.nodes.map fun origin => (simplificationOf identities next expr origin).id := by
    intro node reached
    obtain ⟨origin, reachedOrigin, rfl⟩ := exists_origin_of_reaches_simplificationOf identities
      isCoherent below (.root expr) reached
    exact List.mem_map_of_mem ((mem_nodes_iff isCoherent).mpr reachedOrigin)
  have few := count_le_of_reaches resultCoherent among
  rwa [List.length_map] at few

/-- Simplification only shrinks. It returns the very node that it was given, or an expression
whose unfolding is smaller, and in either case one with no more nodes. -/
theorem simplify_shrinks (identities : Bool) {next : Nat} {expr : Dag ν}
    (isCoherent : Coherent expr) (below : Below next expr) :
    ((simplify identities next expr).1 = expr ∨
        (simplify identities next expr).1.size < expr.size) ∧
      (simplify identities next expr).1.count ≤ expr.count := by
  refine ⟨?_, count_simplify_le identities isCoherent below⟩
  by_cases isNormal : expr.Normal identities
  · exact Or.inl (simplificationOf_eq_self next isCoherent (.root expr) isNormal)
  · refine Or.inr ?_
    obtain ⟨_, _, unfolds⟩ := simplify_spec identities isCoherent below
    calc (simplify identities next expr).1.size
        = (unfold (simplify identities next expr).1).size := (Expr.size_map _ _).symm
      _ = ((unfold expr).simplify identities).size := by rw [unfolds]
      _ < (unfold expr).size := Expr.size_simplify_lt fun unfoldedNormal =>
          isNormal ((Expr.normal_map_iff Tag.source).mp unfoldedNormal)
      _ = expr.size := Expr.size_map _ _

/-- The power `(1*x)^(1*x)` unfolds to seven nodes. The laws of the units make it smaller. -/
theorem simplify_shrinks_sharedPower :
    (sharedPower : Dag Float).size = 7 ∧ (simplify true 4 (sharedPower : Dag Float)).1.size < 7 ∧
      (simplify true 4 (sharedPower : Dag Float)).1.count ≤ (sharedPower : Dag Float).count := by
  obtain ⟨keptOrSmaller, few⟩ :=
    simplify_shrinks true (coherent_sharedPower (ν := Float)) below_sharedPower
  refine ⟨rfl, ?_, few⟩
  rcases keptOrSmaller with kept | smaller
  · obtain ⟨_, _, unfolds⟩ :=
      simplify_spec true (coherent_sharedPower (ν := Float)) below_sharedPower
    have isNormal : ((unfold (sharedPower : Dag Float)).simplify true).Normal true :=
      Expr.normal_simplify _
    rw [← unfolds, kept] at isNormal
    obtain ⟨_, ⟨noRedex, _⟩, _⟩ := isNormal
    exact absurd (.one_mul rfl rfl) noRedex
  · exact smaller

end Dag

end Fluxion
