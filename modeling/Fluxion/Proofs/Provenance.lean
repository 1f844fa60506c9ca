import Fluxion.Proofs.Derivative.Count
import Fluxion.Proofs.Parsing.Blame
import Fluxion.Proofs.Parsing.InOrder
import Fluxion.Proofs.Simplify.Size

/-!
# Which tokens the nodes of a result come from

A rule gives every node that it makes the source of the node that it is applied to. The root of
a derivative is always made, and so is the number that a plain simplification leaves, so both
come from where the node comes from. The laws of the units return an operand with a source of
its own.

Whatever is not a node of the expression was therefore made for one and has its source. This
survives any composition of derivatives and simplifications, and what the parser builds comes
from tokens of the source.
-/

namespace Fluxion

variable {ν α β : Type}

/-! ## Marks of an expression -/

namespace Expr

/-- What is read from a source comes from tokens that stand in it. -/
theorem standsIn_of_read [Numeral ν] {source : String} {tree : Expr ν Token}
    (reads : read source = .ok tree) : ∀ token ∈ tree.marks, token.StandsIn source := by
  intro token member
  obtain ⟨tokens, lexes, parsed⟩ := read_eq_ok_iff.mp reads
  obtain ⟨phrase, wellKinded, rfl, meaning⟩ := Parsing.exists_wellKinded_of_outcome parsed
  exact Lexed.standsIn_of_prioritized lexes token
    ((wellKinded.marks_subperm meaning).subset member)

end Expr

/-! ## Sources of what a rule makes -/

namespace Derivative

variable [Arithmetic ν]

theorem mark_ofApply (t : Nat → α) (function : Elementary) (whole u du : Expr ν α) :
    (ofApply t function whole u du).mark = t 0 :=
  rfl

theorem mark_ofBinary (t : Nat → α) (constantExponent : Bool) (operator : Operator)
    (a b da db : Expr ν α) :
    (ofBinary t constantExponent operator a b da db).mark = t 0 := by
  cases operator with
  | add => rfl
  | sub => rfl
  | mul => rfl
  | div => rfl
  | pow => cases constantExponent <;> rfl

end Derivative

/-- Without the laws of the units an operator reduces to a number, if to anything. -/
theorem Reduct.exists_value_of_of? [Arithmetic ν] {operator : Operator} {a b : Expr ν α}
    {reduct : Reduct ν} (reduces : of? false operator a b = some reduct) :
    ∃ value, reduct = .value value := by
  unfold of? at reduces
  split at reduces
  · cases reduces
    exact ⟨_, rfl⟩
  · split at reduces
    · cases reduces
      exact ⟨_, rfl⟩
    · cases reduces

namespace Dag

section OneNode

variable [Arithmetic ν]

/-- The root of a derivative is made by the rule for the node. -/
theorem source_differentiateNode (name : String) (next : Nat) (image : Dag ν → Dag ν)
    (node : Dag ν) : (differentiateNode name next image node).expr.source = node.source := by
  cases node with
  | num _ _ => rfl
  | var _ _ => rfl
  | binary tag operator a b =>
      rw [Expr.source, differentiateNode, Derivative.mark_ofBinary]
  | apply tag function u =>
      rw [Expr.source, differentiateNode, Derivative.mark_ofApply]

/-- The simplification of a node is that of an operand, or the node itself, or it was made for
the node. -/
theorem simplifyNode_cases (identities : Bool) (tag : Tag) (image : Dag ν → Dag ν)
    (node : Dag ν) :
    (identities = true ∧ ∃ child ∈ node.operands,
        simplifyNode identities tag image node = image child) ∨
      simplifyNode identities tag image node = node ∨
      (simplifyNode identities tag image node).mark = tag := by
  cases node with
  | num _ _ => exact Or.inr (Or.inl rfl)
  | var _ _ => exact Or.inr (Or.inl rfl)
  | binary _ operator left right =>
      dsimp only [simplifyNode]
      cases reduces : Reduct.of? identities operator (image left) (image right) with
      | none =>
          dsimp only
          split
          · exact Or.inr (Or.inl rfl)
          · exact Or.inr (Or.inr rfl)
      | some reduct =>
          have asked : (∀ value, reduct ≠ .value value) → identities = true := by
            intro notValue
            rw [← Bool.not_eq_false]
            rintro rfl
            obtain ⟨value, isValue⟩ := Reduct.exists_value_of_of? reduces
            exact notValue value isValue
          cases reduct with
          | value value => exact Or.inr (Or.inr rfl)
          | left => exact Or.inl ⟨asked (by simp), left, Expr.left_mem_operands, rfl⟩
          | right => exact Or.inl ⟨asked (by simp), right, Expr.right_mem_operands, rfl⟩
  | apply _ function argument =>
      refine Or.inr ?_
      dsimp only [simplifyNode]
      split
      · exact Or.inr rfl
      · split
        · exact Or.inl rfl
        · exact Or.inr rfl

end OneNode

/-! ## Sources of a whole result -/

/-- A node of a result is one of the expression, or it is new and has the source of one. -/
def Stems (next : Nat) (expr inner : Dag ν) : Prop :=
  Reaches expr inner ∨
    next ≤ inner.id ∧ ∃ origin, Reaches expr origin ∧ inner.source = origin.source

theorem Stems.exists_origin {next : Nat} {expr inner : Dag ν} (stems : Stems next expr inner) :
    ∃ origin, Reaches expr origin ∧ inner.source = origin.source := by
  rcases stems with reached | ⟨_, origin⟩
  · exact ⟨inner, reached, rfl⟩
  · exact origin

/-- The nodes of a numbered expression come from its marks. -/
theorem source_mem_of_reaches_fresh {source : α → Option Token} {next : Nat} {expr : Expr ν α}
    {node : Dag ν} (reached : Reaches (fresh source next expr).1 node) :
    node.source ∈ expr.marks.map source := by
  rw [← Expr.marks_map, ← unfold_fresh source next expr, unfold, Expr.marks_map, Expr.marks,
    List.map_map]
  exact List.mem_map.mpr ⟨node, mem_subterms_iff.mpr reached, rfl⟩

section Whole

variable [Arithmetic ν] {next : Nat} {expr : Dag ν}

theorem stems_of_reaches_differentiate (name : String) (isCoherent : Coherent expr)
    {inner : Dag ν} (reached : Reaches (differentiate name next expr).derivative inner) :
    Stems next expr inner := by
  rcases exists_origin_of_reaches name next isCoherent (.root expr) reached with
    old | ⟨origin, reachedOrigin, _, k, _, marked⟩
  · exact Or.inl old
  · refine Or.inr ⟨?_, origin, reachedOrigin, ?_⟩
    · rw [Expr.id, marked]
      exact Nat.le_trans (Nat.le_add_right next _) (Nat.le_add_right _ k)
    · rw [Expr.source, marked]

/-- The simplification of a node is one of the expression, or it was made for one. -/
theorem stems_simplificationOf (identities : Bool) (isCoherent : Coherent expr) {node : Dag ν}
    (reached : Reaches expr node) :
    Stems next expr (simplificationOf identities next expr node) := by
  have outcomes := simplifyNode_cases identities ⟨next + expr.place node, node.source⟩
    (simplificationOf identities next expr) node
  rw [← simplificationOf_eq identities next isCoherent reached] at outcomes
  rcases outcomes with ⟨_, child, member, same⟩ | same | marked
  · rw [same]
    exact stems_simplificationOf identities isCoherent (reached.step member)
  · rw [same]
    exact Or.inl reached
  · refine Or.inr ⟨?_, node, reached, ?_⟩
    · rw [Expr.id, marked]
      exact Nat.le_add_right next _
    · rw [Expr.source, marked]
termination_by node.size
decreasing_by exact size_lt_of_mem_operands member

theorem stems_of_reaches_simplify (identities : Bool) (isCoherent : Coherent expr)
    (below : Below next expr) {inner : Dag ν}
    (reached : Reaches (simplify identities next expr).1 inner) : Stems next expr inner := by
  obtain ⟨origin, reachedOrigin, rfl⟩ :=
    exists_origin_of_reaches_simplificationOf identities isCoherent below (.root expr) reached
  exact stems_simplificationOf identities isCoherent reachedOrigin

/-- Without the laws of the units a node is kept, or another one is made for it. -/
theorem source_simplificationOf (isCoherent : Coherent expr) {node : Dag ν}
    (reached : Reaches expr node) :
    (simplificationOf false next expr node).source = node.source := by
  have outcomes := simplifyNode_cases false ⟨next + expr.place node, node.source⟩
    (simplificationOf false next expr) node
  rw [← simplificationOf_eq false next isCoherent reached] at outcomes
  rcases outcomes with ⟨asked, _⟩ | same | marked
  · cases asked
  · rw [same]
  · rw [Expr.source, marked]

end Whole

/-- The derivative of a node that is computed within that of an expression, and the plain
simplification of the node, within that of the expression or by itself, have the source of the
node. Every node of a derivative and of a simplification is one of the expression, or a new one
with the source of one. So what is made of an expression that was read, by differentiation and
then simplification, has at each node a token that stands in what was read. -/
theorem sources_of_results [Arithmetic ν] [Numeral ν] (name : String) {next : Nat} {expr : Dag ν}
    (isCoherent : Coherent expr) (below : Below next expr) :
    (∀ node, Reaches expr node →
      (∃ result, (expr.derivatives name next)[node.id]? = some result ∧
        result.expr.source = node.source) ∧
      (∃ result, (expr.simplifications false next)[node.id]? = some result ∧
        result.source = node.source) ∧
      (simplify false next node).1.source = node.source) ∧
    (∀ inner, Reaches (differentiate name next expr).derivative inner → Stems next expr inner) ∧
    (∀ identities inner, Reaches (simplify identities next expr).1 inner →
      Stems next expr inner) ∧
    ∀ (source : String) (tree : Expr ν Token), Expr.read source = .ok tree →
      ∀ (start : Nat) (identities : Bool) (inner : Dag ν),
        let derived := (fresh some start tree).1.differentiate name (fresh some start tree).2
        Reaches (simplify identities derived.next derived.derivative).1 inner →
          ∃ token, inner.source = some token ∧ token.StandsIn source := by
  refine ⟨?_, fun _ reached => stems_of_reaches_differentiate name isCoherent reached,
    fun identities _ reached => stems_of_reaches_simplify identities isCoherent below reached, ?_⟩
  · intro node reached
    refine ⟨⟨_, derivatives_eq name next isCoherent reached, source_differentiateNode _ _ _ _⟩,
      ⟨_, simplifications_eq false next isCoherent reached, ?_⟩, ?_⟩
    · rw [← simplificationOf_eq false next isCoherent reached]
      exact source_simplificationOf isCoherent reached
    · exact source_simplificationOf (Heap.coherent_of_reaches isCoherent reached) (.root node)
  · intro source tree reads start identities inner derived reached
    obtain ⟨startCoherent, startBelow⟩ := coherent_below_fresh some start tree
    obtain ⟨derivedCoherent, derivedBelow, _⟩ := differentiate_spec name startCoherent startBelow
    obtain ⟨middle, reachedMiddle, sameSource⟩ :=
      (stems_of_reaches_simplify identities derivedCoherent derivedBelow reached).exists_origin
    obtain ⟨origin, reachedOrigin, sameOrigin⟩ :=
      (stems_of_reaches_differentiate name startCoherent reachedMiddle).exists_origin
    obtain ⟨token, isMark, isSource⟩ :=
      List.mem_map.mp (source_mem_of_reaches_fresh reachedOrigin)
    refine ⟨token, ?_, Expr.standsIn_of_read reads token isMark⟩
    rw [sameSource, sameOrigin, isSource]

/-- The derivative of `x*x` comes from the operator, and what is left of it with the laws of the
units comes from tokens of the source. -/
theorem sources_of_results_square :
    let product : Dag Float := (fresh some 0 Parsing.square).1
    let derived := product.differentiate "x" 3
    Coherent product ∧ Below 3 product ∧
      Expr.read "x*x" = .ok (Parsing.square : Expr Float Token) ∧
      derived.derivative.source = some ⟨.operator, "*", 2, 2⟩ ∧
      ∃ token, (simplify true derived.next derived.derivative).1.source = some token ∧
        token.StandsIn "x*x" := by
  intro product derived
  have reads : Expr.read "x*x" = .ok (Parsing.square : Expr Float Token) := Parsing.read_square
  obtain ⟨isCoherent, below⟩ := coherent_below_fresh some 0 (Parsing.square : Expr Float Token)
  obtain ⟨each, _, _, tokens⟩ := sources_of_results "x" isCoherent below
  obtain ⟨⟨result, found, source⟩, _⟩ := each product (.root product)
  refine ⟨isCoherent, below, reads, ?_, tokens "x*x" _ reads 0 true _ (.root _)⟩
  have root : derived.derivative = result.expr := by
    rw [show derived.derivative = derivativeOf "x" 3 product product from rfl, derivativeOf]
    exact congrArg (fun known => (known.map NodeDerivative.expr).getD product) found
  rw [root, source]
  rfl

end Dag

end Fluxion
