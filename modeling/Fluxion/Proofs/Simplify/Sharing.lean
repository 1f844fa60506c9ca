import Fluxion.Simplify.Dag
import Fluxion.Simplify.Tree
import Fluxion.Proofs.Dag.Growth
import Fluxion.Proofs.Dag.Sweep

/-!
# Simplification along the listing is simplification

Simplifying each shared node once gives what simplification by recursion gives on
the unfolded expression, and the result is coherent again. That the old node is
kept when its operands keep their identities is sound because the old and the new
nodes are one heap: there a node is known by its identity.
-/

namespace Fluxion

variable {ν : Type} [Arithmetic ν]

/-! ## Rules look at no marks -/

theorem Expr.isInt_map {α β : Type} (f : α → β) (expr : Expr ν α) (whole : Int) :
    (expr.map f).isInt whole = expr.isInt whole := by
  cases expr <;> rfl

theorem Reduct.of?_map {α β : Type} (f : α → β) (identities : Bool) (operator : Operator)
    (a b : Expr ν α) :
    Reduct.of? identities operator (a.map f) (b.map f) = Reduct.of? identities operator a b := by
  have absorbed : isAbsorbed operator (a.map f) (b.map f) = isAbsorbed operator a b := by
    cases operator <;> simp [isAbsorbed, Expr.isInt_map]
  have unit : ofUnit? operator (a.map f) (b.map f) = ofUnit? operator a b := by
    cases operator <;> simp [ofUnit?, Expr.isInt_map]
  unfold of?
  rw [absorbed, unit]
  cases a <;> cases b <;> rfl

/-- So simplification commutes with a change of marks. -/
theorem Expr.simplify_map {α β : Type} (f : α → β) (identities : Bool) (expr : Expr ν α) :
    (expr.map f).simplify identities = (expr.simplify identities).map f := by
  induction expr with
  | num _ _ => rfl
  | var _ _ => rfl
  | binary _ operator left right left_ih right_ih =>
      rw [Expr.map, Expr.simplify, Expr.simplify, left_ih, right_ih, Reduct.of?_map]
      cases Reduct.of? identities operator (left.simplify identities)
          (right.simplify identities) with
      | none => rfl
      | some reduct => cases reduct <;> rfl
  | apply _ function argument ih =>
      rw [Expr.map, Expr.simplify, Expr.simplify, ih]
      cases argument.simplify identities <;> rfl

namespace Dag

/-! ## One node -/

variable {expr : Dag ν} {bound : Nat} {holds : Dag ν → Prop}
variable {identities : Bool} {simplified : Dag ν → Dag ν}

/-- The simplification of an operator, whose operands are simplified already. -/
theorem simplifyNode_binary_spec (supplied : Supplied expr bound holds) {nodeTag tag : Tag}
    {operator : Operator} {left right : Dag ν} (held : holds (.binary nodeTag operator left right))
    (heldLeft : holds (simplified left)) (heldRight : holds (simplified right))
    (leftUnfolds : unfold (simplified left) = (unfold left).simplify identities)
    (rightUnfolds : unfold (simplified right) = (unfold right).simplify identities)
    (identity : tag.id = bound) (source : tag.source = nodeTag.source) :
    Extends expr (bound + 1) holds
        (simplifyNode identities tag simplified (.binary nodeTag operator left right)) ∧
      unfold (simplifyNode identities tag simplified (.binary nodeTag operator left right)) =
        (unfold (.binary nodeTag operator left right)).simplify identities := by
  have heldOldLeft := supplied.heap.closed held Expr.left_mem_operands
  have heldOldRight := supplied.heap.closed held Expr.right_mem_operands
  have sameRule : Reduct.of? identities operator (unfold (simplified left))
      (unfold (simplified right)) =
      Reduct.of? identities operator (simplified left) (simplified right) :=
    Reduct.of?_map Tag.source identities operator _ _
  rw [unfold_binary, Expr.simplify, ← leftUnfolds, ← rightUnfolds, sameRule]
  dsimp only [simplifyNode]
  cases Reduct.of? identities operator (simplified left) (simplified right) with
  | some reduct =>
      cases reduct with
      | value value =>
          refine ⟨supplied.extends_of_new identity (by simp [Expr.operands]), ?_⟩
          rw [unfold_num, source]
      | left => exact ⟨supplied.extends_of_held heldLeft (Nat.le_succ bound), rfl⟩
      | right => exact ⟨supplied.extends_of_held heldRight (Nat.le_succ bound), rfl⟩
  | none =>
      have unchanged : (simplified left).id = left.id ∧ (simplified right).id = right.id →
          unfold (.binary nodeTag operator left right) =
            unfold (.binary tag operator (simplified left) (simplified right)) := by
        rintro ⟨sameLeft, sameRight⟩
        rw [supplied.heap.unique heldLeft heldOldLeft sameLeft,
          supplied.heap.unique heldRight heldOldRight sameRight, unfold_binary,
          unfold_binary, source]
      dsimp only
      rw [← source, ← unfold_binary]
      exact supplied.kept_or_made (.binary tag operator (simplified left) (simplified right)) held
        identity (Expr.forall_operands_binary_iff.mpr ⟨heldLeft, heldRight⟩) unchanged

/-- The simplification of an application, whose argument is simplified already. -/
theorem simplifyNode_apply_spec (supplied : Supplied expr bound holds) {nodeTag tag : Tag}
    {function : Elementary} {argument : Dag ν} (held : holds (.apply nodeTag function argument))
    (heldArgument : holds (simplified argument))
    (unfolds : unfold (simplified argument) = (unfold argument).simplify identities)
    (identity : tag.id = bound) (source : tag.source = nodeTag.source) :
    Extends expr (bound + 1) holds
        (simplifyNode identities tag simplified (.apply nodeTag function argument)) ∧
      unfold (simplifyNode identities tag simplified (.apply nodeTag function argument)) =
        (unfold (.apply nodeTag function argument)).simplify identities := by
  have heldOld : holds argument := supplied.heap.closed held Expr.argument_mem_operands
  have unchanged : (simplified argument).id = argument.id →
      unfold (.apply nodeTag function argument) =
        unfold (.apply tag function (simplified argument)) := by
    intro same
    rw [supplied.heap.unique heldArgument heldOld same, unfold_apply, unfold_apply, source]
  have keptOrMade := supplied.kept_or_made (.apply tag function (simplified argument)) held
    identity (Expr.forall_operands_apply_iff.mpr heldArgument) unchanged
  rw [unfold_apply, Expr.simplify, ← unfolds, ← source]
  dsimp only [simplifyNode]
  generalize simplified argument = result at keptOrMade
  cases result with
  | num _ value => exact ⟨supplied.extends_of_new identity (by simp [Expr.operands]), rfl⟩
  | var _ _ => exact keptOrMade
  | binary _ _ _ _ => exact keptOrMade
  | apply _ _ _ => exact keptOrMade

/-- The simplification of a node follows the rules of the recursion and needs one
identity at most. -/
theorem simplifyNode_spec (supplied : Supplied expr bound holds) {node : Dag ν}
    (held : holds node)
    (operands : ∀ child ∈ node.operands, holds (simplified child) ∧
      unfold (simplified child) = (unfold child).simplify identities)
    {tag : Tag} (identity : tag.id = bound) (source : tag.source = node.source) :
    Extends expr (bound + 1) holds (simplifyNode identities tag simplified node) ∧
      unfold (simplifyNode identities tag simplified node) =
        (unfold node).simplify identities := by
  cases node with
  | num _ _ => exact ⟨supplied.extends_of_held held (Nat.le_succ bound), rfl⟩
  | var _ _ => exact ⟨supplied.extends_of_held held (Nat.le_succ bound), rfl⟩
  | binary nodeTag operator left right =>
      obtain ⟨⟨heldLeft, leftUnfolds⟩, heldRight, rightUnfolds⟩ :=
        Expr.forall_operands_binary_iff.mp operands
      exact simplifyNode_binary_spec supplied held heldLeft heldRight leftUnfolds rightUnfolds
        identity source
  | apply nodeTag function argument =>
      obtain ⟨heldArgument, unfolds⟩ := Expr.forall_operands_apply_iff.mp operands
      exact simplifyNode_apply_spec supplied held heldArgument unfolds identity source

/-- The simplification of a node looks at nothing but what its operands become. -/
theorem simplifyNode_congr {tag : Tag} {image image' : Dag ν → Dag ν} {node : Dag ν}
    (same : ∀ child ∈ node.operands, image child = image' child) :
    simplifyNode identities tag image node = simplifyNode identities tag image' node := by
  cases node with
  | num _ _ => rfl
  | var _ _ => rfl
  | binary _ _ left right =>
      obtain ⟨sameLeft, sameRight⟩ := Expr.forall_operands_binary_iff.mp same
      rw [simplifyNode, simplifyNode, sameLeft, sameRight]
  | apply _ _ argument =>
      rw [simplifyNode, simplifyNode, Expr.forall_operands_apply_iff.mp same]

/-! ## All nodes -/

/-- What a node of an expression becomes when the expression is simplified. -/
def simplificationOf (identities : Bool) (next : Nat) (expr node : Dag ν) : Dag ν :=
  ((expr.simplifications identities next)[node.id]?).getD node

theorem isLocal_simplifyNode (identities : Bool) (next : Nat) :
    IsLocal fun place (simplified : Dag ν → Option (Dag ν)) node =>
      simplifyNode identities ⟨next + place, node.source⟩
        (fun operand => (simplified operand).getD operand) node :=
  fun _ _ _ _ same => simplifyNode_congr fun child member => by rw [same child member]

/-- Whoever asks for a node, the rules find the same simplification of it. -/
theorem simplifications_eq (identities : Bool) (next : Nat) {expr node : Dag ν}
    (isCoherent : Coherent expr) (reached : Reaches expr node) :
    (expr.simplifications identities next)[node.id]? =
      some (simplifyNode identities ⟨next + expr.place node, node.source⟩
        (simplificationOf identities next expr) node) :=
  sweep_eq (isLocal_simplifyNode identities next) isCoherent reached

theorem simplificationOf_eq (identities : Bool) (next : Nat) {expr node : Dag ν}
    (isCoherent : Coherent expr) (reached : Reaches expr node) :
    simplificationOf identities next expr node =
      simplifyNode identities ⟨next + expr.place node, node.source⟩
        (simplificationOf identities next expr) node := by
  rw [simplificationOf, simplifications_eq identities next isCoherent reached]
  rfl

/-- The simplifications of all nodes are one heap with the nodes themselves, and each
unfolds to the simplification by recursion. -/
theorem exists_supplied_simplifications (identities : Bool) {next : Nat} {expr : Dag ν}
    (isCoherent : Coherent expr) (below : Below next expr) :
    ∃ holds, Supplied expr (simplify identities next expr).2 holds ∧
      ∀ node, Reaches expr node → holds (simplificationOf identities next expr node) ∧
        unfold (simplificationOf identities next expr node) =
          (unfold node).simplify identities := by
  have swept : ∃ holds, Supplied expr (next + 1 * expr.nodes.length) holds ∧
      ∀ node, Reaches expr node → ∃ result,
        (expr.simplifications identities next)[node.id]? = some result ∧ holds result ∧
          unfold result = (unfold node).simplify identities := by
    refine exists_supplied_of_sweep isCoherent below ?_
    intro place known node holds supplied reached operands
    rw [Nat.one_mul] at supplied ⊢
    refine simplifyNode_spec supplied (supplied.original node reached) ?_ ?_ ?_
    · intro child member
      obtain ⟨result, found, held, unfolds⟩ := operands child member
      rw [found]
      exact ⟨held, unfolds⟩
    · rfl
    · rfl
  rcases swept with ⟨holds, supplied, results⟩
  refine ⟨holds, by simpa [simplify, count] using supplied, ?_⟩
  intro node reached
  obtain ⟨result, found, held, unfolds⟩ := results node reached
  rw [simplificationOf, found]
  exact ⟨held, unfolds⟩

/-! ## The whole expression -/

/-- Simplification where nodes are shared unfolds to simplification by recursion, and
its result is coherent and uses no identity beyond the supply. -/
theorem simplify_spec (identities : Bool) {next : Nat} {expr : Dag ν}
    (isCoherent : Coherent expr) (below : Below next expr) :
    Coherent (simplify identities next expr).1 ∧
      Below (simplify identities next expr).2 (simplify identities next expr).1 ∧
      unfold (simplify identities next expr).1 = (unfold expr).simplify identities := by
  rcases exists_supplied_simplifications identities isCoherent below with
    ⟨holds, supplied, results⟩
  obtain ⟨held, unfolds⟩ := results expr (.root expr)
  obtain ⟨resultCoherent, resultBelow⟩ := supplied.coherent_below held
  exact ⟨resultCoherent, resultBelow, unfolds⟩

end Dag

end Fluxion
