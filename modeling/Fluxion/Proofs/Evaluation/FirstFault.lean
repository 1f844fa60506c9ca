import Fluxion.Proofs.Evaluation.Sharing

/-!
# The first fault

An evaluation that passes along the listing stops at the first node that has no value.
Recursion stops at the first node that it finds without a value. Both find the same
node, because the listing follows the recursion and leaves out only what was listed
before, which had values then.
-/

namespace Fluxion

variable {ν α : Type} [Arithmetic ν] {environment : String → Option (Value ν)}

/-- What keeps an expression from having a value. -/
def Expr.fault? (environment : String → Option (Value ν)) (expr : Expr ν α) : Option Fault :=
  match expr.evaluate environment with
  | .ok _ => none
  | .error fault => some fault

theorem Expr.fault?_eq_some_iff {expr : Expr ν α} {fault : Fault} :
    expr.fault? environment = some fault ↔ expr.evaluate environment = .error fault := by
  rw [fault?]
  cases expr.evaluate environment <;> simp

/-- The operands of an operator are looked at from left to right, and then the operator. -/
theorem Expr.or_fault?_binary (m : α) (operator : Operator) (left right : Expr ν α) :
    (left.fault? environment).or
        ((right.fault? environment).or ((binary m operator left right).fault? environment)) =
      (binary m operator left right).fault? environment := by
  rw [fault?, fault?, fault?, evaluate]
  cases left.evaluate environment with
  | error fault => rfl
  | ok x =>
      cases right.evaluate environment with
      | error fault => rfl
      | ok y => rfl

theorem Expr.or_fault?_apply (m : α) (function : Elementary) (argument : Expr ν α) :
    (argument.fault? environment).or ((apply m function argument).fault? environment) =
      (apply m function argument).fault? environment := by
  rw [fault?, fault?, evaluate]
  cases argument.evaluate environment <;> rfl

namespace Dag

/-- The fault that is met first on a pass along some nodes. -/
def firstFault? (environment : String → Option (Value ν)) (nodes : List (Dag ν)) :
    Option Fault :=
  nodes.findSome? (Expr.fault? environment)

theorem firstFault?_snoc (nodes : List (Dag ν)) (node : Dag ν) :
    firstFault? environment (nodes ++ [node]) =
      (firstFault? environment nodes).or (node.fault? environment) := by
  rw [firstFault?, List.findSome?_append, List.findSome?_singleton]
  rfl

omit [Arithmetic ν] in
/-- Visiting a node lists nothing but what it reaches. -/
theorem mem_or_reaches_of_mem_depthFirst {listed : List (Dag ν)} {node other : Dag ν}
    (member : other ∈ depthFirst listed node) : other ∈ listed ∨ Reaches node other := by
  induction node generalizing listed with
  | num _ _ | var _ _ =>
      rw [depthFirst] at member
      split at member
      · exact Or.inl member
      · simpa using member
  | binary tag operator left right left_ih right_ih =>
      rw [depthFirst] at member
      split at member
      · exact Or.inl member
      · rcases List.mem_append.mp member with member | member
        · rcases right_ih member with member | below
          · rcases left_ih member with member | below
            · exact Or.inl member
            · exact Or.inr (reaches_binary_iff.mpr (Or.inr (Or.inl below)))
          · exact Or.inr (reaches_binary_iff.mpr (Or.inr (Or.inr below)))
        · rw [List.mem_singleton.mp member]
          exact Or.inr (.root _)
  | apply tag function argument ih =>
      rw [depthFirst] at member
      split at member
      · exact Or.inl member
      · rcases List.mem_append.mp member with member | member
        · rcases ih member with member | below
          · exact Or.inl member
          · exact Or.inr (reaches_apply_iff.mpr (Or.inr below))
        · rw [List.mem_singleton.mp member]
          exact Or.inr (.root _)

/-- What is met first when a node has been visited was met before the visit, or it is the fault
of this node. -/
theorem firstFault?_depthFirst {root node : Dag ν} (isCoherent : Coherent root)
    (reached : Reaches root node) {listed : List (Dag ν)}
    (among : ∀ other ∈ listed, Reaches root other) :
    firstFault? environment (depthFirst listed node) =
      (firstFault? environment listed).or (node.fault? environment) := by
  by_cases old : node.id ∈ listed.map Expr.id
  · obtain ⟨other, member, same⟩ := List.mem_map.mp old
    have isListed : node ∈ listed := by
      rwa [← isCoherent other node (among other member) reached same]
    rw [depthFirst_of_listed old]
    cases first : firstFault? environment listed with
    | some fault => rfl
    | none => exact (List.findSome?_eq_none_iff.mp first node isListed).symm
  · rw [depthFirst_of_new old, firstFault?_snoc]
    cases node with
    | num _ _ => rfl
    | var _ _ => rfl
    | binary tag operator left right =>
        have reachedLeft := reached.step Expr.left_mem_operands
        have reachedRight := reached.step Expr.right_mem_operands
        have amongLeft : ∀ other ∈ depthFirst listed left, Reaches root other := by
          intro other member
          rcases mem_or_reaches_of_mem_depthFirst member with member | below
          · exact among other member
          · exact reachedLeft.trans below
        rw [Expr.operands, List.foldl_cons, List.foldl_cons, List.foldl_nil,
          firstFault?_depthFirst isCoherent reachedRight amongLeft,
          firstFault?_depthFirst isCoherent reachedLeft among, Option.or_assoc, Option.or_assoc,
          Expr.or_fault?_binary]
    | apply tag function argument =>
        rw [Expr.operands, List.foldl_cons, List.foldl_nil,
          firstFault?_depthFirst isCoherent (reached.step Expr.argument_mem_operands) among,
          Option.or_assoc, Expr.or_fault?_apply]
termination_by node.size
decreasing_by
  all_goals
    subst_vars
    exact size_lt_of_mem_operands (by simp [Expr.operands])

/-- The fault of an expression is the one that is met first along its listing. -/
theorem firstFault?_nodes {expr : Dag ν} (isCoherent : Coherent expr) :
    firstFault? environment expr.nodes = expr.fault? environment := by
  rw [nodes_eq_depthFirst isCoherent,
    firstFault?_depthFirst isCoherent (.root expr) (List.forall_mem_nil _)]
  rfl

end Dag

end Fluxion
