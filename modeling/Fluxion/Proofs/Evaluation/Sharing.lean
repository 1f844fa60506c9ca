import Fluxion.Evaluation.Dag
import Fluxion.Evaluation.Tree
import Fluxion.Proofs.Dag.Growth
import Fluxion.Proofs.Expr.Names

/-!
# Evaluation along the listing is evaluation

Evaluating each shared node once gives what evaluation by recursion gives on the
unfolded expression, faults included. Both take arguments in the ascending order of
the names of the variables, and the listing and the recursion find the same names.
-/

namespace Fluxion

variable {ν α β : Type}

/-! ## Names -/

namespace Dag

/-- The names are those of the variables that the expression reaches. -/
theorem mem_names_iff {expr : Dag ν} {name : String} :
    name ∈ expr.names ↔ ∃ tag, Reaches expr (.var tag name) := by
  induction expr with
  | num _ _ => simp [Expr.names]
  | var tag other => simp [Expr.names]
  | binary tag operator left right left_ih right_ih =>
      simp [Expr.names, left_ih, right_ih, exists_or]
  | apply tag function argument ih => simp [Expr.names, ih]

/-- The names that are found along the listing are those that are found on the way to
them. -/
theorem variableNames_eq {expr : Dag ν} (isCoherent : Coherent expr) :
    expr.variableNames = (unfold expr).sortedNames := by
  refine mergeSort_eraseDups_congr ?_
  intro name
  rw [List.mem_filterMap, unfold, Expr.names_map, mem_names_iff]
  constructor
  · rintro ⟨node, member, named⟩
    cases node with
    | var tag other =>
        cases named
        exact ⟨tag, (mem_nodes_iff isCoherent).mp member⟩
    | num _ _ => cases named
    | binary _ _ _ _ => cases named
    | apply _ _ _ => cases named
  · rintro ⟨tag, reached⟩
    exact ⟨.var tag name, (mem_nodes_iff isCoherent).mpr reached, rfl⟩

/-- The free variables are those that the expression reaches. -/
theorem mem_variableNames_iff {expr : Dag ν} (isCoherent : Coherent expr) {name : String} :
    name ∈ expr.variableNames ↔ ∃ tag, Reaches expr (.var tag name) := by
  rw [variableNames_eq isCoherent, Expr.sortedNames, List.mem_mergeSort, List.mem_eraseDups,
    unfold, Expr.names_map, mem_names_iff]

end Dag

/-! ## Values -/

variable [Arithmetic ν]

/-- The value of an expression at arguments for its names in ascending order, by
recursion. -/
def Expr.evaluateAt (arguments : List (Value ν)) (expr : Expr ν α) : Except Fault (Value ν) :=
  expr.evaluate (Dag.environmentOf expr.sortedNames arguments)

/-- Values do not depend on marks. -/
theorem Expr.evaluate_map (f : α → β) (environment : String → Option (Value ν))
    (expr : Expr ν α) : (expr.map f).evaluate environment = expr.evaluate environment := by
  induction expr with
  | num _ _ => rfl
  | var _ _ => rfl
  | binary _ operator left right left_ih right_ih =>
      rw [Expr.map, Expr.evaluate, Expr.evaluate, left_ih, right_ih]
  | apply _ function argument ih => rw [Expr.map, Expr.evaluate, Expr.evaluate, ih]

namespace Dag

/-- Every node has the value that recursion gives it. -/
theorem values_eq (environment : String → Option (Value ν)) {expr node : Dag ν}
    (isCoherent : Coherent expr) (reached : Reaches expr node) :
    (expr.values environment)[node.id]? = some (Expr.evaluate environment node) := by
  have swept : ∃ result, (expr.values environment)[node.id]? = some result ∧
      result = Expr.evaluate environment node := by
    refine exists_of_sweep isCoherent (fun node result =>
      result = Expr.evaluate environment node) ?_ reached
    intro place known node reached operands
    cases node with
    | num _ _ => rfl
    | var _ _ => rfl
    | binary _ operator left right =>
        rcases Expr.forall_operands_binary_iff.mp operands with
          ⟨⟨_, foundLeft, rfl⟩, _, foundRight, rfl⟩
        rw [evaluateNode, foundLeft, foundRight]
        rfl
    | apply _ function argument =>
        rcases Expr.forall_operands_apply_iff.mp operands with ⟨_, found, rfl⟩
        rw [evaluateNode, found]
        rfl
  rcases swept with ⟨result, found, rfl⟩
  exact found

/-- The evaluator gives the value by recursion. -/
theorem evaluateAt_eq_evaluate (arguments : List (Value ν)) {expr : Dag ν}
    (isCoherent : Coherent expr) :
    evaluateAt arguments expr =
      Expr.evaluate (environmentOf expr.variableNames arguments) expr := by
  rw [evaluateAt, values_eq _ isCoherent (.root expr)]
  rfl

/-- It does so also on the unfolded expression, which has the same names. -/
theorem evaluateAt_eq_unfold (arguments : List (Value ν)) {expr : Dag ν}
    (isCoherent : Coherent expr) :
    evaluateAt arguments expr = (unfold expr).evaluateAt arguments := by
  rw [evaluateAt_eq_evaluate arguments isCoherent, Expr.evaluateAt, unfold, Expr.evaluate_map,
    ← unfold, variableNames_eq isCoherent]

end Dag

end Fluxion
