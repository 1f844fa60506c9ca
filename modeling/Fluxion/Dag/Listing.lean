import Std.Data.HashSet.Basic
import Std.Data.HashMap.Basic
import Fluxion.Dag.Basic

/-!
# Listing shared nodes

The nodes of an expression are listed once each, every node behind its
operands and the operands of a node from left to right. The listing follows an
explicit agenda, so its depth does not grow with that of the expression, and a
node that was met before is passed over, so its length does not grow with the
number of ways to a node.
-/

namespace Fluxion.Dag

variable {ν β : Type}

/-- What is still to be done: look into a node, or list one whose operands are
done. -/
inductive Task (ν : Type) where
  | visit (node : Dag ν)
  | list (node : Dag ν)

/-- Two units for every way to a node that is still to be visited, and one for
a node that is to be listed. -/
def Task.weight : Task ν → Nat
  | visit node => 2 * node.size
  | list _ => 1

/-- The units of a whole agenda. -/
def Task.total : List (Task ν) → Nat
  | [] => 0
  | task :: agenda => task.weight + total agenda

/-- The nodes that an agenda lists when the nodes in `seen` have been met. -/
def listFrom (seen : Std.HashSet Nat) : List (Task ν) → List (Dag ν)
  | [] => []
  | .list node :: agenda => node :: listFrom seen agenda
  | .visit node :: agenda =>
      if seen.contains node.id then listFrom seen agenda
      else
        listFrom (seen.insert node.id)
          (node.operands.map Task.visit ++ Task.list node :: agenda)
termination_by agenda => Task.total agenda
decreasing_by
  · simp [Task.total, Task.weight]
  · have positive := node.size_pos
    simp only [Task.total, Task.weight]
    omega
  · cases node <;> simp [Task.total, Task.weight, Expr.operands, Expr.size] <;> omega

/-- The nodes of an expression, each once and behind its operands. -/
def nodes (expr : Dag ν) : List (Dag ν) :=
  listFrom ∅ [.visit expr]

/-- The number of nodes, shared ones counted once. -/
def count (expr : Dag ν) : Nat :=
  expr.nodes.length

/-- The names of the variables in an expression, in ascending order. -/
def variableNames (expr : Dag ν) : List String :=
  (expr.nodes.filterMap Expr.name?).eraseDups.mergeSort fun a b => !decide (b < a)

/-- The listing of an expression, with the places at which the operands of each
node stand in it. -/
def listing (expr : Dag ν) : List (Dag ν × List Nat) :=
  let nodes := expr.nodes
  let places : Std.HashMap Nat Nat :=
    nodes.zipIdx.foldl (fun places (node, place) => places.insert node.id place) ∅
  nodes.map fun node => (node, node.operands.filterMap fun child => places[child.id]?)

/-! ## Computing along the listing -/

/-- What is known of the nodes that have been passed, by identity. -/
abbrev Table (β : Type) : Type :=
  Std.HashMap Nat β

/-- Passes along the listing once and computes something for every node. The
step is told the place of the node in the listing and can ask for what was
computed for nodes before it, such as the node's operands. -/
def sweep (step : Nat → (Dag ν → Option β) → Dag ν → β) (expr : Dag ν) : Table β :=
  expr.nodes.zipIdx.foldl
    (fun table (node, place) =>
      table.insert node.id (step place (fun other => table[other.id]?) node))
    ∅

end Fluxion.Dag
