import Fluxion.Dag.Listing
import Fluxion.Simplify.Rule

/-!
# Simplification of shared nodes

Each node is simplified once, behind its operands, and the result takes its
place wherever it is shared. A node that no rule applies to and whose operands
stay the very nodes they are stays the very node it is; only otherwise is a new
one made, at most one for each node.
-/

namespace Fluxion.Dag

variable {ν : Type} [Arithmetic ν]

/-- The simplification of a node: `simplified` answers for its operands, and
`tag` is for the node that may have to be made. -/
def simplifyNode (identities : Bool) (tag : Tag) (simplified : Dag ν → Dag ν) (node : Dag ν) :
    Dag ν :=
  match node with
  | .num _ _ | .var _ _ => node
  | .binary _ operator left right =>
      let newLeft := simplified left
      let newRight := simplified right
      match Reduct.of? identities operator newLeft newRight with
      | some (.value value) => .num tag value
      | some .left => newLeft
      | some .right => newRight
      | none =>
          if newLeft.id = left.id ∧ newRight.id = right.id then node
          else .binary tag operator newLeft newRight
  | .apply _ function argument =>
      match simplified argument with
      | .num _ value => .num tag (Arithmetic.apply function value)
      | newArgument =>
          if newArgument.id = argument.id then node else .apply tag function newArgument

/-- The simplifications of all nodes of an expression. The node at place `k` of
the listing gets the identity `next + k` if a new one is made for it. An operand
without a simplification would stand for itself, but operands come first. -/
def simplifications (identities : Bool) (next : Nat) (expr : Dag ν) : Table (Dag ν) :=
  expr.sweep fun place simplified node =>
    simplifyNode identities ⟨next + place, node.source⟩
      (fun operand => (simplified operand).getD operand) node

/-- The simplified expression, with the laws of the units on request, and the
supply behind it. -/
def simplify (identities : Bool) (next : Nat) (expr : Dag ν) : Dag ν × Nat :=
  (((expr.simplifications identities next)[expr.id]?).getD expr, next + expr.count)

end Fluxion.Dag
