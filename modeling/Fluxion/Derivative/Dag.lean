import Fluxion.Derivative.Rule
import Fluxion.Simplify.Dag

/-!
# Differentiation of shared nodes

Each node is differentiated once, behind its operands, and the derivative is
shared as the node is. So the derivative of an expression has at most nine
nodes for each node of the expression: the node itself and those that its rule
makes.

A power asks whether its exponent is constant, and the answers are kept as
remarks.
-/

namespace Fluxion

/-- A power was differentiated: by the rule for a constant exponent or not, and
where it stands if it comes from a text. -/
structure PowerRemark where
  constantExponent : Bool
  column : Option Int

namespace Dag

variable {ν : Type} [Arithmetic ν]

/-- The derivative of a node, and whether the node is a power whose exponent is
constant. -/
structure NodeDerivative (ν : Type) where
  expr : Dag ν
  constantExponent : Bool

/-- The derivative of a node by the variable `name`: `derivative` answers for the
node's operands, and the identities from `next` on are free. -/
def differentiateNode (name : String) (next : Nat) (derivative : Dag ν → Dag ν)
    (node : Dag ν) : NodeDerivative ν :=
  let tag (k : Nat) : Tag := ⟨next + k, node.source⟩
  match node with
  | .num _ _ => ⟨.int (tag 0) 0, false⟩
  | .var _ other => ⟨.int (tag 0) (if other = name then 1 else 0), false⟩
  | .binary _ operator a b =>
      let da := derivative a
      let db := derivative b
      let constantExponent := operator = .pow && (simplify false next db).1.isInt 0
      ⟨Derivative.ofBinary tag constantExponent operator a b da db, constantExponent⟩
  | .apply _ function u => ⟨Derivative.ofApply tag function node u (derivative u), false⟩

/-- The derivatives of all nodes of an expression. Each place of the listing has
as many identities of its own as a rule can need. An operand without a
derivative would stand for itself, but operands come first. -/
def derivatives (name : String) (next : Nat) (expr : Dag ν) : Table (NodeDerivative ν) :=
  expr.sweep fun place derivative node =>
    differentiateNode name (next + Derivative.newNodes * place)
      (fun operand => ((derivative operand).map NodeDerivative.expr).getD operand) node

/-- The derivative of an expression, the supply behind it, and the remarks on its
powers in the order of the listing. -/
structure Differentiation (ν : Type) where
  derivative : Dag ν
  next : Nat
  remarks : List PowerRemark

/-- The remark on a node, if it is a power. -/
def remark? (known : Table (NodeDerivative ν)) (node : Dag ν) : Option PowerRemark :=
  match node with
  | .binary tag .pow _ _ =>
      (known[tag.id]?).map fun result => ⟨result.constantExponent, tag.source.map (·.column)⟩
  | _ => none

/-- Differentiates an expression by the variable `name`. -/
def differentiate (name : String) (next : Nat) (expr : Dag ν) : Differentiation ν :=
  let known := expr.derivatives name next
  { derivative := ((known[expr.id]?).map NodeDerivative.expr).getD expr
    next := next + Derivative.newNodes * expr.count
    remarks := expr.nodes.filterMap (remark? known) }

end Dag

end Fluxion
