import Fluxion.Derivative.Rule
import Fluxion.Simplify.Tree

/-!
# Differentiation by recursion

The derivative of an expression without regard to sharing. Every new node has
the mark of the node whose derivative it belongs to. This is what the
derivative means; where nodes are shared it is computed differently.
-/

namespace Fluxion.Expr

variable {ν α : Type} [Arithmetic ν]

/-- An exponent is constant if its derivative simplifies to zero without the
laws of the units. -/
def isConstantBy (derivative : Expr ν α) : Bool :=
  (derivative.simplify false).isInt 0

/-- The derivative by the variable `name`. -/
def derivative (name : String) : Expr ν α → Expr ν α
  | num m _ => int m 0
  | var m other => int m (if other = name then 1 else 0)
  | binary m operator a b =>
      let da := a.derivative name
      let db := b.derivative name
      Derivative.ofBinary (fun _ => m) db.isConstantBy operator a b da db
  | apply m function u =>
      Derivative.ofApply (fun _ => m) function (apply m function u) u (u.derivative name)

end Fluxion.Expr
