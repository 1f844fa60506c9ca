import Fluxion.Simplify.Rule

/-!
# Simplification by recursion

Simplification of an expression without regard to sharing: operands first,
then the rules for the root. Every new node has the mark of the node it takes
the place of. This is what simplification means; where nodes are shared it is
computed differently.
-/

namespace Fluxion.Expr

variable {ν α : Type} [Arithmetic ν]

/-- The simplified expression, with the laws of the units on request. -/
def simplify (identities : Bool) : Expr ν α → Expr ν α
  | num m value => num m value
  | var m name => var m name
  | binary m operator left right =>
      let left := left.simplify identities
      let right := right.simplify identities
      match Reduct.of? identities operator left right with
      | some (.value value) => num m value
      | some .left => left
      | some .right => right
      | none => binary m operator left right
  | apply m function argument =>
      match argument.simplify identities with
      | num _ value => num m (Arithmetic.apply function value)
      | argument => apply m function argument

end Fluxion.Expr
