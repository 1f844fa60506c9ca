import Fluxion.Evaluation.Value
import Fluxion.Expr.Basic

/-!
# Evaluation by recursion

The value of an expression where its variables have values. Faults are found in
the order in which the expression is read.
-/

namespace Fluxion.Expr

variable {ν α : Type} [Arithmetic ν]

/-- The value of an expression in an environment that gives values to names. -/
def evaluate (environment : String → Option (Value ν)) : Expr ν α → Except Fault (Value ν)
  | num _ value => .ok (.scalar value)
  | var _ name =>
      match environment name with
      | some value => .ok value
      | none => .error (.missingArgument name)
  | binary _ operator left right => do
      let x ← left.evaluate environment
      let y ← right.evaluate environment
      x.zip (Arithmetic.operate operator) y
  | apply _ function argument => do
      let x ← argument.evaluate environment
      .ok (x.map (Arithmetic.apply function))

end Fluxion.Expr
