import Fluxion.Expr.Basic

/-!
# The rules of differentiation

Each rule builds the derivative of one node from the node's operands and their
derivatives. Operands are used as they are, not copied. The nodes that a rule
makes take their marks from a supply `t`, which numbers them: no rule makes more
than eight.
-/

namespace Fluxion.Derivative

variable {ν α : Type} [Arithmetic ν]

/-- The number of nodes that a rule makes at most. -/
def newNodes : Nat :=
  8

/-- The derivative of an elementary function at its argument `u`, where `whole`
is the function applied to `u`. -/
def slope (t : Nat → α) (function : Elementary) (whole u : Expr ν α) : Expr ν α :=
  match function with
  | .sin => .apply (t 1) .cos u
  | .cos => .binary (t 1) .mul (.int (t 2) (-1)) (.apply (t 3) .sin u)
  | .tan => .binary (t 1) .pow (.apply (t 2) .sec u) (.int (t 3) 2)
  | .asin =>
      .binary (t 1) .div (.int (t 2) 1)
        (.apply (t 3) .sqrt
          (.binary (t 4) .sub (.int (t 5) 1) (.binary (t 6) .pow u (.int (t 7) 2))))
  | .acos =>
      .binary (t 1) .div (.int (t 2) (-1))
        (.apply (t 3) .sqrt
          (.binary (t 4) .sub (.int (t 5) 1) (.binary (t 6) .pow u (.int (t 7) 2))))
  | .atan =>
      .binary (t 1) .div (.int (t 2) 1)
        (.binary (t 3) .add (.int (t 4) 1) (.binary (t 5) .pow u (.int (t 6) 2)))
  | .sqrt => .binary (t 1) .div (.int (t 2) 1) (.binary (t 3) .mul (.int (t 4) 2) whole)
  | .ln => .binary (t 1) .div (.int (t 2) 1) u
  | .sec => .binary (t 1) .mul whole (.apply (t 2) .tan u)
  | .exp => whole

/-- The chain rule, for the function applied to `u` as `whole`. -/
def ofApply (t : Nat → α) (function : Elementary) (whole u du : Expr ν α) : Expr ν α :=
  .binary (t 0) .mul (slope t function whole u) du

/-- The rule for a power with a constant exponent: `b * a^(b - 1) * a'`. -/
def ofConstantPower (t : Nat → α) (a b da : Expr ν α) : Expr ν α :=
  .binary (t 0) .mul
    (.binary (t 1) .mul b (.binary (t 2) .pow a (.binary (t 3) .sub b (.int (t 4) 1))))
    da

/-- The rule for any other power, which is taken for `exp(b * ln(a))`. The
logarithm is made once and shared. -/
def ofPower (t : Nat → α) (a b da db : Expr ν α) : Expr ν α :=
  let logarithm : Expr ν α := .apply (t 1) .ln a
  .binary (t 0) .mul
    (.apply (t 2) .exp (.binary (t 3) .mul b logarithm))
    (.binary (t 4) .add (.binary (t 5) .mul db logarithm)
      (.binary (t 6) .div (.binary (t 7) .mul b da) a))

/-- The rules for the operators. For a power it matters whether the exponent is
taken to be constant. -/
def ofBinary (t : Nat → α) (constantExponent : Bool) (operator : Operator)
    (a b da db : Expr ν α) : Expr ν α :=
  match operator with
  | .add => .binary (t 0) .add da db
  | .sub => .binary (t 0) .sub da db
  | .mul => .binary (t 0) .add (.binary (t 1) .mul da b) (.binary (t 2) .mul a db)
  | .div =>
      .binary (t 0) .div
        (.binary (t 1) .sub (.binary (t 2) .mul da b) (.binary (t 3) .mul a db))
        (.binary (t 4) .pow b (.int (t 5) 2))
  | .pow => if constantExponent then ofConstantPower t a b da else ofPower t a b da db

end Fluxion.Derivative
