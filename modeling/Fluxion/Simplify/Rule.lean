import Fluxion.Expr.Basic

/-!
# What an operator reduces to

The rules of simplification look at one operator whose operands are simplified
already. A zero factor makes a product zero and a zero numerator makes a
quotient zero, whatever the other operand is. Two numbers are computed with.
The laws of the units drop an operand that changes nothing; they apply only on
request.
-/

namespace Fluxion

/-- What an operator reduces to: a number, or one of its operands. -/
inductive Reduct (ν : Type) where
  | value (value : ν)
  | left
  | right

namespace Reduct

variable {ν α : Type} [Arithmetic ν]

/-- Zero absorbs the other factor, and any denominator, zero included. -/
def isAbsorbed : Operator → Expr ν α → Expr ν α → Bool
  | .mul, a, b => a.isInt 0 || b.isInt 0
  | .div, a, _ => a.isInt 0
  | _, _, _ => false

/-- The laws of the units. -/
def ofUnit? : Operator → Expr ν α → Expr ν α → Option (Reduct ν)
  | .mul, a, b => if a.isInt 1 then some right else if b.isInt 1 then some left else none
  | .add, a, b => if a.isInt 0 then some right else if b.isInt 0 then some left else none
  | .sub, _, b => if b.isInt 0 then some left else none
  | .div, _, b => if b.isInt 1 then some left else none
  | .pow, _, b =>
      if b.isInt 1 then some left
      else if b.isInt 0 then some (value (Arithmetic.ofInt 1))
      else none

/-- What an operator with simplified operands reduces to, if to anything
simpler. -/
def of? (identities : Bool) (operator : Operator) (a b : Expr ν α) : Option (Reduct ν) :=
  if isAbsorbed operator a b then some (value (Arithmetic.ofInt 0))
  else
    match a, b with
    | .num _ x, .num _ y => some (value (Arithmetic.operate operator x y))
    | _, _ => if identities then ofUnit? operator a b else none

end Reduct

end Fluxion
