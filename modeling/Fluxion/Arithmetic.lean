import Fluxion.Operator

/-!
# Arithmetic

What expressions compute with. Differentiation, simplification and evaluation
are stated over any type of numbers that interprets the operators and the
elementary functions; the program runs them over binary floating point, where
no operation fails: a division by zero, an overflow or an argument outside a
function's domain gives an infinity or a NaN.
-/

namespace Fluxion

/-- Numbers that interpret every operator and every elementary function.
`same` is numeric equality, which need not be identity: two zeros of different
sign are the same number, and a NaN is not even the same as itself. -/
class Arithmetic (ν : Type) where
  ofInt : Int → ν
  operate : Operator → ν → ν → ν
  apply : Elementary → ν → ν
  same : ν → ν → Bool

namespace Arithmetic

variable {ν : Type} [Arithmetic ν]

/-- Numeric equality with a small whole number. -/
def isInt (value : ν) (whole : Int) : Bool :=
  same value (ofInt whole)

end Arithmetic

/-- Binary floating point. The secant has no operation of its own: it is the
reciprocal of the cosine. -/
instance : Arithmetic Float where
  ofInt := Float.ofInt
  operate
    | .add => (· + ·)
    | .sub => (· - ·)
    | .div => (· / ·)
    | .mul => (· * ·)
    | .pow => Float.pow
  apply
    | .sin => Float.sin
    | .cos => Float.cos
    | .tan => Float.tan
    | .asin => Float.asin
    | .acos => Float.acos
    | .atan => Float.atan
    | .sqrt => Float.sqrt
    | .ln => Float.log
    | .sec => fun x => 1.0 / Float.cos x
    | .exp => Float.exp
  same := (· == ·)

end Fluxion
