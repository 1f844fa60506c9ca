import Fluxion.Fault
import Fluxion.Numeral

/-!
# Scalars and vectors

A value is one number or a vector of numbers. Functions work element by
element. Two vectors are combined if they have the same length, or if one of
them has length one: its element, like a scalar, then goes with every element
of the other.
-/

namespace Fluxion

/-- A number, or a vector of numbers. -/
inductive Value (ν : Type) where
  | scalar (value : ν)
  | vector (values : List ν)

namespace Value

variable {ν μ ρ : Type}

/-- Applies a function to every element. -/
def map (f : ν → μ) : Value ν → Value μ
  | scalar x => scalar (f x)
  | vector xs => vector (xs.map f)

/-- Combines two vectors element by element. -/
def zipVectors (f : ν → μ → ρ) (xs : List ν) (ys : List μ) : Except Fault (List ρ) :=
  if xs.length = ys.length then .ok (List.zipWith f xs ys)
  else
    match xs, ys with
    | [x], _ => .ok (ys.map (f x))
    | _, [y] => .ok (xs.map (f · y))
    | _, _ => .error (.lengthMismatch xs.length ys.length)

/-- Combines two values. The result is a scalar only if both are. -/
def zip (f : ν → μ → ρ) : Value ν → Value μ → Except Fault (Value ρ)
  | scalar x, scalar y => .ok (scalar (f x y))
  | scalar x, vector ys => .ok (vector (ys.map (f x)))
  | vector xs, scalar y => .ok (vector (xs.map (f · y)))
  | vector xs, vector ys => (zipVectors f xs ys).map vector

/-- The text of a value, the elements of a vector in brackets. -/
def render [Numeral ν] : Value ν → String
  | scalar x => Numeral.canonical x
  | vector xs => "[" ++ ", ".intercalate (xs.map Numeral.canonical) ++ "]"

end Value

end Fluxion
