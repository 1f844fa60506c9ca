/-!
# Binary floating point, taken apart

The 64 bits of a float hold a sign, eleven bits of exponent and 52 bits of
fraction. A finite float is a whole number times a power of two; everything
that is written about it in decimal is exact arithmetic on that pair.
-/

namespace Fluxion.Decimal

/-- What the bits of a float stand for. `finite negative m q` is the number
`m * 2 ^ q`, or its negative; zero keeps its sign. -/
inductive Binary64 where
  | nan
  | infinity (negative : Bool)
  | finite (negative : Bool) (mantissa : Nat) (exponent : Int)

namespace Binary64

/-- The exponent of the smallest positive float. -/
def leastExponent : Int :=
  -1074

/-- The mantissa of a float that is a power of two. -/
def hiddenBit : Nat :=
  Nat.pow 2 52

/-- Takes the bits apart. An exponent field of all ones marks what is not
finite; one of all zeros marks the numbers without a hidden bit. -/
def ofBits (bits : Nat) : Binary64 :=
  let negative := decide (Nat.pow 2 63 ≤ bits)
  let field := bits / hiddenBit % Nat.pow 2 11
  let fraction := bits % hiddenBit
  if field = 2047 then
    if fraction = 0 then infinity negative else nan
  else if field = 0 then finite negative fraction leastExponent
  else finite negative (hiddenBit + fraction) (leastExponent + (field - 1 : Nat))

/-- Takes a float apart. -/
def ofFloat (value : Float) : Binary64 :=
  ofBits value.toBits.toNat

/-- The whole number that `m * 2 ^ q` is, when it is one. -/
def whole? (mantissa : Nat) (exponent : Int) : Option Nat :=
  let scale := Nat.pow 2 (-exponent).toNat
  if mantissa % scale = 0 then some (mantissa / scale * Nat.pow 2 exponent.toNat) else none

end Binary64

end Fluxion.Decimal
