import Fluxion.Decimal.Binary64

/-!
# Shortest decimals

A float is the one nearest to every real number in an interval around it. The
decimal written for it is the shortest one in that interval, and of several
equally short ones the nearest; an exact tie goes to the even digit. All
comparisons are made in whole numbers: `a * 2 ^ p` and `c * 10 ^ k` are scaled
to a common denominator.

If a decimal of some length lies in the interval, then so does one of the two
decimals of that length next to the float itself, so only those are tried.
-/

namespace Fluxion.Decimal.Shortest

/-- The numbers that round to a float, in quarters of its last place: `unit` is
the power of two that a quarter counts, and the ends belong to the interval
when it is `closed`. -/
structure Neighbourhood where
  lower : Nat
  centre : Nat
  upper : Nat
  unit : Int
  closed : Bool

/-- The neighbourhood of `m * 2 ^ q`. Below a power of two the floats lie twice
as dense, except where the exponent cannot fall further. -/
def neighbourhood (mantissa : Nat) (exponent : Int) : Neighbourhood where
  lower :=
    if mantissa = Binary64.hiddenBit ∧ Binary64.leastExponent < exponent then
      4 * mantissa - 1
    else 4 * mantissa - 2
  centre := 4 * mantissa
  upper := 4 * mantissa + 2
  unit := exponent - 2
  closed := mantissa % 2 = 0

/-- What a factor `2 ^ p` is multiplied by when it is compared with `10 ^ k`. -/
def binaryScale (p k : Int) : Nat :=
  Nat.pow 2 p.toNat * Nat.pow 10 (-k).toNat

/-- What a factor `10 ^ k` is multiplied by when it is compared with `2 ^ p`. -/
def decimalScale (p k : Int) : Nat :=
  Nat.pow 10 k.toNat * Nat.pow 2 (-p).toNat

/-- Whether `c * 10 ^ k` lies in the neighbourhood. -/
def Neighbourhood.holds (around : Neighbourhood) (k : Int) (c : Nat) : Bool :=
  let low := around.lower * binaryScale around.unit k
  let high := around.upper * binaryScale around.unit k
  let point := c * decimalScale around.unit k
  if around.closed then low ≤ point && point ≤ high else low < point && point < high

/-- The multiple of `10 ^ k` in the neighbourhood that is nearest to its centre,
if there is one. -/
def Neighbourhood.nearest? (around : Neighbourhood) (k : Int) : Option Nat :=
  let centre := around.centre * binaryScale around.unit k
  let step := decimalScale around.unit k
  let below := centre / step
  let twiceRest := 2 * (centre % step)
  match around.holds k below, around.holds k (below + 1) with
  | true, true =>
      if twiceRest < step ∨ (twiceRest = step ∧ below % 2 = 0) then some below
      else some (below + 1)
  | true, false => some below
  | false, true => some (below + 1)
  | false, false => none

/-- The exponent of the first decimal digit of `m * 2 ^ q`, for a positive `m`.
The binary logarithm gives it up to one. -/
def leadingExponent (mantissa : Nat) (exponent : Int) : Int :=
  let guess := (Nat.log2 mantissa + exponent) * 30103 / 100000
  let next := guess + 1
  if decimalScale exponent next ≤ mantissa * binaryScale exponent next then next else guess

/-- The number of digits with which every float can be told from its
neighbours. -/
def mostDigits : Nat :=
  17

/-- The shortest decimal `c * 10 ^ k` that rounds to `m * 2 ^ q`, as the pair of
`c` and `k`. -/
def shortest (mantissa : Nat) (exponent : Int) : Nat × Int :=
  let around := neighbourhood mantissa exponent
  let leading := leadingExponent mantissa exponent
  let lengths := List.range mostDigits
  (lengths.findSome? fun (length : Nat) =>
    (around.nearest? (leading - length)).map (·, leading - length)).getD (0, 0)

/-- What is chosen on a decimal grid lies in the neighbourhood, so it reads back
as the same float. -/
theorem Neighbourhood.holds_of_nearest? {around : Neighbourhood} {k : Int} {c : Nat}
    (chosen : around.nearest? k = some c) : around.holds k c = true := by
  unfold Neighbourhood.nearest? at chosen
  generalize around.centre * binaryScale around.unit k / decimalScale around.unit k = below
    at chosen
  dsimp only at chosen
  split at chosen
  · next atBelow atNext =>
    split at chosen <;> cases chosen <;> assumption
  · next atBelow _ =>
    cases chosen
    assumption
  · next _ atNext =>
    cases chosen
    assumption
  · cases chosen

end Fluxion.Decimal.Shortest
