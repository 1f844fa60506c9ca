/-!
# Places counted from either end

A place in a list is given by a number: from 0 upwards it counts from the
start, and from -1 downwards from the end.
-/

namespace Fluxion

/-- The place that a number means among `length` places, if there is one. -/
def place? (length : Nat) (index : Int) : Option Nat :=
  let fromStart := if index < 0 then index + length else index
  if 0 ≤ fromStart ∧ fromStart < length then some fromStart.toNat else none

end Fluxion
