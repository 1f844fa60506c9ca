import Fluxion.Decimal.Reading

/-!
# Numerals

How numbers are written and read. Printing and parsing are stated over any
such system of numerals; the program uses the decimal numerals of binary
floating point.
-/

namespace Fluxion

/-- A system of numerals. `canonical` is what expressions are printed with,
`literal` shows that a number is meant even where a whole number would do, and
`read?` refuses what is not a number. -/
class Numeral (ν : Type) where
  canonical : ν → String
  literal : ν → String
  read? : String → Option ν

instance : Numeral Float where
  canonical := Decimal.canonical
  literal := Decimal.literal
  read? := Decimal.read?

end Fluxion
