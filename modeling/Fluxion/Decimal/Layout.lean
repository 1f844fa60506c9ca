import Fluxion.Decimal.Shortest

/-!
# The text of a float

Two texts are written for a float. Its literal always shows that it is a float,
by a point or an exponent. Its canonical text is the exact whole number when
the float is whole, however many digits that takes, and its literal otherwise;
there a negative zero is just zero.
-/

namespace Fluxion.Decimal

/-- The decisions of a decimal notation: which exponents of the first digit are
written with a positional point, and how many digits an exponent has at
least. -/
structure Layout where
  leastPositional : Int
  leastScientific : Int
  exponentWidth : Nat

/-- Numbers from `0.0001` up to, not including, `10^16` are written
positionally, and an exponent has two digits or more. -/
def Layout.literal : Layout where
  leastPositional := -4
  leastScientific := 16
  exponentWidth := 2

/-- A decimal without the zeros at its end. -/
def trimmed (digits : List Char) : List Char :=
  (digits.reverse.dropWhile (· == '0')).reverse

/-- A whole number in decimal. -/
def wholeDigits (number : Nat) : List Char :=
  Nat.toDigits 10 number

/-- Digits with a point behind the first `places` of them. There is a digit on
each side of the point. -/
def positional (digits : List Char) (places : Int) : List Char :=
  if places ≤ 0 then '0' :: '.' :: List.replicate (-places).toNat '0' ++ digits
  else
    let whole := digits.take places.toNat
    let fraction := digits.drop places.toNat
    let filler := List.replicate (places.toNat - digits.length) '0'
    whole ++ filler ++ '.' :: (if fraction.isEmpty then ['0'] else fraction)

/-- Digits with a point behind the first one, when there are more, and an
exponent. -/
def scientific (width : Nat) (digits : List Char) (exponent : Int) : List Char :=
  let fraction := digits.drop 1
  let power := wholeDigits exponent.natAbs
  digits.take 1 ++ (if fraction.isEmpty then [] else '.' :: fraction)
    ++ 'e' :: (if exponent < 0 then '-' else '+')
    :: (List.replicate (width - power.length) '0' ++ power)

/-- The decimal `c * 10 ^ k` in a layout. -/
def Layout.write (layout : Layout) (coefficient : Nat) (exponent : Int) : List Char :=
  let digits := wholeDigits coefficient
  let leading : Int := digits.length - 1 + exponent
  if layout.leastPositional ≤ leading ∧ leading < layout.leastScientific then
    positional (trimmed digits) (leading + 1)
  else scientific layout.exponentWidth (trimmed digits) leading

/-- The literal of the positive number `m * 2 ^ q`, or of zero. -/
def magnitudeLiteral (mantissa : Nat) (exponent : Int) : List Char :=
  if mantissa = 0 then "0.0".toList
  else
    let (coefficient, power) := Shortest.shortest mantissa exponent
    Layout.literal.write coefficient power

/-- A minus sign before a negative number. -/
def signed (negative : Bool) (magnitude : List Char) : List Char :=
  if negative then '-' :: magnitude else magnitude

namespace Binary64

/-- The literal of a float. -/
def literal : Binary64 → List Char
  | nan => "nan".toList
  | infinity negative => signed negative "inf".toList
  | finite negative mantissa exponent => signed negative (magnitudeLiteral mantissa exponent)

/-- The canonical text of a float. -/
def canonical (value : Binary64) : List Char :=
  match value with
  | finite negative mantissa exponent =>
      match whole? mantissa exponent with
      | some number => signed (negative && number != 0) (wholeDigits number)
      | none => value.literal
  | _ => value.literal

end Binary64

/-- The literal of a float, as a text. -/
def literal (value : Float) : String :=
  String.ofList (Binary64.ofFloat value).literal

/-- The canonical text of a float. -/
def canonical (value : Float) : String :=
  String.ofList (Binary64.ofFloat value).canonical

end Fluxion.Decimal
