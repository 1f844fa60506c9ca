import Fluxion.Text.Blank
import Fluxion.Text.DecimalDigit
import Fluxion.Decimal.Layout

/-!
# Reading a float

A number is written as an optional sign and then `inf`, `infinity` or `nan` in
any case, or digits with at most one point among them and an optional exponent.
The digits may be of any script, and a single underscore may stand between two
of them. Blanks may surround the whole. The value is the float nearest to the
decimal written.
-/

namespace Fluxion.Decimal

open Fluxion.Text

/-- A character that may surround a number. The separator controls are blank
but may not. -/
def isMargin (c : Char) : Bool :=
  isBlank c && !(0x1c ≤ c.toNat && c.toNat ≤ 0x1f)

/-- A text without the blanks around it. -/
def withoutMargins (text : List Char) : List Char :=
  ((text.dropWhile isMargin).reverse.dropWhile isMargin).reverse

/-- A digit of any script as the ASCII digit of its value; any other character
as it is. -/
def asciiDigit (c : Char) : Char :=
  match digitValue? c with
  | some value => Nat.digitChar value
  | none => c

/-- Drops the underscores between digits. An underscore elsewhere is refused;
`afterDigit` says what stands before the text. -/
def joinDigits? (afterDigit : Bool) : List Char → Option (List Char)
  | [] => some []
  | '_' :: rest =>
      match rest with
      | next :: _ => if afterDigit && next.isDigit then joinDigits? false rest else none
      | [] => none
  | c :: rest => (joinDigits? c.isDigit rest).map (c :: ·)

/-- The whole number that digits write. -/
def wholeOf (digits : List Char) : Nat :=
  digits.foldl (fun total c => 10 * total + (c.toNat - 48)) 0

/-- Reads an exponent: nothing, or `e` and a signed whole number. -/
def exponent? : List Char → Option Int
  | [] => some 0
  | mark :: rest =>
      let (negative, digits) :=
        match rest with
        | '-' :: digits => (true, digits)
        | '+' :: digits => (false, digits)
        | digits => (false, digits)
      if (mark == 'e' || mark == 'E') && !digits.isEmpty && digits.all Char.isDigit then
        some (if negative then -wholeOf digits else wholeOf digits)
      else none

/-- Reads an unsigned decimal as a whole number and a power of ten. -/
def decimal? (text : List Char) : Option (Nat × Int) :=
  let (whole, afterWhole) := text.span Char.isDigit
  let (fraction, afterFraction) :=
    match afterWhole with
    | '.' :: rest => rest.span Char.isDigit
    | rest => ([], rest)
  if whole.isEmpty && fraction.isEmpty then none
  else
    (exponent? afterFraction).map fun exponent =>
      (wholeOf (whole ++ fraction), exponent - fraction.length)

/-- The float nearest to `c * 10 ^ k`. Beyond four hundred digits on either side
of the point the answer is infinity or zero whatever the digits are. -/
def nearest (coefficient : Nat) (exponent : Int) : Float :=
  let leading : Int := (wholeDigits coefficient).length + exponent
  if coefficient = 0 ∨ leading < -400 then 0.0
  else if 400 < leading then 1.0 / 0.0
  else Float.ofScientific coefficient (exponent < 0) exponent.natAbs

/-- Reads an unsigned number. -/
def magnitude? (text : List Char) : Option Float :=
  let word := text.map Char.toLower
  if word = "inf".toList ∨ word = "infinity".toList then some (1.0 / 0.0)
  else if word = "nan".toList then some (0.0 / 0.0)
  else (decimal? text).map fun (coefficient, exponent) => nearest coefficient exponent

/-- Reads a float. -/
def read? (text : String) : Option Float :=
  match joinDigits? false ((withoutMargins text.toList).map asciiDigit) with
  | some ('-' :: rest) => (magnitude? rest).map (-·)
  | some ('+' :: rest) => magnitude? rest
  | some rest => magnitude? rest
  | none => none

end Fluxion.Decimal
