import Mathlib.Data.List.TakeWhile
import Fluxion.Decimal.Layout
import Fluxion.Proofs.Token.Cut

/-!
# The text of a float is a number

Whatever a float is, its canonical text is a number as the lexer takes it, with a
minus sign before it if the float is negative. The one thing to see is that the
shortest decimal of a positive float has a digit that is not zero, for the zeros
at the end of its digits are not written.
-/

namespace Fluxion.Decimal

open Fluxion.Token

/-! ## Digits -/

theorem digits_of_ascii {text : List Char} (ascii : ∀ c ∈ text, c.isDigit = true) :
    Digits text := by
  intro c member
  rw [Text.isDigit, Text.digitValue?_of_isDigit (ascii c member)]
  rfl

theorem digits_append {first second : List Char} (firstDigits : Digits first)
    (secondDigits : Digits second) : Digits (first ++ second) := by
  intro c member
  rcases List.mem_append.mp member with member | member
  · exact firstDigits c member
  · exact secondDigits c member

theorem digits_zeros (count : Nat) : Digits (List.replicate count '0') := by
  intro c member
  rw [List.eq_of_mem_replicate member]
  decide

theorem digits_wholeDigits (number : Nat) : Digits (wholeDigits number) :=
  digits_of_ascii fun _ member => Nat.isDigit_of_mem_toDigits (by decide) (by decide) member

theorem digits_trimmed {digits : List Char} (all : Digits digits) : Digits (trimmed digits) := by
  intro c member
  rw [trimmed, List.mem_reverse] at member
  exact all c (List.mem_reverse.mp ((List.dropWhile_sublist _).mem member))

/-- A positive number has a digit other than zero. -/
theorem trimmed_wholeDigits_ne_nil {number : Nat} (positive : 0 < number) :
    trimmed (wholeDigits number) ≠ [] := by
  intro empty
  rw [trimmed, List.reverse_eq_nil_iff, List.dropWhile_eq_nil_iff] at empty
  have zeros : ∀ c ∈ wholeDigits number, c = '0' := by
    intro c member
    simpa using empty c (List.mem_reverse.mpr member)
  have value : Nat.ofDigitChars 10 (wholeDigits number) 0 = number := Nat.ofDigitChars_ten_toDigits
  rw [List.eq_replicate_of_mem zeros, Nat.ofDigitChars_replicate_zero, Nat.mul_zero] at value
  exact absurd value (Nat.ne_of_lt positive)

/-! ## The two notations -/

theorem isMantissa_positional {digits : List Char} (all : Digits digits) (places : Int) :
    IsMantissa (positional digits places) := by
  by_cases fractional : places ≤ 0
  · rw [positional, if_pos fractional]
    have whole : Digits ['0'] := digits_zeros 1
    exact .pointed whole (digits_append (digits_zeros _) all) (Or.inl (by simp))
  · rw [positional, if_neg fractional]
    dsimp only
    have taken : Digits (digits.take places.toNat) :=
      fun c member => all c (List.mem_of_mem_take member)
    by_cases ends : (digits.drop places.toNat).isEmpty = true
    · rw [if_pos ends]
      exact .pointed (digits_append taken (digits_zeros _)) (digits_zeros 1) (Or.inr (by simp))
    · rw [if_neg ends]
      refine .pointed (digits_append taken (digits_zeros _))
        (fun c member => all c (List.mem_of_mem_drop member)) (Or.inr ?_)
      simpa using ends

theorem isNumber_scientific {digits : List Char} (all : Digits digits) (nonempty : digits ≠ [])
    (width : Nat) (exponent : Int) : IsNumber (scientific width digits exponent) := by
  have first : Digits (digits.take 1) := fun c member => all c (List.mem_of_mem_take member)
  have power : Digits (List.replicate (width - (wholeDigits exponent.natAbs).length) '0' ++
      wholeDigits exponent.natAbs) :=
    digits_append (digits_zeros _) (digits_wholeDigits _)
  have powerNonempty : List.replicate (width - (wholeDigits exponent.natAbs).length) '0' ++
      wholeDigits exponent.natAbs ≠ [] := by
    simp [wholeDigits, Nat.toDigits_ne_nil]
  have isMantissa : IsMantissa
      (digits.take 1 ++ (if (digits.drop 1).isEmpty then [] else '.' :: digits.drop 1)) := by
    by_cases single : (digits.drop 1).isEmpty = true
    · rw [if_pos single, List.append_nil]
      exact .whole first (by simpa using nonempty)
    · rw [if_neg single]
      exact .pointed first (fun c member => all c (List.mem_of_mem_drop member))
        (Or.inl (by simpa using nonempty))
  have isExponent : IsExponent ('e' :: (if exponent < 0 then '-' else '+') ::
      (List.replicate (width - (wholeDigits exponent.natAbs).length) '0' ++
        wholeDigits exponent.natAbs)) := by
    by_cases negative : exponent < 0
    · rw [if_pos negative]
      exact .present (Or.inl rfl) .minus power powerNonempty
    · rw [if_neg negative]
      exact .present (Or.inl rfl) .plus power powerNonempty
  exact .decimal isMantissa isExponent

theorem isNumber_of_isMantissa {mantissa : List Char} (isMantissa : IsMantissa mantissa) :
    IsNumber mantissa := by
  simpa using IsNumber.decimal isMantissa .absent

/-- A decimal is written as a number if it is positive, or zero without an
exponent. -/
theorem isNumber_write {coefficient : Nat} {exponent : Int}
    (fine : 0 < coefficient ∨ coefficient = 0 ∧ exponent = 0) :
    IsNumber (Layout.literal.write coefficient exponent) := by
  have all := digits_trimmed (digits_wholeDigits coefficient)
  rcases fine with positive | ⟨rfl, rfl⟩
  · rw [Layout.write]
    split
    · exact isNumber_of_isMantissa (isMantissa_positional all _)
    · exact isNumber_scientific all (trimmed_wholeDigits_ne_nil positive) _ _
  · exact isNumber_of_isMantissa (isMantissa_positional all 1)

/-! ## Shortest decimals -/

namespace Shortest

theorem Neighbourhood.lower_pos {mantissa : Nat} (positive : 0 < mantissa) (exponent : Int) :
    0 < (neighbourhood mantissa exponent).lower := by
  unfold neighbourhood
  dsimp only
  split <;> omega

/-- Zero is not near a positive number. -/
theorem Neighbourhood.pos_of_holds {around : Neighbourhood} {k : Int} {c : Nat}
    (lowerPos : 0 < around.lower) (holds : around.holds k c = true) : 0 < c := by
  have scalePos : 0 < binaryScale around.unit k :=
    Nat.mul_pos (Nat.pow_pos (by decide)) (Nat.pow_pos (by decide))
  have lowPos := Nat.mul_pos lowerPos scalePos
  rcases Nat.eq_zero_or_pos c with rfl | positive
  · exfalso
    rw [Neighbourhood.holds] at holds
    split at holds
    · rw [Bool.and_eq_true, decide_eq_true_eq] at holds
      omega
    · rw [Bool.and_eq_true, decide_eq_true_eq] at holds
      omega
  · exact positive

/-- The shortest decimal of a positive number is positive; that none was found
would be written as zero. -/
theorem shortest_pos_or_default {mantissa : Nat} (positive : 0 < mantissa) (exponent : Int) :
    0 < (shortest mantissa exponent).1 ∨
      (shortest mantissa exponent).1 = 0 ∧ (shortest mantissa exponent).2 = 0 := by
  rw [shortest]
  generalize searched : List.findSome? _ _ = result
  cases result with
  | none => exact Or.inr ⟨rfl, rfl⟩
  | some found =>
      obtain ⟨length, _, chosen⟩ := List.exists_of_findSome?_eq_some searched
      rcases Option.map_eq_some_iff.mp chosen with ⟨c, nearest, rfl⟩
      exact Or.inl (Neighbourhood.pos_of_holds (Neighbourhood.lower_pos positive exponent)
        (Neighbourhood.holds_of_nearest? nearest))

end Shortest

/-! ## Texts of floats -/

theorem isNumber_magnitudeLiteral (mantissa : Nat) (exponent : Int) :
    IsNumber (magnitudeLiteral mantissa exponent) := by
  by_cases none : mantissa = 0
  · rw [magnitudeLiteral, if_pos none]
    exact isNumber_of_isMantissa (isMantissa_positional (digits_zeros 1) 1)
  · rw [magnitudeLiteral, if_neg none]
    exact isNumber_write (Shortest.shortest_pos_or_default (Nat.pos_of_ne_zero none) exponent)

theorem fits_signed {magnitude : List Char} (isNumber : IsNumber magnitude) (negative : Bool) :
    Kind.number.Fits (signed negative magnitude) := by
  refine ⟨magnitude, isNumber, ?_⟩
  cases negative with
  | false => exact Or.inl rfl
  | true => exact Or.inr rfl

theorem Binary64.fits_canonical (value : Binary64) : Kind.number.Fits value.canonical := by
  cases value with
  | nan => exact ⟨_, .word (by decide), Or.inl rfl⟩
  | infinity negative => exact fits_signed (.word (by decide)) negative
  | finite negative mantissa exponent =>
      rw [Binary64.canonical]
      cases whole? mantissa exponent with
      | some number =>
          refine fits_signed (isNumber_of_isMantissa (.whole (digits_wholeDigits number) ?_)) _
          exact Nat.toDigits_ne_nil
      | none => exact fits_signed (isNumber_magnitudeLiteral mantissa exponent) negative

/-- The canonical text of a float is a number. -/
theorem fits_canonical (value : Float) : Kind.number.Fits (canonical value).toList := by
  rw [canonical, String.toList_ofList]
  exact Binary64.fits_canonical _

end Fluxion.Decimal
