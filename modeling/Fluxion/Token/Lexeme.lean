import Fluxion.Text.Blank
import Fluxion.Text.DecimalDigit
import Fluxion.Token.Basic

/-!
# Lexemes

The pieces that a text is cut into. A word is a letter or underscore and then
letters, underscores and ASCII digits. A number is digits of any script with at
most one point and an optional exponent, or one of the words `inf` and `nan`.
Operators and parentheses are single characters. Every scanner takes the
longest piece it can and returns it with what remains.
-/

namespace Fluxion.Token

open Fluxion.Text

/-! ## Words -/

/-- A character that starts a word. -/
def isWordStart (c : Char) : Bool :=
  c.isAlpha || c == '_'

/-- A character that continues a word. -/
def isWordChar (c : Char) : Bool :=
  isWordStart c || c.isDigit

/-- The words that are numbers. -/
def numberWords : List (List Char) :=
  ["inf".toList, "nan".toList]

/-- The kind of a word: a number, the name of a function or a variable. -/
def wordKind (word : List Char) : Kind :=
  if numberWords.contains word then .number
  else if (Elementary.ofName? (String.ofList word)).isSome then .function
  else .identifier

/-- A text that is one word. -/
def isWord : List Char → Bool
  | [] => false
  | c :: rest => isWordStart c && rest.all isWordChar

/-- A name that a variable may have. -/
def isVariable (text : String) : Bool :=
  isWord text.toList && wordKind text.toList == .identifier

/-! ## Numbers -/

/-- The digits of a number before its exponent, with a point among them,
before them or behind them. -/
def scanMantissa (text : List Char) : List Char × List Char :=
  let whole := text.takeWhile isDigit
  match text.dropWhile isDigit with
  | '.' :: afterPoint =>
      let fraction := afterPoint.takeWhile isDigit
      if whole.isEmpty && fraction.isEmpty then ([], text)
      else (whole ++ '.' :: fraction, afterPoint.dropWhile isDigit)
  | rest => (whole, rest)

/-- The sign of an exponent. -/
def scanSign : List Char → List Char × List Char
  | '+' :: rest => (['+'], rest)
  | '-' :: rest => (['-'], rest)
  | text => ([], text)

/-- The exponent of a number, if one stands here in full. -/
def scanExponent : List Char → List Char × List Char
  | [] => ([], [])
  | mark :: afterMark =>
      let (sign, afterSign) := scanSign afterMark
      let digits := afterSign.takeWhile isDigit
      if (mark == 'e' || mark == 'E') && !digits.isEmpty then
        (mark :: (sign ++ digits), afterSign.dropWhile isDigit)
      else ([], mark :: afterMark)

/-- The number word at the start of a text, if the word ends there. -/
def scanNumberWord? (text : List Char) : Option (List Char × List Char) :=
  let word := text.takeWhile isWordChar
  if numberWords.contains word then some (word, text.dropWhile isWordChar) else none

/-- The number at the start of a text. -/
def scanNumber? (text : List Char) : Option (List Char × List Char) :=
  let (mantissa, afterMantissa) := scanMantissa text
  if mantissa.isEmpty then scanNumberWord? text
  else
    let (exponent, rest) := scanExponent afterMantissa
    some (mantissa ++ exponent, rest)

theorem scanMantissa_append (text : List Char) :
    (scanMantissa text).1 ++ (scanMantissa text).2 = text := by
  unfold scanMantissa
  have split := List.takeWhile_append_dropWhile (p := isDigit) (l := text)
  dsimp only
  split
  · next afterPoint found =>
    have splitFraction := List.takeWhile_append_dropWhile (p := isDigit) (l := afterPoint)
    rw [found] at split
    split
    · rfl
    · simpa [splitFraction] using split
  · exact split

theorem scanSign_append (text : List Char) : (scanSign text).1 ++ (scanSign text).2 = text := by
  unfold scanSign
  split <;> rfl

theorem scanExponent_append (text : List Char) :
    (scanExponent text).1 ++ (scanExponent text).2 = text := by
  cases text with
  | nil => rfl
  | cons mark afterMark =>
      have sign := scanSign_append afterMark
      have digits := List.takeWhile_append_dropWhile (p := isDigit) (l := (scanSign afterMark).2)
      dsimp only [scanExponent]
      split
      · simpa [digits] using sign
      · rfl

/-- A number and what remains make up the text, and the number is not empty. -/
theorem scanNumber?_append {text number rest : List Char}
    (found : scanNumber? text = some (number, rest)) :
    number ++ rest = text ∧ number ≠ [] := by
  have mantissa := scanMantissa_append text
  have exponent := scanExponent_append (scanMantissa text).2
  dsimp only [scanNumber?, scanNumberWord?] at found
  split at found
  · split at found
    · next isNumber =>
      cases found
      refine ⟨List.takeWhile_append_dropWhile, ?_⟩
      intro empty
      rw [empty] at isNumber
      simp [numberWords] at isNumber
    · cases found
  · next nonempty =>
    cases found
    refine ⟨by rw [List.append_assoc, exponent, mantissa], ?_⟩
    intro empty
    simp_all

/-! ## Any lexeme -/

/-- A piece cut from the start of a text. -/
structure Lexeme where
  kind : Kind
  text : List Char
  rest : List Char

/-- The kind of a character that starts neither a word nor a number. -/
def punctuationKind (c : Char) : Kind :=
  if (Operator.ofSymbol? c).isSome then .operator
  else if c == '(' then .openParen
  else if c == ')' then .closeParen
  else .stray

/-- A negative number: where an operand is expected, a minus sign right before
a number belongs to the number. -/
def scanNegative? (operandExpected : Bool) (c : Char) (tail : List Char) :
    Option (List Char × List Char) :=
  if operandExpected && c == '-' then
    (scanNumber? tail).map fun (number, rest) => (c :: number, rest)
  else none

/-- Cuts the lexeme that starts with the character `c`. -/
def scan (operandExpected : Bool) (c : Char) (tail : List Char) : Lexeme :=
  if isWordStart c then
    let word := c :: tail.takeWhile isWordChar
    ⟨wordKind word, word, tail.dropWhile isWordChar⟩
  else
    match (scanNumber? (c :: tail)).or (scanNegative? operandExpected c tail) with
    | some (number, rest) => ⟨.number, number, rest⟩
    | none => ⟨punctuationKind c, [c], tail⟩

/-- A lexeme and what remains make up the text, and the lexeme is not empty. -/
theorem scan_append (operandExpected : Bool) (c : Char) (tail : List Char) :
    let lexeme := scan operandExpected c tail
    lexeme.text ++ lexeme.rest = c :: tail ∧ lexeme.text ≠ [] := by
  dsimp only [scan]
  split
  · simp
  · split
    · next number rest found =>
      rcases Option.or_eq_some_iff.mp found with plain | ⟨_, negative⟩
      · exact scanNumber?_append plain
      · unfold scanNegative? at negative
        split at negative
        · obtain ⟨⟨digits, _⟩, scanned, same⟩ := Option.map_eq_some_iff.mp negative
          cases same
          exact ⟨by simp [(scanNumber?_append scanned).1], by simp⟩
        · cases negative
    · simp

theorem length_scan_rest_lt (operandExpected : Bool) (c : Char) (tail : List Char) :
    (scan operandExpected c tail).rest.length < (c :: tail).length := by
  obtain ⟨append, nonempty⟩ := scan_append operandExpected c tail
  have positive := List.length_pos_iff.mpr nonempty
  have lengths := congrArg List.length append
  rw [List.length_append] at lengths
  omega

end Fluxion.Token
