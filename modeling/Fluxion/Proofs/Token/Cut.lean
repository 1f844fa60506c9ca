import Fluxion.Proofs.Grammar.Depth
import Fluxion.Proofs.Token.Number

/-!
# Tokens fit their kinds

The text of every token that is cut from a source is one of those that its kind
is for, and its priority is the one of its kind. Raising tokens by the
parentheses around them keeps their kinds and texts.
-/

namespace Fluxion

open Fluxion.Token

namespace Token

/-- The texts that a kind is for. A number may be negative. -/
def Kind.Fits : Kind → List Char → Prop
  | .operator, text => (Operator.ofText? (String.ofList text)).isSome = true
  | .number, text => ∃ number, IsNumber number ∧ (text = number ∨ text = '-' :: number)
  | .identifier, text => isVariable (String.ofList text) = true
  | .function, text => (Elementary.ofName? (String.ofList text)).isSome = true
  | .openParen, text => text = ['(']
  | .closeParen, text => text = [')']
  | .stray, text => ∃ c, text = [c]

theorem fits_variable {name : String} (isName : isVariable name = true) :
    Kind.identifier.Fits name.toList := by
  rwa [Kind.Fits, String.ofList_toList]

theorem fits_operator (operator : Operator) : Kind.operator.Fits operator.text.toList := by
  rw [Kind.Fits, String.ofList_toList, Operator.ofText?_text]
  rfl

theorem fits_function (function : Elementary) : Kind.function.Fits function.name.toList := by
  rw [Kind.Fits, String.ofList_toList, Elementary.ofName?_name]
  rfl

theorem fits_word {c : Char} {later : List Char} (start : isWordStart c = true)
    (all : later.all isWordChar = true) : (wordKind (c :: later)).Fits (c :: later) := by
  by_cases isNumber : numberWords.contains (c :: later) = true
  · rw [wordKind, if_pos isNumber]
    exact ⟨c :: later, .word (List.contains_iff_mem.mp isNumber), Or.inl rfl⟩
  · by_cases isFunction : (Elementary.ofName? (String.ofList (c :: later))).isSome = true
    · rw [wordKind, if_neg isNumber, if_pos isFunction]
      exact isFunction
    · have kind : wordKind (c :: later) = .identifier := by
        rw [wordKind, if_neg isNumber, if_neg isFunction]
      rw [kind]
      simp [Kind.Fits, isVariable, isWord, start, all, kind]

theorem fits_punctuation (c : Char) : (punctuationKind c).Fits [c] := by
  by_cases isOperator : (Operator.ofSymbol? c).isSome = true
  · rw [punctuationKind, if_pos isOperator]
    simpa [Kind.Fits, Operator.ofText?] using isOperator
  · rw [punctuationKind, if_neg isOperator]
    by_cases opens : (c == '(') = true
    · rw [if_pos opens]
      rw [eq_of_beq opens]
      rfl
    · rw [if_neg opens]
      by_cases closes : (c == ')') = true
      · rw [if_pos closes, eq_of_beq closes]
        rfl
      · rw [if_neg closes]
        exact ⟨c, rfl⟩

theorem scanNegative?_eq_some_iff {operandExpected : Bool} {c : Char}
    {tail text rest : List Char} :
    scanNegative? operandExpected c tail = some (text, rest) ↔
      operandExpected = true ∧ c = '-' ∧
        ∃ number, scanNumber? tail = some (number, rest) ∧ text = '-' :: number := by
  rw [scanNegative?]
  by_cases sign : (operandExpected && c == '-') = true
  · rw [if_pos sign]
    rw [Bool.and_eq_true, beq_iff_eq] at sign
    rcases sign with ⟨rfl, rfl⟩
    rw [Option.map_eq_some_iff]
    constructor
    · rintro ⟨⟨number, _⟩, scanned, same⟩
      cases same
      exact ⟨rfl, rfl, number, scanned, rfl⟩
    · rintro ⟨_, _, number, scanned, rfl⟩
      exact ⟨(number, rest), scanned, rfl⟩
  · rw [if_neg sign]
    rw [Bool.and_eq_true, beq_iff_eq] at sign
    simp only [reduceCtorEq, false_iff]
    rintro ⟨expected, isMinus, _⟩
    exact sign ⟨expected, isMinus⟩

theorem isNumber_of_scanNegative? {operandExpected : Bool} {c : Char}
    {tail text rest : List Char}
    (found : scanNegative? operandExpected c tail = some (text, rest)) :
    ∃ number, IsNumber number ∧ text = '-' :: number := by
  obtain ⟨_, _, number, scanned, same⟩ := scanNegative?_eq_some_iff.mp found
  exact ⟨number, isNumber_of_scanNumber? scanned, same⟩

/-- What is cut fits its kind. -/
theorem fits_scan (operandExpected : Bool) (c : Char) (tail : List Char) :
    (scan operandExpected c tail).kind.Fits (scan operandExpected c tail).text := by
  by_cases start : isWordStart c = true
  · rw [scan, if_pos start]
    exact fits_word start List.all_takeWhile
  · rw [scan, if_neg start]
    split
    · next number rest found =>
      rcases Option.or_eq_some_iff.mp found with plain | ⟨_, negative⟩
      · exact ⟨number, isNumber_of_scanNumber? plain, Or.inl rfl⟩
      · rcases isNumber_of_scanNegative? negative with ⟨digits, isNumber, same⟩
        exact ⟨digits, isNumber, Or.inr same⟩
    · exact fits_punctuation c

/-- The kind and the text of a token, without its place. -/
def spelled (token : Token) : Kind × String :=
  (token.kind, token.text)

/-- A token as it is cut from a source. -/
structure WellCut (token : Token) : Prop where
  kind_ne_stray : token.kind ≠ .stray
  fits : token.kind.Fits token.text.toList
  base : token.priority = basePriority token.kind token.text

end Token

namespace Lexed

theorem wellCut_ofText (operandExpected : Bool) (column : Nat) (text : List Char) :
    ∀ token ∈ (ofText operandExpected column text).tokens, WellCut token := by
  induction operandExpected, column, text using ofText.induct with
  | case1 => simp [ofText]
  | case2 operandExpected column c tail blank ih =>
      rw [ofText, if_pos blank]
      exact ih
  | case3 operandExpected column c tail solid lexeme isStray =>
      rw [ofText, if_neg solid, if_pos isStray]
      simp
  | case4 operandExpected column c tail solid lexeme kept ih =>
      rw [ofText, if_neg solid, if_neg kept]
      intro other member
      rcases List.mem_cons.mp member with rfl | member
      · refine ⟨kept, ?_, rfl⟩
        rw [String.toList_ofList]
        exact fits_scan operandExpected c tail
      · exact ih other member

theorem prioritized_eq_ok_iff {lexed : Lexed} {tokens : List Token} :
    lexed.prioritized = .ok tokens ↔ lexed.stray = none ∧ raised 0 lexed.tokens = tokens := by
  rcases lexed with ⟨cut, _ | stray⟩
  · simp [prioritized]
  · simp [prioritized]

/-- Raising keeps everything but the priority. -/
theorem mem_raised {depth : Int} {tokens : List Token} {token : Token}
    (member : token ∈ raised depth tokens) :
    ∃ original ∈ tokens, token.kind = original.kind ∧ token.text = original.text := by
  induction tokens generalizing depth with
  | nil => cases member
  | cons first rest ih =>
      rw [raised] at member
      rcases List.mem_cons.mp member with rfl | member
      · exact ⟨first, by simp, rfl, rfl⟩
      · rcases ih member with ⟨original, inRest, same⟩
        exact ⟨original, List.mem_cons_of_mem _ inRest, same⟩

/-- The tokens of a source fit their kinds wherever they stand. -/
theorem fits_of_prioritized {source : String} {tokens : List Token}
    (lexes : (ofSource source).prioritized = .ok tokens) :
    ∀ token ∈ tokens, token.kind.Fits token.text.toList := by
  intro token member
  rw [← (prioritized_eq_ok_iff.mp lexes).2] at member
  obtain ⟨original, inSource, sameKind, sameText⟩ := mem_raised member
  rw [sameKind, sameText]
  exact (wellCut_ofText true 1 source.toList original inSource).fits

/-- The tokens of a source that can be cut are no stray characters. -/
theorem kind_ne_stray_of_prioritized {source : String} {tokens : List Token}
    (lexes : (ofSource source).prioritized = .ok tokens) :
    ∀ token ∈ tokens, token.kind ≠ .stray := by
  intro token member
  rw [← (prioritized_eq_ok_iff.mp lexes).2] at member
  obtain ⟨original, inSource, sameKind, _⟩ := mem_raised member
  rw [sameKind]
  exact (wellCut_ofText true 1 source.toList original inSource).kind_ne_stray

/-- Raising keeps the spelling. -/
theorem map_spelled_raised (depth : Int) (tokens : List Token) :
    (raised depth tokens).map Token.spelled = tokens.map Token.spelled := by
  induction tokens generalizing depth with
  | nil => rfl
  | cons token tokens ih =>
      rw [raised, List.map_cons, List.map_cons, ih]
      rfl

/-- Tokens that were cut from a source are ranked. -/
theorem ranked_of_prioritized {source : String} {tokens : List Token}
    (lexes : (ofSource source).prioritized = .ok tokens) :
    ∃ final, Ranked 0 tokens final := by
  rw [← (prioritized_eq_ok_iff.mp lexes).2]
  exact Ranked.of_raised 0 fun token member =>
    (wellCut_ofText true 1 source.toList token member).base

end Lexed

end Fluxion
