import Fluxion.Proofs.Token.Spelling

/-!
# Where tokens stand and where none starts

Every token that is cut from a source is the slice of the source at its column,
and so is the stray character that ends the cutting. The cutting ends this way
exactly if, behind the tokens and blanks before it, a character is reached that
starts no token. What comes before such a character only matters for a point,
which may belong to a number: any other character that no token can hold is
found wherever it stands.
-/

namespace Fluxion

open Fluxion.Token

/-! ## Slices of a source -/

/-- The text of a token is not empty, and it is the slice of the source at the column of the
token, counted from 1. -/
def Token.StandsIn (source : String) (token : Token) : Prop :=
  token.text ≠ "" ∧ ∃ before after : List Char,
    source.toList = before ++ (token.text.toList ++ after) ∧ token.column = before.length + 1

namespace Lexed

/-- The tokens and the stray character. -/
def pieces (lexed : Lexed) : List Token :=
  lexed.tokens ++ lexed.stray.toList

/-- What is cut from a text that starts at a column stands in the text. -/
theorem exists_slice_ofText (operandExpected : Bool) (column : Nat) (text : List Char) :
    ∀ token ∈ (ofText operandExpected column text).pieces, token.text.toList ≠ [] ∧
      ∃ before after, text = before ++ (token.text.toList ++ after) ∧
        token.column = column + before.length := by
  induction operandExpected, column, text using ofText.induct with
  | case1 => simp [ofText, pieces]
  | case2 operandExpected column c tail blank ih =>
      rw [ofText, if_pos blank]
      intro token member
      obtain ⟨nonempty, before, after, split, place⟩ := ih token member
      refine ⟨nonempty, c :: before, after, by rw [split, List.cons_append], ?_⟩
      rw [place, List.length_cons]
      omega
  | case3 operandExpected column c tail solid lexeme isStray =>
      obtain ⟨split, nonempty⟩ := scan_append operandExpected c tail
      rw [ofText, if_neg solid, if_pos isStray]
      intro token member
      rw [pieces, List.nil_append, Option.toList_some, List.mem_singleton] at member
      subst member
      rw [String.toList_ofList]
      exact ⟨nonempty, [], _, split.symm, by simp⟩
  | case4 operandExpected column c tail solid lexeme kept ih =>
      obtain ⟨split, nonempty⟩ := scan_append operandExpected c tail
      rw [ofText, if_neg solid, if_neg kept]
      intro token member
      rw [pieces, List.cons_append] at member
      rcases List.mem_cons.mp member with rfl | member
      · rw [String.toList_ofList]
        exact ⟨nonempty, [], _, split.symm, by simp⟩
      · obtain ⟨nonempty, before, after, splitRest, place⟩ := ih token member
        refine ⟨nonempty, lexeme.text ++ before, after, ?_, ?_⟩
        · rw [List.append_assoc, ← splitRest]
          exact split.symm
        · rw [place, List.length_append]
          omega

theorem standsIn_ofSource {source : String} {token : Token}
    (member : token ∈ (ofSource source).pieces) : token.StandsIn source := by
  obtain ⟨nonempty, before, after, split, place⟩ :=
    exists_slice_ofText true 1 source.toList token member
  refine ⟨?_, before, after, split, ?_⟩
  · intro empty
    rw [empty] at nonempty
    exact nonempty rfl
  · rw [place]
    omega

theorem standsIn_raised {source : String} {depth : Int} {tokens : List Token} {token : Token}
    (member : token ∈ raised depth tokens) (stand : ∀ other ∈ tokens, other.StandsIn source) :
    token.StandsIn source := by
  induction tokens generalizing depth with
  | nil => cases member
  | cons first rest ih =>
      rw [raised] at member
      rcases List.mem_cons.mp member with rfl | member
      · exact stand first (by simp)
      · exact ih member fun other inRest => stand other (List.mem_cons_of_mem _ inRest)

/-- The tokens of a source stand in it. -/
theorem standsIn_of_prioritized {source : String} {tokens : List Token}
    (lexes : (ofSource source).prioritized = .ok tokens) :
    ∀ token ∈ tokens, token.StandsIn source := by
  intro token member
  rw [← (prioritized_eq_ok_iff.mp lexes).2] at member
  refine standsIn_raised member ?_
  intro other inSource
  exact standsIn_ofSource (List.mem_append_left _ inSource)

theorem prioritized_eq_error_iff {lexed : Lexed} {stray : Token} :
    lexed.prioritized = .error stray ↔ lexed.stray = some stray := by
  rcases lexed with ⟨cut, _ | found⟩
  · simp [prioritized]
  · simp [prioritized]

theorem standsIn_of_stray {source : String} {stray : Token}
    (lexes : (ofSource source).prioritized = .error stray) : stray.StandsIn source := by
  refine standsIn_ofSource (List.mem_append_right _ ?_)
  rw [prioritized_eq_error_iff.mp lexes]
  exact List.mem_singleton_self stray

end Lexed

/-! ## Characters that start no token -/

/-- A character that starts no token, with what stands behind it. -/
structure StartsNothing (c : Char) (tail : List Char) : Prop where
  solid : Text.isBlank c = false
  noWord : isWordStart c = false
  noDigit : Text.isDigit c = false
  noOperator : Operator.ofSymbol? c = none
  noParen : c ≠ '(' ∧ c ≠ ')'
  noPoint : c = '.' → ∀ d later, tail = d :: later → Text.isDigit d = false

theorem punctuationKind_eq_stray_iff {c : Char} :
    punctuationKind c = .stray ↔ Operator.ofSymbol? c = none ∧ c ≠ '(' ∧ c ≠ ')' := by
  rw [punctuationKind]
  cases Operator.ofSymbol? c with
  | some operator => simp
  | none =>
      by_cases opens : c = '('
      · simp [opens]
      · by_cases closes : c = ')' <;> simp [opens, closes]

/-- A character that starts a number makes the mantissa of the number not empty. -/
theorem scanMantissa_eq_nil_iff {c : Char} {tail : List Char} :
    (scanMantissa (c :: tail)).1 = [] ↔ Text.isDigit c = false ∧
      (c = '.' → ∀ d later, tail = d :: later → Text.isDigit d = false) := by
  by_cases digit : Text.isDigit c = true
  · simp only [digit, Bool.true_eq_false, false_and, iff_false]
    by_cases point : ∃ afterPoint, (c :: tail).dropWhile Text.isDigit = '.' :: afterPoint
    · rcases point with ⟨afterPoint, found⟩
      rw [scanMantissa_of_point found (Or.inl (by simp [digit]))]
      simp
    · rw [not_exists] at point
      rw [scanMantissa_of_no_point point]
      simp [digit]
  · rw [Bool.not_eq_true] at digit
    by_cases point : c = '.'
    · subst point
      cases tail with
      | nil => simp [scanMantissa, digit]
      | cons d later =>
          cases isDigit : Text.isDigit d <;> simp [scanMantissa, digit, isDigit]
    · rw [scanMantissa_of_no_point]
      · simp [digit, point]
      · simp [digit, point]

/-- A lexeme is stray exactly if its first character starts no token. -/
theorem scan_kind_eq_stray_iff {c : Char} (solid : Text.isBlank c = false)
    (operandExpected : Bool) (tail : List Char) :
    (scan operandExpected c tail).kind = .stray ↔ StartsNothing c tail := by
  by_cases start : isWordStart c = true
  · rw [scan, if_pos start]
    constructor
    · exact fun isStray => absurd isStray (wordKind_ne_stray _)
    · intro nothing
      rw [nothing.noWord] at start
      cases start
  · rw [scan, if_neg start]
    rw [Bool.not_eq_true] at start
    constructor
    · intro isStray
      split at isStray
      · cases isStray
      · next absent =>
        obtain ⟨noOperator, noParen⟩ := punctuationKind_eq_stray_iff.mp isStray
        have noMantissa : (scanMantissa (c :: tail)).1 = [] := by
          by_contra mantissa
          simp [scanNumber?, mantissa] at absent
        obtain ⟨noDigit, noPoint⟩ := scanMantissa_eq_nil_iff.mp noMantissa
        exact ⟨solid, start, noDigit, noOperator, noParen, noPoint⟩
    · intro nothing
      have noMantissa : (scanMantissa (c :: tail)).1 = [] :=
        scanMantissa_eq_nil_iff.mpr ⟨nothing.noDigit, nothing.noPoint⟩
      have noWord := isWordChar_of_not_digit nothing.noWord nothing.noDigit
      have noNumber : scanNumber? (c :: tail) = none := by
        simp [scanNumber?, noMantissa, scanNumberWord?, noWord, numberWords]
      have noSign : scanNegative? operandExpected c tail = none := by
        have noMinus : c ≠ '-' := by
          rintro rfl
          exact absurd nothing.noOperator (by decide)
        simp [scanNegative?, noMinus]
      rw [noNumber, noSign]
      exact punctuationKind_eq_stray_iff.mpr ⟨nothing.noOperator, nothing.noParen⟩

/-! ## Stray characters of a source -/

/-- Behind whole tokens and blanks, the cutting of a text comes to a remainder before which an
operand is expected or not. -/
inductive CutsTo : Bool → List Char → Bool → List Char → Prop
  | here {operandExpected : Bool} {text : List Char} :
      CutsTo operandExpected text operandExpected text
  | blank {operandExpected expected : Bool} {c : Char} {tail rest : List Char} :
      Text.isBlank c = true → CutsTo operandExpected tail expected rest →
      CutsTo operandExpected (c :: tail) expected rest
  | lexeme {operandExpected expected : Bool} {c : Char} {tail rest : List Char} :
      Text.isBlank c = false → ¬StartsNothing c tail →
      CutsTo (scan operandExpected c tail).kind.expectsOperand
        (scan operandExpected c tail).rest expected rest →
      CutsTo operandExpected (c :: tail) expected rest

/-- Somewhere behind whole tokens and blanks stands a character that starts no token. -/
def HoldsStray (operandExpected : Bool) (text : List Char) : Prop :=
  ∃ expected c tail, CutsTo operandExpected text expected (c :: tail) ∧ StartsNothing c tail

namespace Lexed

theorem isSome_stray_ofText_iff (operandExpected : Bool) (column : Nat) (text : List Char) :
    (ofText operandExpected column text).stray.isSome = true ↔
      HoldsStray operandExpected text := by
  induction operandExpected, column, text using ofText.induct with
  | case1 operandExpected column =>
      simp only [ofText, Option.isSome_none, Bool.false_eq_true, false_iff]
      rintro ⟨expected, c, tail, cuts, _⟩
      cases cuts
  | case2 operandExpected column c tail blank ih =>
      rw [ofText, if_pos blank, ih]
      constructor
      · rintro ⟨expected, d, rest, cuts, nothing⟩
        exact ⟨expected, d, rest, .blank blank cuts, nothing⟩
      · rintro ⟨expected, d, rest, cuts, nothing⟩
        cases cuts with
        | here =>
            rw [nothing.solid] at blank
            cases blank
        | blank _ cuts => exact ⟨expected, d, rest, cuts, nothing⟩
        | lexeme solid _ _ =>
            rw [solid] at blank
            cases blank
  | case3 operandExpected column c tail solid lexeme isStray =>
      rw [ofText, if_neg solid, if_pos isStray]
      rw [Bool.not_eq_true] at solid
      have nothing := (scan_kind_eq_stray_iff solid operandExpected tail).mp isStray
      simp only [Option.isSome_some, true_iff]
      exact ⟨operandExpected, c, tail, .here, nothing⟩
  | case4 operandExpected column c tail solid lexeme kept ih =>
      rw [ofText, if_neg solid, if_neg kept]
      rw [Bool.not_eq_true] at solid
      have starts : ¬StartsNothing c tail := fun nothing =>
        kept ((scan_kind_eq_stray_iff solid operandExpected tail).mpr nothing)
      dsimp only
      rw [ih]
      constructor
      · rintro ⟨expected, d, rest, cuts, nothing⟩
        exact ⟨expected, d, rest, .lexeme solid starts cuts, nothing⟩
      · rintro ⟨expected, d, rest, cuts, nothing⟩
        cases cuts with
        | here => exact absurd nothing starts
        | blank blank _ =>
            rw [solid] at blank
            cases blank
        | lexeme _ _ cuts => exact ⟨expected, d, rest, cuts, nothing⟩

/-- The cutting of a source fails exactly if the source holds a character that starts no
token. -/
theorem exists_prioritized_eq_error_iff {source : String} :
    (∃ stray, (ofSource source).prioritized = .error stray) ↔ HoldsStray true source.toList := by
  rw [← isSome_stray_ofText_iff true 1, Option.isSome_iff_exists]
  simp only [prioritized_eq_error_iff, ofSource]

end Lexed

/-! ## Characters that tokens hold -/

theorem not_separates_of_isWord {word : List Char} (wordShaped : isWord word = true) :
    ∀ c ∈ word, ¬Separates c := by
  intro c member separates
  have noWord := separates.1
  cases word with
  | nil => cases member
  | cons first later =>
      rw [isWord, Bool.and_eq_true, List.all_eq_true] at wordShaped
      rcases List.mem_cons.mp member with rfl | member
      · rw [isWordChar, wordShaped.1] at noWord
        cases noWord
      · rw [wordShaped.2 c member] at noWord
        cases noWord

theorem isSome_ofSymbol?_of_isNumber {number : List Char} (isNumber : IsNumber number) :
    ∀ c ∈ number, Separates c → (Operator.ofSymbol? c).isSome = true := by
  have marks : Decimal.numberMarks.all (fun c =>
      isWordChar c || (c == '.' || (Operator.ofSymbol? c).isSome)) = true := by
    decide
  intro c member separates
  rcases Decimal.digit_or_mark isNumber c member with digit | mark
  · rw [separates.2.1] at digit
    cases digit
  · have held := List.all_eq_true.mp marks c mark
    simpa [separates.1, separates.2.2] using held

/-- In what fits its kind, a character that is part of no word and of no mantissa is an operator,
which may be a sign, or it is the parenthesis that the kind is for. -/
theorem punctuation_of_fits {kind : Kind} {text : List Char} (fits : kind.Fits text)
    (kept : kind ≠ .stray) : ∀ c ∈ text, Separates c →
      (Operator.ofSymbol? c).isSome = true ∨ (kind = .openParen ∧ c = '(') ∨
        (kind = .closeParen ∧ c = ')') := by
  intro c member separates
  cases kind with
  | operator =>
      simp only [Kind.Fits, Operator.ofText?, String.toList_ofList] at fits
      split at fits
      · rw [List.mem_singleton] at member
        subst member
        exact Or.inl fits
      · cases fits
  | number =>
      rcases fits with ⟨number, isNumber, rfl | rfl⟩
      · exact Or.inl (isSome_ofSymbol?_of_isNumber isNumber c member separates)
      · rcases List.mem_cons.mp member with rfl | member
        · exact Or.inl rfl
        · exact Or.inl (isSome_ofSymbol?_of_isNumber isNumber c member separates)
  | identifier =>
      rw [Kind.Fits, isVariable, Bool.and_eq_true, String.toList_ofList] at fits
      exact absurd separates (not_separates_of_isWord fits.1 c member)
  | function =>
      obtain ⟨function, named⟩ := Option.isSome_iff_exists.mp fits
      have wordShaped := isWord_name function
      rw [Elementary.name_of_ofName? named, String.toList_ofList] at wordShaped
      exact absurd separates (not_separates_of_isWord wordShaped c member)
  | openParen =>
      rw [fits, List.mem_singleton] at member
      exact Or.inr (Or.inl ⟨rfl, member⟩)
  | closeParen =>
      rw [fits, List.mem_singleton] at member
      exact Or.inr (Or.inr ⟨rfl, member⟩)
  | stray => exact absurd rfl kept

/-- A character that is neither blank nor part of any token. -/
structure Foreign (c : Char) : Prop where
  solid : Text.isBlank c = false
  separates : Separates c
  noOperator : Operator.ofSymbol? c = none
  noParen : c ≠ '(' ∧ c ≠ ')'

/-- What fits its kind holds no foreign character, unless it is stray. -/
theorem not_foreign_of_fits {kind : Kind} {text : List Char} (fits : kind.Fits text)
    (kept : kind ≠ .stray) : ∀ c ∈ text, ¬Foreign c := by
  intro c member foreign
  rcases punctuation_of_fits fits kept c member foreign.separates with
    isOperator | ⟨_, opens⟩ | ⟨_, closes⟩
  · rw [foreign.noOperator] at isOperator
    cases isOperator
  · exact foreign.noParen.1 opens
  · exact foreign.noParen.2 closes

/-- A foreign character is found wherever it stands. -/
theorem holdsStray_of_foreign {c : Char} (foreign : Foreign c) (operandExpected : Bool)
    (column : Nat) (text : List Char) (member : c ∈ text) : HoldsStray operandExpected text := by
  rw [← Lexed.isSome_stray_ofText_iff operandExpected column]
  induction operandExpected, column, text using Lexed.ofText.induct with
  | case1 => cases member
  | case2 operandExpected column d tail blank ih =>
      rw [Lexed.ofText, if_pos blank]
      rcases List.mem_cons.mp member with rfl | member
      · rw [foreign.solid] at blank
        cases blank
      · exact ih member
  | case3 operandExpected column d tail solid lexeme isStray =>
      rw [Lexed.ofText, if_neg solid, if_pos isStray]
      rfl
  | case4 operandExpected column d tail solid lexeme kept ih =>
      rw [Lexed.ofText, if_neg solid, if_neg kept]
      have clean := not_foreign_of_fits (fits_scan operandExpected d tail) kept
      rw [← (scan_append operandExpected d tail).1] at member
      rcases List.mem_append.mp member with inside | member
      · exact absurd foreign (clean c inside)
      · exact ih member

end Fluxion
