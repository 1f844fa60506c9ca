import Fluxion.Proofs.Decimal.Reading
import Fluxion.Proofs.Token.Cut

/-!
# How a text is cut

Where a token is cut off depends on what remains behind it, and what a minus sign
is depends on the token before it. `Cuts` states both together: from where an
operand is expected or not, a text is cut into tokens of the given kinds and
texts, up to a remainder before which an operand is expected or not. Such pieces
compose.
-/

namespace Fluxion

open Fluxion.Token

/-- From any column, a text is cut into tokens with these kinds and texts, and
then its remainder is cut. -/
def Cuts (expected : Bool) (text : List Char) (spelling : List (Kind × String))
    (expected' : Bool) (rest : List Char) : Prop :=
  ∀ column, ∃ tokens column', tokens.map Token.spelled = spelling ∧
    Lexed.ofText expected column text =
      ⟨tokens ++ (Lexed.ofText expected' column' rest).tokens,
        (Lexed.ofText expected' column' rest).stray⟩

namespace Cuts

variable {expected expected' expected'' : Bool} {text middle rest : List Char}
variable {first second : List (Kind × String)}

theorem append (before : Cuts expected text first expected' middle)
    (after : Cuts expected' middle second expected'' rest) :
    Cuts expected text (first ++ second) expected'' rest := by
  intro column
  obtain ⟨tokens, column', spelled, cut⟩ := before column
  obtain ⟨tokens', column'', spelled', cut'⟩ := after column'
  refine ⟨tokens ++ tokens', column'', ?_, ?_⟩
  · rw [List.map_append, spelled, spelled']
  · rw [cut, cut', List.append_assoc]

theorem blank {c : Char} (isBlank : Text.isBlank c = true)
    (after : Cuts expected text first expected' rest) :
    Cuts expected (c :: text) first expected' rest := by
  intro column
  obtain ⟨tokens, column', spelled, cut⟩ := after (column + 1)
  refine ⟨tokens, column', spelled, ?_⟩
  rw [Lexed.ofText, if_pos isBlank, cut]

theorem lexeme {c : Char} {tail word : List Char} {kind : Kind}
    (solid : Text.isBlank c = false) (scanned : scan expected c tail = ⟨kind, word, rest⟩)
    (kept : kind ≠ .stray) :
    Cuts expected (c :: tail) [(kind, String.ofList word)] kind.expectsOperand rest := by
  intro column
  refine ⟨[⟨kind, String.ofList word, column, basePriority kind (String.ofList word)⟩],
    column + word.length, rfl, ?_⟩
  rw [Lexed.ofText, if_neg (by simp [solid])]
  dsimp only
  rw [scanned, if_neg kept]
  rfl

end Cuts

/-- A source that is cut to its end has tokens of these kinds and texts, and no stray
character. -/
theorem Lexed.exists_ofSource_of_cuts {source : String} {spelling : List (Kind × String)}
    {expected : Bool} (cuts : Cuts true source.toList spelling expected []) :
    ∃ tokens, ofSource source = ⟨tokens, none⟩ ∧ tokens.map Token.spelled = spelling := by
  obtain ⟨tokens, column, spelled, cut⟩ := cuts 1
  refine ⟨tokens, ?_, spelled⟩
  rw [ofSource, cut, ofText, List.append_nil]

/-! ## Words -/

theorem bounds_of_isWordStart {c : Char} (start : isWordStart c = true) :
    65 ≤ c.toNat ∧ c.toNat ≤ 122 := by
  have cases : isWordStart c = (c.isUpper || c.isLower || c == '_') := rfl
  rw [cases, Bool.or_eq_true, Bool.or_eq_true, beq_iff_eq] at start
  rcases start with (upper | lower) | rfl
  · have range : 65 ≤ c.toNat ∧ c.toNat ≤ 90 := of_decide_eq_true upper
    omega
  · rcases (Bool.and_eq_true _ _).mp lower with ⟨least, most⟩
    have above : 97 ≤ c.toNat := of_decide_eq_true least
    have below : c.toNat ≤ 122 := of_decide_eq_true most
    omega
  · decide

theorem isBlank_of_isWordStart {c : Char} (start : isWordStart c = true) :
    Text.isBlank c = false := by
  have apart : ∀ range ∈ Text.blankRanges, range.2 < 65 ∨ 122 < range.1 := by
    decide
  have bounds := bounds_of_isWordStart start
  rw [Text.isBlank, List.any_eq_false]
  intro range inRanges
  rcases apart range inRanges with below | above <;> simp <;> omega

theorem isDigit_of_isWordStart {c : Char} (start : isWordStart c = true) :
    Text.isDigit c = false := by
  have apart : ∀ first ∈ Text.digitZeros, first + 10 ≤ 65 ∨ 122 < first := by
    decide
  have bounds := bounds_of_isWordStart start
  rw [← Bool.not_eq_true]
  intro digit
  obtain ⟨first, member, atLeast, below⟩ := Decimal.exists_start_of_isDigit digit
  rcases apart first member with before | behind <;> omega

theorem isWordChar_of_not_digit {c : Char} (noWord : isWordStart c = false)
    (noDigit : Text.isDigit c = false) : isWordChar c = false := by
  rw [isWordChar, noWord, Bool.false_or, ← Bool.not_eq_true]
  intro ascii
  simp [Text.isDigit, Text.digitValue?_of_isDigit ascii] at noDigit

theorem wordKind_ne_stray (word : List Char) : wordKind word ≠ .stray := by
  rw [wordKind]
  split
  · decide
  · split <;> decide

theorem scan_word {expected : Bool} {c : Char} {later rest : List Char}
    (start : isWordStart c = true) (all : later.all isWordChar = true) (ends : Ends rest) :
    scan expected c (later ++ rest) = ⟨wordKind (c :: later), c :: later, rest⟩ := by
  have split := takeWhile_word_append (List.all_eq_true.mp all) ends
  rw [scan, if_pos start, split.1, split.2]

theorem isWord_name (function : Elementary) : isWord function.name.toList = true := by
  cases function <;> decide

theorem wordKind_name (function : Elementary) : wordKind function.name.toList = .function := by
  cases function <;> decide

/-- A word is cut whole where it ends. -/
theorem cuts_word (expected : Bool) {word rest : List Char} (wordShaped : isWord word = true)
    (ends : Ends rest) :
    Cuts expected (word ++ rest) [(wordKind word, String.ofList word)]
      (wordKind word).expectsOperand rest := by
  cases word with
  | nil => cases wordShaped
  | cons c later =>
      rw [isWord, Bool.and_eq_true] at wordShaped
      exact Cuts.lexeme (isBlank_of_isWordStart wordShaped.1)
        (scan_word wordShaped.1 wordShaped.2 ends) (wordKind_ne_stray _)

/-! ## Numbers -/

theorem scanNumber?_eq_none {c : Char} (separates : Separates c) (tail : List Char) :
    scanNumber? (c :: tail) = none := by
  rcases separates with ⟨noWord, noDigit, noPoint⟩
  have noMantissa : (scanMantissa (c :: tail)).1 = [] := by
    rw [scanMantissa_of_no_point]
    · simp [noDigit]
    · intro afterPoint same
      simp only [List.dropWhile_cons, noDigit] at same
      cases same
      exact noPoint rfl
  have notWord : ¬numberWords.contains ([] : List Char) = true := by
    decide
  rw [scanNumber?]
  dsimp only
  rw [noMantissa, scanNumberWord?]
  simp [noWord, numberWords]

/-- Where a text ends, no number starts. -/
theorem scanNumber?_of_ends {rest : List Char} (ends : Ends rest) : scanNumber? rest = none := by
  cases rest with
  | nil => rfl
  | cons c later => exact scanNumber?_eq_none (ends c later rfl) later

theorem scan_number {expected : Bool} {c : Char} {later rest : List Char}
    (isNumber : IsNumber (c :: later)) (ends : Ends rest) :
    scan expected c (later ++ rest) = ⟨.number, c :: later, rest⟩ := by
  rcases isNumber.head with member | start
  · have word : isWord (c :: later) = true ∧ wordKind (c :: later) = .number := by
      revert member
      generalize c :: later = word
      revert word
      decide
    rw [isWord, Bool.and_eq_true] at word
    rw [scan_word word.1.1 word.1.2 ends, word.2]
  · have noStart : ¬isWordStart c = true := by
      intro start'
      rcases start with digit | rfl
      · rw [isDigit_of_isWordStart start'] at digit
        cases digit
      · exact absurd start' (by decide)
    have scanned := scanNumber?_append_of_isNumber isNumber ends
    rw [List.cons_append] at scanned
    rw [scan, if_neg noStart, scanned]
    rfl

theorem scan_negative {number rest : List Char} (isNumber : IsNumber number)
    (ends : Ends rest) : scan true '-' (number ++ rest) = ⟨.number, '-' :: number, rest⟩ := by
  rw [scan, if_neg (by decide), scanNumber?_eq_none (by decide), scanNegative?, if_pos (by decide),
    scanNumber?_append_of_isNumber isNumber ends]
  rfl

theorem isBlank_of_isNumber {c : Char} {later : List Char} (isNumber : IsNumber (c :: later)) :
    Text.isBlank c = false := by
  rcases isNumber.head with member | digit | rfl
  · simp only [numberWords, List.mem_cons, List.not_mem_nil, or_false] at member
    rcases member with same | same <;> cases same <;> decide
  · exact Decimal.isBlank_of_isDigit digit
  · decide

/-- Where an operand is expected, a number is cut whole, its sign included. -/
theorem cuts_number {text rest : List Char} (fits : Kind.number.Fits text) (ends : Ends rest) :
    Cuts true (text ++ rest) [(.number, String.ofList text)] false rest := by
  rcases fits with ⟨number, isNumber, rfl | rfl⟩
  · cases text with
    | nil => exact absurd rfl isNumber.ne_nil
    | cons c later =>
        exact Cuts.lexeme (isBlank_of_isNumber isNumber) (scan_number isNumber ends) (by decide)
  · exact Cuts.lexeme (by decide) (scan_negative isNumber ends) (by decide)

/-! ## Punctuation -/

theorem scan_punctuation {expected : Bool} {c : Char} {tail : List Char}
    (separates : Separates c) (unsigned : expected = false ∨ c ≠ '-' ∨ Ends tail) :
    scan expected c tail = ⟨punctuationKind c, [c], tail⟩ := by
  have noStart : ¬isWordStart c = true := by
    intro start
    have noWord := separates.1
    rw [isWordChar, start] at noWord
    cases noWord
  have noSign : scanNegative? expected c tail = none := by
    rcases unsigned with rfl | noMinus | ends
    · rfl
    · simp [scanNegative?, noMinus]
    · simp [scanNegative?, scanNumber?_of_ends ends]
  rw [scan, if_neg noStart, scanNumber?_eq_none separates, noSign]
  rfl

/-- An operator is cut as one. A minus sign is too, but for the sign of a number. -/
theorem cuts_operator {expected : Bool} {rest : List Char} (operator : Operator)
    (unsigned : expected = false ∨ Ends rest) :
    Cuts expected (operator.symbol :: rest) [(.operator, operator.text)] true rest := by
  have separates : Separates operator.symbol := by
    cases operator <;> decide
  have kind : punctuationKind operator.symbol = .operator := by
    cases operator <;> rfl
  have solid : Text.isBlank operator.symbol = false := by
    cases operator <;> decide
  have scanned : scan expected operator.symbol rest = _ :=
    scan_punctuation separates (unsigned.imp_right Or.inr)
  rw [kind] at scanned
  rw [Operator.text, String.singleton_eq_ofList]
  exact Cuts.lexeme solid scanned (by decide)

theorem cuts_openParen (expected : Bool) (rest : List Char) :
    Cuts expected ('(' :: rest) [(.openParen, "(")] true rest :=
  Cuts.lexeme (by decide) (scan_punctuation (by decide) (Or.inr (Or.inl (by decide)))) (by decide)

theorem cuts_closeParen (expected : Bool) (rest : List Char) :
    Cuts expected (')' :: rest) [(.closeParen, ")")] false rest :=
  Cuts.lexeme (by decide) (scan_punctuation (by decide) (Or.inr (Or.inl (by decide)))) (by decide)

/-! ## What fits a kind -/

/-- Where an operand is expected, what fits a kind is cut whole, unless it is stray. -/
theorem cuts_of_fits {kind : Kind} {text rest : List Char} (fits : kind.Fits text)
    (kept : kind ≠ .stray) (ends : Ends rest) :
    Cuts true (text ++ rest) [(kind, String.ofList text)] kind.expectsOperand rest := by
  cases kind with
  | operator =>
      obtain ⟨operator, found⟩ := Option.isSome_iff_exists.mp fits
      have same := Operator.ofText?_eq_some_iff.mp found
      have symbol : text = [operator.symbol] := by
        rw [← String.toList_ofList (l := text), same, Operator.text, String.toList_singleton]
      rw [same, symbol]
      exact cuts_operator operator (Or.inr ends)
  | number => exact cuts_number fits ends
  | identifier =>
      rw [Kind.Fits, isVariable, Bool.and_eq_true, beq_iff_eq, String.toList_ofList] at fits
      have cuts := cuts_word true fits.1 ends
      rwa [fits.2] at cuts
  | function =>
      obtain ⟨function, named⟩ := Option.isSome_iff_exists.mp fits
      have same : text = function.name.toList := by
        rw [Elementary.name_of_ofName? named, String.toList_ofList]
      have cuts := cuts_word true (isWord_name function) ends
      rwa [wordKind_name, ← same] at cuts
  | openParen =>
      rw [fits]
      exact cuts_openParen true rest
  | closeParen =>
      rw [fits]
      exact cuts_closeParen true rest
  | stray => exact absurd rfl kept

/-- A text fits one kind at most, but for stray characters. -/
theorem Token.Kind.eq_of_fits {kind other : Kind} {text : List Char} (fits : kind.Fits text)
    (kept : kind ≠ .stray) (fits' : other.Fits text) (kept' : other ≠ .stray) :
    kind = other := by
  have cuts := cuts_of_fits fits kept ends_nil
  have cuts' := cuts_of_fits fits' kept' ends_nil
  rw [List.append_nil, ← String.toList_ofList (l := text)] at cuts cuts'
  obtain ⟨tokens, lexed, spelled⟩ := Lexed.exists_ofSource_of_cuts cuts
  obtain ⟨tokens', lexed', spelled'⟩ := Lexed.exists_ofSource_of_cuts cuts'
  rw [lexed] at lexed'
  cases lexed'
  rw [spelled] at spelled'
  cases spelled'
  rfl

end Fluxion
