import Fluxion.Proofs.Token.Spelling

/-!
# Gaps between tokens

A token was cut off as far as it goes, so it is cut off at the same place when a gap
follows it: what it is was decided by its own characters, by whether an operand was
expected, and by what it could not be continued with, and a gap continues nothing. So
the texts of the tokens of a source may be set with any gaps between them, and they are
cut into the same tokens again.
-/

namespace Fluxion

open Fluxion.Token

/-! ## A token before a gap -/

namespace Token

/-- A blank character can stand neither in a word nor in a number. -/
theorem separates_of_isBlank {c : Char} (blank : Text.isBlank c = true) : Separates c := by
  have noDigit : Text.isDigit c = false := by
    rw [← Bool.not_eq_true]
    intro digit
    rw [Decimal.isBlank_of_isDigit digit] at blank
    cases blank
  have noWord : isWordStart c = false := by
    rw [← Bool.not_eq_true]
    intro start
    rw [isBlank_of_isWordStart start] at blank
    cases blank
  refine ⟨isWordChar_of_not_digit noWord noDigit, noDigit, ?_⟩
  rintro rfl
  exact absurd blank (by decide)

/-- Operators and parentheses continue nothing. -/
theorem separates_of_punctuation {c : Char} (kept : punctuationKind c ≠ .stray) :
    Separates c := by
  rw [punctuationKind] at kept
  cases found : Operator.ofSymbol? c with
  | some operator =>
      rw [← Operator.symbol_of_ofSymbol? found]
      cases operator <;> decide
  | none =>
      rw [found, Option.isSome_none, if_neg Bool.false_ne_true] at kept
      by_cases opens : (c == '(') = true
      · rw [eq_of_beq opens]
        decide
      · rw [if_neg opens] at kept
        by_cases closes : (c == ')') = true
        · rw [eq_of_beq closes]
          decide
        · rw [if_neg closes] at kept
          exact absurd rfl kept

/-- A token is cut off at its end again, whatever stands there that cannot continue it. -/
theorem exists_scan_before_end {operandExpected : Bool} {c : Char} {tail : List Char}
    (kept : (scan operandExpected c tail).kind ≠ .stray) :
    ∃ later, (scan operandExpected c tail).text = c :: later ∧ ∀ rest, Ends rest →
      scan operandExpected c (later ++ rest) =
        ⟨(scan operandExpected c tail).kind, c :: later, rest⟩ := by
  by_cases start : isWordStart c = true
  · rw [scan, if_pos start]
    exact ⟨_, rfl, fun rest ends => scan_word start List.all_takeWhile ends⟩
  · rw [scan, if_neg start] at kept ⊢
    cases plain : scanNumber? (c :: tail) with
    | some cut =>
        obtain ⟨append, nonempty⟩ := scanNumber?_append plain
        obtain ⟨d, later, same⟩ := List.exists_cons_of_ne_nil nonempty
        have isNumber := isNumber_of_scanNumber? plain
        rw [same] at isNumber append
        cases append
        exact ⟨later, same, fun rest ends => scan_number isNumber ends⟩
    | none =>
        rw [plain] at kept
        cases negative : scanNegative? operandExpected c tail with
        | some cut =>
            obtain ⟨rfl, rfl, number, scanned, same⟩ := scanNegative?_eq_some_iff.mp negative
            exact ⟨number, same, fun rest ends =>
              scan_negative (isNumber_of_scanNumber? scanned) ends⟩
        | none =>
            rw [negative] at kept
            -- A minus sign stays apart from what stands behind the gap.
            exact ⟨[], rfl, fun rest ends =>
              scan_punctuation (separates_of_punctuation kept) (Or.inr (Or.inr ends))⟩

end Token

/-! ## Texts with gaps around them -/

namespace Lexed

/-- A text that consists of given texts with a gap behind each, after a first gap. -/
def layOut (gap : String) : List (String × String) → String
  | [] => gap
  | (text, next) :: pieces => gap ++ (text ++ layOut next pieces)

/-- All gaps are blank, and none of those between two texts is empty. -/
structure KeepsApart (gap : String) (pieces : List (String × String)) : Prop where
  blank : ∀ other ∈ gap :: pieces.map Prod.snd, ∀ c ∈ other.toList, Text.isBlank c = true
  between : ∀ piece ∈ pieces.dropLast, piece.2 ≠ ""

theorem exists_toList_layOut (gap : String) (pieces : List (String × String)) :
    ∃ rest, (layOut gap pieces).toList = gap.toList ++ rest := by
  cases pieces with
  | nil => exact ⟨[], (List.append_nil _).symm⟩
  | cons piece pieces => exact ⟨_, String.toList_append⟩

/-- Behind a text a gap or the end of all texts keeps the text from being continued. -/
theorem KeepsApart.ends {gap text next : String} {pieces : List (String × String)}
    (apart : KeepsApart gap ((text, next) :: pieces)) : Ends (layOut next pieces).toList := by
  obtain ⟨rest, starts⟩ := exists_toList_layOut next pieces
  cases split : next.toList with
  | nil =>
      have empty : next = "" := String.toList_eq_nil_iff.mp split
      cases pieces with
      | nil =>
          rw [layOut, empty]
          exact ends_nil
      | cons piece pieces => exact absurd empty (apart.between (text, next) List.mem_cons_self)
  | cons c later =>
      have blank := apart.blank next (by simp) c (by simp [split])
      rw [starts, split]
      exact ends_cons (separates_of_isBlank blank) _

theorem KeepsApart.tail {gap text next : String} {pieces : List (String × String)}
    (apart : KeepsApart gap ((text, next) :: pieces)) : KeepsApart next pieces where
  blank := fun other member => apart.blank other (List.mem_cons_of_mem _ member)
  between := by
    intro piece member
    cases pieces with
    | nil => cases member
    | cons other pieces => exact apart.between piece (List.mem_cons_of_mem _ member)

end Lexed

theorem Cuts.gap {gap text : List Char} {expected expected' : Bool} {rest : List Char}
    {spelling : List (Kind × String)} (blank : ∀ c ∈ gap, Text.isBlank c = true)
    (after : Cuts expected text spelling expected' rest) :
    Cuts expected (gap ++ text) spelling expected' rest := by
  induction gap with
  | nil => exact after
  | cons c gap ih =>
      exact (ih fun d member => blank d (List.mem_cons_of_mem _ member)).blank
        (blank c List.mem_cons_self)

namespace Lexed

/-- The texts of tokens that were cut from a text are cut into these tokens again, whatever
gaps are set between them. -/
theorem exists_cuts_layOut (operandExpected : Bool) (column : Nat) (source : List Char)
    (clean : (ofText operandExpected column source).stray = none) {gap : String}
    {pieces : List (String × String)} (apart : KeepsApart gap pieces)
    (texts : pieces.map Prod.fst = (ofText operandExpected column source).tokens.map Token.text) :
    ∃ expected, Cuts operandExpected (layOut gap pieces).toList
      ((ofText operandExpected column source).tokens.map Token.spelled) expected [] := by
  induction operandExpected, column, source using ofText.induct generalizing gap pieces with
  | case1 operandExpected column =>
      rw [ofText] at texts ⊢
      rw [List.map_nil, List.map_eq_nil_iff] at texts
      subst texts
      have done : Cuts operandExpected [] [] operandExpected [] :=
        fun column => ⟨[], column, rfl, rfl⟩
      refine ⟨operandExpected, ?_⟩
      have cuts := Cuts.gap (apart.blank gap List.mem_cons_self) done
      rwa [List.append_nil] at cuts
  | case2 operandExpected column c tail blank ih =>
      rw [ofText, if_pos blank] at clean texts ⊢
      exact ih clean apart texts
  | case3 operandExpected column c tail solid lexeme isStray =>
      rw [ofText, if_neg solid, if_pos isStray] at clean
      cases clean
  | case4 operandExpected column c tail solid lexeme kept ih =>
      rw [ofText, if_neg solid, if_neg kept] at clean texts ⊢
      obtain ⟨⟨text, next⟩, pieces, rfl, isText, laterTexts⟩ := List.map_eq_cons_iff.mp texts
      obtain ⟨expected, later⟩ := ih clean apart.tail laterTexts
      obtain ⟨word, same, scanned⟩ := exists_scan_before_end kept
      have here := Cuts.lexeme (Bool.eq_false_iff.mpr solid) (scanned _ apart.ends) kept
      have laid : (layOut gap ((text, next) :: pieces)).toList =
          gap.toList ++ c :: (word ++ (layOut next pieces).toList) := by
        change text = String.ofList (scan operandExpected c tail).text at isText
        rw [layOut, String.toList_append, String.toList_append, isText, String.toList_ofList, same,
          List.cons_append]
      have cuts := here.append later
      rw [← same] at cuts
      refine ⟨expected, ?_⟩
      rw [laid]
      exact Cuts.gap (apart.blank gap List.mem_cons_self) cuts

end Lexed

end Fluxion
