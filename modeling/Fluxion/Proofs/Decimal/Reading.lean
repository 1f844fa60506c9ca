import Mathlib.Data.List.TakeDrop
import Fluxion.Decimal.Reading
import Fluxion.Proofs.Token.Number

/-!
# Every number can be read

The reader of floats accepts more than the scanner of numbers takes: margins,
underscores and more words. What the scanner takes, with or without a minus
sign, it accepts as well.
-/

namespace Fluxion.Decimal

open Fluxion.Text Fluxion.Token

/-! ## Characters of a number -/

theorem exists_start_of_isDigit {c : Char} (digit : isDigit c = true) :
    ∃ start ∈ digitZeros, start ≤ c.toNat ∧ c.toNat < start + 10 := by
  obtain ⟨value, found⟩ := Option.isSome_iff_exists.mp digit
  obtain ⟨start, member, bounds⟩ := List.exists_of_findSome?_eq_some found
  split at bounds
  · next inside => exact ⟨start, member, inside⟩
  · cases bounds

/-- No script has its digits among the blanks. -/
theorem isBlank_of_isDigit {c : Char} (digit : isDigit c = true) : isBlank c = false := by
  have apart : ∀ start ∈ digitZeros, ∀ range ∈ blankRanges,
      start + 10 ≤ range.1 ∨ range.2 < start := by
    decide
  obtain ⟨start, member, atLeast, below⟩ := exists_start_of_isDigit digit
  rw [isBlank, List.any_eq_false]
  intro range inRanges
  rcases apart start member range inRanges with later | earlier <;> simp <;> omega

theorem isDigit_asciiDigit {c : Char} (digit : Text.isDigit c = true) :
    (asciiDigit c).isDigit = true := by
  have ascii : ∀ value < 10, (Nat.digitChar value).isDigit = true := by
    decide
  obtain ⟨value, found⟩ := Option.isSome_iff_exists.mp digit
  rw [asciiDigit, found]
  exact ascii value (digitValue?_lt found)

theorem asciiDigit_of_not_digit {c : Char} (noDigit : Text.isDigit c = false) :
    asciiDigit c = c := by
  have absent : digitValue? c = none := by
    simpa [Text.isDigit] using noDigit
  rw [asciiDigit, absent]

/-- The characters of numbers that are not digits. -/
def numberMarks : List Char :=
  ['i', 'n', 'f', 'a', '.', 'e', 'E', '+', '-']

theorem digit_or_mark {number : List Char} (isNumber : IsNumber number) :
    ∀ c ∈ number, isDigit c = true ∨ c ∈ numberMarks := by
  cases isNumber with
  | word member =>
      have all : numberWords.all (fun word =>
          word.all fun c => isDigit c || numberMarks.contains c) = true := by
        decide
      intro c inside
      have split := List.all_eq_true.mp (List.all_eq_true.mp all number member) c inside
      rwa [Bool.or_eq_true, List.contains_iff_mem] at split
  | @decimal mantissa exponent isMantissa isExponent =>
      intro c member
      rcases List.mem_append.mp member with member | member
      · cases isMantissa with
        | whole all _ => exact Or.inl (all c member)
        | pointed allWhole allFraction _ =>
            rcases List.mem_append.mp member with member | member
            · exact Or.inl (allWhole c member)
            · rcases List.mem_cons.mp member with rfl | member
              · exact Or.inr (by decide)
              · exact Or.inl (allFraction c member)
      · cases isExponent with
        | absent => cases member
        | present isMark isSign all _ =>
            rcases List.mem_cons.mp member with rfl | member
            · rcases isMark with rfl | rfl <;> exact Or.inr (by decide)
            · rcases List.mem_append.mp member with member | member
              · cases isSign with
                | absent => cases member
                | plus =>
                    rw [List.mem_singleton.mp member]
                    exact Or.inr (by decide)
                | minus =>
                    rw [List.mem_singleton.mp member]
                    exact Or.inr (by decide)
              · exact Or.inl (all c member)

/-! ## What is left after the preparations -/

theorem withoutMargins_of_not_mem {text : List Char}
    (inside : ∀ c ∈ text, isMargin c = false) : withoutMargins text = text := by
  have keeps : ∀ {text : List Char}, (∀ c ∈ text, isMargin c = false) →
      text.dropWhile isMargin = text := by
    intro text inside
    cases text with
    | nil => rfl
    | cons c rest => simp [inside c]
  rw [withoutMargins, keeps inside, keeps, List.reverse_reverse]
  intro c member
  exact inside c (List.mem_reverse.mp member)

theorem joinDigits?_of_not_mem {text : List Char} (afterDigit : Bool) (absent : '_' ∉ text) :
    joinDigits? afterDigit text = some text := by
  induction text generalizing afterDigit with
  | nil => rfl
  | cons c rest ih =>
      rw [List.mem_cons, not_or] at absent
      rw [joinDigits?, ih _ absent.2]
      · rfl
      · intro same
        exact absurd same.symm absent.1

/-- Numbers lose nothing before they are read, and their digits become ASCII
digits. -/
theorem prepared {text : List Char} (plain : ∀ c ∈ text, isDigit c = true ∨ c ∈ numberMarks) :
    joinDigits? false ((withoutMargins text).map asciiDigit) = some (text.map asciiDigit) := by
  have marks : numberMarks.all (fun c => !isBlank c && asciiDigit c != '_') = true := by
    decide
  have kept : ∀ c ∈ numberMarks, isBlank c = false ∧ asciiDigit c ≠ '_' := by
    intro c member
    simpa using List.all_eq_true.mp marks c member
  rw [withoutMargins_of_not_mem, joinDigits?_of_not_mem]
  · intro member
    obtain ⟨c, member, same⟩ := List.mem_map.mp member
    rcases plain c member with digit | mark
    · exact absurd (isDigit_asciiDigit digit) (by rw [same]; decide)
    · exact (kept c mark).2 same
  · intro c member
    rcases plain c member with digit | mark
    · simp [isMargin, isBlank_of_isDigit digit]
    · simp [isMargin, (kept c mark).1]

/-! ## Reading the magnitude -/

theorem span_digits {digits : List Char} (rest : List Char) (all : Digits digits)
    (stops : ∀ c later, rest = c :: later → Text.isDigit c = false) :
    ((digits ++ rest).map asciiDigit).span Char.isDigit =
      (digits.map asciiDigit, rest.map asciiDigit) := by
  have allAscii : ∀ c ∈ digits.map asciiDigit, c.isDigit = true := by
    intro c member
    rcases List.mem_map.mp member with ⟨d, inDigits, rfl⟩
    exact isDigit_asciiDigit (all d inDigits)
  rw [List.span_eq_takeWhile_dropWhile, List.map_append, List.takeWhile_append_of_pos allAscii,
    List.dropWhile_append_of_pos allAscii]
  cases rest with
  | nil => simp
  | cons c later =>
      have noDigit := stops c later rfl
      have notAscii : c.isDigit = false := by
        rw [← Bool.not_eq_true]
        intro ascii
        simp [Text.isDigit, digitValue?_of_isDigit ascii] at noDigit
      simp [asciiDigit_of_not_digit noDigit, notAscii]

theorem isSome_exponent? {exponent : List Char} (isExponent : IsExponent exponent) :
    (exponent? (exponent.map asciiDigit)).isSome = true := by
  cases isExponent with
  | absent => rfl
  | @present mark sign digits isMark isSign all nonempty =>
      have allAscii : (digits.map asciiDigit).all Char.isDigit = true := by
        rw [List.all_map, List.all_eq_true]
        exact fun c member => isDigit_asciiDigit (all c member)
      have present : (digits.map asciiDigit).isEmpty = false := by
        simpa using nonempty
      have isMark' : (asciiDigit mark == 'e' || asciiDigit mark == 'E') = true := by
        rcases isMark with rfl | rfl <;> decide
      have plus : asciiDigit '+' = '+' := by decide
      have minus : asciiDigit '-' = '-' := by decide
      cases isSign with
      | plus => simp [exponent?, isMark', plus, allAscii, present]
      | minus => simp [exponent?, isMark', minus, allAscii, present]
      | absent =>
          have unsigned : ∀ sign rest, sign.isDigit = false →
              digits.map asciiDigit ≠ sign :: rest := by
            intro sign rest noDigit same
            rw [same] at allAscii
            simp [noDigit] at allAscii
          rw [List.nil_append, List.map_cons, exponent?]
          · simp [isMark', allAscii, present]
          · exact fun rest => unsigned '-' rest (by decide)
          · exact fun rest => unsigned '+' rest (by decide)

theorem isSome_decimal? {mantissa exponent : List Char} (isMantissa : IsMantissa mantissa)
    (isExponent : IsExponent exponent) :
    (decimal? ((mantissa ++ exponent).map asciiDigit)).isSome = true := by
  have readable := isSome_exponent? isExponent
  have stops : ∀ c later, exponent = c :: later → Text.isDigit c = false ∧ c ≠ '.' := by
    intro c later same
    exact isExponent.stops ends_nil c later (by rw [List.append_nil, same])
  cases isMantissa with
  | whole all nonempty =>
      have split := span_digits exponent all fun c later same => (stops c later same).1
      have noPoint : ∀ rest, exponent.map asciiDigit ≠ '.' :: rest := by
        intro rest same
        cases exponent with
        | nil => cases same
        | cons c later =>
            rw [List.map_cons, List.cons.injEq,
              asciiDigit_of_not_digit (stops c later rfl).1] at same
            exact (stops c later rfl).2 same.1
      rw [decimal?, split]
      dsimp only
      split
      · next rest same => exact absurd same (noPoint rest)
      · simp [nonempty, readable]
  | @pointed whole fraction allWhole allFraction nonempty =>
      have split := span_digits ('.' :: (fraction ++ exponent)) allWhole
        fun c later same => by
          cases same
          decide
      have splitFraction := span_digits exponent allFraction
        fun c later same => (stops c later same).1
      have point : asciiDigit '.' = '.' := by decide
      have present : ¬((whole.map asciiDigit).isEmpty && (fraction.map asciiDigit).isEmpty) =
          true := by
        simpa only [Bool.and_eq_true, List.isEmpty_iff, List.map_eq_nil_iff, not_and_or]
          using nonempty
      rw [List.append_assoc, List.cons_append, decimal?, split, List.map_cons, point]
      simp only [splitFraction]
      rw [if_neg present, Option.isSome_map]
      exact readable

/-- What is unsigned has a magnitude. -/
theorem isSome_magnitude? {number : List Char} (isNumber : IsNumber number) :
    (magnitude? (number.map asciiDigit)).isSome = true := by
  cases isNumber with
  | word member =>
      simp only [numberWords, List.mem_cons, List.not_mem_nil, or_false] at member
      rcases member with rfl | rfl
      · rfl
      · rfl
  | @decimal mantissa exponent isMantissa isExponent =>
      have readable := isSome_decimal? isMantissa isExponent
      dsimp only [magnitude?]
      split
      · rfl
      · split
        · rfl
        · rw [Option.isSome_map]
          exact readable

/-- An unsigned number starts with no sign. -/
theorem unsigned {number rest : List Char} {sign : Char} (isNumber : IsNumber number)
    (starts : number.map asciiDigit = sign :: rest) : sign ≠ '+' ∧ sign ≠ '-' := by
  cases number with
  | nil => cases starts
  | cons c later =>
      rw [List.map_cons, List.cons.injEq] at starts
      rcases starts with ⟨rfl, _⟩
      rcases isNumber.head with word | digit | rfl
      · simp only [numberWords, List.mem_cons, List.not_mem_nil, or_false] at word
        rcases word with same | same <;> cases same <;> decide
      · have ascii := isDigit_asciiDigit digit
        constructor
        · intro same
          rw [same] at ascii
          exact absurd ascii (by decide)
        · intro same
          rw [same] at ascii
          exact absurd ascii (by decide)
      · decide

/-- Every number can be read. -/
theorem isSome_read?_number {number : List Char} (isNumber : IsNumber number) :
    (read? (String.ofList number)).isSome = true := by
  have readable := isSome_magnitude? isNumber
  rw [read?, String.toList_ofList, prepared (digit_or_mark isNumber)]
  split
  · next rest same =>
    rw [Option.some.injEq] at same
    exact absurd rfl (unsigned isNumber same).2
  · next rest same =>
    rw [Option.some.injEq] at same
    exact absurd rfl (unsigned isNumber same).1
  · next rest _ _ same =>
    rw [← Option.some.inj same]
    exact readable
  · next same => cases same

/-- Every number can be read behind a minus sign. -/
theorem isSome_read?_negative {number : List Char} (isNumber : IsNumber number) :
    (read? (String.ofList ('-' :: number))).isSome = true := by
  have readable := isSome_magnitude? isNumber
  have plain : ∀ c ∈ '-' :: number, isDigit c = true ∨ c ∈ numberMarks := by
    intro c member
    rcases List.mem_cons.mp member with rfl | member
    · exact Or.inr (by decide)
    · exact digit_or_mark isNumber c member
  have minus : asciiDigit '-' = '-' := by decide
  rw [read?, String.toList_ofList, prepared plain, List.map_cons, minus]
  simpa using readable

end Fluxion.Decimal
