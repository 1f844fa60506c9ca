import Mathlib.Logic.Basic
import Fluxion.Token.Lexeme

/-!
# The grammar of numbers

An unsigned number is one of the number words, or a mantissa with an optional
exponent. The scanner takes numbers and nothing else, and it takes all of a
number when what stands behind it could not continue it.
-/

namespace Fluxion.Token

open Fluxion.Text

/-- Digits of any script, possibly none. -/
def Digits (text : List Char) : Prop :=
  ∀ c ∈ text, isDigit c = true

/-- Digits with at most one point. -/
inductive IsMantissa : List Char → Prop
  | whole {digits : List Char} : Digits digits → digits ≠ [] → IsMantissa digits
  | pointed {whole fraction : List Char} :
      Digits whole → Digits fraction → whole ≠ [] ∨ fraction ≠ [] →
      IsMantissa (whole ++ '.' :: fraction)

/-- An optional sign. -/
inductive IsSign : List Char → Prop
  | absent : IsSign []
  | plus : IsSign ['+']
  | minus : IsSign ['-']

/-- An optional exponent. -/
inductive IsExponent : List Char → Prop
  | absent : IsExponent []
  | present {mark : Char} {sign digits : List Char} :
      mark = 'e' ∨ mark = 'E' → IsSign sign → Digits digits → digits ≠ [] →
      IsExponent (mark :: (sign ++ digits))

/-- An unsigned number. -/
inductive IsNumber : List Char → Prop
  | word {text : List Char} : text ∈ numberWords → IsNumber text
  | decimal {mantissa exponent : List Char} :
      IsMantissa mantissa → IsExponent exponent → IsNumber (mantissa ++ exponent)

/-- A mantissa starts with a digit or a point. -/
theorem IsMantissa.head {c : Char} {later : List Char} (isMantissa : IsMantissa (c :: later)) :
    isDigit c = true ∨ c = '.' := by
  generalize same : c :: later = mantissa at isMantissa
  cases isMantissa with
  | whole all nonempty =>
      subst same
      exact Or.inl (all c (by simp))
  | @pointed whole fraction all _ _ =>
      cases whole with
      | nil =>
          cases same
          exact Or.inr rfl
      | cons d whole =>
          cases same
          exact Or.inl (all c (by simp))

theorem IsMantissa.ne_nil {mantissa : List Char} (isMantissa : IsMantissa mantissa) :
    mantissa ≠ [] := by
  cases isMantissa with
  | whole _ nonempty => exact nonempty
  | pointed _ _ _ => simp

/-- A number starts with a digit or a point, unless it is a word. -/
theorem IsNumber.head {c : Char} {later : List Char} (isNumber : IsNumber (c :: later)) :
    c :: later ∈ numberWords ∨ isDigit c = true ∨ c = '.' := by
  generalize same : c :: later = number at isNumber
  cases isNumber with
  | word member => exact Or.inl (same ▸ member)
  | @decimal mantissa exponent isMantissa _ =>
      cases mantissa with
      | nil => exact absurd rfl isMantissa.ne_nil
      | cons d mantissa =>
          cases same
          exact Or.inr isMantissa.head

theorem IsNumber.ne_nil {number : List Char} (isNumber : IsNumber number) : number ≠ [] := by
  cases isNumber with
  | word member =>
      rintro rfl
      exact absurd member (by decide)
  | decimal isMantissa _ => simp [isMantissa.ne_nil]

/-! ## What is scanned is a number -/

theorem digits_takeWhile (text : List Char) : Digits (text.takeWhile isDigit) :=
  List.all_eq_true.mp List.all_takeWhile

theorem scanMantissa_of_point {text afterPoint : List Char}
    (found : text.dropWhile isDigit = '.' :: afterPoint)
    (present : text.takeWhile isDigit ≠ [] ∨ afterPoint.takeWhile isDigit ≠ []) :
    scanMantissa text =
      (text.takeWhile isDigit ++ '.' :: afterPoint.takeWhile isDigit,
        afterPoint.dropWhile isDigit) := by
  have somewhere : ¬((text.takeWhile isDigit).isEmpty && (afterPoint.takeWhile isDigit).isEmpty) =
      true := by
    rw [Bool.and_eq_true, List.isEmpty_iff, List.isEmpty_iff, not_and_or]
    exact present
  rw [scanMantissa, found]
  simp only [if_neg somewhere]

theorem scanMantissa_of_no_point {text : List Char}
    (absent : ∀ afterPoint, text.dropWhile isDigit ≠ '.' :: afterPoint) :
    scanMantissa text = (text.takeWhile isDigit, text.dropWhile isDigit) := by
  unfold scanMantissa
  dsimp only
  split
  · next afterPoint found => exact absurd found (absent afterPoint)
  · rfl

theorem isMantissa_scanMantissa {text : List Char} (nonempty : (scanMantissa text).1 ≠ []) :
    IsMantissa (scanMantissa text).1 := by
  by_cases point : ∃ afterPoint, text.dropWhile isDigit = '.' :: afterPoint
  · rcases point with ⟨afterPoint, found⟩
    by_cases present : text.takeWhile isDigit ≠ [] ∨ afterPoint.takeWhile isDigit ≠ []
    · rw [scanMantissa_of_point found present]
      exact .pointed (digits_takeWhile text) (digits_takeWhile afterPoint) present
    · rw [not_or, not_not, not_not] at present
      refine absurd ?_ nonempty
      rw [scanMantissa, found]
      simp [present]
  · rw [not_exists] at point
    rw [scanMantissa_of_no_point point] at nonempty ⊢
    exact .whole (digits_takeWhile text) nonempty

theorem isSign_scanSign (text : List Char) : IsSign (scanSign text).1 := by
  unfold scanSign
  split
  · exact .plus
  · exact .minus
  · exact .absent

theorem isExponent_scanExponent (text : List Char) : IsExponent (scanExponent text).1 := by
  cases text with
  | nil => exact .absent
  | cons mark afterMark =>
      dsimp only [scanExponent]
      split
      · next present =>
        rw [Bool.and_eq_true, Bool.or_eq_true] at present
        refine .present ?_ (isSign_scanSign afterMark) (digits_takeWhile _) ?_
        · simpa using present.1
        · simpa using present.2
      · exact .absent

/-- What is scanned as a number is one. -/
theorem isNumber_of_scanNumber? {text number rest : List Char}
    (found : scanNumber? text = some (number, rest)) : IsNumber number := by
  dsimp only [scanNumber?, scanNumberWord?] at found
  split at found
  · split at found
    · next isWord =>
      cases found
      exact .word (List.contains_iff_mem.mp isWord)
    · cases found
  · next present =>
    cases found
    refine .decimal (isMantissa_scanMantissa ?_) (isExponent_scanExponent _)
    simpa using present

/-! ## Numbers are scanned whole -/

/-- A character that can stand neither in a word nor in a mantissa. -/
def Separates (c : Char) : Prop :=
  isWordChar c = false ∧ isDigit c = false ∧ c ≠ '.'

instance (c : Char) : Decidable (Separates c) :=
  inferInstanceAs (Decidable (_ ∧ _ ∧ _))

/-- A text that cannot continue a word or a number. -/
def Ends (text : List Char) : Prop :=
  ∀ c later, text = c :: later → Separates c

theorem ends_nil : Ends [] := by
  rintro c later ⟨⟩

theorem ends_cons {c : Char} (separates : Separates c) (later : List Char) :
    Ends (c :: later) := by
  rintro d later' ⟨⟩
  exact separates

/-- Digits are taken up to what is not one. -/
theorem takeWhile_digits_append {digits : List Char} (rest : List Char) (all : Digits digits)
    (stops : ∀ c later, rest = c :: later → isDigit c = false) :
    (digits ++ rest).takeWhile isDigit = digits ∧ (digits ++ rest).dropWhile isDigit = rest := by
  rw [List.takeWhile_append_of_pos all, List.dropWhile_append_of_pos all]
  cases rest with
  | nil => simp
  | cons c later => simp [stops c later rfl]

theorem scanSign_append_of_isSign {sign digits rest : List Char} (isSign : IsSign sign)
    (all : Digits digits) (nonempty : digits ≠ []) :
    scanSign (sign ++ (digits ++ rest)) = (sign, digits ++ rest) := by
  cases isSign with
  | plus => rfl
  | minus => rfl
  | absent =>
      cases digits with
      | nil => exact absurd rfl nonempty
      | cons c later =>
          have digit : isDigit c = true := all c (by simp)
          unfold scanSign
          split
          · next same =>
            cases same
            exact absurd digit (by decide)
          · next same =>
            cases same
            exact absurd digit (by decide)
          · rfl

theorem scanExponent_append_of_isExponent {exponent rest : List Char}
    (isExponent : IsExponent exponent) (ends : Ends rest) :
    scanExponent (exponent ++ rest) = (exponent, rest) := by
  cases isExponent with
  | absent =>
      cases rest with
      | nil => rfl
      | cons c later =>
          have notMark : ¬(c == 'e' || c == 'E') = true := by
            intro mark
            have notWord := (ends c later rfl).1
            rw [Bool.or_eq_true, beq_iff_eq, beq_iff_eq] at mark
            rcases mark with rfl | rfl <;> exact absurd notWord (by decide)
          simp [scanExponent, notMark]
  | @present mark sign digits isMark isSign all nonempty =>
      have split := takeWhile_digits_append rest all fun c later same =>
        (ends c later same).2.1
      have isMark' : (mark == 'e' || mark == 'E') = true := by
        simpa using isMark
      simp [scanExponent, scanSign_append_of_isSign isSign all nonempty, split.1, split.2,
        isMark', nonempty]

theorem scanMantissa_append_of_isMantissa {mantissa rest : List Char}
    (isMantissa : IsMantissa mantissa)
    (stops : ∀ c later, rest = c :: later → isDigit c = false ∧ c ≠ '.') :
    scanMantissa (mantissa ++ rest) = (mantissa, rest) := by
  cases isMantissa with
  | whole all nonempty =>
      have split := takeWhile_digits_append rest all fun c later same =>
        (stops c later same).1
      rw [scanMantissa_of_no_point, split.1, split.2]
      intro afterPoint same
      rw [split.2] at same
      exact (stops _ _ same).2 rfl
  | @pointed whole fraction allWhole allFraction nonempty =>
      have splitWhole := takeWhile_digits_append ('.' :: (fraction ++ rest)) allWhole
        fun c later same => by
          cases same
          decide
      have splitFraction := takeWhile_digits_append rest allFraction
        fun c later same => (stops c later same).1
      rw [List.append_assoc, List.cons_append, scanMantissa_of_point splitWhole.2]
      · rw [splitWhole.1, splitFraction.1, splitFraction.2]
      · rw [splitWhole.1, splitFraction.1]
        exact nonempty

/-- What may stand behind a mantissa cannot continue it. -/
theorem IsExponent.stops {exponent rest : List Char} (isExponent : IsExponent exponent)
    (ends : Ends rest) (c : Char) (later : List Char) (same : exponent ++ rest = c :: later) :
    isDigit c = false ∧ c ≠ '.' := by
  cases isExponent with
  | absent => exact (ends c later same).2
  | present isMark _ _ _ =>
      cases same
      rcases isMark with rfl | rfl <;> decide

/-- A word is taken up to what cannot continue it. -/
theorem takeWhile_word_append {word rest : List Char} (all : ∀ c ∈ word, isWordChar c = true)
    (ends : Ends rest) :
    (word ++ rest).takeWhile isWordChar = word ∧ (word ++ rest).dropWhile isWordChar = rest := by
  rw [List.takeWhile_append_of_pos all, List.dropWhile_append_of_pos all]
  cases rest with
  | nil => simp
  | cons c later => simp [(ends c later rfl).1]

theorem isWordChar_of_mem_numberWords {word : List Char} (member : word ∈ numberWords) :
    ∀ c ∈ word, isWordChar c = true := by
  have all : numberWords.all (fun word => word.all isWordChar) = true := by
    decide
  exact List.all_eq_true.mp (List.all_eq_true.mp all word member)

/-- A number is scanned whole where it ends. -/
theorem scanNumber?_append_of_isNumber {number rest : List Char} (isNumber : IsNumber number)
    (ends : Ends rest) : scanNumber? (number ++ rest) = some (number, rest) := by
  cases isNumber with
  | word member =>
      have split := takeWhile_word_append (isWordChar_of_mem_numberWords member) ends
      have noMantissa : (scanMantissa (number ++ rest)).1 = [] := by
        simp only [numberWords, List.mem_cons, List.not_mem_nil, or_false] at member
        rcases member with rfl | rfl <;> rfl
      simp [scanNumber?, noMantissa, scanNumberWord?, split.1, split.2, member]
  | @decimal mantissa exponent isMantissa isExponent =>
      rw [List.append_assoc, scanNumber?,
        scanMantissa_append_of_isMantissa isMantissa (isExponent.stops ends)]
      simp [scanExponent_append_of_isExponent isExponent ends, isMantissa.ne_nil]

end Fluxion.Token
