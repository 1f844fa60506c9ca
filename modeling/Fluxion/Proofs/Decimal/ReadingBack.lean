import Fluxion.Proofs.Decimal.Nearest
import Fluxion.Proofs.Decimal.Reading
import Fluxion.Proofs.Decimal.Shortest
import Fluxion.Proofs.Decimal.Writing

/-!
# The text of a float reads back

The canonical text of a float is read as that float, with one exception: a negative zero
is written like a positive one. A text of digits stands for a decimal, whichever notation
it is in; the decimal lies in the neighbourhood of the float it is the text of, and so the
float is the one that is nearest to it.
-/

namespace Fluxion.Decimal

open Fluxion.Text Fluxion.Token Shortest Binary64

/-! ## Digits -/

theorem wholeOf_append (first second : List Char) :
    wholeOf (first ++ second) = wholeOf first * 10 ^ second.length + wholeOf second := by
  have whole : ∀ digits, wholeOf digits = Nat.ofDigitChars 10 digits 0 := fun _ => rfl
  rw [whole, whole, whole, Nat.ofDigitChars_append, Nat.ofDigitChars_eq_ofDigitChars_zero,
    Nat.mul_comm]

@[simp]
theorem wholeOf_zeros (count : Nat) : wholeOf (List.replicate count '0') = 0 :=
  (Nat.ofDigitChars_replicate_zero (b := 10)).trans (Nat.mul_zero _)

@[simp]
theorem wholeOf_wholeDigits (number : Nat) : wholeOf (wholeDigits number) = number :=
  Nat.ofDigitChars_ten_toDigits

/-- The digits that are left when zeros are dropped at the end. -/
theorem exists_eq_trimmed_append (digits : List Char) :
    ∃ count, digits = trimmed digits ++ List.replicate count '0' := by
  have zeros : ∀ c ∈ (digits.reverse.takeWhile (· == '0')).reverse, c = '0' := by
    intro c member
    simpa using List.mem_takeWhile_imp (List.mem_reverse.mp member)
  have split := List.takeWhile_append_dropWhile (p := (· == '0')) (l := digits.reverse)
  refine ⟨(digits.reverse.takeWhile (· == '0')).reverse.length, ?_⟩
  rw [← List.eq_replicate_of_mem zeros, trimmed, ← List.reverse_append, split,
    List.reverse_reverse]

/-! ## Texts of digits and marks -/

/-- A list of ASCII digits. -/
def Ascii (digits : List Char) : Prop :=
  ∀ c ∈ digits, c.isDigit = true

theorem ascii_append {first second : List Char} (firstAscii : Ascii first)
    (secondAscii : Ascii second) : Ascii (first ++ second) :=
  List.forall_mem_append.mpr ⟨firstAscii, secondAscii⟩

theorem ascii_zeros (count : Nat) : Ascii (List.replicate count '0') := by
  intro c member
  rw [List.eq_of_mem_replicate member]
  decide

theorem ascii_wholeDigits (number : Nat) : Ascii (wholeDigits number) :=
  fun _ member => Nat.isDigit_of_mem_toDigits (by decide) (by decide) member

theorem ascii_trimmed {digits : List Char} (ascii : Ascii digits) : Ascii (trimmed digits) := by
  obtain ⟨count, split⟩ := exists_eq_trimmed_append digits
  rw [split] at ascii
  exact fun c member => ascii c (List.mem_append_left _ member)

/-- A text of ASCII digits and the marks of numbers. -/
def Plain (text : List Char) : Prop :=
  ∀ c ∈ text, c.isDigit = true ∨ c ∈ numberMarks

theorem Plain.of_ascii {digits : List Char} (ascii : Ascii digits) : Plain digits :=
  fun c member => Or.inl (ascii c member)

theorem Plain.append {first second : List Char} (firstPlain : Plain first)
    (secondPlain : Plain second) : Plain (first ++ second) :=
  List.forall_mem_append.mpr ⟨firstPlain, secondPlain⟩

theorem Plain.cons {mark : Char} {text : List Char} (isMark : mark ∈ numberMarks)
    (plain : Plain text) : Plain (mark :: text) :=
  List.forall_mem_cons.mpr ⟨Or.inr isMark, plain⟩

theorem exists_digitChar {c : Char} (digit : c.isDigit = true) :
    ∃ value < 10, c = Nat.digitChar value := by
  have digits : ∀ value < 10, Nat.digitChar value = Char.ofNat (48 + value) := by
    decide
  have least : 48 ≤ c.toNat := by
    simp only [Char.isDigit, Bool.and_eq_true, decide_eq_true_eq] at digit
    exact digit.1
  have small := digitValue?_lt (digitValue?_of_isDigit digit)
  refine ⟨c.toNat - 48, small, ?_⟩
  rw [digits _ small, Nat.add_sub_cancel' least, Char.ofNat_toNat]

theorem asciiDigit_of_isDigit {c : Char} (digit : c.isDigit = true) : asciiDigit c = c := by
  have digits : ∀ value < 10, asciiDigit (Nat.digitChar value) = Nat.digitChar value := by
    decide
  rcases exists_digitChar digit with ⟨value, small, rfl⟩
  exact digits value small

theorem toLower_of_isDigit {c : Char} (digit : c.isDigit = true) : c.toLower = c := by
  have digits : ∀ value < 10, (Nat.digitChar value).toLower = Nat.digitChar value := by
    decide
  rcases exists_digitChar digit with ⟨value, small, rfl⟩
  exact digits value small

/-- A plain text is read as it is. -/
theorem prepared_plain {text : List Char} (plain : Plain text) :
    joinDigits? false ((withoutMargins text).map asciiDigit) = some text := by
  have marks : numberMarks.all (fun c => asciiDigit c == c) = true := by
    decide
  have kept : ∀ c ∈ text, asciiDigit c = c := by
    intro c member
    rcases plain c member with digit | mark
    · exact asciiDigit_of_isDigit digit
    · exact eq_of_beq (List.all_eq_true.mp marks c mark)
  have digits : ∀ c ∈ text, Text.isDigit c = true ∨ c ∈ numberMarks := by
    intro c member
    refine (plain c member).imp_left fun digit => ?_
    rw [Text.isDigit, digitValue?_of_isDigit digit]
    rfl
  rw [prepared digits, List.map_congr_left kept, List.map_id']

/-! ## Decimals -/

theorem span_ascii {digits : List Char} (rest : List Char) (ascii : Ascii digits)
    (stops : ∀ c later, rest = c :: later → c.isDigit = false) :
    (digits ++ rest).span Char.isDigit = (digits, rest) := by
  rw [List.span_eq_takeWhile_dropWhile, List.takeWhile_append_of_pos ascii,
    List.dropWhile_append_of_pos ascii]
  cases rest with
  | nil => simp
  | cons c later => simp [stops c later rfl]

theorem decimal?_whole {whole tail : List Char} (ascii : Ascii whole) (nonempty : whole ≠ [])
    (stops : ∀ c later, tail = c :: later → c.isDigit = false ∧ c ≠ '.') :
    decimal? (whole ++ tail) = (exponent? tail).map (wholeOf whole, ·) := by
  rw [decimal?, span_ascii tail ascii fun c later same => (stops c later same).1]
  dsimp only
  split
  · next rest => exact absurd rfl (stops '.' rest rfl).2
  · simp [nonempty]

theorem decimal?_pointed {whole fraction tail : List Char} (ascii : Ascii whole)
    (asciiFraction : Ascii fraction) (nonempty : whole ≠ [])
    (stops : ∀ c later, tail = c :: later → c.isDigit = false) :
    decimal? (whole ++ '.' :: (fraction ++ tail)) =
      (exponent? tail).map fun exponent : Int =>
        (wholeOf (whole ++ fraction), exponent - fraction.length) := by
  have point : ∀ c later, '.' :: (fraction ++ tail) = c :: later → c.isDigit = false := by
    rintro c later same
    cases same
    decide
  rw [decimal?, span_ascii _ ascii point]
  simp only [span_ascii tail asciiFraction stops]
  rw [if_neg (by simp [nonempty])]

/-- An exponent as it is written. -/
def powerText (width : Nat) (exponent : Int) : List Char :=
  'e' :: (if exponent < 0 then '-' else '+') ::
    (List.replicate (width - (wholeDigits exponent.natAbs).length) '0' ++
      wholeDigits exponent.natAbs)

theorem plain_powerText (width : Nat) (exponent : Int) : Plain (powerText width exponent) := by
  have digits := ascii_append (ascii_zeros (width - (wholeDigits exponent.natAbs).length))
    (ascii_wholeDigits exponent.natAbs)
  refine .cons (by decide) (.cons ?_ (.of_ascii digits))
  split <;> decide

theorem stops_powerText (width : Nat) (exponent : Int) :
    ∀ c later, powerText width exponent = c :: later → c.isDigit = false ∧ c ≠ '.' := by
  rintro c later same
  cases same
  decide

/-- An exponent is read as what it is written for. -/
theorem exponent?_powerText (width : Nat) (exponent : Int) :
    exponent? (powerText width exponent) = some exponent := by
  rw [powerText]
  generalize width - (wholeDigits exponent.natAbs).length = zeros
  have ascii : (List.replicate zeros '0' ++ wholeDigits exponent.natAbs).all Char.isDigit =
      true :=
    List.all_eq_true.mpr (ascii_append (ascii_zeros zeros) (ascii_wholeDigits _))
  have nonempty : List.replicate zeros '0' ++ wholeDigits exponent.natAbs ≠ [] := by
    simp [wholeDigits, Nat.toDigits_ne_nil]
  have value : wholeOf (List.replicate zeros '0' ++ wholeDigits exponent.natAbs) =
      exponent.natAbs := by
    simp [wholeOf_append]
  by_cases negative : exponent < 0
  · rw [if_pos negative, exponent?]
    simp only [beq_self_eq_true, Bool.true_or, ascii, Bool.and_true,
      List.isEmpty_eq_false_iff.mpr nonempty, Bool.not_false, if_true, value]
    congr 1
    omega
  · rw [if_neg negative, exponent?]
    simp only [beq_self_eq_true, Bool.true_or, ascii, Bool.and_true,
      List.isEmpty_eq_false_iff.mpr nonempty, Bool.not_false, if_true, value]
    simp
    omega

/-! ## The two notations -/

/-- A text that starts with a digit and is read as a decimal of some value. -/
structure Writes (text : List Char) (value : ℚ) : Prop where
  plain : Plain text
  starts : ∃ first rest, text = first :: rest ∧ first.isDigit = true
  stands : ∃ c k, decimal? text = some (c, k) ∧ (c : ℚ) * 10 ^ k = value

theorem exists_cons_of_ascii {digits : List Char} (ascii : Ascii digits) (nonempty : digits ≠ [])
    (rest : List Char) :
    ∃ first later, digits ++ rest = first :: later ∧ first.isDigit = true := by
  cases digits with
  | nil => exact absurd rfl nonempty
  | cons first later =>
      exact ⟨first, later ++ rest, rfl, ascii first List.mem_cons_self⟩

theorem writes_wholeDigits (number : Nat) : Writes (wholeDigits number) number := by
  have ascii := ascii_wholeDigits number
  have nonempty : wholeDigits number ≠ [] := Nat.toDigits_ne_nil
  have read := decimal?_whole ascii nonempty fun c later (none : [] = c :: later) => nomatch none
  have starts := exists_cons_of_ascii ascii nonempty []
  rw [List.append_nil] at read starts
  refine ⟨.of_ascii ascii, starts, _, _, read, ?_⟩
  simp

/-- Zeros around the digits of a pointed text do not count, but for the places they
take. -/
theorem writes_pointed {whole fraction digits : List Char} {before after : Nat}
    (split : whole ++ fraction =
      List.replicate before '0' ++ (digits ++ List.replicate after '0'))
    (ascii : Ascii digits) (nonempty : whole ≠ []) {places : Int}
    (length : (fraction.length : Int) = after + digits.length - places) :
    Writes (whole ++ '.' :: fraction) (wholeOf digits * 10 ^ (places - digits.length)) := by
  have asciiAll : Ascii (whole ++ fraction) := by
    rw [split]
    exact ascii_append (ascii_zeros _) (ascii_append ascii (ascii_zeros _))
  have asciiWhole : Ascii whole := fun c member => asciiAll c (List.mem_append_left _ member)
  have asciiFraction : Ascii fraction :=
    fun c member => asciiAll c (List.mem_append_right _ member)
  have read := decimal?_pointed asciiWhole asciiFraction nonempty
    fun c later (none : [] = c :: later) => nomatch none
  rw [List.append_nil] at read
  refine ⟨(Plain.of_ascii asciiWhole).append (.cons (by decide) (.of_ascii asciiFraction)),
    exists_cons_of_ascii asciiWhole nonempty _, _, _, read, ?_⟩
  have value : wholeOf (whole ++ fraction) = wholeOf digits * 10 ^ after := by
    rw [split, wholeOf_append, wholeOf_append, wholeOf_zeros, wholeOf_zeros,
      List.length_replicate, Nat.zero_mul, Nat.zero_add, Nat.add_zero]
  have exponent : (0 : Int) - fraction.length = (places - digits.length) - after := by omega
  rw [value, exponent, zpow_sub₀ (by norm_num), zpow_natCast]
  push_cast
  field_simp

theorem writes_positional {digits : List Char} (ascii : Ascii digits) (nonempty : digits ≠ [])
    (places : Int) :
    Writes (positional digits places) (wholeOf digits * 10 ^ (places - digits.length)) := by
  by_cases fractional : places ≤ 0
  · have split : ['0'] ++ (List.replicate (-places).toNat '0' ++ digits) =
        List.replicate ((-places).toNat + 1) '0' ++ (digits ++ List.replicate 0 '0') := by
      simp [List.replicate_succ]
    rw [positional, if_pos fractional]
    refine writes_pointed split ascii (by simp) ?_
    rw [List.length_append, List.length_replicate]
    omega
  · have wholeNonempty : digits.take places.toNat ++
        List.replicate (places.toNat - digits.length) '0' ≠ [] := by
      have taken : digits.take places.toNat ≠ [] := by
        rw [Ne, List.take_eq_nil_iff]
        rintro (none | empty)
        · omega
        · exact nonempty empty
      exact List.append_ne_nil_of_left_ne_nil taken _
    rw [positional, if_neg fractional]
    dsimp only
    by_cases ends : digits.length ≤ places.toNat
    · have split : digits.take places.toNat ++
          List.replicate (places.toNat - digits.length) '0' ++ ['0'] =
          List.replicate 0 '0' ++
            (digits ++ List.replicate (places.toNat - digits.length + 1) '0') := by
        rw [List.take_of_length_le ends, List.replicate_succ', List.append_assoc]
        rfl
      rw [List.drop_eq_nil_of_le ends, if_pos List.isEmpty_nil]
      refine writes_pointed split ascii wholeNonempty ?_
      rw [List.length_singleton]
      omega
    · have split : digits.take places.toNat ++
          List.replicate (places.toNat - digits.length) '0' ++ digits.drop places.toNat =
          List.replicate 0 '0' ++ (digits ++ List.replicate 0 '0') := by
        have filler : places.toNat - digits.length = 0 := by omega
        simp [filler]
      have some : ¬(digits.drop places.toNat).isEmpty = true := by
        rw [List.isEmpty_iff, List.drop_eq_nil_iff]
        exact ends
      rw [if_neg some]
      refine writes_pointed split ascii wholeNonempty ?_
      rw [List.length_drop]
      omega

theorem writes_scientific {digits : List Char} (ascii : Ascii digits) (nonempty : digits ≠ [])
    (width : Nat) (exponent : Int) :
    Writes (scientific width digits exponent)
      (wholeOf digits * 10 ^ (exponent + 1 - digits.length)) := by
  have parts : scientific width digits exponent =
      digits.take 1 ++ (if (digits.drop 1).isEmpty then [] else '.' :: digits.drop 1) ++
        powerText width exponent := rfl
  have power := exponent?_powerText width exponent
  have plainPower := plain_powerText width exponent
  have stops := stops_powerText width exponent
  have asciiFirst : Ascii (digits.take 1) := fun c member => ascii c (List.mem_of_mem_take member)
  have asciiFraction : Ascii (digits.drop 1) :=
    fun c member => ascii c (List.mem_of_mem_drop member)
  have firstNonempty : digits.take 1 ≠ [] := by simpa using nonempty
  have some : 0 < digits.length := List.length_pos_iff.mpr nonempty
  rw [parts]
  by_cases single : (digits.drop 1).isEmpty = true
  · have one : digits.length = 1 := by
      rw [List.isEmpty_iff, List.drop_eq_nil_iff] at single
      exact Nat.le_antisymm single some
    have read := decimal?_whole asciiFirst firstNonempty stops
    rw [power] at read
    rw [if_pos single, List.append_nil]
    refine ⟨(Plain.of_ascii asciiFirst).append plainPower,
      exists_cons_of_ascii asciiFirst firstNonempty _, _, _, read, ?_⟩
    rw [List.take_of_length_le one.le, one]
    congr 2
    omega
  · have read := decimal?_pointed asciiFirst asciiFraction firstNonempty
      fun c later same => (stops c later same).1
    rw [power] at read
    rw [if_neg single, List.append_assoc, List.cons_append]
    refine ⟨(Plain.of_ascii asciiFirst).append
        (.cons (by decide) ((Plain.of_ascii asciiFraction).append plainPower)),
      exists_cons_of_ascii asciiFirst firstNonempty _, _, _, read, ?_⟩
    rw [List.take_append_drop, List.length_drop]
    congr 2
    omega

/-- A decimal is written as a text that stands for it. -/
theorem writes_write (layout : Layout) {c : Nat} (positive : 0 < c) (k : Int) :
    Writes (layout.write c k) (c * 10 ^ k) := by
  have nonempty := trimmed_wholeDigits_ne_nil positive
  have ascii := ascii_trimmed (ascii_wholeDigits c)
  obtain ⟨count, split⟩ := exists_eq_trimmed_append (wholeDigits c)
  have value : (wholeOf (trimmed (wholeDigits c)) : ℚ) *
      10 ^ ((wholeDigits c).length - 1 + k + 1 - (trimmed (wholeDigits c)).length) =
      c * 10 ^ k := by
    have whole : c = wholeOf (trimmed (wholeDigits c)) * 10 ^ count := by
      have parts := wholeOf_wholeDigits c
      rw [split, wholeOf_append, wholeOf_zeros, List.length_replicate] at parts
      exact parts.symm
    have length : ((wholeDigits c).length : Int) - 1 + k + 1 - (trimmed (wholeDigits c)).length =
        count + k := by
      have parts := congrArg List.length split
      rw [List.length_append, List.length_replicate] at parts
      omega
    have whole' : (c : ℚ) = wholeOf (trimmed (wholeDigits c)) * 10 ^ count := by
      exact_mod_cast whole
    rw [length, zpow_add₀ (by norm_num), zpow_natCast, ← mul_assoc, ← whole']
  rw [← value, Layout.write]
  split
  · exact writes_positional ascii nonempty _
  · exact writes_scientific ascii nonempty _ _

/-! ## Reading -/

theorem magnitude?_of_starts {text : List Char}
    (starts : ∃ first rest, text = first :: rest ∧ first.isDigit = true) :
    magnitude? text = (decimal? text).map fun (coefficient, exponent) =>
      nearest coefficient exponent := by
  rcases starts with ⟨first, rest, rfl, digit⟩
  have noWord : ∀ letter later, letter.isDigit = false →
      (first :: rest).map Char.toLower ≠ letter :: later := by
    intro letter later noDigit same
    rw [List.map_cons, toLower_of_isDigit digit, List.cons.injEq] at same
    rw [same.1, noDigit] at digit
    cases digit
  rw [magnitude?, if_neg, if_neg]
  · exact noWord 'n' _ (by decide)
  · rintro (inf | infinity)
    · exact noWord 'i' _ (by decide) inf
    · exact noWord 'i' _ (by decide) infinity

theorem pos_of_contains {mantissa : Nat} {exponent : Int}
    (canonical : Canonical mantissa exponent) {c : Nat} {k : Int}
    (near : (neighbourhood mantissa exponent).Contains (c * 10 ^ k)) : 0 < c := by
  have above := (zpow_pos (by norm_num) _).trans_le (bounds_of_contains canonical near).1
  rcases Nat.eq_zero_or_pos c with rfl | positive
  · rw [Nat.cast_zero, zero_mul] at above
    exact absurd above (lt_irrefl 0)
  · exact positive

/-- A text that stands for a decimal near a float is read as that float. -/
theorem magnitude?_of_writes {text : List Char} {value : ℚ} (writes : Writes text value)
    {mantissa : Nat} {exponent : Int} (canonical : Canonical mantissa exponent)
    (near : (neighbourhood mantissa exponent).Contains value) :
    magnitude? text = some (put false canonical) := by
  rcases writes.stands with ⟨c, k, read, rfl⟩
  have positive := pos_of_contains canonical near
  rw [magnitude?_of_starts writes.starts, read, Option.map_some]
  exact congrArg some (nearest_eq canonical positive near)

theorem read?_of_starts {text : List Char} (plain : Plain text)
    (starts : ∃ first rest, text = first :: rest ∧ first.isDigit = true) :
    read? (String.ofList text) = magnitude? text := by
  rcases starts with ⟨first, rest, rfl, digit⟩
  rw [read?, String.toList_ofList, prepared_plain plain]
  split
  · next same =>
    cases same
    cases digit
  · next same =>
    cases same
    cases digit
  · next same =>
    cases same
    rfl
  · next same => cases same

theorem read?_signed {text : List Char} {value : ℚ} (writes : Writes text value)
    {mantissa : Nat} {exponent : Int} (canonical : Canonical mantissa exponent)
    (near : (neighbourhood mantissa exponent).Contains value) (negative : Bool) :
    read? (String.ofList (signed negative text)) = some (put negative canonical) := by
  have magnitude := magnitude?_of_writes writes canonical near
  cases negative with
  | true =>
      have plain : Plain ('-' :: text) := .cons (by decide) writes.plain
      rw [signed, if_pos rfl, read?, String.toList_ofList, prepared_plain plain, ← neg_put]
      exact congrArg (Option.map (-·)) magnitude
  | false => rw [signed, if_neg (by decide), read?_of_starts writes.plain writes.starts, magnitude]

/-! ## Canonical texts -/

/-- A zero without its sign; any other float as it is. -/
def unsignedZero (x : Float) : Float :=
  if x == 0.0 then 0.0 else x

theorem value_whole? {mantissa number : Nat} {exponent : Int}
    (isWhole : whole? mantissa exponent = some number) :
    (number : ℚ) = mantissa * 2 ^ exponent := by
  rw [whole?] at isWhole
  split at isWhole
  · next divides =>
    cases isWhole
    have exact : mantissa / 2 ^ (-exponent).toNat * 2 ^ (-exponent).toNat = mantissa :=
      Nat.div_mul_cancel (Nat.dvd_of_mod_eq_zero divides)
    have scaled := zpow_mul_denominator (show (2 : ℚ) ≠ 0 by norm_num) exponent
    calc ((mantissa / 2 ^ (-exponent).toNat * 2 ^ exponent.toNat : Nat) : ℚ)
        = ((mantissa / 2 ^ (-exponent).toNat : Nat) : ℚ) * 2 ^ exponent.toNat := by
          rw [Nat.cast_mul, Nat.cast_pow, Nat.cast_ofNat]
      _ = ((mantissa / 2 ^ (-exponent).toNat : Nat) : ℚ) *
            (2 ^ exponent * 2 ^ (-exponent).toNat) := by rw [scaled]
      _ = ((mantissa / 2 ^ (-exponent).toNat * 2 ^ (-exponent).toNat : Nat) : ℚ) *
            2 ^ exponent := by
          rw [Nat.cast_mul, Nat.cast_pow, Nat.cast_ofNat]
          ring
      _ = mantissa * 2 ^ exponent := by rw [exact]
  · cases isWhole

theorem contains_whole? {mantissa number : Nat} {exponent : Int} (positive : 0 < mantissa)
    (isWhole : whole? mantissa exponent = some number) :
    (neighbourhood mantissa exponent).Contains number := by
  rw [value_whole? isWhole]
  exact contains_centre positive

/-- The text of a finite float other than zero reads back. -/
theorem read?_finite {mantissa : Nat} {exponent : Int} (canonical : Canonical mantissa exponent)
    (negative : Bool) :
    read? (String.ofList (Binary64.finite negative mantissa exponent).canonical) =
      some (put negative canonical) := by
  rw [Binary64.canonical]
  cases isWhole : whole? mantissa exponent with
  | some number =>
      have near := contains_whole? canonical.positive isWhole
      have nonzero : (number != 0) = true := by
        rw [bne_iff_ne]
        rintro rfl
        have value := value_whole? isWhole
        have positive : (0 : ℚ) < mantissa := by exact_mod_cast canonical.positive
        rw [Nat.cast_zero] at value
        exact absurd value (mul_pos positive (by positivity)).ne
      dsimp only
      rw [nonzero, Bool.and_true]
      exact read?_signed (writes_wholeDigits number) canonical near negative
  | none =>
      dsimp only
      rw [Binary64.literal, magnitudeLiteral, if_neg canonical.positive.ne']
      have near := contains_shortest canonical
      exact read?_signed (writes_write .literal (pos_of_contains canonical near) _) canonical near
        negative

theorem unsignedZero_put (negative : Bool) {mantissa : Nat} {exponent : Int}
    (canonical : Canonical mantissa exponent) :
    unsignedZero (put negative canonical) = put negative canonical := by
  rw [unsignedZero, put_beq_zero]
  rfl

/-- A zero with a minus sign is the only float that becomes another one. -/
theorem unsignedZero_eq_self {x : Float} (other : x ≠ -0.0) : unsignedZero x = x := by
  cases apart : ofFloat x with
  | nan =>
      rw [eq_of_ofFloat_nan apart]
      decide +kernel
  | infinity negative =>
      rw [eq_of_ofFloat_infinity apart]
      cases negative <;> decide +kernel
  | finite negative mantissa exponent =>
      rcases Nat.eq_zero_or_pos mantissa with rfl | positive
      · have zero := eq_of_ofFloat_zero apart
        cases negative with
        | true => exact absurd zero other
        | false =>
            rw [zero]
            rfl
      · rw [eq_put apart (canonical_of_ofFloat apart positive), unsignedZero_put]

/-- The canonical text of a float is read as that float, but for the sign of a zero. -/
theorem read?_canonical (x : Float) : read? (canonical x) = some (unsignedZero x) := by
  cases apart : ofFloat x with
  | nan =>
      rw [eq_of_ofFloat_nan apart]
      decide +kernel
  | infinity negative =>
      rw [eq_of_ofFloat_infinity apart]
      cases negative <;> decide +kernel
  | finite negative mantissa exponent =>
      rcases Nat.eq_zero_or_pos mantissa with rfl | positive
      · rw [eq_of_ofFloat_zero apart]
        cases negative <;> decide +kernel
      · have isCanonical := canonical_of_ofFloat apart positive
        rw [canonical, apart, read?_finite isCanonical, eq_put apart isCanonical, unsignedZero_put]

end Fluxion.Decimal
