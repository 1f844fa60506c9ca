import Mathlib.Data.List.DropRight
import Fluxion.Proofs.Parsing.Blame

/-!
# Where the caret of a diagnostic stands

A diagnostic shows the whole source, and below it the caret, as far from the start of its line
as the token to blame is from the start of the source. In a source of one line that is directly
below the token. A blank can be the end of a line, though, and columns are counted on over it. In
a source of several lines the caret stands below the last of them, and it is never directly
below the token: before the token there is a line that its column counts and its own line
does not, or behind it there is a line that comes between the two.
-/

namespace Fluxion

/-! ## Places in a text -/

namespace Text

/-- The row that a place in a text is in, the first one being row 0. -/
def row (text : List Char) (place : Nat) : Nat :=
  (text.take place).count '\n'

/-- How far a place in a text is from the start of its row. -/
def offset (text : List Char) (place : Nat) : Nat :=
  ((text.take place).rtakeWhile (· != '\n')).length

/-- One place in a text is in the row below another one, and as far from its start. -/
def DirectlyBelow (text : List Char) (upper lower : Nat) : Prop :=
  row text lower = row text upper + 1 ∧ offset text lower = offset text upper

theorem row_left (before after : List Char) :
    row (before ++ after) before.length = before.count '\n' := by
  rw [row, List.take_left]

theorem row_append_newline (before text : List Char) (place : Nat) :
    row (before ++ '\n' :: text) (before.length + (place + 1)) =
      before.count '\n' + 1 + row text place := by
  rw [row, List.take_length_add_append, List.take_succ_cons, List.count_append,
    List.count_cons_self, row]
  omega

theorem offset_eq_iff {before after : List Char} :
    offset (before ++ after) before.length = before.length ↔ '\n' ∉ before := by
  rw [offset, List.take_left]
  constructor
  · intro whole newline
    have same := (List.rtakeWhile_suffix (· != '\n') before).eq_of_length whole
    exact absurd (List.rtakeWhile_eq_self_iff.mp same '\n' newline) (by decide)
  · intro oneLine
    rw [List.rtakeWhile_eq_self_iff.mpr]
    intro c member
    rw [bne_iff_ne]
    exact ne_of_mem_of_not_mem member oneLine

/-- Behind the end of a line, only what follows counts. -/
theorem rtakeWhile_append_newline (before text : List Char) :
    (before ++ '\n' :: text).rtakeWhile (· != '\n') = text.rtakeWhile (· != '\n') := by
  induction text using List.reverseRecOn with
  | nil => exact List.rtakeWhile_concat_neg _ _ _ (by decide)
  | append_singleton text c ih =>
      rw [← List.cons_append, ← List.append_assoc, List.rtakeWhile_concat, List.rtakeWhile_concat,
        ih]

theorem offset_append_newline (before text : List Char) (place : Nat) :
    offset (before ++ '\n' :: text) (before.length + (place + 1)) = offset text place := by
  rw [offset, List.take_length_add_append, List.take_succ_cons, rtakeWhile_append_newline, offset]

/-- Below a source, a mark that is as far from the start of its line as some place is from the
start of the source is directly below that place exactly if the source is one line. -/
theorem directlyBelow_iff {opening before after rest : List Char} :
    DirectlyBelow
        (opening ++
          '\n' :: (before ++ after ++ '\n' :: (List.replicate before.length ' ' ++ rest)))
        (opening.length + (before.length + 1))
        (opening.length + ((before ++ after).length + (before.length + 1) + 1)) ↔
      '\n' ∉ before ++ after := by
  generalize indent : List.replicate before.length ' ' = blanks
  have length : before.length = blanks.length := by
    rw [← indent, List.length_replicate]
  have noNewline : '\n' ∉ blanks := by
    rw [← indent]
    exact fun newline => absurd (List.eq_of_mem_replicate newline) (by decide)
  have upperRow : row (before ++ after ++ '\n' :: (blanks ++ rest)) before.length =
      before.count '\n' := by
    rw [List.append_assoc, row_left]
  have lowerRow : row (before ++ after ++ '\n' :: (blanks ++ rest))
      ((before ++ after).length + (before.length + 1)) =
      before.count '\n' + after.count '\n' + 1 := by
    rw [row_append_newline, length, row_left, List.count_append,
      List.count_eq_zero_of_not_mem noNewline]
  have lowerOffset : offset (before ++ after ++ '\n' :: (blanks ++ rest))
      ((before ++ after).length + (before.length + 1)) = before.length := by
    rw [offset_append_newline, length]
    exact offset_eq_iff.mpr noNewline
  have upperOffset : offset (before ++ after ++ '\n' :: (blanks ++ rest)) before.length =
      before.length ↔ '\n' ∉ before := by
    rw [List.append_assoc, offset_eq_iff]
  rw [DirectlyBelow, row_append_newline opening, row_append_newline opening,
    offset_append_newline opening, offset_append_newline opening, upperRow, lowerRow, lowerOffset,
    List.mem_append, not_or, ← upperOffset, ← List.count_eq_zero (l := after)]
  omega

end Text

/-! ## Diagnostics -/

namespace Report

/-- The first line of a diagnostic that blames a token. -/
def headline (report : Report) (token : Token) : String :=
  report.category.heading ++ " `" ++ token.text ++ "` at column " ++ toString token.column ++ ":"

/-- How far from the start of its row a caret for a token stands. -/
def indent (token : Token) : Nat :=
  (token.column - 1).toNat

/-- The place at which a diagnostic shows the token to blame. The source starts two line ends
behind the headline. -/
def tokenPlace (report : Report) (token : Token) : Nat :=
  (report.headline token).length + 2 + indent token

/-- The place at which a diagnostic of a source shows the caret. -/
def caretPlace (report : Report) (token : Token) (source : String) : Nat :=
  (report.headline token).length + 2 + source.length + 1 + indent token

theorem toList_diagnostic {report : Report} {token : Token} (blamed : report.token = some token)
    (source : String) :
    (report.diagnostic source).toList =
      ((report.headline token).toList ++ ['\n']) ++ '\n' :: (source.toList ++ '\n' ::
        (List.replicate (indent token) ' ' ++ '^' :: '\n' :: '\n' :: report.message.toList)) := by
  simp [diagnostic, blamed, headline, caretLine, indent]

theorem indent_of_standsIn {source : String} {token : Token} (stands : token.StandsIn source) :
    ∃ before after, source.toList = before ++ (token.text.toList ++ after) ∧
      indent token = before.length := by
  obtain ⟨_, before, after, split, place⟩ := stands
  refine ⟨before, after, split, ?_⟩
  rw [indent, place]
  omega

/-- The token stands in the diagnostic where it is said to. -/
theorem token_shown {report : Report} {token : Token} (blamed : report.token = some token)
    {source : String} (stands : token.StandsIn source) :
    token.text.toList <+: (report.diagnostic source).toList.drop (report.tokenPlace token) := by
  obtain ⟨before, after, split, place⟩ := indent_of_standsIn stands
  have length : report.tokenPlace token =
      ((report.headline token).toList ++ '\n' :: '\n' :: before).length := by
    simp only [tokenPlace, place, List.length_append, List.length_cons, String.length_toList]
    omega
  have shown : (report.diagnostic source).toList =
      ((report.headline token).toList ++ '\n' :: '\n' :: before) ++ (token.text.toList ++
        (after ++ '\n' :: (List.replicate (indent token) ' ' ++
          '^' :: '\n' :: '\n' :: report.message.toList))) := by
    rw [toList_diagnostic blamed, split]
    simp
  rw [shown, length, List.drop_left]
  exact List.prefix_append _ _

theorem caret_shown {report : Report} {token : Token} (blamed : report.token = some token)
    (source : String) :
    (report.diagnostic source).toList[report.caretPlace token source]? = some '^' := by
  have length : report.caretPlace token source = ((report.headline token).toList ++
      '\n' :: '\n' :: (source.toList ++ '\n' :: List.replicate (indent token) ' ')).length := by
    simp only [caretPlace, List.length_append, List.length_cons, List.length_replicate,
      String.length_toList]
    omega
  have shown : (report.diagnostic source).toList = ((report.headline token).toList ++
      '\n' :: '\n' :: (source.toList ++ '\n' :: List.replicate (indent token) ' ')) ++
        '^' :: '\n' :: '\n' :: report.message.toList := by
    rw [toList_diagnostic blamed]
    simp
  rw [shown, length, List.getElem?_append_right (Nat.le_refl _), Nat.sub_self]
  rfl

theorem directlyBelow_caret_iff {report : Report} {token : Token}
    (blamed : report.token = some token) {source : String} (stands : token.StandsIn source) :
    Text.DirectlyBelow (report.diagnostic source).toList (report.tokenPlace token)
      (report.caretPlace token source) ↔ '\n' ∉ source.toList := by
  obtain ⟨before, after, split, place⟩ := indent_of_standsIn stands
  generalize opens : (report.headline token).toList ++ ['\n'] = opening
  have length : opening.length = (report.headline token).length + 1 := by
    rw [← opens, List.length_append, String.length_toList, List.length_singleton]
  have upper : report.tokenPlace token = opening.length + (before.length + 1) := by
    rw [tokenPlace, place, length]
    omega
  have lower : report.caretPlace token source =
      opening.length + (source.toList.length + (before.length + 1) + 1) := by
    rw [caretPlace, place, length, String.length_toList]
    omega
  rw [toList_diagnostic blamed, upper, lower, opens, place, split]
  exact Text.directlyBelow_iff

end Report

/-- Whenever a source is refused and a token is blamed, the diagnostic shows the token and the
caret, and the caret is directly below the first character of the token exactly if the source has
no line end in it. -/
theorem caret_below_token_iff {source : String} {fault : Fault} {report : Report} {token : Token}
    (refused : (Expr.read source : Except Fault (Expr Float Token)) = .error fault)
    (reported : fault.report? = some report) (blamed : report.token = some token) :
    token.StandsIn source ∧
      token.text.toList <+: (report.diagnostic source).toList.drop (report.tokenPlace token) ∧
      (report.diagnostic source).toList[report.caretPlace token source]? = some '^' ∧
      (Text.DirectlyBelow (report.diagnostic source).toList (report.tokenPlace token)
        (report.caretPlace token source) ↔ '\n' ∉ source.toList) := by
  obtain ⟨found, same, refusal⟩ := exists_refusal_of_read refused
  rw [reported] at same
  cases same
  have stands : token.StandsIn source := by
    cases refusal with
    | stray _ stands => cases blamed; exact stands
    | empty _ _ => cases blamed
    | misplaced _ stands => cases blamed; exact stands
  exact ⟨stands, Report.token_shown blamed stands, Report.caret_shown blamed source,
    Report.directlyBelow_caret_iff blamed stands⟩

/-- In `2 # x` the caret is below the character that starts no token. -/
theorem caret_below_token_line :
    let token : Token := ⟨.stray, "#", 3, 0⟩
    let report : Report := ⟨.lexical, "String is not a valid token.", some token⟩
    (Expr.read "2 # x" : Except Fault (Expr Float Token)) = .error (.strayCharacter token) ∧
      Text.DirectlyBelow (report.diagnostic "2 # x").toList (report.tokenPlace token)
        (report.caretPlace token "2 # x") := by
  intro token report
  have lexes : (Lexed.ofSource "2 # x").prioritized = .error token := by decide +kernel
  have refused : (Expr.read "2 # x" : Except Fault (Expr Float Token)) =
      .error (.strayCharacter token) := by
    rw [Expr.read, Parsing.ofSource, lexes]
  have reported : (Fault.strayCharacter token).report? = some report := rfl
  have below := (caret_below_token_iff refused reported rfl).2.2.2
  exact ⟨refused, below.mpr (by decide)⟩

/-- In `x` and `+ #` on two lines it is not. The character is the third of its line, and the caret
the fifth of the next one. -/
theorem caret_not_below_token_lines :
    let token : Token := ⟨.stray, "#", 5, 0⟩
    let report : Report := ⟨.lexical, "String is not a valid token.", some token⟩
    let shown := (report.diagnostic "x\n+ #").toList
    (Expr.read "x\n+ #" : Except Fault (Expr Float Token)) = .error (.strayCharacter token) ∧
      (Fault.strayCharacter token).report? = some report ∧
      ¬Text.DirectlyBelow shown (report.tokenPlace token) (report.caretPlace token "x\n+ #") ∧
      Text.offset shown (report.tokenPlace token) = 2 ∧
      Text.offset shown (report.caretPlace token "x\n+ #") = 4 := by
  intro token report shown
  have lexes : (Lexed.ofSource "x\n+ #").prioritized = .error token := by decide +kernel
  have places : Text.offset shown (report.tokenPlace token) = 2 ∧
      Text.offset shown (report.caretPlace token "x\n+ #") = 4 := by
    decide +kernel
  refine ⟨?_, rfl, ?_, places⟩
  · rw [Expr.read, Parsing.ofSource, lexes]
  · rintro ⟨_, aligned⟩
    rw [places.1, places.2] at aligned
    exact absurd aligned (by decide)

end Fluxion
