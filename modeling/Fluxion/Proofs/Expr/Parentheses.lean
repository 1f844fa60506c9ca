import Fluxion.Proofs.Expr.RoundTrip
import Fluxion.Proofs.Parsing.Soundness
import Fluxion.Proofs.Token.Stray

/-!
# No text has fewer parentheses

Whatever text reads as an expression of the shape of a given one, it has at least as many
opening parentheses as the text that is printed for this one. The derivation of the text
shows it: where the printer puts an operand in parentheses, the operand is weaker than the
operator needs it to be, so in the derivation it stands in a group, and a group holds a
parenthesis that the derivation of its content does without.

So no parenthesis of a printed expression can be spared. What is left when a pair is deleted
may still be read, but as something else.
-/

namespace Fluxion

open Fluxion.Token

/-! ## Counting parentheses -/

namespace Token

/-- The number of opening parentheses in a spelling. -/
def openings (spelling : List (Kind × String)) : Nat :=
  spelling.countP fun piece => piece.1 = .openParen

@[simp]
theorem openings_append (first second : List (Kind × String)) :
    openings (first ++ second) = openings first + openings second :=
  List.countP_append

@[simp]
theorem openings_cons (piece : Kind × String) (spelling : List (Kind × String)) :
    openings (piece :: spelling) = openings spelling + if piece.1 = .openParen then 1 else 0 := by
  simp [openings, List.countP_cons]

@[simp]
theorem openings_nil : openings [] = 0 :=
  rfl

/-- An opening parenthesis is held by the tokens of its kind, and by no others. -/
theorem count_of_fits {kind : Kind} {text : List Char} (fits : kind.Fits text)
    (kept : kind ≠ .stray) : text.count '(' = if kind = .openParen then 1 else 0 := by
  by_cases opens : kind = .openParen
  · subst opens
    rw [if_pos rfl, fits]
    rfl
  · rw [if_neg opens, List.count_eq_zero]
    intro member
    rcases punctuation_of_fits fits kept '(' member (by decide) with
      isOperator | ⟨isOpening, _⟩ | ⟨_, isClosing⟩
    · exact absurd isOperator (by decide)
    · exact opens isOpening
    · exact absurd isClosing (by decide)

end Token

namespace Lexed

/-- All parentheses of a text that is cut to its end are tokens. -/
theorem count_ofText (operandExpected : Bool) (column : Nat) (text : List Char)
    (clean : (ofText operandExpected column text).stray = none) :
    text.count '(' = openings ((ofText operandExpected column text).tokens.map Token.spelled) := by
  induction operandExpected, column, text using ofText.induct with
  | case1 => simp [ofText]
  | case2 operandExpected column c tail blank ih =>
      rw [ofText, if_pos blank] at clean ⊢
      have noParen : c ≠ '(' := by
        rintro rfl
        exact absurd blank (by decide)
      rw [List.count_cons_of_ne noParen]
      exact ih clean
  | case3 operandExpected column c tail solid lexeme isStray =>
      rw [ofText, if_neg solid, if_pos isStray] at clean
      cases clean
  | case4 operandExpected column c tail solid lexeme kept ih =>
      rw [ofText, if_neg solid, if_neg kept] at clean ⊢
      rw [← (scan_append operandExpected c tail).1, List.count_append, ih clean,
        count_of_fits (fits_scan operandExpected c tail) kept, Nat.add_comm, List.map_cons,
        openings_cons]
      rfl

theorem count_ofSource {source : String} (clean : (ofSource source).stray = none) :
    source.toList.count '(' = openings ((ofSource source).tokens.map Token.spelled) :=
  count_ofText true 1 source.toList clean

end Lexed

/-! ## Derivations need the parentheses -/

namespace Expr

variable {ν α β : Type} {related : ν → ν → Prop}

theorem Agrees.of_withMark {m : α} {expr : Expr ν α} {expr' : Expr ν β}
    (agrees : Agrees related (expr.withMark m) expr') : Agrees related expr expr' := by
  have back := agrees.withMark expr.mark
  cases expr <;> exact back

/-- Expressions that are alike agree. -/
theorem agrees_of_alike [Arithmetic ν] {expr : Expr ν α} {expr' : Expr ν β}
    (alike : expr.alike (fun _ _ => false) expr' = true) :
    Agrees (fun _ _ => True) expr expr' := by
  induction expr generalizing expr' with
  | num _ _ =>
      cases expr' <;> simp [Expr.alike] at alike
      exact .num trivial
  | var _ _ =>
      cases expr' <;> simp [Expr.alike] at alike
      subst alike
      exact .var
  | binary _ _ left right left_ih right_ih =>
      cases expr' <;> simp [Expr.alike] at alike
      obtain ⟨⟨rfl, leftAlike⟩, rightAlike⟩ := alike
      exact .binary (left_ih leftAlike) (right_ih rightAlike)
  | apply _ _ argument ih =>
      cases expr' <;> simp [Expr.alike] at alike
      obtain ⟨rfl, argumentAlike⟩ := alike
      exact .apply (ih argumentAlike)

theorem strength_le_four (expr : Expr ν α) : expr.strength ≤ 4 := by
  cases expr with
  | binary _ operator _ _ =>
      rw [strength]
      cases operator <;> decide
  | _ => exact Int.le_refl 4

variable [Numeral ν]

theorem openings_enclosed (closed : Bool) (spelling : List (Kind × String)) :
    openings (enclosed closed spelling) = openings spelling + if closed then 1 else 0 := by
  cases closed <;> simp [enclosed]

/-- Where an operand is put in parentheses only if its derivation has a pair of its own to spare,
the derivation has as many. -/
theorem openings_enclosed_le {closed : Bool} {spelling : List (Kind × String)} {spare : Prop}
    [Decidable spare] (needs : closed = true → spare) {bound : Nat}
    (le : openings spelling + (if spare then 1 else 0) ≤ bound) :
    openings (enclosed closed spelling) ≤ bound := by
  rw [openings_enclosed]
  by_cases isClosed : closed = true
  · rw [if_pos (needs isClosed)] at le
    rwa [if_pos isClosed]
  · rw [if_neg isClosed]
    exact Nat.le_trans (Nat.le_add_right _ _) le

/-- A derivation of an expression has as many parentheses as the expression is printed with,
and one more if it is stronger than the expression. -/
theorem openings_spelling_le {phrase : Phrase} (layered : phrase.Layered) {tree : Expr ν Token}
    (meaning : phrase.expr? = some tree) {expr : Expr ν β} (agrees : Agrees related tree expr) :
    openings expr.spelling + (if expr.strength < phrase.strength then 1 else 0) ≤
      openings (phrase.tokens.map Token.spelled) := by
  induction layered generalizing tree expr with
  | @atom token kind =>
      rw [Phrase.strength_atom kind]
      rcases kind with kind | kind
      · simp only [Phrase.expr?, Phrase.exprWithin, kind, Option.map_eq_some_iff] at meaning
        obtain ⟨value, _, rfl⟩ := meaning
        cases agrees
        simp [spelling, strength]
      · simp only [Phrase.expr?, Phrase.exprWithin, kind] at meaning
        cases meaning
        cases agrees
        simp [spelling, strength]
  | @binary left right operator symbol kind found _ leftStrong _ rightStrong left_ih right_ih =>
      obtain ⟨symbol', leftTree, rightTree, found', leftMeaning, rightMeaning, rfl⟩ :=
        Phrase.expr?_binary_eq_some_iff.mp meaning
      cases found.symm.trans found'
      cases agrees with
      | @binary _ n _ _ _ leftExpr rightExpr leftAgrees rightAgrees =>
      have onLeft := openings_enclosed_le
        (fun closed => Int.lt_of_lt_of_le (closedOnLeft_iff.mp closed) leftStrong)
        (left_ih leftMeaning leftAgrees)
      have onRight := openings_enclosed_le
        (fun closed => Int.lt_of_le_of_lt (closedOnRight_iff.mp closed) rightStrong)
        (right_ih rightMeaning rightAgrees)
      have noOpening : ¬(Kind.operator, symbol.text).1 = .openParen := by simp
      rw [Phrase.strength_binary kind found, spelling, strength, if_neg (Int.lt_irrefl _),
        Phrase.tokens, List.map_append, List.map_cons, openings_append, openings_append,
        openings_cons, openings_cons, if_neg noOpening]
      omega
  | @apply function argument kind _ strong ih =>
      obtain ⟨elementary, argumentTree, _, argumentMeaning, rfl⟩ :=
        Phrase.expr?_apply_eq_some_iff.mp meaning
      cases agrees with
      | @apply _ n _ _ argumentExpr argumentAgrees =>
      have weaker := Int.lt_of_le_of_lt argumentExpr.strength_le_four strong
      have inside := openings_enclosed_le (fun _ : true = true => weaker)
        (ih argumentMeaning argumentAgrees)
      have noOpening : ¬(Kind.function, elementary.name).1 = .openParen := by simp
      have asStrong : (Expr.apply n elementary argumentExpr).strength = 4 := rfl
      rw [Phrase.strength_apply kind, spelling, asStrong, if_neg (Int.lt_irrefl _),
        Phrase.tokens, List.map_cons, openings_cons, openings_cons, if_neg noOpening]
      omega
  | @group opening closing content opens _ closes ih =>
      obtain ⟨contentTree, contentMeaning, rfl⟩ := Phrase.expr?_group_eq_some_iff.mp meaning
      have inside := ih contentMeaning agrees.of_withMark
      have weaker : expr.strength < (5 : Int) :=
        Int.lt_of_le_of_lt expr.strength_le_four (by decide)
      have opensFirst : opening.spelled.1 = .openParen := opens
      rw [Phrase.strength_group opens, if_pos weaker, Phrase.tokens, List.map_cons,
        List.map_append, openings_cons, openings_append, if_pos opensFirst]
      omega

/-! ## Printed expressions -/

/-- Whatever text reads as an expression of this shape has as many opening parentheses. -/
theorem count_render_le {expr : Expr ν β}
    (named : ∀ name ∈ expr.names, isVariable name = true)
    (fits : ∀ x ∈ expr.numbers, Kind.number.Fits (Numeral.canonical x).toList)
    {source : String} {tree : Expr ν Token} (reads : read source = .ok tree)
    (agrees : Agrees related tree expr) :
    expr.render.toList.count '(' ≤ source.toList.count '(' := by
  have printed : expr.render.toList.count '(' = openings expr.spelling := by
    obtain ⟨tokens, lexed, spelled⟩ := exists_ofSource_render named fits
    rw [Lexed.count_ofSource (by rw [lexed]), lexed, spelled]
  obtain ⟨tokens, lexes, parsed⟩ := read_eq_ok_iff.mp reads
  obtain ⟨clean, rfl⟩ := Lexed.prioritized_eq_ok_iff.mp lexes
  obtain ⟨final, ranked⟩ := Lexed.ranked_of_prioritized lexes
  obtain ⟨phrase, layered, covers, meaning⟩ := Parsing.exists_phrase_of_outcome ranked parsed
  have needed := openings_spelling_le layered meaning agrees
  rw [covers, Lexed.map_spelled_raised] at needed
  rw [printed, Lexed.count_ofSource clean]
  exact Nat.le_trans (Nat.le_add_right _ _) needed

end Expr

/-- No parentheses of a printed expression can be spared. If a parenthesis is deleted and one
that closes behind it, what is left is not read as an expression of the same shape, let alone as
an equal one. -/
theorem Expr.not_alike_of_deleted {α : Type} {expr : Expr Float α}
    (named : ∀ name ∈ expr.names, isVariable name = true) {before inside after : String}
    (pair : expr.render = before ++ "(" ++ inside ++ ")" ++ after) :
    ∀ tree : Expr Float Token, Expr.read (before ++ inside ++ after) = .ok tree →
      ¬tree.Agrees (fun _ _ => True) expr ∧ tree.alike (fun _ _ => false) expr = false := by
  intro tree reads
  have notAgrees : ¬tree.Agrees (fun _ _ => True) expr := by
    intro agrees
    have needed := count_render_le named (fun x _ => Decimal.fits_canonical x) reads agrees
    have counted : expr.render.toList.count '(' =
        (before ++ inside ++ after).toList.count '(' + 1 := by
      rw [pair]
      simp [List.count_append]
      omega
    omega
  refine ⟨notAgrees, ?_⟩
  rw [← Bool.not_eq_true]
  exact fun alike => notAgrees (agrees_of_alike alike)

/-- Without its parentheses `1 - (2 - x)` is still read, but as `(1 - 2) - x`. -/
theorem Expr.not_alike_of_deleted_difference :
    let difference : Expr Float Unit :=
      .binary () .sub (.num () 1) (.binary () .sub (.num () 2) (.var () "x"))
    difference.render = "1 - " ++ "(" ++ "2 - x" ++ ")" ++ "" ∧
      ∃ tree : Expr Float Token, Expr.read "1 - 2 - x" = .ok tree ∧
        ¬tree.Agrees (fun _ _ => True) difference ∧
        tree.alike (fun _ _ => false) difference = false := by
  intro difference
  have named : ∀ name ∈ difference.names, isVariable name = true := by
    decide
  have pair : difference.render = "1 - " ++ "(" ++ "2 - x" ++ ")" ++ "" := by
    decide +kernel
  have isRead : (Expr.read "1 - 2 - x" : Except Fault (Expr Float Token)).isOk = true := by
    decide +kernel
  cases reads : (Expr.read "1 - 2 - x" : Except Fault (Expr Float Token)) with
  | error fault =>
      rw [reads] at isRead
      cases isRead
  | ok tree => exact ⟨pair, tree, rfl, Expr.not_alike_of_deleted named pair tree reads⟩

end Fluxion
