import Fluxion.Expr.Printer
import Fluxion.Proofs.Expr.Names
import Fluxion.Proofs.Token.Spelling

/-!
# The tokens of a printed expression

The mathematical text of an expression is cut into the tokens that it was put
together from. A number in it always stands where an operand is expected, so its
sign is its own, and what stands behind a word or a number is a blank, an
operator or a parenthesis, none of which could continue it.
-/

namespace Fluxion.Expr

open Fluxion.Token

variable {ν α : Type}

/-! ## What an expression is about -/

/-- The numbers of an expression, from left to right. -/
def numbers : Expr ν α → List ν
  | num _ value => [value]
  | var _ _ => []
  | binary _ _ left right => left.numbers ++ right.numbers
  | apply _ _ argument => argument.numbers

/-! ## Spelling -/

variable [Numeral ν]

/-- A spelling in parentheses, if it has to be. -/
def enclosed (closed : Bool) (spelling : List (Kind × String)) : List (Kind × String) :=
  if closed then (.openParen, "(") :: (spelling ++ [(.closeParen, ")")]) else spelling

/-- The kinds and texts of the tokens that an expression is written with. -/
def spelling : Expr ν α → List (Kind × String)
  | num _ value => [(.number, Numeral.canonical value)]
  | var _ name => [(.identifier, name)]
  | binary _ operator left right =>
      enclosed (left.closedOnLeft operator) left.spelling ++
        (.operator, operator.text) :: enclosed (right.closedOnRight operator) right.spelling
  | apply _ function argument =>
      (.function, function.name) :: enclosed true argument.spelling

/-- Where an operand is expected, a text is cut into a spelled operand, whatever
ends it. -/
def CutsAs (text : String) (spelled : List (Kind × String)) : Prop :=
  ∀ rest, Ends rest → Cuts true (text.toList ++ rest) spelled false rest

theorem CutsAs.parenthesized {text : String} {spelled : List (Kind × String)}
    (cuts : CutsAs text spelled) (closed : Bool) :
    CutsAs (parenthesized closed text) (enclosed closed spelled) := by
  intro rest ends
  cases closed with
  | false => exact cuts rest ends
  | true =>
      have inside := cuts (')' :: rest) (ends_cons (by decide) rest)
      have whole := ((cuts_openParen true _).append inside).append (cuts_closeParen false rest)
      simpa [Expr.parenthesized, enclosed] using whole

/-- Operators are written with blanks around them, but for powers. -/
theorem CutsAs.between {left right : String} {leftSpelled rightSpelled : List (Kind × String)}
    (leftCuts : CutsAs left leftSpelled) (rightCuts : CutsAs right rightSpelled)
    (operator : Operator) :
    CutsAs (between operator left right)
      (leftSpelled ++ (.operator, operator.text) :: rightSpelled) := by
  intro rest ends
  have rightPart := rightCuts rest ends
  by_cases isPower : operator = .pow
  · subst isPower
    have leftPart := leftCuts ('^' :: (right.toList ++ rest)) (ends_cons (by decide) _)
    have whole := leftPart.append ((cuts_operator .pow (Or.inl rfl)).append rightPart)
    simpa [Expr.between] using whole
  · have spaced : Cuts false (' ' :: operator.symbol :: ' ' :: (right.toList ++ rest))
        ([(.operator, operator.text)] ++ rightSpelled) false rest :=
      .blank (by decide)
        ((cuts_operator operator (Or.inl rfl)).append (.blank (by decide) rightPart))
    have leftPart := leftCuts (' ' :: operator.symbol :: ' ' :: (right.toList ++ rest))
      (ends_cons (by decide) _)
    have whole := leftPart.append spaced
    cases operator with
    | pow => exact absurd rfl isPower
    | add => simpa [Expr.between, Operator.text, Operator.symbol] using whole
    | sub => simpa [Expr.between, Operator.text, Operator.symbol] using whole
    | mul => simpa [Expr.between, Operator.text, Operator.symbol] using whole
    | div => simpa [Expr.between, Operator.text, Operator.symbol] using whole

/-- A number or a name is an operand by itself. -/
theorem cutsAs_atom {kind : Kind} {text : String} (fits : kind.Fits text.toList)
    (isAtom : kind = .number ∨ kind = .identifier) : CutsAs text [(kind, text)] := by
  intro rest ends
  have cuts := cuts_of_fits fits (by rcases isAtom with rfl | rfl <;> decide) ends
  rw [String.ofList_toList] at cuts
  rcases isAtom with rfl | rfl <;> exact cuts

theorem cutsAs_apply {text : String} {spelled : List (Kind × String)} (cuts : CutsAs text spelled)
    (function : Elementary) :
    CutsAs (function.name ++ "(" ++ text ++ ")")
      ((.function, function.name) :: enclosed true spelled) := by
  intro rest ends
  have named := cuts_of_fits (fits_function function) (by decide)
    (ends_cons (c := '(') (by decide) (text.toList ++ ')' :: rest))
  rw [String.ofList_toList] at named
  have inside := cuts (')' :: rest) (ends_cons (by decide) rest)
  have whole := named.append
    (((cuts_openParen false _).append inside).append (cuts_closeParen false rest))
  simpa [enclosed] using whole

/-- A printed expression is cut into its spelling. -/
theorem cutsAs_render {expr : Expr ν α} (named : ∀ name ∈ expr.names, isVariable name = true)
    (fits : ∀ value ∈ expr.numbers, Kind.number.Fits (Numeral.canonical value).toList) :
    CutsAs expr.render expr.spelling := by
  induction expr with
  | num mark value => exact cutsAs_atom (fits value (by simp [numbers])) (Or.inl rfl)
  | var mark name => exact cutsAs_atom (fits_variable (named name (by simp [names]))) (Or.inr rfl)
  | binary mark operator left right left_ih right_ih =>
      have leftCuts := left_ih (fun name member => named name (by simp [names, member]))
        (fun value member => fits value (by simp [numbers, member]))
      have rightCuts := right_ih (fun name member => named name (by simp [names, member]))
        (fun value member => fits value (by simp [numbers, member]))
      exact (leftCuts.parenthesized _).between (rightCuts.parenthesized _) operator
  | apply mark function argument ih => exact cutsAs_apply (ih named fits) function

/-- A printed expression has the tokens of its spelling. -/
theorem exists_ofSource_render {expr : Expr ν α}
    (named : ∀ name ∈ expr.names, isVariable name = true)
    (fits : ∀ value ∈ expr.numbers, Kind.number.Fits (Numeral.canonical value).toList) :
    ∃ tokens, Lexed.ofSource expr.render = ⟨tokens, none⟩ ∧
      tokens.map Token.spelled = expr.spelling := by
  have cuts := cutsAs_render named fits [] ends_nil
  rw [List.append_nil] at cuts
  exact Lexed.exists_ofSource_of_cuts cuts

end Fluxion.Expr
