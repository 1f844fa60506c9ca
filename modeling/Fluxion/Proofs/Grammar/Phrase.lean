import Fluxion.Expr.Basic
import Fluxion.Numeral
import Fluxion.Token.Basic

/-!
# Phrases and the grammar of expressions

The parser has no grammar; this is the grammar that it turns out to follow. A
phrase is a derivation tree over tokens, parentheses included. `Derives` lists
the productions of the four syntactic categories, from the loosest to the
tightest, and every level takes its operators from the left.

A phrase says an expression. Parentheses leave no node behind, but they are
where the node that they directly enclose is said to come from.
-/

namespace Fluxion

/-- A derivation tree over tokens. -/
inductive Phrase where
  | atom (token : Token)
  | binary (left : Phrase) (operator : Token) (right : Phrase)
  | apply (function : Token) (argument : Phrase)
  | group (opening : Token) (content : Phrase) (closing : Token)

/-- The syntactic categories, the loosest first. -/
inductive Category where
  | expression
  | term
  | power
  | atom

/-- The productions of the grammar. -/
inductive Derives : Category → Phrase → Prop
  | sum {left right : Phrase} {operator : Token} :
      Derives .expression left → operator.kind = .operator →
      operator.text = "+" ∨ operator.text = "-" → Derives .term right →
      Derives .expression (.binary left operator right)
  | ofTerm {phrase : Phrase} : Derives .term phrase → Derives .expression phrase
  | product {left right : Phrase} {operator : Token} :
      Derives .term left → operator.kind = .operator →
      operator.text = "*" ∨ operator.text = "/" → Derives .power right →
      Derives .term (.binary left operator right)
  | ofPower {phrase : Phrase} : Derives .power phrase → Derives .term phrase
  | power {left right : Phrase} {operator : Token} :
      Derives .power left → operator.kind = .operator → operator.text = "^" →
      Derives .atom right → Derives .power (.binary left operator right)
  | ofAtom {phrase : Phrase} : Derives .atom phrase → Derives .power phrase
  | number {token : Token} : token.kind = .number → Derives .atom (.atom token)
  | identifier {token : Token} : token.kind = .identifier → Derives .atom (.atom token)
  | application {function opening closing : Token} {argument : Phrase} :
      function.kind = .function → opening.kind = .openParen → Derives .expression argument →
      closing.kind = .closeParen →
      Derives .atom (.apply function (.group opening argument closing))
  | group {opening closing : Token} {content : Phrase} :
      opening.kind = .openParen → Derives .expression content → closing.kind = .closeParen →
      Derives .atom (.group opening content closing)

namespace Phrase

/-- The tokens of a phrase, from left to right. -/
def tokens : Phrase → List Token
  | atom token => [token]
  | binary left operator right => left.tokens ++ operator :: right.tokens
  | apply function argument => function :: argument.tokens
  | group opening content closing => opening :: (content.tokens ++ [closing])

/-- The token that decides what a phrase is. -/
def root : Phrase → Token
  | atom token => token
  | binary _ operator _ => operator
  | apply function _ => function
  | group opening _ _ => opening

section Numeral

variable {ν : Type} [Numeral ν]

/-- The expression that a phrase says, if its tokens can be read. Each node has
its own token for its mark unless parentheses directly enclose the phrase:
`enclosing` is the outermost of these. -/
def exprWithin (enclosing : Option Token) : Phrase → Option (Expr ν Token)
  | atom token =>
      match token.kind with
      | .number => (Numeral.read? token.text).map (.num (enclosing.getD token))
      | .identifier => some (.var (enclosing.getD token) token.text)
      | _ => none
  | binary left operator right =>
      (Operator.ofText? operator.text).bind fun symbol =>
        (left.exprWithin none).bind fun leftExpr =>
          (right.exprWithin none).map fun rightExpr =>
            .binary (enclosing.getD operator) symbol leftExpr rightExpr
  | apply function argument =>
      (Elementary.ofName? function.text).bind fun elementary =>
        (argument.exprWithin none).map fun argumentExpr =>
          .apply (enclosing.getD function) elementary argumentExpr
  | group opening content _ => content.exprWithin (some (enclosing.getD opening))

/-- The expression that a phrase says. -/
def expr? (phrase : Phrase) : Option (Expr ν Token) :=
  phrase.exprWithin none

/-- Enclosing parentheses only change where the root comes from. -/
theorem exprWithin_some (enclosing : Token) (phrase : Phrase) :
    (phrase.exprWithin (some enclosing) : Option (Expr ν Token)) =
      phrase.expr?.map (Expr.withMark enclosing) := by
  induction phrase generalizing enclosing with
  | atom token =>
      simp only [expr?, exprWithin, Option.getD_some, Option.getD_none]
      cases token.kind <;> simp [Expr.withMark, Function.comp_def]
  | binary left operator right _ _ =>
      simp only [expr?, exprWithin, Option.map_bind, Function.comp_def, Option.map_map]
      rfl
  | apply function argument _ =>
      simp only [expr?, exprWithin, Option.map_bind, Function.comp_def, Option.map_map]
      rfl
  | group opening content closing ih =>
      simp only [expr?, exprWithin, Option.getD_some, Option.getD_none]
      rw [ih, ih, Option.map_map]
      congr 1
      funext expr
      cases expr <;> rfl

/-! ## Phrases that say an expression -/

theorem expr?_binary_eq_some_iff {left right : Phrase} {operator : Token} {expr : Expr ν Token} :
    (binary left operator right).expr? = some expr ↔
      ∃ symbol leftExpr rightExpr, Operator.ofText? operator.text = some symbol ∧
        left.expr? = some leftExpr ∧ right.expr? = some rightExpr ∧
        expr = .binary operator symbol leftExpr rightExpr := by
  simp only [expr?, exprWithin, Option.bind_eq_some_iff, Option.map_eq_some_iff,
    Option.getD_none]
  constructor
  · rintro ⟨symbol, symbolEq, leftExpr, leftEq, rightExpr, rightEq, rfl⟩
    exact ⟨symbol, leftExpr, rightExpr, symbolEq, leftEq, rightEq, rfl⟩
  · rintro ⟨symbol, leftExpr, rightExpr, symbolEq, leftEq, rightEq, rfl⟩
    exact ⟨symbol, symbolEq, leftExpr, leftEq, rightExpr, rightEq, rfl⟩

theorem expr?_apply_eq_some_iff {function : Token} {argument : Phrase} {expr : Expr ν Token} :
    (apply function argument).expr? = some expr ↔
      ∃ elementary argumentExpr, Elementary.ofName? function.text = some elementary ∧
        argument.expr? = some argumentExpr ∧ expr = .apply function elementary argumentExpr := by
  simp only [expr?, exprWithin, Option.bind_eq_some_iff, Option.map_eq_some_iff,
    Option.getD_none]
  constructor
  · rintro ⟨elementary, found, argumentExpr, argumentEq, rfl⟩
    exact ⟨elementary, argumentExpr, found, argumentEq, rfl⟩
  · rintro ⟨elementary, argumentExpr, found, argumentEq, rfl⟩
    exact ⟨elementary, found, argumentExpr, argumentEq, rfl⟩

theorem expr?_group_eq_some_iff {opening closing : Token} {content : Phrase}
    {expr : Expr ν Token} :
    (group opening content closing).expr? = some expr ↔
      ∃ contentExpr, content.expr? = some contentExpr ∧ expr = contentExpr.withMark opening := by
  rw [expr?, exprWithin, exprWithin_some, Option.map_eq_some_iff]
  simp only [Option.getD_none, eq_comm]

end Numeral

end Phrase

end Fluxion
