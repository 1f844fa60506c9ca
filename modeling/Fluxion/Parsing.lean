import Fluxion.Expr.Printer
import Fluxion.Fault
import Fluxion.Pending
import Fluxion.Token.Lexer

/-!
# Parsing by priority

No grammar drives the parser. All tokens are pending at first, and again and
again the one with the highest priority, the first of them on a tie, is reduced
to an expression together with the expressions it takes as operands from its
sides. When no token is left there must be one expression.

The reductions are part of the answer, in their order and up to a fault.
-/

namespace Fluxion

variable {ν : Type}

/-- What the parser has in a slot: a token, or an expression whose marks are the
tokens that its nodes come from. -/
inductive Entry (ν : Type) where
  | token (token : Token)
  | expr (expr : Expr ν Token)

namespace Entry

/-- The priority of what is still to be reduced. -/
def rank : Entry ν → Option Int
  | token pending => some pending.priority
  | expr _ => none

/-- The token that an entry comes from. -/
def source : Entry ν → Token
  | token pending => pending
  | expr done => done.mark

end Entry

/-- The slot on a side of another. -/
def Side.neighbour? {ε : Type} (side : Side) (pending : Pending ε) (i : Nat) : Option Nat :=
  match side with
  | .left => pending.before? i
  | .right => pending.behind? i

/-- A token was reduced to an expression. -/
structure Reduction (ν : Type) where
  token : Token
  result : Expr ν Token

/-- The reductions that were made and how they ended. -/
structure Parsing (ν : Type) where
  reductions : List (Reduction ν)
  outcome : Except Fault (Expr ν Token)

namespace Parsing

/-- Extracts the operand on a side of slot `i`, where `token` is reduced. -/
def takeOperand (pending : Pending (Entry ν)) (i : Nat) (token : Token) (side : Side) :
    Except Fault (Expr ν Token × Pending (Entry ν)) :=
  match (side.neighbour? pending i).bind pending.extract? with
  | some (some (.expr expr), rest) => .ok (expr, rest)
  | some (some (.token other), _) => .error (.unexpectedToken other)
  | _ => .error (.missingOperand side token)

/-- Extracts the parenthesis that closes the one in slot `i`. -/
def takeClosing (pending : Pending (Entry ν)) (i : Nat) (token : Token) :
    Except Fault (Pending (Entry ν)) :=
  match (pending.behind? i).bind pending.extract? with
  | some (some entry, rest) =>
      match entry with
      | .token ⟨.closeParen, _, _, _⟩ => .ok rest
      | _ => .error (.unclosedParen entry.source)
  | _ => .error (.unclosedParen token)

/-- The expression that the token in slot `i` is reduced to, and what is pending
once its operands are taken. Parentheses only put their mark on what they
enclose: the shape of the expression keeps the grouping. -/
def reduce [Numeral ν] (pending : Pending (Entry ν)) (i : Nat) (token : Token) :
    Except Fault (Expr ν Token × Pending (Entry ν)) :=
  match token.kind with
  | .operator => do
      let (left, afterLeft) ← takeOperand pending i token .left
      let (right, afterRight) ← takeOperand afterLeft i token .right
      match Operator.ofText? token.text with
      | some operator => .ok (.binary token operator left right, afterRight)
      | none => .error (.unknownName token.text)
  | .openParen => do
      let (content, afterContent) ← takeOperand pending i token .right
      let rest ← takeClosing afterContent i token
      .ok (content.withMark token, rest)
  | .function =>
      match Elementary.ofName? token.text with
      | some function => do
          let (argument, rest) ← takeOperand pending i token .right
          .ok (.apply token function argument, rest)
      | none => .error (.unknownName token.text)
  | .identifier => .ok (.var token token.text, pending)
  | .number =>
      match Numeral.read? token.text with
      | some value => .ok (.num token value, pending)
      | none => .error (.unreadableNumber token.text)
  | .closeParen | .stray => .error (.unmatchedParen token)

/-- The answer when no token is pending any more. -/
def finish (pending : Pending (Entry ν)) : Except Fault (Expr ν Token) :=
  match pending.first.bind pending.entry? with
  | none => .error .emptyInput
  | some entry =>
      if 1 < pending.count then .error (.severalValues entry.source)
      else
        match entry with
        | .expr expr => .ok expr
        | .token token => .error (.unexpectedToken token)

/-- Reduces pending tokens for at most `steps` steps. Every step reduces one
token and adds none, so as many steps as there are tokens are enough. -/
def reduceAll [Numeral ν] : Nat → Pending (Entry ν) → Parsing ν
  | 0, pending => ⟨[], finish pending⟩
  | steps + 1, pending =>
      match pending.highest? Entry.rank with
      | none => ⟨[], finish pending⟩
      | some i =>
          match pending.entry? i with
          | some (.token token) =>
              match reduce pending i token with
              | .error fault => ⟨[], .error fault⟩
              | .ok (expr, rest) =>
                  let later := reduceAll steps (rest.replace i (.expr expr))
                  ⟨⟨token, expr⟩ :: later.reductions, later.outcome⟩
          | _ => ⟨[], finish pending⟩

/-- Parses tokens that carry their priorities. -/
def ofTokens [Numeral ν] (tokens : List Token) : Parsing ν :=
  reduceAll tokens.length (Pending.ofList (tokens.map .token))

/-- Parses a source. A stray character anywhere in it is found before anything
is reduced. -/
def ofSource [Numeral ν] (source : String) : Parsing ν :=
  match (Lexed.ofSource source).prioritized with
  | .ok tokens => ofTokens tokens
  | .error stray => ⟨[], .error (.strayCharacter stray)⟩

end Parsing

namespace Expr

variable [Numeral ν] {α : Type}

/-- The expression that a source says. -/
def read (source : String) : Except Fault (Expr ν Token) :=
  (Parsing.ofSource source).outcome

theorem read_eq_ok_iff {source : String} {tree : Expr ν Token} :
    read source = .ok tree ↔ ∃ tokens, (Lexed.ofSource source).prioritized = .ok tokens ∧
      (Parsing.ofTokens tokens).outcome = .ok tree := by
  rw [read, Parsing.ofSource]
  cases (Lexed.ofSource source).prioritized with
  | error stray => simp
  | ok tokens => simp

/-- Whether the text of an expression reads back as an expression alike. -/
def readsBack [Arithmetic ν] (expr : Expr ν α) : Except Fault Bool :=
  (read (ν := ν) expr.render).map fun again => again.alike (fun _ _ => false) expr

end Expr

end Fluxion
