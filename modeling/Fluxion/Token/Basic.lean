import Fluxion.Operator
import Fluxion.Text.Quoted

/-!
# Tokens

A token is a piece of the source with its kind, the column it starts at and a
priority. Priorities order the work of the parser: the higher a token's
priority, the sooner it is reduced.
-/

namespace Fluxion

/-- What a token is. A `stray` token is a character that starts no token. -/
inductive Token.Kind where
  | operator
  | number
  | identifier
  | function
  | openParen
  | closeParen
  | stray
  deriving DecidableEq

/-- A piece of the source. Columns count characters from 1 and are integers, as
priorities are, because tokens may also be made by hand. -/
structure Token where
  kind : Token.Kind
  text : String
  column : Int
  priority : Int
  deriving DecidableEq

namespace Token

/-- The priority of a token outside all parentheses, from its kind and text.
Operators, by their precedence, come after everything that stands for an
operand; a closing parenthesis comes last, so that it is still there when its
opening one is reduced. -/
def basePriority (kind : Kind) (text : String) : Int :=
  match kind with
  | .operator =>
      match Operator.ofText? text with
      | some operator => operator.precedence
      | none => 0
  | .number | .identifier | .function => 4
  | .openParen => 5
  | .closeParen | .stray => 0

/-- A token that is raised by one pair of parentheses outranks every token
outside it. -/
def parenOffset : Int :=
  6

/-- A token in words. -/
def description (token : Token) : String :=
  "Token(" ++ Text.quoted token.text ++ ", col=" ++ toString token.column
    ++ ", prio=" ++ toString token.priority ++ ")"

end Token

end Fluxion
