import Fluxion.Expr.Basic
import Fluxion.Numeral
import Fluxion.Text.Quoted

/-!
# The texts of an expression

An expression has three texts: the mathematical one, with operators between
their operands and as few parentheses as the reader of it needs; the outline,
with one node to a line and operands indented below their operator; and the
construction, which spells out every node. None of them shows marks.
-/

namespace Fluxion.Expr

variable {ν α : Type} [Numeral ν]

/-! ## Mathematical text -/

/-- A left operand goes in parentheses when its own operator would not be taken
before the operator behind it. -/
def closedOnLeft (operator : Operator) : Expr ν α → Bool
  | binary _ inner _ _ => !inner.groupsBefore operator
  | _ => false

/-- A right operand goes in parentheses when the operator before it would be
taken first. -/
def closedOnRight (operator : Operator) : Expr ν α → Bool
  | binary _ inner _ _ => operator.groupsBefore inner
  | _ => false

/-- A text in parentheses, if it has to be. -/
def parenthesized (closed : Bool) (text : String) : String :=
  if closed then "(" ++ text ++ ")" else text

/-- An operator between two texts. Powers are written without spaces. -/
def between : Operator → String → String → String
  | .pow, left, right => left ++ "^" ++ right
  | operator, left, right => left ++ " " ++ operator.text ++ " " ++ right

/-- The mathematical text. -/
def render : Expr ν α → String
  | num _ value => Numeral.canonical value
  | var _ name => name
  | binary _ operator left right =>
      between operator (parenthesized (left.closedOnLeft operator) left.render)
        (parenthesized (right.closedOnRight operator) right.render)
  | apply _ function argument => function.name ++ "(" ++ argument.render ++ ")"

/-- How deep the calls nest that write the mathematical text. The text of a number is
written by a call of its own. -/
def nesting : Expr ν α → Nat
  | num _ _ => 2
  | var _ _ => 1
  | binary _ _ left right => max left.nesting right.nesting + 1
  | apply _ _ argument => argument.nesting + 1

/-! ## Outline -/

/-- What the line of a node shows. -/
def label : Expr ν α → String
  | num _ value => Numeral.canonical value
  | var _ name => name
  | binary _ operator _ _ => operator.text
  | apply _ function _ => function.name

/-- A line of the outline. -/
def outlineLine (indent : Nat) (label : String) : String :=
  String.ofList (List.replicate indent ' ') ++ "| " ++ label

/-- The lines of the outline, the root at some indent and each level two
columns further in. -/
def outlineLines (indent : Nat) (expr : Expr ν α) : List String :=
  outlineLine indent expr.label ::
    match expr with
    | num _ _ | var _ _ => []
    | binary _ _ left right => left.outlineLines (indent + 2) ++ right.outlineLines (indent + 2)
    | apply _ _ argument => argument.outlineLines (indent + 2)

/-- The outline. -/
def outline (expr : Expr ν α) : String :=
  "\n".intercalate (expr.outlineLines 0)

/-! ## Marks are not shown -/

section Map

variable {β : Type} (f : α → β)

end Map

/-! ## Construction -/

/-- The construction. -/
def construction : Expr ν α → String
  | num _ value => "Number(value=" ++ Numeral.literal value ++ ")"
  | var _ name => "Variable(name=" ++ Text.quoted name ++ ")"
  | binary _ operator left right =>
      "BinaryOp(op=op(" ++ Text.quoted operator.text ++ "), left=" ++ left.construction
        ++ ", right=" ++ right.construction ++ ")"
  | apply _ function argument =>
      "Function(func=func(" ++ Text.quoted function.name ++ "), arg=" ++ argument.construction
        ++ ")"

end Fluxion.Expr
