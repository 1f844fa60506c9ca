import Fluxion.Derivative.Dag
import Fluxion.Parsing
import Fluxion.Evaluation.Dag

/-!
# Named expressions

A definition gives a name to an expression, as in `f = x^2`. Its derivative has
the name with a prime, and its simplification has the same name.
-/

namespace Fluxion

/-- A name for an expression, with the supply of identities behind it. -/
structure Definition (ν : Type) where
  name : String
  body : Dag ν
  next : Nat

namespace Definition

variable {ν : Type}

/-- Defines a name by an expression that was read. -/
def ofExpr (name : String) (expr : Expr ν Token) : Definition ν :=
  let (body, next) := Dag.fresh some 0 expr
  ⟨name, body, next⟩

variable [Arithmetic ν]

/-- The derivative by a variable, with the remarks on its powers. What cannot
name a variable is refused. -/
def derivative (variableName : String) (definition : Definition ν) :
    Except Fault (Definition ν × List PowerRemark) :=
  if Token.isVariable variableName then
    let result := definition.body.differentiate variableName definition.next
    .ok (⟨definition.name ++ "\x27", result.derivative, result.next⟩, result.remarks)
  else .error (.invalidVariable variableName)

/-- The definition with its expression simplified. -/
def simplify (identities : Bool) (definition : Definition ν) : Definition ν :=
  let (body, next) := definition.body.simplify identities definition.next
  { definition with body, next }

/-- The definition as a text. -/
def render [Numeral ν] (definition : Definition ν) : String :=
  definition.name ++ " = " ++ Expr.render definition.body

end Definition

end Fluxion
