import Fluxion.Dag.Listing
import Fluxion.Evaluation.Value

/-!
# Evaluation of shared nodes

Each node is evaluated once, behind its operands. Arguments are given in the
ascending order of the free variables; arguments beyond them are ignored.
-/

namespace Fluxion.Dag

variable {ν : Type} [Arithmetic ν]

/-- The value of a node: `value` answers for its operands. -/
def evaluateNode (environment : String → Option (Value ν))
    (value : Dag ν → Except Fault (Value ν)) (node : Dag ν) : Except Fault (Value ν) :=
  match node with
  | .num _ number => .ok (.scalar number)
  | .var _ name =>
      match environment name with
      | some argument => .ok argument
      | none => .error (.missingArgument name)
  | .binary _ operator left right => do
      let x ← value left
      let y ← value right
      x.zip (Arithmetic.operate operator) y
  | .apply _ function argument => do
      let x ← value argument
      .ok (x.map (Arithmetic.apply function))

/-- The value of a node. To ask for it before it was computed is a fault. -/
def computed (node : Dag ν) (value : Option (Except Fault (Value ν))) : Except Fault (Value ν) :=
  value.getD (.error (.unknownValue node.id))

/-- The values of all nodes of an expression, each from those of its operands. -/
def values (environment : String → Option (Value ν)) (expr : Dag ν) :
    Table (Except Fault (Value ν)) :=
  expr.sweep fun _ value node =>
    evaluateNode environment (fun operand => computed operand (value operand)) node

/-- The environment that gives arguments to names in their order. -/
def environmentOf (names : List String) (arguments : List (Value ν)) (name : String) :
    Option (Value ν) :=
  (names.zip arguments).lookup name

/-- The value of an expression at arguments for its free variables. -/
def evaluateAt (arguments : List (Value ν)) (expr : Dag ν) : Except Fault (Value ν) :=
  computed expr (expr.values (environmentOf expr.variableNames arguments))[expr.id]?

end Fluxion.Dag
