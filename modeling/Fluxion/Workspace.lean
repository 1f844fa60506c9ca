import Fluxion.Derivative.Dag
import Fluxion.Parsing
import Fluxion.Place

/-!
# Expressions in slots

A workspace holds expressions in named slots. They share one supply of
identities, so that an expression can be built from nodes in several slots and
nodes can be compared across them.
-/

namespace Fluxion

/-- A description of an expression to build. Operators, functions and numbers
are given by their texts, and a slot stands for the very node in it. -/
inductive Sketch where
  | num (text : String)
  | var (name : String)
  | binary (operator : String) (left right : Sketch)
  | apply (function : String) (argument : Sketch)
  | slot (name : String)
  deriving Inhabited

/-- Named slots with expressions; a slot that is filled again hides what it
held. Every identity below `next` is taken. -/
structure Workspace (ν : Type) where
  slots : List (String × Dag ν)
  next : Nat

namespace Workspace

variable {ν : Type}

/-- The workspace without slots. -/
def empty : Workspace ν :=
  ⟨[], 0⟩

/-- The node in a slot. -/
def get (workspace : Workspace ν) (slot : String) : Except Fault (Dag ν) :=
  match workspace.slots.lookup slot with
  | some node => .ok node
  | none => .error (.unknownName slot)

/-- Fills a slot. -/
def put (workspace : Workspace ν) (slot : String) (node : Dag ν) : Workspace ν :=
  { workspace with slots := (slot, node) :: workspace.slots }

/-- Gives every node of an expression that was read an identity. -/
def enter (workspace : Workspace ν) (expr : Expr ν Token) : Dag ν × Workspace ν :=
  let (node, next) := Dag.fresh some workspace.next expr
  (node, { workspace with next })

/-- Takes an identity for a node without a source. -/
def tag (workspace : Workspace ν) : Tag × Workspace ν :=
  (⟨workspace.next, none⟩, { workspace with next := workspace.next + 1 })

/-- Builds what a sketch describes, from the outside in: an operator or function
is looked up before what it is applied to is built. -/
def build [Numeral ν] (workspace : Workspace ν) : Sketch → Except Fault (Dag ν × Workspace ν)
  | .num text =>
      match Numeral.read? text with
      | some value =>
          let (tag, workspace) := workspace.tag
          .ok (.num tag value, workspace)
      | none => .error (.unreadableNumber text)
  | .var name =>
      let (tag, workspace) := workspace.tag
      .ok (.var tag name, workspace)
  | .binary text left right =>
      match Operator.ofText? text with
      | some operator => do
          let (left, workspace) ← workspace.build left
          let (right, workspace) ← workspace.build right
          let (tag, workspace) := workspace.tag
          .ok (.binary tag operator left right, workspace)
      | none => .error (.unknownName text)
  | .apply name argument =>
      match Elementary.ofName? name with
      | some function => do
          let (argument, workspace) ← workspace.build argument
          let (tag, workspace) := workspace.tag
          .ok (.apply tag function argument, workspace)
      | none => .error (.unknownName name)
  | .slot name => do
      let node ← workspace.get name
      .ok (node, workspace)

/-- Reads an expression. -/
def read [Numeral ν] (workspace : Workspace ν) (source : String) :
    Except Fault (Dag ν × Workspace ν) := do
  let expr ← Expr.read source
  .ok (workspace.enter expr)

/-- The derivative of a node by a variable, with the remarks on its powers. -/
def differentiate [Arithmetic ν] (workspace : Workspace ν) (name : String) (node : Dag ν) :
    Dag ν × List PowerRemark × Workspace ν :=
  let result := node.differentiate name workspace.next
  (result.derivative, result.remarks, { workspace with next := result.next })

/-- The simplification of a node. -/
def simplify [Arithmetic ν] (workspace : Workspace ν) (identities : Bool) (node : Dag ν) :
    Dag ν × Workspace ν :=
  let (result, next) := Dag.simplify identities workspace.next node
  (result, { workspace with next })

/-- An operand of a node by its place, counted from either end. -/
def operand (node : Dag ν) (index : Int) : Except Fault (Dag ν) :=
  match (place? node.operands.length index).bind (node.operands[·]?) with
  | some operand => .ok operand
  | none => .error (.outOfRange index)

end Workspace

end Fluxion
