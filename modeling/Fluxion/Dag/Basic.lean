import Fluxion.Expr.Basic
import Fluxion.Token.Basic

/-!
# Expressions with shared nodes

A node may be an operand in several places. To say so, nodes have identities:
subexpressions with one identity are one node. In an expression that is put
together by the operations of this library they are then equal as values too,
which `Coherent` states.

Fresh identities are taken from a supply, which is a number: everything below
it is taken. An operation says how far it moves the supply.
-/

namespace Fluxion

/-- The mark of a node with an identity: who it is, and the token it comes from
if it comes from a text. -/
structure Tag where
  id : Nat
  source : Option Token
  deriving DecidableEq

/-- An expression whose nodes have identities. -/
abbrev Dag (ν : Type) : Type :=
  Expr ν Tag

/-- An expression whose nodes are told apart by their place alone. -/
abbrev Tree (ν : Type) : Type :=
  Expr ν (Option Token)

/-- The identity of a node. -/
def Expr.id {ν : Type} (node : Expr ν Tag) : Nat :=
  node.mark.id

/-- The token that a node comes from. -/
def Expr.source {ν : Type} (node : Expr ν Tag) : Option Token :=
  node.mark.source

namespace Dag

variable {ν α : Type}

/-- The expression without its identities: every way to a node leads to a copy
of its own. -/
def unfold (expr : Dag ν) : Tree ν :=
  expr.map Tag.source

/-- Gives every node of an expression a fresh identity, operands before their
operator, and returns the supply behind them. -/
def fresh (source : α → Option Token) (next : Nat) : Expr ν α → Dag ν × Nat
  | .num m value => (.num ⟨next, source m⟩ value, next + 1)
  | .var m name => (.var ⟨next, source m⟩ name, next + 1)
  | .binary m operator left right =>
      let (left, afterLeft) := fresh source next left
      let (right, afterRight) := fresh source afterLeft right
      (.binary ⟨afterRight, source m⟩ operator left right, afterRight + 1)
  | .apply m function argument =>
      let (argument, afterArgument) := fresh source next argument
      (.apply ⟨afterArgument, source m⟩ function argument, afterArgument + 1)

/-- Numbering changes nothing but the marks. -/
theorem unfold_fresh (source : α → Option Token) (next : Nat) (expr : Expr ν α) :
    unfold (fresh source next expr).1 = expr.map source := by
  induction expr generalizing next <;> simp_all [fresh, unfold, Expr.map]

/-- Every node gets an identity of its own. -/
theorem fresh_snd (source : α → Option Token) (next : Nat) (expr : Expr ν α) :
    (fresh source next expr).2 = next + expr.size := by
  induction expr generalizing next <;> simp_all [fresh, Expr.size] <;> omega

/-- The nodes below an expression, the expression itself among them. -/
inductive Reaches : Dag ν → Dag ν → Prop where
  | root (expr : Dag ν) : Reaches expr expr
  | operand {expr child node : Dag ν} : child ∈ expr.operands → Reaches child node →
      Reaches expr node

/-- Subexpressions with one identity are equal. -/
def Coherent (expr : Dag ν) : Prop :=
  ∀ m n : Dag ν, Reaches expr m → Reaches expr n → m.id = n.id → m = n

/-- All identities in the expression lie below a supply. -/
def Below (next : Nat) (expr : Dag ν) : Prop :=
  ∀ node : Dag ν, Reaches expr node → node.id < next

section Arithmetic

variable [Arithmetic ν]

/-- Whether two expressions are equal in shape, names and numbers. A node
equals itself whatever it holds, even a NaN. -/
def alike (left right : Dag ν) : Bool :=
  Expr.alike (fun m n => m.id == n.id) left right

end Arithmetic

end Dag

end Fluxion
