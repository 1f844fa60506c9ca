import Fluxion.Arithmetic

/-!
# Expressions

An expression is a number, a variable, an operator with two operands or an
elementary function with its argument. Every node carries a mark. What marks
are differs from stage to stage: the token a node was read from, a source that
may be missing, or also the identity of the node where nodes are shared. What
does not depend on marks is defined here once for all of them.
-/

namespace Fluxion

/-- An expression over the numbers `ν`, with a mark of type `α` on every
node. -/
inductive Expr (ν α : Type) where
  | num (mark : α) (value : ν)
  | var (mark : α) (name : String)
  | binary (mark : α) (operator : Operator) (left right : Expr ν α)
  | apply (mark : α) (function : Elementary) (argument : Expr ν α)

namespace Expr

variable {ν α β γ : Type}

/-- The mark of the root. -/
def mark : Expr ν α → α
  | num m _ | var m _ | binary m _ _ _ | apply m _ _ => m

/-- The expression with another mark on its root. -/
def withMark (m : α) : Expr ν α → Expr ν α
  | num _ value => num m value
  | var _ name => var m name
  | binary _ operator left right => binary m operator left right
  | apply _ function argument => apply m function argument

/-- The expression with a function applied to every mark. -/
def map (f : α → β) : Expr ν α → Expr ν β
  | num m value => num (f m) value
  | var m name => var (f m) name
  | binary m operator left right => binary (f m) operator (left.map f) (right.map f)
  | apply m function argument => apply (f m) function (argument.map f)

/-- The operands of the root, from left to right. -/
def operands : Expr ν α → List (Expr ν α)
  | num _ _ | var _ _ => []
  | binary _ _ left right => [left, right]
  | apply _ _ argument => [argument]

/-- The number of nodes, a node counted once for every way to it. -/
def size : Expr ν α → Nat
  | num _ _ | var _ _ => 1
  | binary _ _ left right => left.size + right.size + 1
  | apply _ _ argument => argument.size + 1

/-- The name of a variable. -/
def name? : Expr ν α → Option String
  | var _ name => some name
  | _ => none

@[simp]
theorem mark_map (f : α → β) (expr : Expr ν α) : (expr.map f).mark = f expr.mark := by
  cases expr <;> rfl

@[simp]
theorem mark_withMark (m : α) (expr : Expr ν α) : (expr.withMark m).mark = m := by
  cases expr <;> rfl

@[simp]
theorem size_map (f : α → β) (expr : Expr ν α) : (expr.map f).size = expr.size := by
  induction expr <;> simp_all [map, size]

@[simp]
theorem map_map (g : β → γ) (f : α → β) (expr : Expr ν α) :
    (expr.map f).map g = expr.map (g ∘ f) := by
  induction expr <;> simp_all [map]

theorem map_eq_num_iff {f : α → β} {expr : Expr ν α} {n : β} {value : ν} :
    expr.map f = num n value ↔ ∃ m, expr = num m value ∧ f m = n := by
  constructor
  · intro same
    cases expr <;> cases same
    exact ⟨_, rfl, rfl⟩
  · rintro ⟨m, rfl, rfl⟩
    rfl

theorem map_eq_var_iff {f : α → β} {expr : Expr ν α} {n : β} {name : String} :
    expr.map f = var n name ↔ ∃ m, expr = var m name ∧ f m = n := by
  constructor
  · intro same
    cases expr <;> cases same
    exact ⟨_, rfl, rfl⟩
  · rintro ⟨m, rfl, rfl⟩
    rfl

theorem map_eq_binary_iff {f : α → β} {expr : Expr ν α} {n : β} {operator : Operator}
    {left right : Expr ν β} :
    expr.map f = binary n operator left right ↔
      ∃ m left' right', expr = binary m operator left' right' ∧ f m = n ∧
        left'.map f = left ∧ right'.map f = right := by
  constructor
  · intro same
    cases expr <;> cases same
    exact ⟨_, _, _, rfl, rfl, rfl, rfl⟩
  · rintro ⟨m, left', right', rfl, rfl, rfl, rfl⟩
    rfl

theorem map_eq_apply_iff {f : α → β} {expr : Expr ν α} {n : β} {function : Elementary}
    {argument : Expr ν β} :
    expr.map f = apply n function argument ↔
      ∃ m argument', expr = apply m function argument' ∧ f m = n ∧
        argument'.map f = argument := by
  constructor
  · intro same
    cases expr <;> cases same
    exact ⟨_, _, rfl, rfl, rfl⟩
  · rintro ⟨m, argument', rfl, rfl, rfl⟩
    rfl

theorem forall_operands_binary_iff {p : Expr ν α → Prop} {m : α} {operator : Operator}
    {left right : Expr ν α} :
    (∀ child ∈ (binary m operator left right).operands, p child) ↔ p left ∧ p right := by
  simp [operands]

theorem forall_operands_apply_iff {p : Expr ν α → Prop} {m : α} {function : Elementary}
    {argument : Expr ν α} :
    (∀ child ∈ (apply m function argument).operands, p child) ↔ p argument := by
  simp [operands]

theorem left_mem_operands {m : α} {operator : Operator} {left right : Expr ν α} :
    left ∈ (binary m operator left right).operands :=
  List.mem_cons_self

theorem right_mem_operands {m : α} {operator : Operator} {left right : Expr ν α} :
    right ∈ (binary m operator left right).operands :=
  List.mem_cons_of_mem left List.mem_cons_self

theorem argument_mem_operands {m : α} {function : Elementary} {argument : Expr ν α} :
    argument ∈ (apply m function argument).operands :=
  List.mem_cons_self

theorem size_pos (expr : Expr ν α) : 0 < expr.size := by
  cases expr <;> simp [size]

section Arithmetic

variable [Arithmetic ν]

/-- A small whole number as an expression. -/
def int (m : α) (whole : Int) : Expr ν α :=
  num m (Arithmetic.ofInt whole)

/-- Whether the expression is a number equal to a small whole number. -/
def isInt : Expr ν α → Int → Bool
  | num _ value, whole => Arithmetic.isInt value whole
  | _, _ => false

/-- Whether two expressions have the same shape, operators, functions and
names, and the same numbers. Two nodes that `one` takes for one node are alike
without being looked into. -/
def alike (one : α → β → Bool) : Expr ν α → Expr ν β → Bool
  | num m x, num n y => one m n || Arithmetic.same x y
  | var m x, var n y => one m n || x == y
  | binary m o left right, binary n p left' right' =>
      one m n || (o == p && alike one left left' && alike one right right')
  | apply m f argument, apply n g argument' => one m n || (f == g && alike one argument argument')
  | _, _ => false

end Arithmetic

end Expr

end Fluxion
