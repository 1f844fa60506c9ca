import Fluxion.Proofs.Evaluation.Sharing

/-!
# Evaluation under an assignment

An assignment gives a number to every name. Arguments for the free variables of an
expression, taken from an assignment, give the value that recursion over the
expression gives: no variable is without an argument, and every node has been
evaluated when its value is asked for.
-/

namespace Fluxion

variable {ν α : Type} [Arithmetic ν]

/-- The value of an expression where names have numbers. -/
def Expr.valueUnder (assignment : String → ν) : Expr ν α → ν
  | num _ value => value
  | var _ name => assignment name
  | binary _ operator left right =>
      Arithmetic.operate operator (left.valueUnder assignment) (right.valueUnder assignment)
  | apply _ function argument => Arithmetic.apply function (argument.valueUnder assignment)

/-- Values do not depend on marks. -/
@[simp]
theorem Expr.valueUnder_map {β : Type} (f : α → β) (assignment : String → ν) (expr : Expr ν α) :
    (expr.map f).valueUnder assignment = expr.valueUnder assignment := by
  induction expr with
  | num _ _ => rfl
  | var _ _ => rfl
  | binary _ operator left right left_ih right_ih =>
      rw [Expr.map, Expr.valueUnder, Expr.valueUnder, left_ih, right_ih]
  | apply _ function argument ih => rw [Expr.map, Expr.valueUnder, Expr.valueUnder, ih]

namespace Dag

/-- Evaluates an expression at the arguments that an assignment gives to its free
variables. -/
def evaluateUnder (assignment : String → ν) (expr : Dag ν) : Except Fault (Value ν) :=
  expr.evaluateAt (expr.variableNames.map fun name => .scalar (assignment name))

omit [Arithmetic ν] in
/-- Every name that is listed gets its own argument. -/
theorem environmentOf_map {names : List String} {name : String} (f : String → Value ν)
    (member : name ∈ names) : environmentOf names (names.map f) name = some (f name) := by
  unfold environmentOf
  induction names with
  | nil => cases member
  | cons first rest ih =>
      rw [List.map_cons, List.zip_cons_cons, List.lookup_cons]
      by_cases same : (name == first) = true
      · rw [same, eq_of_beq same]
      · rw [Bool.not_eq_true] at same
        rw [same]
        rcases List.mem_cons.mp member with rfl | member
        · rw [beq_self_eq_true] at same
          cases same
        · exact ih member

/-- Where the variables of an expression have scalar values, it has one. -/
theorem evaluate_eq_valueUnder {expr : Dag ν} {assignment : String → ν}
    {environment : String → Option (Value ν)}
    (agrees : ∀ tag name, Reaches expr (.var tag name) →
      environment name = some (.scalar (assignment name))) :
    Expr.evaluate environment expr = .ok (.scalar (expr.valueUnder assignment)) := by
  induction expr with
  | num _ _ => rfl
  | var tag name =>
      rw [Expr.evaluate, agrees tag name (.root _)]
      rfl
  | binary _ operator left right left_ih right_ih =>
      rw [Expr.evaluate, left_ih fun tag name reached => agrees tag name (by simp [reached]),
        right_ih fun tag name reached => agrees tag name (by simp [reached])]
      rfl
  | apply _ function argument ih =>
      rw [Expr.evaluate, ih fun tag name reached => agrees tag name (by simp [reached])]
      rfl

/-- The evaluator gives the value under the assignment. -/
theorem evaluateUnder_eq {expr : Dag ν} (isCoherent : Coherent expr) (assignment : String → ν) :
    evaluateUnder assignment expr = .ok (.scalar (expr.valueUnder assignment)) := by
  have agrees : ∀ tag name, Reaches expr (.var tag name) →
      environmentOf expr.variableNames
        (expr.variableNames.map fun name => .scalar (assignment name)) name =
        some (.scalar (assignment name)) := by
    intro tag name reached
    exact environmentOf_map _ ((mem_variableNames_iff isCoherent).mpr ⟨tag, reached⟩)
  rw [evaluateUnder, evaluateAt_eq_evaluate _ isCoherent, evaluate_eq_valueUnder agrees]

end Dag

end Fluxion
