import Mathlib.Data.List.Perm.Subperm
import Mathlib.Data.List.Nodup
import Fluxion.Proofs.Dag.Listing

/-!
# The subterms of an expression

Every place in an expression is a subterm, and there are as many of them as the
size says. In an expression whose nodes have identities, places may share a node.
Where all identities differ, none do, and the count of nodes is the size; numbering
the nodes of an expression gives identities that differ.
-/

namespace Fluxion

namespace Expr

variable {ν α β : Type}

/-- The expression and everything below it, the operands of a node behind the node. -/
def subterms : Expr ν α → List (Expr ν α)
  | num m value => [num m value]
  | var m name => [var m name]
  | binary m operator left right =>
      binary m operator left right :: (left.subterms ++ right.subterms)
  | apply m function argument => apply m function argument :: argument.subterms

/-- The marks of all nodes. -/
def marks (expr : Expr ν α) : List α :=
  expr.subterms.map mark

theorem length_subterms (expr : Expr ν α) : expr.subterms.length = expr.size := by
  induction expr <;> simp_all [subterms, size]

theorem subterms_map (f : α → β) (expr : Expr ν α) :
    (expr.map f).subterms = expr.subterms.map (map f) := by
  induction expr with
  | num _ _ => rfl
  | var _ _ => rfl
  | binary _ _ _ _ left_ih right_ih => simp [map, subterms, left_ih, right_ih]
  | apply _ _ _ ih => simp [map, subterms, ih]

theorem marks_map (f : α → β) (expr : Expr ν α) : (expr.map f).marks = expr.marks.map f := by
  simp [marks, subterms_map, Function.comp_def]

/-- The mark of the root comes first. -/
theorem marks_eq_cons (expr : Expr ν α) :
    expr.marks = expr.mark :: expr.operands.flatMap marks := by
  cases expr <;> simp [marks, subterms, operands, mark]

theorem operands_withMark (m : α) (expr : Expr ν α) :
    (expr.withMark m).operands = expr.operands := by
  cases expr <;> rfl

/-- Another mark on the root replaces the first of the marks. -/
theorem marks_withMark (m : α) (expr : Expr ν α) :
    (expr.withMark m).marks = m :: expr.marks.tail := by
  rw [marks_eq_cons, mark_withMark, operands_withMark, marks_eq_cons expr, List.tail_cons]

end Expr

namespace Dag

variable {ν α : Type}

theorem mem_subterms_iff {expr node : Dag ν} : node ∈ expr.subterms ↔ Reaches expr node := by
  induction expr with
  | num tag value => simp [Expr.subterms, reaches_num_iff]
  | var tag name => simp [Expr.subterms, reaches_var_iff]
  | binary tag operator left right left_ih right_ih =>
      simp [Expr.subterms, reaches_binary_iff, left_ih, right_ih]
  | apply tag function argument ih => simp [Expr.subterms, reaches_apply_iff, ih]

/-- Where no two places have one identity, the nodes are the places. -/
theorem count_eq_size {expr : Dag ν} (unshared : (expr.subterms.map Expr.id).Nodup) :
    expr.count = expr.size := by
  have isCoherent : Coherent expr := by
    intro m n reachedM reachedN same
    exact List.inj_on_of_nodup_map unshared (mem_subterms_iff.mpr reachedM)
      (mem_subterms_iff.mpr reachedN) same
  have same : expr.nodes.Perm expr.subterms := by
    rw [List.perm_ext_iff_of_nodup (listing_nodes isCoherent).1.nodup.of_map unshared.of_map]
    intro node
    rw [mem_nodes_iff isCoherent, mem_subterms_iff]
  rw [count, same.length_eq, Expr.length_subterms]

/-- Numbering takes the identities from the supply one by one. -/
theorem ids_fresh (source : α → Option Token) (next : Nat) (expr : Expr ν α) :
    ((fresh source next expr).1.subterms.map Expr.id).Perm (List.range' next expr.size) := by
  induction expr generalizing next with
  | num m value => exact .refl _
  | var m name => exact .refl _
  | binary m operator left right left_ih right_ih =>
      have below := (left_ih next).append (right_ih (fresh source next left).2)
      simp only [fresh, Expr.subterms, List.map_cons, List.map_append, Expr.size]
      refine (below.cons _).trans ?_
      rw [fresh_snd source next left, List.range'_append_1, List.range'_concat]
      simp only [Expr.id, Expr.mark, fresh_snd, Nat.one_mul, Nat.add_assoc]
      exact (List.perm_append_singleton _ _).symm
  | apply m function argument ih =>
      simp only [fresh, Expr.subterms, List.map_cons, Expr.size]
      refine ((ih next).cons _).trans ?_
      rw [List.range'_concat]
      simp only [Expr.id, Expr.mark, fresh_snd, Nat.one_mul]
      exact (List.perm_append_singleton _ _).symm

/-- A numbered expression has a node for every place. -/
theorem count_fresh (source : α → Option Token) (next : Nat) (expr : Expr ν α) :
    (fresh source next expr).1.count = expr.size := by
  have distinct := (ids_fresh source next expr).nodup_iff.mpr List.nodup_range'
  rw [count_eq_size distinct, ← Expr.length_subterms, ← List.length_map Expr.id,
    (ids_fresh source next expr).length_eq, List.length_range']

end Dag

end Fluxion
