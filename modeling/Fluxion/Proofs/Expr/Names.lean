import Fluxion.Expr.Basic

/-!
# The names of variables

The names in an expression as recursion finds them, and the same names each once and
in ascending order, as arguments are given for them. Sorting makes the order in which
they were found immaterial.
-/

namespace Fluxion

variable {ν α β : Type}

namespace Expr

/-- The names of the variables of an expression, from left to right. -/
def names : Expr ν α → List String
  | num _ _ => []
  | var _ name => [name]
  | binary _ _ left right => left.names ++ right.names
  | apply _ _ argument => argument.names

/-- The names of the variables of an expression, each once and in ascending order. -/
def sortedNames (expr : Expr ν α) : List String :=
  expr.names.eraseDups.mergeSort fun a b => !decide (b < a)

@[simp]
theorem names_map (f : α → β) (expr : Expr ν α) : (expr.map f).names = expr.names := by
  induction expr with
  | num _ _ => rfl
  | var _ _ => rfl
  | binary _ _ left right left_ih right_ih => rw [map, names, names, left_ih, right_ih]
  | apply _ _ argument ih => rw [map, names, names, ih]

end Expr

/-- Erasing duplicates leaves none. -/
theorem nodup_eraseDups {γ : Type} [BEq γ] [LawfulBEq γ] (entries : List γ) :
    entries.eraseDups.Nodup := by
  induction size : entries.length using Nat.strongRecOn generalizing entries with
  | ind size ih =>
      cases entries with
      | nil => exact List.nodup_nil
      | cons first rest =>
          rw [List.eraseDups_cons, List.nodup_cons]
          refine ⟨by simp, ih _ ?_ _ rfl⟩
          rw [← size]
          exact Nat.lt_succ_of_le (List.length_filter_le _ rest)

/-- Sorting names puts them in ascending order. -/
theorem pairwise_mergeSort_names (names : List String) :
    (names.mergeSort fun a b => !decide (b < a)).Pairwise fun a b => (!decide (b < a)) = true := by
  refine List.pairwise_mergeSort ?_ ?_ names
  · simp only [Bool.not_eq_true', decide_eq_false_iff_not, String.not_lt]
    intro a b c first second
    exact String.le_trans first second
  · simp only [Bool.or_eq_true, Bool.not_eq_true', decide_eq_false_iff_not, String.not_lt]
    exact String.le_total

theorem nodup_mergeSort_eraseDups (names : List String) :
    (names.eraseDups.mergeSort fun a b => !decide (b < a)).Nodup :=
  (List.mergeSort_perm _ _).nodup_iff.mpr (nodup_eraseDups names)

/-- Names that are sorted and each once are strictly ascending. -/
theorem pairwise_lt_mergeSort_eraseDups (names : List String) :
    (names.eraseDups.mergeSort fun a b => !decide (b < a)).Pairwise (· < ·) := by
  refine ((pairwise_mergeSort_names names.eraseDups).and (nodup_mergeSort_eraseDups names)).imp ?_
  intro a b order
  rw [Bool.not_eq_true', decide_eq_false_iff_not, String.not_lt] at order
  by_cases ascending : a < b
  · exact ascending
  · exact absurd (String.le_antisymm order.1 (String.not_lt.mp ascending)) order.2

/-- A sorted list without duplicates is determined by its members. -/
theorem mergeSort_eraseDups_congr {names names' : List String}
    (same : ∀ name, name ∈ names ↔ name ∈ names') :
    names.eraseDups.mergeSort (fun a b => !decide (b < a)) =
      names'.eraseDups.mergeSort (fun a b => !decide (b < a)) := by
  refine List.Perm.eq_of_pairwise ?_ (pairwise_mergeSort_names _) (pairwise_mergeSort_names _) ?_
  · simp only [Bool.not_eq_true', decide_eq_false_iff_not, String.not_lt]
    intro a b _ _ first second
    exact String.le_antisymm first second
  · have perm : names.eraseDups.Perm names'.eraseDups := by
      rw [List.perm_ext_iff_of_nodup (nodup_eraseDups names) (nodup_eraseDups names')]
      intro name
      rw [List.mem_eraseDups, List.mem_eraseDups]
      exact same name
    exact ((List.mergeSort_perm _ _).trans perm).trans (List.mergeSort_perm _ _).symm

end Fluxion
