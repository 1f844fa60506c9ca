import Fluxion.Proofs.Dag.Listing

/-!
# The table of a sweep

A sweep fills its table from the operands upwards. If a step asks for nothing but
the operands of its node, later entries do not matter to earlier ones, so each entry
is what the step makes of the finished table: a node that is shared is looked up
there under its identity, whoever asks for it. Beside its node a step is told a
place, which is that of the node in the listing.
-/

namespace Fluxion.Dag

variable {ν β : Type}

/-! ## Places -/

/-- The place of a node in the listing of an expression. -/
def place (expr node : Dag ν) : Nat :=
  expr.nodes.findIdx fun other => other.id == node.id

variable {expr node : Dag ν}

theorem place_lt (isCoherent : Coherent expr) (reached : Reaches expr node) :
    expr.place node < expr.count :=
  List.findIdx_lt_length_of_exists
    ⟨node, (mem_nodes_iff isCoherent).mpr reached, beq_self_eq_true node.id⟩

theorem getElem?_place (isCoherent : Coherent expr) (reached : Reaches expr node) :
    expr.nodes[expr.place node]? = some node := by
  have inside := place_lt isCoherent reached
  have here : expr.nodes[expr.place node] ∈ expr.nodes := List.getElem_mem inside
  have same : expr.nodes[expr.place node].id = node.id :=
    beq_iff_eq.mp (List.findIdx_getElem (w := inside))
  rw [List.getElem?_eq_getElem inside,
    isCoherent _ node ((mem_nodes_iff isCoherent).mp here) reached same]

/-- Nodes have places of their own. -/
theorem eq_of_place_eq (isCoherent : Coherent expr) {other : Dag ν} (reached : Reaches expr node)
    (reachedOther : Reaches expr other) (same : expr.place node = expr.place other) :
    node = other := by
  have here := getElem?_place isCoherent reached
  rw [same, getElem?_place isCoherent reachedOther] at here
  exact (Option.some.inj here).symm

/-! ## Entries -/

/-- A step that asks for nothing but the operands of its node. -/
def IsLocal (step : Nat → (Dag ν → Option β) → Dag ν → β) : Prop :=
  ∀ place known known' node, (∀ child ∈ node.operands, known child = known' child) →
    step place known node = step place known' node

/-- An entry for a new node leaves what is looked up for others as it was. -/
theorem getElem?_insert_of_isNew {table : Table β} {passed : List (Dag ν)} {node other : Dag ν}
    (isNew : node.id ∉ passed.map Expr.id) (listed : other ∈ passed) (result : β) :
    (table.insert node.id result)[other.id]? = table[other.id]? := by
  rw [Std.HashMap.getElem?_insert, if_neg]
  rw [beq_iff_eq]
  intro same
  exact isNew (same ▸ List.mem_map_of_mem listed)

/-- Every entry of the table is what the step makes of the finished table. -/
theorem sweep_eq {step : Nat → (Dag ν → Option β) → Dag ν → β} (isLocal : IsLocal step)
    (isCoherent : Coherent expr) (reached : Reaches expr node) :
    (expr.sweep step)[node.id]? =
      some (step (expr.place node) (fun other => (expr.sweep step)[other.id]?) node) := by
  suffices entries : (∀ node ∈ expr.nodes, ∀ child ∈ node.operands, child ∈ expr.nodes) ∧
      ∀ place node, expr.nodes[place]? = some node → (expr.sweep step)[node.id]? =
        some (step place (fun other => (expr.sweep step)[other.id]?) node) by
    exact entries.2 _ node (getElem?_place isCoherent reached)
  -- What was passed holds its own operands, so no entry depends on one that comes later.
  refine sweep_induction (motive := fun passed table =>
    (∀ node ∈ passed, ∀ child ∈ node.operands, child ∈ passed) ∧
      ∀ place node, passed[place]? = some node →
        table[node.id]? = some (step place (fun other => table[other.id]?) node))
    isCoherent (by simp) ?_
  rintro passed node table _ _ operands isNew ⟨closed, entries⟩
  constructor
  · intro other listed child member
    rcases List.mem_append.mp listed with listed | listed
    · exact List.mem_append_left _ (closed other listed child member)
    · rw [List.mem_singleton.mp listed] at member
      exact List.mem_append_left _ (operands child member)
  · intro place other here
    rw [List.getElem?_append] at here
    split at here
    · have listed := List.mem_of_getElem? here
      rw [getElem?_insert_of_isNew isNew listed, entries place other here]
      refine congrArg some (isLocal place _ _ other ?_)
      intro child member
      exact (getElem?_insert_of_isNew isNew (closed other listed child member) _).symm
    · next isBehind =>
      rw [List.getElem?_singleton] at here
      split at here
      · next isLast =>
        cases here
        have placed : place = passed.length := by omega
        rw [placed, Std.HashMap.getElem?_insert_self]
        refine congrArg some (isLocal passed.length _ _ node ?_)
        intro child member
        exact (getElem?_insert_of_isNew isNew (operands child member) _).symm
      · cases here

end Fluxion.Dag
