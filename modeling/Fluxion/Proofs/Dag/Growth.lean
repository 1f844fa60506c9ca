import Fluxion.Proofs.Dag.Listing

/-!
# Sweeps that make nodes

A rewriting sweep computes a node for every node of an expression, partly from
nodes that exist and partly from new ones. Each place of the listing has a block
of identities of its own for the nodes that it makes, so the old and the new nodes
stay one heap all along, and every result is coherent.
-/

namespace Fluxion.Dag

variable {ν β : Type}

/-! ## Unfolding, constructor by constructor -/

@[simp]
theorem unfold_num (tag : Tag) (value : ν) : unfold (.num tag value) = .num tag.source value :=
  rfl

@[simp]
theorem unfold_var (tag : Tag) (name : String) :
    unfold (.var tag name : Dag ν) = .var tag.source name :=
  rfl

@[simp]
theorem unfold_binary (tag : Tag) (operator : Operator) (left right : Dag ν) :
    unfold (.binary tag operator left right) =
      .binary tag.source operator (unfold left) (unfold right) :=
  rfl

@[simp]
theorem unfold_apply (tag : Tag) (function : Elementary) (argument : Dag ν) :
    unfold (.apply tag function argument) = .apply tag.source function (unfold argument) :=
  rfl

/-! ## Heaps with a supply -/

/-- A heap that holds an expression and leaves the identities from a bound on free. -/
structure Supplied (expr : Dag ν) (bound : Nat) (holds : Dag ν → Prop) : Prop where
  heap : Heap holds
  original : ∀ node, Reaches expr node → holds node
  below : ∀ node, holds node → node.id < bound

namespace Supplied

variable {expr : Dag ν} {bound bound' : Nat} {holds : Dag ν → Prop}

theorem ofCoherent (isCoherent : Coherent expr) (below : Below bound expr) :
    Supplied expr bound (Reaches expr) :=
  ⟨.ofCoherent isCoherent, fun _ reached => reached, below⟩

theorem mono (supplied : Supplied expr bound holds) (more : bound ≤ bound') :
    Supplied expr bound' holds :=
  ⟨supplied.heap, supplied.original,
    fun node held => Nat.lt_of_lt_of_le (supplied.below node held) more⟩

/-- What is held is coherent and below the bound. -/
theorem coherent_below (supplied : Supplied expr bound holds) {node : Dag ν} (held : holds node) :
    Coherent node ∧ Below bound node :=
  ⟨supplied.heap.coherent held,
    fun inner reached => supplied.below inner (supplied.heap.holds_of_reaches reached held)⟩

/-- The next identity is free for a node over held ones. -/
theorem insert (supplied : Supplied expr bound holds) {node : Dag ν} (identity : node.id = bound)
    (operands : ∀ child ∈ node.operands, holds child) :
    Supplied expr (bound + 1) fun other => other = node ∨ holds other where
  heap := supplied.heap.insert operands fun other held =>
    identity ▸ Nat.ne_of_lt (supplied.below other held)
  original := fun other reached => Or.inr (supplied.original other reached)
  below := by
    rintro other (rfl | held)
    · rw [identity]
      exact Nat.lt_succ_self bound
    · exact Nat.lt_succ_of_lt (supplied.below other held)

end Supplied

/-- A heap can be extended within a bound to hold a node. -/
def Extends (expr : Dag ν) (bound : Nat) (holds : Dag ν → Prop) (node : Dag ν) : Prop :=
  ∃ holds', Supplied expr bound holds' ∧ (∀ other, holds other → holds' other) ∧ holds' node

namespace Supplied

variable {expr : Dag ν} {bound bound' : Nat} {holds : Dag ν → Prop}

theorem extends_of_held (supplied : Supplied expr bound holds) {node : Dag ν} (held : holds node)
    (more : bound ≤ bound') : Extends expr bound' holds node :=
  ⟨holds, supplied.mono more, fun _ held => held, held⟩

theorem extends_of_new (supplied : Supplied expr bound holds) {node : Dag ν}
    (identity : node.id = bound) (operands : ∀ child ∈ node.operands, holds child) :
    Extends expr (bound + 1) holds node :=
  ⟨_, supplied.insert identity operands, fun _ held => Or.inr held, Or.inl rfl⟩

/-- A node that is kept if nothing changes, and made anew otherwise, unfolds to what is
made, if it does so where nothing changes. -/
theorem kept_or_made (supplied : Supplied expr bound holds) {node : Dag ν} (made : Dag ν)
    (held : holds node) (identity : made.id = bound)
    (operands : ∀ child ∈ made.operands, holds child) {unchanged : Prop} [Decidable unchanged]
    (same : unchanged → unfold node = unfold made) :
    Extends expr (bound + 1) holds (if unchanged then node else made) ∧
      unfold (if unchanged then node else made) = unfold made := by
  by_cases isUnchanged : unchanged
  · rw [if_pos isUnchanged]
    exact ⟨supplied.extends_of_held held (Nat.le_succ bound), same isUnchanged⟩
  · rw [if_neg isUnchanged]
    exact ⟨supplied.extends_of_new identity operands, rfl⟩

end Supplied

/-- If every step of a sweep keeps within its block of identities, then so does the
sweep. `image` is the node in what is computed for a node; what a step establishes
besides holds in the end. -/
theorem exists_supplied_of_sweep {step : Nat → (Dag ν → Option β) → Dag ν → β} {expr : Dag ν}
    {next block : Nat} (isCoherent : Coherent expr) (below : Below next expr)
    {image : β → Dag ν} {established : Dag ν → β → Prop}
    (establish : ∀ place known node holds, Supplied expr (next + block * place) holds →
      Reaches expr node →
      (∀ child ∈ node.operands, ∃ result, known child = some result ∧ holds (image result) ∧
        established child result) →
      Extends expr (next + block * (place + 1)) holds (image (step place known node)) ∧
        established node (step place known node)) :
    ∃ holds, Supplied expr (next + block * expr.nodes.length) holds ∧
      ∀ node, Reaches expr node → ∃ result, (expr.sweep step)[node.id]? = some result ∧
        holds (image result) ∧ established node result := by
  have all : ∃ holds, Supplied expr (next + block * expr.nodes.length) holds ∧
      ∀ node ∈ expr.nodes, ∃ result, (expr.sweep step)[node.id]? = some result ∧
        holds (image result) ∧ established node result := by
    refine sweep_induction (motive := fun passed table =>
      ∃ holds, Supplied expr (next + block * passed.length) holds ∧
        ∀ node ∈ passed, ∃ result, table[node.id]? = some result ∧
          holds (image result) ∧ established node result) isCoherent ?_ ?_
    · exact ⟨Reaches expr, .ofCoherent isCoherent below, by simp⟩
    · rintro passed node table _ reached operands isNew ⟨holds, supplied, results⟩
      rcases establish passed.length _ node holds supplied reached
        (fun child member => results child (operands child member)) with
        ⟨⟨holds', supplied', keeps, held⟩, isEstablished⟩
      refine ⟨holds', by simpa using supplied', ?_⟩
      have kept : ∀ other ∈ passed, ∃ result, table[other.id]? = some result ∧
          holds' (image result) ∧ established other result := by
        intro other member
        obtain ⟨result, found, heldResult, isEstablished'⟩ := results other member
        exact ⟨result, found, keeps _ heldResult, isEstablished'⟩
      exact forall_insert kept isNew ⟨held, isEstablished⟩
  rcases all with ⟨holds, supplied, results⟩
  exact ⟨holds, supplied, fun node reached =>
    results node ((mem_nodes_iff isCoherent).mpr reached)⟩

end Fluxion.Dag
