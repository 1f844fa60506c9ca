import Std.Data.HashMap.Lemmas
import Std.Data.HashSet.Lemmas
import Fluxion.Dag.Listing
import Fluxion.Proofs.Dag.Heap

/-!
# The listing of a coherent expression

The agenda lists every node that the expression reaches, once, and behind its
operands. The nodes that have been met are those that are listed and those that
are opened: their operands are being visited. What a node reaches is smaller than
the nodes that are opened around it, so a node that was met before is listed when
it is passed over.

The order is that of a traversal by recursion, which visits a node by visiting its
operands from left to right, and passes over what is listed already.

A sweep along the listing finds its table filled for the operands of every node, and
what one step preserves holds in the end.
-/

namespace Fluxion.Dag

variable {ν β : Type}

/-- Nodes with identities of their own, each behind its operands. -/
inductive Listing : List (Dag ν) → Prop
  | nil : Listing []
  | snoc {passed : List (Dag ν)} {node : Dag ν} :
      Listing passed → (∀ child ∈ node.operands, child ∈ passed) →
      node.id ∉ passed.map Expr.id → Listing (passed ++ [node])

/-- What is listed when a node has been visited by recursion: nothing more if it was listed
before, and otherwise the node behind its operands. -/
def depthFirst (listed : List (Dag ν)) (node : Dag ν) : List (Dag ν) :=
  if node.id ∈ listed.map Expr.id then listed
  else
    match node with
    | .num _ _ | .var _ _ => listed ++ [node]
    | .binary _ _ left right => depthFirst (depthFirst listed left) right ++ [node]
    | .apply _ _ argument => depthFirst listed argument ++ [node]

theorem depthFirst_of_listed {listed : List (Dag ν)} {node : Dag ν}
    (old : node.id ∈ listed.map Expr.id) : depthFirst listed node = listed := by
  rw [depthFirst.eq_def, if_pos old]

theorem depthFirst_of_new {listed : List (Dag ν)} {node : Dag ν}
    (isNew : node.id ∉ listed.map Expr.id) :
    depthFirst listed node = node.operands.foldl depthFirst listed ++ [node] := by
  rw [depthFirst.eq_def, if_neg isNew]
  cases node <;> rfl

/-- How far the agenda has come below a root. -/
structure Visited (root : Dag ν) (done : List (Dag ν)) (opened : List Nat)
    (seen : Std.HashSet Nat) : Prop where
  listing : Listing done
  reached : ∀ node ∈ done, Reaches root node
  met : ∀ id, seen.contains id = true ↔ id ∈ done.map Expr.id ∨ id ∈ opened

/-- Visiting some nodes lists them, with nodes below them, as recursion does, and then goes
on. -/
def Lists (root : Dag ν) (wanted done : List (Dag ν)) (opened : List Nat)
    (seen : Std.HashSet Nat) : Prop :=
  ∃ listed seen',
    (∀ agenda, listFrom seen (wanted.map .visit ++ agenda) = listed ++ listFrom seen' agenda) ∧
    done ++ listed = wanted.foldl depthFirst done ∧
    Visited root (done ++ listed) opened seen' ∧
    (∀ node ∈ listed, ∃ start ∈ wanted, Reaches start node) ∧
    ∀ start ∈ wanted, start ∈ done ++ listed

variable {root : Dag ν} {done : List (Dag ν)} {opened : List Nat} {seen : Std.HashSet Nat}

/-- Nodes are visited one after the other. -/
theorem Lists.all {wanted : List (Dag ν)}
    (each : ∀ node ∈ wanted, ∀ done seen, Visited root done opened seen →
      Lists root [node] done opened seen)
    (visited : Visited root done opened seen) : Lists root wanted done opened seen := by
  induction wanted generalizing done seen with
  | nil => exact ⟨[], seen, fun _ => rfl, by simp, by simpa using visited, by simp, by simp⟩
  | cons node wanted ih =>
      obtain ⟨first, seen', runs, order, visited', below, here⟩ :=
        each node (by simp) done seen visited
      rcases ih (fun other member => each other (by simp [member])) visited' with
        ⟨second, seen'', runs', order', visited'', below', here'⟩
      refine ⟨first ++ second, seen'', ?_, ?_, ?_, ?_, ?_⟩
      · intro agenda
        have start := runs (wanted.map .visit ++ agenda)
        rw [List.map_singleton, List.singleton_append] at start
        rw [List.map_cons, List.cons_append, start, runs', List.append_assoc]
      · rw [← List.append_assoc, order', order]
        rfl
      · rw [← List.append_assoc]
        exact visited''
      · intro other member
        rcases List.mem_append.mp member with member | member
        · rcases below other member with ⟨start, inWanted, reached⟩
          rw [List.mem_singleton] at inWanted
          exact ⟨node, by simp, inWanted ▸ reached⟩
        · rcases below' other member with ⟨start, inWanted, reached⟩
          exact ⟨start, by simp [inWanted], reached⟩
      · intro start member
        rw [← List.append_assoc]
        rcases List.mem_cons.mp member with rfl | member
        · exact List.mem_append_left _ (here start (by simp))
        · exact here' start member

/-- A node that was met before has been listed, if it is not one of those that are
opened. -/
theorem Visited.mem_done (isCoherent : Coherent root) (visited : Visited root done opened seen)
    {node : Dag ν} (reached : Reaches root node) (apart : node.id ∉ opened)
    (met : seen.contains node.id = true) : node ∈ done := by
  rcases (visited.met node.id).mp met with listed | isOpened
  · rcases List.mem_map.mp listed with ⟨other, member, same⟩
    rw [isCoherent node other reached (visited.reached other member) same.symm]
    exact member
  · exact absurd isOpened apart

/-- A new node is opened before its operands are visited. -/
theorem Visited.opening (visited : Visited root done opened seen) (node : Dag ν) :
    Visited root done (node.id :: opened) (seen.insert node.id) where
  listing := visited.listing
  reached := visited.reached
  met := by
    intro id
    rw [Std.HashSet.contains_insert, Bool.or_eq_true, beq_iff_eq, visited.met, List.mem_cons]
    constructor
    · rintro (rfl | listed | isOpened)
      · exact Or.inr (Or.inl rfl)
      · exact Or.inl listed
      · exact Or.inr (Or.inr isOpened)
    · rintro (listed | rfl | isOpened)
      · exact Or.inr (Or.inl listed)
      · exact Or.inl rfl
      · exact Or.inr (Or.inr isOpened)

/-- An opened node is listed when its operands are. -/
theorem Visited.closing {node : Dag ν}
    (visited : Visited root done (node.id :: opened) seen) (reached : Reaches root node)
    (operands : ∀ child ∈ node.operands, child ∈ done) (isNew : node.id ∉ done.map Expr.id) :
    Visited root (done ++ [node]) opened seen where
  listing := .snoc visited.listing operands isNew
  reached := by
    intro other member
    rcases List.mem_append.mp member with member | member
    · exact visited.reached other member
    · rw [List.mem_singleton.mp member]
      exact reached
  met := by
    intro id
    rw [visited.met, List.map_append, List.mem_append, List.mem_cons, List.map_singleton,
      List.mem_singleton, or_assoc]

/-- Visiting a node lists it behind everything below it. -/
theorem Lists.node (isCoherent : Coherent root) (node : Dag ν) (reached : Reaches root node)
    (apart : ∀ inner, Reaches node inner → inner.id ∉ opened)
    (visited : Visited root done opened seen) : Lists root [node] done opened seen := by
  induction size : node.size using Nat.strongRecOn generalizing node done opened seen with
  | ind size ih =>
  by_cases met : seen.contains node.id = true
  · have here := visited.mem_done isCoherent reached (apart node (.root node)) met
    have listed : node.id ∈ done.map Expr.id := List.mem_map_of_mem here
    refine ⟨[], seen, ?_, ?_, by simpa using visited, by simp, by simpa using here⟩
    · intro agenda
      rw [List.map_singleton, List.singleton_append, listFrom, if_pos met]
      rfl
    · rw [List.append_nil, List.foldl_cons, List.foldl_nil, depthFirst_of_listed listed]
  · have eachOperand : ∀ child ∈ node.operands, ∀ done seen,
        Visited root done (node.id :: opened) seen →
        Lists root [child] done (node.id :: opened) seen := by
      intro child member done seen visited
      refine ih child.size ?_ child (reached.step member) ?_ visited rfl
      · rw [← size]
        exact size_lt_of_mem_operands member
      · intro inner below isOpened
        rcases List.mem_cons.mp isOpened with same | isOpened
        · exact below.ne_of_operand member
            (isCoherent inner node ((reached.step member).trans below) reached same)
        · exact apart inner (.operand member below) isOpened
    rcases Lists.all eachOperand (visited.opening node) with
      ⟨listed, seen', runs, order, visited', below, here⟩
    have isNew : node.id ∉ (done ++ listed).map Expr.id := by
      intro member
      obtain ⟨other, member, same⟩ := List.mem_map.mp member
      rcases List.mem_append.mp member with member | member
      · exact met ((visited.met node.id).mpr (Or.inl (List.mem_map.mpr ⟨other, member, same⟩)))
      · rcases below other member with ⟨child, inOperands, reachedOther⟩
        exact reachedOther.ne_of_operand inOperands
          (isCoherent other node ((reached.step inOperands).trans reachedOther) reached same)
    refine ⟨listed ++ [node], seen', ?_, ?_, ?_, ?_, ?_⟩
    · intro agenda
      rw [List.map_singleton, List.singleton_append, listFrom, if_neg met, runs, listFrom,
        List.append_assoc, List.singleton_append]
    · have isNewHere : node.id ∉ done.map Expr.id := fun member =>
        isNew (List.map_subset _ (List.subset_append_left _ _) member)
      rw [List.foldl_cons, List.foldl_nil, depthFirst_of_new isNewHere, ← order,
        List.append_assoc]
    · rw [← List.append_assoc]
      exact visited'.closing reached here isNew
    · intro other member
      refine ⟨node, by simp, ?_⟩
      rcases List.mem_append.mp member with member | member
      · rcases below other member with ⟨child, inOperands, reachedOther⟩
        exact .operand inOperands reachedOther
      · rw [List.mem_singleton.mp member]
        exact .root node
    · simp

theorem visited_nodes {expr : Dag ν} (isCoherent : Coherent expr) :
    (∃ seen, Visited expr expr.nodes [] seen) ∧ expr.nodes = depthFirst [] expr ∧
      expr ∈ expr.nodes := by
  have start : Visited expr [] [] (∅ : Std.HashSet Nat) := ⟨.nil, by simp, by simp⟩
  rcases Lists.node isCoherent expr (.root expr) (by simp) start with
    ⟨listed, seen, runs, order, visited, below, here⟩
  have all : expr.nodes = listed := by
    have run := runs []
    rw [List.map_singleton, List.append_nil, listFrom, List.append_nil] at run
    exact run
  rw [all]
  exact ⟨⟨seen, visited⟩, order, here expr (by simp)⟩

/-- The nodes of a coherent expression are listed behind their operands, once each,
and none is left out. -/
theorem listing_nodes {expr : Dag ν} (isCoherent : Coherent expr) :
    Listing expr.nodes ∧ (∀ node ∈ expr.nodes, Reaches expr node) ∧ expr ∈ expr.nodes := by
  obtain ⟨⟨_, visited⟩, _, here⟩ := visited_nodes isCoherent
  exact ⟨visited.listing, visited.reached, here⟩

/-- The agenda lists the nodes in the order of recursion. -/
theorem nodes_eq_depthFirst {expr : Dag ν} (isCoherent : Coherent expr) :
    expr.nodes = depthFirst [] expr :=
  (visited_nodes isCoherent).2.1

/-- What is listed first is a listing. -/
theorem Listing.of_append {first second : List (Dag ν)} (listing : Listing (first ++ second)) :
    Listing first := by
  generalize whole : first ++ second = nodes at listing
  induction listing generalizing second with
  | nil =>
      rw [(List.append_eq_nil_iff.mp whole).1]
      exact .nil
  | @snoc passed node listing operands isNew ih =>
      rcases List.eq_nil_or_concat second with rfl | ⟨second, last, rfl⟩
      · rw [List.append_nil] at whole
        rw [whole]
        exact .snoc listing operands isNew
      · rw [List.concat_eq_append, ← List.append_assoc] at whole
        exact ih (List.append_inj' whole rfl).1

/-- A listing holds the operands of its nodes. -/
theorem Listing.closed {nodes : List (Dag ν)} (listing : Listing nodes) {node child : Dag ν}
    (listed : node ∈ nodes) (member : child ∈ node.operands) : child ∈ nodes := by
  induction listing with
  | nil => cases listed
  | snoc _ operands _ ih =>
      rcases List.mem_append.mp listed with listed | listed
      · exact List.mem_append_left _ (ih listed)
      · rw [List.mem_singleton.mp listed] at member
        exact List.mem_append_left _ (operands child member)

theorem Listing.mem_of_reaches {nodes : List (Dag ν)} (listing : Listing nodes)
    {start node : Dag ν} (reached : Reaches start node) (listed : start ∈ nodes) :
    node ∈ nodes := by
  induction reached with
  | root _ => exact listed
  | operand member _ ih => exact ih (listing.closed listed member)

theorem mem_nodes_iff {expr : Dag ν} (isCoherent : Coherent expr) {node : Dag ν} :
    node ∈ expr.nodes ↔ Reaches expr node := by
  obtain ⟨listing, reached, here⟩ := listing_nodes isCoherent
  constructor
  · exact reached node
  · intro below
    exact listing.mem_of_reaches below here

/-! ## Counting -/

theorem Listing.nodup {nodes : List (Dag ν)} (listing : Listing nodes) :
    (nodes.map Expr.id).Nodup := by
  induction listing with
  | nil => exact List.nodup_nil
  | @snoc passed node _ _ isNew ih =>
      rw [List.map_append, List.map_singleton, List.nodup_append]
      refine ⟨ih, List.pairwise_singleton _ _, ?_⟩
      intro id listed other member same
      rw [List.mem_singleton] at member
      exact isNew (member ▸ same ▸ listed)

/-- Some nodes of a listing are no more than there are identities for them. -/
theorem Listing.length_le_of_sublist {nodes part : List (Dag ν)} (listing : Listing nodes)
    (sublist : part.Sublist nodes) {ids : List Nat} (among : ∀ node ∈ part, node.id ∈ ids) :
    part.length ≤ ids.length := by
  have distinct : (part.map Expr.id).Nodup := listing.nodup.sublist (sublist.map Expr.id)
  have contained : part.map Expr.id ⊆ ids := by
    intro id member
    obtain ⟨node, listed, rfl⟩ := List.mem_map.mp member
    exact among node listed
  simpa using distinct.length_le_of_subset contained

/-- A coherent expression has no more nodes than there are identities for them. -/
theorem count_le_of_reaches {expr : Dag ν} (isCoherent : Coherent expr) {ids : List Nat}
    (among : ∀ node, Reaches expr node → node.id ∈ ids) : expr.count ≤ ids.length := by
  obtain ⟨listing, reached, _⟩ := listing_nodes isCoherent
  exact listing.length_le_of_sublist (List.Sublist.refl _) fun node listed =>
    among node (reached node listed)

/-! ## Sweeps -/

/-- What holds of the empty table and is preserved when the table is extended by one
node, whose operands are in it already, holds of the table of a sweep. -/
theorem sweep_induction {step : Nat → (Dag ν → Option β) → Dag ν → β} {expr : Dag ν}
    (isCoherent : Coherent expr) {motive : List (Dag ν) → Table β → Prop} (empty : motive [] ∅)
    (extend : ∀ passed node table, (∀ other ∈ passed, Reaches expr other) → Reaches expr node →
      (∀ child ∈ node.operands, child ∈ passed) → node.id ∉ passed.map Expr.id →
      motive passed table →
      motive (passed ++ [node])
        (table.insert node.id (step passed.length (fun other => table[other.id]?) node))) :
    motive expr.nodes (expr.sweep step) := by
  have along : ∀ nodes, Listing nodes → (∀ node ∈ nodes, Reaches expr node) →
      motive nodes (nodes.zipIdx.foldl (fun table entry => table.insert entry.1.id
        (step entry.2 (fun other => table[other.id]?) entry.1)) ∅) := by
    intro nodes listing
    induction listing with
    | nil => exact fun _ => empty
    | @snoc passed node _ operands isNew ih =>
        intro reached
        have before := ih fun other member => reached other (List.mem_append_left _ member)
        rw [List.zipIdx_append, List.foldl_append]
        simpa using extend passed node _
          (fun other member => reached other (List.mem_append_left _ member))
          (reached node (by simp)) operands isNew before
  obtain ⟨listing, reached, _⟩ := listing_nodes isCoherent
  exact along expr.nodes listing reached

/-- A table that knows something of all nodes that were passed, and is extended by it
for a new one, knows it of all of them. -/
theorem forall_insert {holds : Dag ν → β → Prop} {passed : List (Dag ν)} {table : Table β}
    (before : ∀ other ∈ passed, ∃ result, table[other.id]? = some result ∧ holds other result)
    {node : Dag ν} (isNew : node.id ∉ passed.map Expr.id) {value : β} (here : holds node value) :
    ∀ other ∈ passed ++ [node], ∃ result,
      (table.insert node.id value)[other.id]? = some result ∧ holds other result := by
  intro other member
  rcases List.mem_append.mp member with member | member
  · rcases before other member with ⟨result, found, isHeld⟩
    have apart : ¬node.id = other.id := fun same =>
      isNew (List.mem_map.mpr ⟨other, member, same.symm⟩)
    refine ⟨result, ?_, isHeld⟩
    rw [Std.HashMap.getElem?_insert, if_neg (by simpa using apart)]
    exact found
  · rw [List.mem_singleton.mp member]
    exact ⟨value, Std.HashMap.getElem?_insert_self, here⟩

/-- What a step establishes for a node from its operands holds for all nodes. -/
theorem exists_of_sweep {step : Nat → (Dag ν → Option β) → Dag ν → β} {expr : Dag ν}
    (isCoherent : Coherent expr) (holds : Dag ν → β → Prop)
    (establish : ∀ place known node, Reaches expr node →
      (∀ child ∈ node.operands, ∃ result, known child = some result ∧ holds child result) →
      holds node (step place known node))
    {node : Dag ν} (reached : Reaches expr node) :
    ∃ result, (expr.sweep step)[node.id]? = some result ∧ holds node result := by
  have all : ∀ node ∈ expr.nodes, ∃ result,
      (expr.sweep step)[node.id]? = some result ∧ holds node result := by
    refine sweep_induction (motive := fun passed table => ∀ node ∈ passed, ∃ result,
      table[node.id]? = some result ∧ holds node result) isCoherent (by simp) ?_
    intro passed node table _ reached operands isNew before
    exact forall_insert before isNew (establish _ _ node reached fun child inOperands =>
      before child (operands child inOperands))
  exact all node ((mem_nodes_iff isCoherent).mpr reached)

end Fluxion.Dag
