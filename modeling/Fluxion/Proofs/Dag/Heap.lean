import Fluxion.Dag.Basic

/-!
# Heaps of nodes

A heap is a collection of nodes in which identities tell nodes apart and which
holds the operands of its nodes. The nodes below an expression form a heap
exactly if the expression is coherent. Heaps grow by nodes with fresh identities
over nodes that they hold, so whatever an operation makes of the nodes of a heap
is coherent as well.
-/

namespace Fluxion.Dag

variable {ν : Type}

/-! ## What an expression reaches -/

theorem Reaches.trans {expr node inner : Dag ν} (outer : Reaches expr node)
    (below : Reaches node inner) : Reaches expr inner := by
  induction outer with
  | root _ => exact below
  | operand member _ ih => exact .operand member (ih below)

/-- An expression reaches the operands of what it reaches. -/
theorem Reaches.step {expr node child : Dag ν} (reached : Reaches expr node)
    (member : child ∈ node.operands) : Reaches expr child :=
  reached.trans (.operand member (.root child))

theorem reaches_iff {expr node : Dag ν} :
    Reaches expr node ↔ node = expr ∨ ∃ child ∈ expr.operands, Reaches child node := by
  constructor
  · intro reached
    cases reached with
    | root _ => exact Or.inl rfl
    | operand member below => exact Or.inr ⟨_, member, below⟩
  · rintro (rfl | ⟨child, member, below⟩)
    · exact .root _
    · exact .operand member below

@[simp]
theorem reaches_num_iff {tag : Tag} {value : ν} {node : Dag ν} :
    Reaches (.num tag value) node ↔ node = .num tag value := by
  rw [reaches_iff]
  simp [Expr.operands]

@[simp]
theorem reaches_var_iff {tag : Tag} {name : String} {node : Dag ν} :
    Reaches (.var tag name) node ↔ node = .var tag name := by
  rw [reaches_iff]
  simp [Expr.operands]

@[simp]
theorem reaches_binary_iff {tag : Tag} {operator : Operator} {left right node : Dag ν} :
    Reaches (.binary tag operator left right) node ↔
      node = .binary tag operator left right ∨ Reaches left node ∨ Reaches right node := by
  rw [reaches_iff]
  simp [Expr.operands]

@[simp]
theorem reaches_apply_iff {tag : Tag} {function : Elementary} {argument node : Dag ν} :
    Reaches (.apply tag function argument) node ↔
      node = .apply tag function argument ∨ Reaches argument node := by
  rw [reaches_iff]
  simp [Expr.operands]

theorem size_lt_of_mem_operands {node child : Dag ν} (member : child ∈ node.operands) :
    child.size < node.size := by
  cases node with
  | num _ _ => cases member
  | var _ _ => cases member
  | binary _ _ left right =>
      simp only [Expr.operands, List.mem_cons, List.not_mem_nil, or_false] at member
      rcases member with rfl | rfl
      · rw [Expr.size]
        omega
      · rw [Expr.size]
        omega
  | apply _ _ argument =>
      rw [Expr.operands, List.mem_singleton] at member
      rw [member, Expr.size]
      exact Nat.lt_succ_self _

theorem Reaches.size_le {expr node : Dag ν} (reached : Reaches expr node) :
    node.size ≤ expr.size := by
  induction reached with
  | root _ => exact Nat.le_refl _
  | operand member _ ih => exact Nat.le_trans ih (Nat.le_of_lt (size_lt_of_mem_operands member))

/-- Nothing below an operand is the node itself. -/
theorem Reaches.ne_of_operand {node child inner : Dag ν} (member : child ∈ node.operands)
    (reached : Reaches child inner) : inner ≠ node := by
  rintro rfl
  exact absurd reached.size_le (Nat.not_le.mpr (size_lt_of_mem_operands member))

/-! ## Heaps -/

/-- Nodes that are told apart by their identities, with the operands of each. -/
structure Heap (holds : Dag ν → Prop) : Prop where
  closed : ∀ {node child : Dag ν}, holds node → child ∈ node.operands → holds child
  unique : ∀ {m n : Dag ν}, holds m → holds n → m.id = n.id → m = n

namespace Heap

variable {holds : Dag ν → Prop}

/-- A heap holds what its nodes reach. -/
theorem holds_of_reaches (heap : Heap holds) {expr node : Dag ν} (reached : Reaches expr node)
    (held : holds expr) : holds node := by
  induction reached with
  | root _ => exact held
  | operand member _ ih => exact ih (heap.closed held member)

/-- The nodes of a heap are coherent. -/
theorem coherent (heap : Heap holds) {expr : Dag ν} (held : holds expr) : Coherent expr :=
  fun _ _ reachesM reachesN same =>
    heap.unique (heap.holds_of_reaches reachesM held) (heap.holds_of_reaches reachesN held) same

/-- The nodes below a coherent expression are a heap. -/
theorem ofCoherent {expr : Dag ν} (isCoherent : Coherent expr) : Heap (Reaches expr) where
  closed := Reaches.step
  unique := isCoherent _ _

/-- What a coherent expression reaches is coherent. -/
theorem coherent_of_reaches {expr node : Dag ν} (isCoherent : Coherent expr)
    (reached : Reaches expr node) : Coherent node :=
  (ofCoherent isCoherent).coherent reached

/-- A node with a fresh identity over the nodes of a heap extends the heap. -/
theorem insert (heap : Heap holds) {node : Dag ν}
    (operands : ∀ child ∈ node.operands, holds child)
    (isFresh : ∀ other, holds other → other.id ≠ node.id) :
    Heap fun other => other = node ∨ holds other where
  closed := by
    rintro other child (rfl | held) member
    · exact Or.inr (operands child member)
    · exact Or.inr (heap.closed held member)
  unique := by
    rintro m n (rfl | heldM) (rfl | heldN) same
    · rfl
    · exact absurd same.symm (isFresh n heldN)
    · exact absurd same (isFresh m heldM)
    · exact heap.unique heldM heldN same

/-- Heaps with no identity in common make up one heap. -/
theorem union {holds' : Dag ν → Prop} (heap : Heap holds) (heap' : Heap holds')
    (apart : ∀ m n, holds m → holds' n → m.id ≠ n.id) :
    Heap fun node => holds node ∨ holds' node where
  closed := by
    rintro node child (held | held) member
    · exact Or.inl (heap.closed held member)
    · exact Or.inr (heap'.closed held member)
  unique := by
    rintro m n (heldM | heldM) (heldN | heldN) same
    · exact heap.unique heldM heldN same
    · exact absurd same (apart m n heldM heldN)
    · exact absurd same.symm (apart n m heldN heldM)
    · exact heap'.unique heldM heldN same

end Heap

/-! ## Numbered expressions -/

/-- A heap whose identities lie in a range is extended by a node with the identity
behind the range. -/
theorem Heap.exists_numbered {holds : Dag ν → Prop} (heap : Heap holds) {next bound : Nat}
    (range : ∀ node, holds node → next ≤ node.id ∧ node.id < bound) (ascending : next ≤ bound)
    {node : Dag ν} (identity : node.id = bound) (operands : ∀ child ∈ node.operands, holds child) :
    ∃ holds' : Dag ν → Prop, Heap holds' ∧ holds' node ∧
      ∀ other, holds' other → next ≤ other.id ∧ other.id < bound + 1 := by
  refine ⟨_, heap.insert operands ?_, Or.inl rfl, ?_⟩
  · intro other held same
    exact absurd (range other held).2 (by rw [same, identity]; exact Nat.lt_irrefl bound)
  · rintro other (rfl | held)
    · rw [identity]
      exact ⟨ascending, Nat.lt_succ_self bound⟩
    · exact ⟨(range other held).1, Nat.lt_succ_of_lt (range other held).2⟩

theorem le_fresh_snd {α : Type} (source : α → Option Token) (next : Nat) (expr : Expr ν α) :
    next ≤ (fresh source next expr).2 := by
  rw [fresh_snd]
  exact Nat.le_add_right next _

/-- The nodes of a numbered expression have the identities that were taken for it. -/
theorem exists_heap_fresh {α : Type} (source : α → Option Token) (next : Nat) (expr : Expr ν α) :
    ∃ holds : Dag ν → Prop, Heap holds ∧ holds (fresh source next expr).1 ∧
      ∀ node, holds node → next ≤ node.id ∧ node.id < (fresh source next expr).2 := by
  have nothing : Heap fun _ : Dag ν => False := ⟨fun held _ => held, fun held _ _ => held.elim⟩
  induction expr generalizing next with
  | num m value =>
      exact nothing.exists_numbered (by simp) (Nat.le_refl next) rfl (by rintro child ⟨⟩)
  | var m name =>
      exact nothing.exists_numbered (by simp) (Nat.le_refl next) rfl (by rintro child ⟨⟩)
  | binary m operator left right left_ih right_ih =>
      obtain ⟨leftHolds, leftHeap, leftHeld, leftRange⟩ := left_ih next
      obtain ⟨rightHolds, rightHeap, rightHeld, rightRange⟩ := right_ih (fresh source next left).2
      have leftBound := le_fresh_snd source next left
      have rightBound := le_fresh_snd source (fresh source next left).2 right
      have both := leftHeap.union rightHeap fun m n heldM heldN =>
        Nat.ne_of_lt (Nat.lt_of_lt_of_le (leftRange m heldM).2 (rightRange n heldN).1)
      refine both.exists_numbered ?_ (Nat.le_trans leftBound rightBound) rfl ?_
      · rintro node (held | held)
        · exact ⟨(leftRange node held).1, Nat.lt_of_lt_of_le (leftRange node held).2 rightBound⟩
        · exact ⟨Nat.le_trans leftBound (rightRange node held).1, (rightRange node held).2⟩
      · exact Expr.forall_operands_binary_iff.mpr ⟨Or.inl leftHeld, Or.inr rightHeld⟩
  | apply m function argument ih =>
      obtain ⟨holds, heap, held, range⟩ := ih next
      exact heap.exists_numbered range (le_fresh_snd source next argument) rfl
        (Expr.forall_operands_apply_iff.mpr held)

/-- Numbering makes an expression coherent, with all identities below the supply. -/
theorem coherent_below_fresh {α : Type} (source : α → Option Token) (next : Nat)
    (expr : Expr ν α) :
    Coherent (fresh source next expr).1 ∧
      Below (fresh source next expr).2 (fresh source next expr).1 := by
  obtain ⟨holds, heap, held, range⟩ := exists_heap_fresh source next expr
  refine ⟨heap.coherent held, ?_⟩
  intro node reached
  exact (range node (heap.holds_of_reaches reached held)).2

/-! ## A shared node -/

section Arithmetic

variable [Arithmetic ν]

/-- The product `1*x`. -/
def sharedFactor : Dag ν :=
  .binary ⟨2, none⟩ .mul (.int ⟨0, none⟩ 1) (.var ⟨1, none⟩ "x")

/-- The power `(1*x)^(1*x)`, whose base and exponent are one node. -/
def sharedPower : Dag ν :=
  .binary ⟨3, none⟩ .pow sharedFactor sharedFactor

theorem reaches_sharedPower_iff {node : Dag ν} :
    Reaches sharedPower node ↔ node = sharedPower ∨ node = sharedFactor ∨
      node = .int ⟨0, none⟩ 1 ∨ node = .var ⟨1, none⟩ "x" := by
  rw [sharedPower, reaches_binary_iff, or_self, sharedFactor, reaches_binary_iff, Expr.int,
    reaches_num_iff, reaches_var_iff]

theorem coherent_sharedPower : Coherent (sharedPower : Dag ν) := by
  intro m n reachedM reachedN same
  rcases reaches_sharedPower_iff.mp reachedM with rfl | rfl | rfl | rfl <;>
    rcases reaches_sharedPower_iff.mp reachedN with rfl | rfl | rfl | rfl <;>
    first | rfl | cases same

theorem below_sharedPower : Below 4 (sharedPower : Dag ν) := by
  intro node reached
  rcases reaches_sharedPower_iff.mp reached with rfl | rfl | rfl | rfl
  · exact (by decide : 3 < 4)
  · exact (by decide : 2 < 4)
  · exact (by decide : 0 < 4)
  · exact (by decide : 1 < 4)

end Arithmetic

end Fluxion.Dag
