import Fluxion.Derivative.Dag
import Fluxion.Derivative.Tree
import Fluxion.Proofs.Simplify.Sharing

/-!
# Differentiation along the listing is differentiation

Differentiating each shared node once gives what differentiation by recursion
gives on the unfolded expression, and the result is coherent. The nodes that a
rule makes are numbered as they are met from the root, operands from left to
right, so they are laid out one after the other in the block of their place. Only
the logarithm of the rule for powers is met twice; it is held before the others.
-/

namespace Fluxion

variable {ν : Type}

namespace Dag

/-! ## Layouts -/

/-- An expression over held nodes whose other nodes have consecutive numbers of a
supply of tags, in the order in which they are met. -/
inductive Laid (t : Nat → Tag) (holds : Dag ν → Prop) : Nat → Dag ν → Nat → Prop
  | held {i : Nat} {expr : Dag ν} : holds expr → Laid t holds i expr i
  | num {i : Nat} {value : ν} : Laid t holds i (.num (t i) value) (i + 1)
  | apply {i j : Nat} {function : Elementary} {argument : Dag ν} :
      Laid t holds (i + 1) argument j → Laid t holds i (.apply (t i) function argument) j
  | binary {i j k : Nat} {operator : Operator} {left right : Dag ν} :
      Laid t holds (i + 1) left j → Laid t holds j right k →
      Laid t holds i (.binary (t i) operator left right) k

/-- A node with one of the numbers from `i` to before `k`, counted from `base`. -/
def Numbered (base i k : Nat) (node : Dag ν) : Prop :=
  base + i ≤ node.id ∧ node.id < base + k

/-- A heap that holds, beyond what another holds, only nodes with some numbers. -/
structure Grown (base i k : Nat) (holds holds' : Dag ν → Prop) : Prop where
  heap : Heap holds'
  keeps : ∀ node, holds node → holds' node
  new : ∀ node, holds' node → holds node ∨ Numbered base i k node

section Growth

variable {t : Nat → Tag} {base i j k : Nat} {holds holds' holds'' : Dag ν → Prop}

theorem Laid.le {expr : Dag ν} (laid : Laid t holds i expr k) : i ≤ k := by
  induction laid with
  | held _ => exact Nat.le_refl _
  | num => exact Nat.le_succ _
  | apply _ ih => exact Nat.le_trans (Nat.le_succ _) ih
  | binary _ _ left_ih right_ih =>
      exact Nat.le_trans (Nat.le_trans (Nat.le_succ _) left_ih) right_ih

theorem Grown.refl (heap : Heap holds) : Grown base i i holds holds :=
  ⟨heap, fun _ held => held, fun _ held => Or.inl held⟩

theorem Grown.trans (grown : Grown base i j holds holds') (grown' : Grown base j k holds' holds'')
    (first : i ≤ j) (second : j ≤ k) : Grown base i k holds holds'' where
  heap := grown'.heap
  keeps := fun node held => grown'.keeps node (grown.keeps node held)
  new := by
    intro node held
    rcases grown'.new node held with held | ⟨lower, upper⟩
    · rcases grown.new node held with held | ⟨lower, upper⟩
      · exact Or.inl held
      · exact Or.inr ⟨lower, by omega⟩
    · exact Or.inr ⟨by omega, upper⟩

/-- The node whose number comes first is put in behind its operands. -/
theorem Grown.insert (grown : Grown base (i + 1) k holds holds') (nonempty : i < k)
    (free : ∀ node, holds node → ¬Numbered base i k node) (node : Dag ν)
    (identity : node.id = base + i) (operands : ∀ child ∈ node.operands, holds' child) :
    Grown base i k holds fun other => other = node ∨ holds' other where
  heap := by
    refine grown.heap.insert operands ?_
    intro other held same
    rcases grown.new other held with held | ⟨lower, _⟩
    · exact free other held ⟨by omega, by omega⟩
    · omega
  keeps := fun other held => Or.inr (grown.keeps other held)
  new := by
    rintro other (rfl | held)
    · exact Or.inr ⟨Nat.le_of_eq identity.symm, by omega⟩
    · rcases grown.new other held with held | ⟨lower, upper⟩
      · exact Or.inl held
      · exact Or.inr ⟨by omega, upper⟩

/-- A heap in which some numbers are free grows by what is laid out with these
numbers. -/
theorem Laid.exists_grown {expr : Dag ν} (laid : Laid t holds i expr k)
    (tags : ∀ j, (t j).id = base + j) (heap : Heap holds')
    (keeps : ∀ node, holds node → holds' node)
    (free : ∀ node, holds' node → ¬Numbered base i k node) :
    ∃ holds'', Grown base i k holds' holds'' ∧ holds'' expr := by
  induction laid generalizing holds' with
  | held held => exact ⟨holds', .refl heap, keeps _ held⟩
  | @num i value =>
      have grown := (Grown.refl heap).insert (Nat.lt_succ_self i) free (.num (t i) value) (tags i)
        (by rintro _ ⟨⟩)
      exact ⟨_, grown, Or.inl rfl⟩
  | @apply i j function argument laid ih =>
      have argumentFree : ∀ node, holds' node → ¬Numbered base (i + 1) j node := by
        rintro node held ⟨lower, upper⟩
        exact free node held ⟨by omega, upper⟩
      obtain ⟨holds'', grown, held⟩ := ih heap keeps argumentFree
      have inserted := grown.insert laid.le free (.apply (t i) function argument) (tags i)
        (Expr.forall_operands_apply_iff.mpr held)
      exact ⟨_, inserted, Or.inl rfl⟩
  | @binary i j k operator left right leftLaid rightLaid left_ih right_ih =>
      have first := leftLaid.le
      have second := rightLaid.le
      have leftFree : ∀ node, holds' node → ¬Numbered base (i + 1) j node := by
        rintro node held ⟨lower, upper⟩
        exact free node held ⟨by omega, by omega⟩
      obtain ⟨leftHolds, leftGrown, leftHeld⟩ := left_ih heap keeps leftFree
      -- What the left operand has taken lies before the numbers of the right one.
      have rightFree : ∀ node, leftHolds node → ¬Numbered base j k node := by
        rintro node held ⟨lower, upper⟩
        rcases leftGrown.new node held with held | ⟨_, before⟩
        · exact free node held ⟨by omega, upper⟩
        · omega
      rcases right_ih leftGrown.heap (fun node held => leftGrown.keeps node (keeps node held))
        rightFree with ⟨rightHolds, rightGrown, rightHeld⟩
      have operands : ∀ child ∈ (Expr.binary (t i) operator left right).operands,
          rightHolds child :=
        Expr.forall_operands_binary_iff.mpr ⟨rightGrown.keeps _ leftHeld, rightHeld⟩
      have inserted := (leftGrown.trans rightGrown first second).insert (Nat.le_trans first second)
        free (.binary (t i) operator left right) (tags i) operands
      exact ⟨_, inserted, Or.inl rfl⟩

end Growth

section Supplied

variable {expr : Dag ν} {t : Nat → Tag} {base i j k : Nat} {holds : Dag ν → Prop}

theorem Supplied.free (supplied : Supplied expr base holds) (node : Dag ν) (held : holds node) :
    ¬Numbered base i k node := by
  rintro ⟨lower, _⟩
  have := supplied.below node held
  omega

/-- A heap that has grown grows further by what is laid out with the next numbers. -/
theorem Supplied.exists_grown (supplied : Supplied expr base holds)
    (tags : ∀ j, (t j).id = base + j) {holds' : Dag ν → Prop} (grown : Grown base i j holds holds')
    (first : i ≤ j) {node : Dag ν} (laid : Laid t holds' j node k) :
    ∃ holds'', Grown base i k holds holds'' ∧ (∀ other, holds' other → holds'' other) ∧
      holds'' node := by
  have free : ∀ other, holds' other → ¬Numbered base j k other := by
    rintro other held ⟨lower, upper⟩
    rcases grown.new other held with held | ⟨_, before⟩
    · exact supplied.free other held ⟨lower, upper⟩
    · omega
  obtain ⟨holds'', grown', held⟩ := laid.exists_grown tags grown.heap (fun _ held => held) free
  exact ⟨holds'', grown.trans grown' first laid.le, grown'.keeps, held⟩

/-- What a heap grows by stays within the block of a rule. -/
theorem Supplied.extends_of_grown (supplied : Supplied expr base holds) {holds' : Dag ν → Prop}
    (grown : Grown base i k holds holds') (fits : k ≤ Derivative.newNodes) {node : Dag ν}
    (held : holds' node) : Extends expr (base + Derivative.newNodes) holds node := by
  refine ⟨holds', ⟨grown.heap, ?_, ?_⟩, grown.keeps, held⟩
  · intro other reached
    exact grown.keeps other (supplied.original other reached)
  · intro other held
    rcases grown.new other held with held | ⟨_, upper⟩
    · have := supplied.below other held
      omega
    · omega

theorem Supplied.extends_of_laid (supplied : Supplied expr base holds)
    (tags : ∀ j, (t j).id = base + j) {node : Dag ν} (laid : Laid t holds i node k)
    (fits : k ≤ Derivative.newNodes) : Extends expr (base + Derivative.newNodes) holds node := by
  rcases laid.exists_grown tags supplied.heap (fun _ held => held) supplied.free with
    ⟨holds', grown, held⟩
  exact supplied.extends_of_grown grown fits held

end Supplied

end Dag

/-! ## Rules -/

namespace Derivative

open Dag (Laid Supplied Extends Grown)

variable [Arithmetic ν] {expr : Dag ν} {t : Nat → Tag} {base : Nat} {holds : Dag ν → Prop}
variable {a b u da db du whole : Dag ν}

/-- The nodes of a slope have numbers behind that of its product with the inner derivative. -/
theorem exists_laid_slope (function : Elementary) (heldWhole : holds whole) (heldU : holds u) :
    ∃ k, Laid t holds 1 (slope t function whole u) k ∧ k ≤ newNodes := by
  cases function with
  | sin => exact ⟨2, .apply (.held heldU), by decide⟩
  | cos => exact ⟨4, .binary .num (.apply (.held heldU)), by decide⟩
  | tan => exact ⟨4, .binary (.apply (.held heldU)) .num, by decide⟩
  | asin =>
      exact ⟨8, .binary .num (.apply (.binary .num (.binary (.held heldU) .num))), by decide⟩
  | acos =>
      exact ⟨8, .binary .num (.apply (.binary .num (.binary (.held heldU) .num))), by decide⟩
  | atan => exact ⟨7, .binary .num (.binary .num (.binary (.held heldU) .num)), by decide⟩
  | sqrt => exact ⟨5, .binary .num (.binary .num (.held heldWhole)), by decide⟩
  | ln => exact ⟨3, .binary .num (.held heldU), by decide⟩
  | sec => exact ⟨3, .binary (.held heldWhole) (.apply (.held heldU)), by decide⟩
  | exp => exact ⟨1, .held heldWhole, by decide⟩

theorem exists_laid_ofApply (function : Elementary) (heldWhole : holds whole) (heldU : holds u)
    (heldDu : holds du) :
    ∃ k, Laid t holds 0 (ofApply t function whole u du) k ∧ k ≤ newNodes := by
  obtain ⟨k, laid, fits⟩ := exists_laid_slope (t := t) function heldWhole heldU
  exact ⟨k, .binary laid (.held heldDu), fits⟩

/-- All rules but that for a variable exponent meet every node that they make once. -/
theorem exists_laid_ofBinary {constantExponent : Bool} {operator : Operator}
    (isPlain : ¬(operator = .pow ∧ constantExponent = false)) (heldA : holds a)
    (heldB : holds b) (heldDa : holds da) (heldDb : holds db) :
    ∃ k, Laid t holds 0 (ofBinary t constantExponent operator a b da db) k ∧ k ≤ newNodes := by
  cases operator with
  | add => exact ⟨1, .binary (.held heldDa) (.held heldDb), by decide⟩
  | sub => exact ⟨1, .binary (.held heldDa) (.held heldDb), by decide⟩
  | mul =>
      exact ⟨3, .binary (.binary (.held heldDa) (.held heldB))
        (.binary (.held heldA) (.held heldDb)), by decide⟩
  | div =>
      exact ⟨6, .binary
        (.binary (.binary (.held heldDa) (.held heldB)) (.binary (.held heldA) (.held heldDb)))
        (.binary (.held heldB) .num), by decide⟩
  | pow =>
      cases constantExponent with
      | true =>
          exact ⟨5, .binary
            (.binary (.held heldB) (.binary (.held heldA) (.binary (.held heldB) .num)))
            (.held heldDa), by decide⟩
      | false => exact absurd ⟨rfl, rfl⟩ isPlain

theorem extends_ofApply (supplied : Supplied expr base holds) (tags : ∀ j, (t j).id = base + j)
    (function : Elementary) (heldWhole : holds whole) (heldU : holds u) (heldDu : holds du) :
    Extends expr (base + newNodes) holds (ofApply t function whole u du) := by
  obtain ⟨k, laid, fits⟩ := exists_laid_ofApply (t := t) function heldWhole heldU heldDu
  exact supplied.extends_of_laid tags laid fits

omit [Arithmetic ν] in
/-- The logarithm comes first, then what is over it, and the root last. -/
theorem extends_ofPower (supplied : Supplied expr base holds) (tags : ∀ j, (t j).id = base + j)
    (heldA : holds a) (heldB : holds b) (heldDa : holds da) (heldDb : holds db) :
    Extends expr (base + newNodes) holds (ofPower t a b da db) := by
  have logarithmLaid : Laid t holds 1 (.apply (t 1) .ln a) 2 := .apply (.held heldA)
  rcases supplied.exists_grown tags (.refl supplied.heap) (Nat.le_refl 1) logarithmLaid with
    ⟨holds₁, grown₁, keeps₁, heldLogarithm⟩
  have powerLaid : Laid t holds₁ 2
      (.apply (t 2) .exp (.binary (t 3) .mul b (.apply (t 1) .ln a))) 4 :=
    .apply (.binary (.held (keeps₁ b heldB)) (.held heldLogarithm))
  rcases supplied.exists_grown tags grown₁ (by decide) powerLaid with
    ⟨holds₂, grown₂, keeps₂, heldPower⟩
  have slopeLaid : Laid t holds₂ 4
      (.binary (t 4) .add (.binary (t 5) .mul db (.apply (t 1) .ln a))
        (.binary (t 6) .div (.binary (t 7) .mul b da) a)) 8 := by
    refine .binary (.binary (.held ?_) (.held (keeps₂ _ heldLogarithm)))
      (.binary (.binary (.held ?_) (.held ?_)) (.held ?_))
    · exact grown₂.keeps db heldDb
    · exact grown₂.keeps b heldB
    · exact grown₂.keeps da heldDa
    · exact grown₂.keeps a heldA
  rcases supplied.exists_grown tags grown₂ (by decide) slopeLaid with
    ⟨holds₃, grown₃, keeps₃, heldSlope⟩
  have inserted := grown₃.insert (by decide) supplied.free (ofPower t a b da db) (tags 0)
    (Expr.forall_operands_binary_iff.mpr ⟨keeps₃ _ heldPower, heldSlope⟩)
  exact supplied.extends_of_grown inserted (Nat.le_refl newNodes) (Or.inl rfl)

theorem extends_ofBinary (supplied : Supplied expr base holds) (tags : ∀ j, (t j).id = base + j)
    (constantExponent : Bool) (operator : Operator) (heldA : holds a) (heldB : holds b)
    (heldDa : holds da) (heldDb : holds db) :
    Extends expr (base + newNodes) holds (ofBinary t constantExponent operator a b da db) := by
  by_cases isVariable : operator = .pow ∧ constantExponent = false
  · rcases isVariable with ⟨rfl, rfl⟩
    exact extends_ofPower supplied tags heldA heldB heldDa heldDb
  · obtain ⟨k, laid, fits⟩ := exists_laid_ofBinary (t := t) isVariable heldA heldB heldDa heldDb
    exact supplied.extends_of_laid tags laid fits

/-! ## Rules look at no marks -/

section Marks

variable {α β : Type} (f : α → β) (supply : Nat → α)

theorem ofApply_map (function : Elementary) (whole u du : Expr ν α) :
    (ofApply supply function whole u du).map f =
      ofApply (fun k => f (supply k)) function (whole.map f) (u.map f) (du.map f) := by
  cases function <;> rfl

theorem ofBinary_map (constantExponent : Bool) (operator : Operator) (a b da db : Expr ν α) :
    (ofBinary supply constantExponent operator a b da db).map f =
      ofBinary (fun k => f (supply k)) constantExponent operator (a.map f) (b.map f) (da.map f)
        (db.map f) := by
  cases operator with
  | add => rfl
  | sub => rfl
  | mul => rfl
  | div => rfl
  | pow => cases constantExponent <;> rfl

/-- Only a power asks whether its exponent is constant. -/
theorem ofBinary_congr {constantExponent constantExponent' : Bool} {operator : Operator}
    (same : operator = .pow → constantExponent = constantExponent') (a b da db : Expr ν α) :
    ofBinary supply constantExponent operator a b da db =
      ofBinary supply constantExponent' operator a b da db := by
  cases operator with
  | add => rfl
  | sub => rfl
  | mul => rfl
  | div => rfl
  | pow => rw [same rfl]

end Marks

end Derivative

/-- Whether an expression is a power whose exponent is taken to be constant. -/
def Expr.hasConstantExponent [Arithmetic ν] {α : Type} (name : String) : Expr ν α → Bool
  | .binary _ operator _ b => operator = .pow && (b.derivative name).isConstantBy
  | .num _ _ | .var _ _ | .apply _ _ _ => false

namespace Dag

variable [Arithmetic ν]

/-! ## One node -/

/-- An exponent whose derivative is coherent is found constant where nodes are shared if the
recursion finds it so. -/
theorem isInt_simplify_eq_isConstantBy {next : Nat} {db : Dag ν} (isCoherent : Coherent db)
    (below : Below next db) : (simplify false next db).1.isInt 0 = (unfold db).isConstantBy := by
  obtain ⟨_, _, simplified⟩ := simplify_spec false isCoherent below
  rw [Expr.isConstantBy, ← simplified]
  exact (Expr.isInt_map Tag.source _ 0).symm

/-- The derivative of a node follows the rule of the recursion, asks the same of an
exponent, and stays within its block of identities. -/
theorem differentiateNode_spec {expr : Dag ν} {next : Nat} {holds : Dag ν → Prop}
    (supplied : Supplied expr next holds) {name : String} {derivative : Dag ν → Dag ν}
    {node : Dag ν} (held : holds node)
    (operands : ∀ child ∈ node.operands, holds (derivative child) ∧
      unfold (derivative child) = (unfold child).derivative name) :
    Extends expr (next + Derivative.newNodes) holds
        (differentiateNode name next derivative node).expr ∧
      unfold (differentiateNode name next derivative node).expr =
        (unfold node).derivative name ∧
      (differentiateNode name next derivative node).constantExponent =
        (unfold node).hasConstantExponent name := by
  have tags : ∀ k, (Tag.mk (next + k) node.source).id = next + k := fun _ => rfl
  cases node with
  | num _ _ => exact ⟨supplied.extends_of_laid tags .num (by decide), rfl, rfl⟩
  | var _ _ => exact ⟨supplied.extends_of_laid tags .num (by decide), rfl, rfl⟩
  | binary tag operator a b =>
      obtain ⟨⟨heldDa, unfoldsDa⟩, heldDb, unfoldsDb⟩ :=
        Expr.forall_operands_binary_iff.mp operands
      obtain ⟨coherentDb, belowDb⟩ := supplied.coherent_below heldDb
      have sameExponent : (simplify false next (derivative b)).1.isInt 0 =
          ((unfold b).derivative name).isConstantBy := by
        rw [isInt_simplify_eq_isConstantBy coherentDb belowDb, unfoldsDb]
      have heldA := supplied.heap.closed held Expr.left_mem_operands
      have heldB := supplied.heap.closed held Expr.right_mem_operands
      refine ⟨Derivative.extends_ofBinary supplied tags _ operator heldA heldB heldDa heldDb, ?_,
        congrArg (decide (operator = .pow) && ·) sameExponent⟩
      rw [unfold_binary, Expr.derivative, ← sameExponent, ← unfoldsDa, ← unfoldsDb]
      refine (Derivative.ofBinary_map Tag.source (fun k => ⟨next + k, tag.source⟩) _ operator a b
        (derivative a) (derivative b)).trans (Derivative.ofBinary_congr _ ?_ _ _ _ _)
      rintro rfl
      rw [decide_eq_true rfl, Bool.true_and]
  | apply tag function argument =>
      obtain ⟨heldDu, unfoldsDu⟩ := Expr.forall_operands_apply_iff.mp operands
      refine ⟨Derivative.extends_ofApply supplied tags function held
        (supplied.heap.closed held Expr.argument_mem_operands) heldDu, ?_, rfl⟩
      rw [unfold_apply, Expr.derivative, ← unfoldsDu]
      exact Derivative.ofApply_map Tag.source (fun k => ⟨next + k, tag.source⟩) function
        (.apply tag function argument) argument (derivative argument)

/-- The derivative of a node looks at nothing but the derivatives of its operands. -/
theorem differentiateNode_congr {name : String} {next : Nat} {image image' : Dag ν → Dag ν}
    {node : Dag ν} (same : ∀ child ∈ node.operands, image child = image' child) :
    differentiateNode name next image node = differentiateNode name next image' node := by
  cases node with
  | num _ _ => rfl
  | var _ _ => rfl
  | binary _ _ a b =>
      obtain ⟨sameA, sameB⟩ := Expr.forall_operands_binary_iff.mp same
      rw [differentiateNode, differentiateNode, sameA, sameB]
  | apply _ _ u =>
      rw [differentiateNode, differentiateNode, Expr.forall_operands_apply_iff.mp same]

/-! ## All nodes -/

/-- The derivative of a node within that of an expression. -/
def derivativeOf (name : String) (next : Nat) (expr node : Dag ν) : Dag ν :=
  ((expr.derivatives name next)[node.id]?.map NodeDerivative.expr).getD node

theorem isLocal_differentiateNode (name : String) (next : Nat) :
    IsLocal fun place (derivative : Dag ν → Option (NodeDerivative ν)) node =>
      differentiateNode name (next + Derivative.newNodes * place)
        (fun operand => ((derivative operand).map NodeDerivative.expr).getD operand) node :=
  fun _ _ _ _ same => differentiateNode_congr fun child member => by rw [same child member]

/-- Whoever asks for a node, the rules find the same derivative of it. -/
theorem derivatives_eq (name : String) (next : Nat) {expr node : Dag ν}
    (isCoherent : Coherent expr) (reached : Reaches expr node) :
    (expr.derivatives name next)[node.id]? =
      some (differentiateNode name (next + Derivative.newNodes * expr.place node)
        (derivativeOf name next expr) node) :=
  sweep_eq (isLocal_differentiateNode name next) isCoherent reached

theorem derivativeOf_eq (name : String) (next : Nat) {expr node : Dag ν}
    (isCoherent : Coherent expr) (reached : Reaches expr node) :
    derivativeOf name next expr node =
      (differentiateNode name (next + Derivative.newNodes * expr.place node)
        (derivativeOf name next expr) node).expr := by
  rw [derivativeOf, derivatives_eq name next isCoherent reached]
  rfl

/-- The derivatives of all nodes are one heap with the nodes themselves. Each unfolds to
the derivative by recursion, and each power is asked what the recursion asks of it. -/
theorem exists_supplied_derivatives (name : String) {next : Nat} {expr : Dag ν}
    (isCoherent : Coherent expr) (below : Below next expr) :
    ∃ holds, Supplied expr (differentiate name next expr).next holds ∧
      ∀ node, Reaches expr node → holds (derivativeOf name next expr node) ∧
        unfold (derivativeOf name next expr node) = (unfold node).derivative name ∧
        (differentiateNode name (next + Derivative.newNodes * expr.place node)
          (derivativeOf name next expr) node).constantExponent =
            (unfold node).hasConstantExponent name := by
  have swept : ∃ holds, Supplied expr (next + Derivative.newNodes * expr.nodes.length) holds ∧
      ∀ node, Reaches expr node → ∃ result,
        (expr.derivatives name next)[node.id]? = some result ∧ holds result.expr ∧
          unfold result.expr = (unfold node).derivative name ∧
          result.constantExponent = (unfold node).hasConstantExponent name := by
    refine exists_supplied_of_sweep isCoherent below ?_
    intro place known node holds supplied reached operands
    refine differentiateNode_spec supplied (supplied.original node reached) ?_
    intro child member
    obtain ⟨result, found, held, unfolds, _⟩ := operands child member
    rw [found]
    exact ⟨held, unfolds⟩
  rcases swept with ⟨holds, supplied, results⟩
  refine ⟨holds, supplied, ?_⟩
  intro node reached
  obtain ⟨result, found, held⟩ := results node reached
  rw [derivatives_eq name next isCoherent reached, Option.some.injEq] at found
  rwa [derivativeOf_eq name next isCoherent reached, found]

/-! ## The whole expression -/

/-- Differentiation where nodes are shared unfolds to differentiation by recursion, and
its result is coherent and uses no identity beyond the supply. -/
theorem differentiate_spec (name : String) {next : Nat} {expr : Dag ν}
    (isCoherent : Coherent expr) (below : Below next expr) :
    Coherent (differentiate name next expr).derivative ∧
      Below (differentiate name next expr).next (differentiate name next expr).derivative ∧
      unfold (differentiate name next expr).derivative = (unfold expr).derivative name := by
  rcases exists_supplied_derivatives name isCoherent below with ⟨holds, supplied, results⟩
  obtain ⟨held, unfolds, _⟩ := results expr (.root expr)
  obtain ⟨resultCoherent, resultBelow⟩ := supplied.coherent_below held
  exact ⟨resultCoherent, resultBelow, unfolds⟩

end Dag

end Fluxion
