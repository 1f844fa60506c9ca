import Mathlib.Algebra.Group.Nat.Defs
import Fluxion.Proofs.Derivative.Sharing

/-!
# Derivatives stay small

A rule makes few nodes over the operands of its node and their derivatives, and it
copies none of these. A node below a derivative is therefore one of the expression, or
it was made for one: then it bears one of the few marks that the place of that node
supplies. So the number of nodes grows by a constant factor with each derivative, however
large the unfolded expressions become.
-/

namespace Fluxion

variable {ν : Type}

namespace Dag

/-! ## What a rule makes -/

/-- An expression over given ones whose other nodes bear the marks that a rule may use. -/
inductive MadeOf (t : Nat → Tag) (isGiven : Dag ν → Prop) : Dag ν → Prop
  | given {expr : Dag ν} : isGiven expr → MadeOf t isGiven expr
  | num {k : Nat} {value : ν} : k < Derivative.newNodes → MadeOf t isGiven (.num (t k) value)
  | apply {k : Nat} {function : Elementary} {argument : Dag ν} : k < Derivative.newNodes →
      MadeOf t isGiven argument → MadeOf t isGiven (.apply (t k) function argument)
  | binary {k : Nat} {operator : Operator} {left right : Dag ν} : k < Derivative.newNodes →
      MadeOf t isGiven left → MadeOf t isGiven right →
      MadeOf t isGiven (.binary (t k) operator left right)

variable {t : Nat → Tag} {isGiven : Dag ν → Prop} {expr inner : Dag ν}

theorem Laid.madeOf {i k : Nat} (laid : Laid t isGiven i expr k)
    (fits : k ≤ Derivative.newNodes) : MadeOf t isGiven expr := by
  induction laid with
  | held held => exact .given held
  | num => exact .num fits
  | apply laid ih => exact .apply (Nat.lt_of_lt_of_le laid.le fits) (ih fits)
  | binary leftLaid rightLaid left_ih right_ih =>
      have leftFits := Nat.le_trans rightLaid.le fits
      exact .binary (Nat.lt_of_lt_of_le leftLaid.le leftFits) (left_ih leftFits) (right_ih fits)

/-- Below what is made lies what is given, and what bears one of the marks. -/
theorem MadeOf.given_or_mark (made : MadeOf t isGiven expr) (reached : Reaches expr inner) :
    (∃ start, isGiven start ∧ Reaches start inner) ∨
      ∃ k, k < Derivative.newNodes ∧ inner.mark = t k := by
  induction made with
  | given isGiven => exact Or.inl ⟨_, isGiven, reached⟩
  | @num k _ few =>
      rw [reaches_num_iff.mp reached]
      exact Or.inr ⟨k, few, rfl⟩
  | @apply k _ _ few _ ih =>
      rcases reaches_apply_iff.mp reached with rfl | below
      · exact Or.inr ⟨k, few, rfl⟩
      · exact ih below
  | @binary k _ _ _ few _ _ left_ih right_ih =>
      rcases reaches_binary_iff.mp reached with rfl | below | below
      · exact Or.inr ⟨k, few, rfl⟩
      · exact left_ih below
      · exact right_ih below

end Dag

namespace Derivative

open Dag (MadeOf)

variable {t : Nat → Tag} {isGiven : Dag ν → Prop} {a b da db : Dag ν}

/-- The logarithm is met twice here, so this is no layout. -/
theorem madeOf_ofPower (givenA : isGiven a) (givenB : isGiven b) (givenDa : isGiven da)
    (givenDb : isGiven db) : MadeOf t isGiven (ofPower t a b da db) := by
  have logarithm : MadeOf t isGiven (.apply (t 1) .ln a) := .apply (by decide) (.given givenA)
  have power : MadeOf t isGiven
      (.apply (t 2) .exp (.binary (t 3) .mul b (.apply (t 1) .ln a))) :=
    .apply (by decide) (.binary (by decide) (.given givenB) logarithm)
  refine .binary (by decide) power (.binary (by decide) ?_ ?_)
  · exact .binary (by decide) (.given givenDb) logarithm
  · exact .binary (by decide) (.binary (by decide) (.given givenB) (.given givenDa))
      (.given givenA)

variable [Arithmetic ν]

theorem madeOf_ofBinary (constantExponent : Bool) (operator : Operator) (givenA : isGiven a)
    (givenB : isGiven b) (givenDa : isGiven da) (givenDb : isGiven db) :
    MadeOf t isGiven (ofBinary t constantExponent operator a b da db) := by
  by_cases isVariable : operator = .pow ∧ constantExponent = false
  · rcases isVariable with ⟨rfl, rfl⟩
    exact madeOf_ofPower givenA givenB givenDa givenDb
  · obtain ⟨_, laid, fits⟩ :=
      exists_laid_ofBinary (t := t) isVariable givenA givenB givenDa givenDb
    exact laid.madeOf fits

end Derivative

namespace Dag

/-! ## Blocks of identities -/

/-- The identities that the place of a node supplies. -/
def blockOf (next : Nat) (expr origin : Dag ν) : List Nat :=
  List.range' (next + Derivative.newNodes * expr.place origin) Derivative.newNodes

theorem mem_blockOf_of_mark {next k : Nat} {expr origin node : Dag ν} {source : Option Token}
    (few : k < Derivative.newNodes)
    (marked : node.mark = ⟨next + Derivative.newNodes * expr.place origin + k, source⟩) :
    node.id ∈ blockOf next expr origin := by
  rw [blockOf, Expr.id, marked, List.mem_range'_1]
  exact ⟨Nat.le_add_right _ _, Nat.add_lt_add_left few _⟩

/-- The blocks of different places do not overlap. -/
theorem place_eq_of_mem_blockOf {next id : Nat} {expr origin other : Dag ν}
    (inBlock : id ∈ blockOf next expr origin) (inOther : id ∈ blockOf next expr other) :
    expr.place origin = expr.place other := by
  rw [blockOf, Derivative.newNodes, List.mem_range'_1] at inBlock inOther
  omega

/-- All blocks lie between the supply before and that behind. -/
theorem bounds_of_mem_blockOf {next id : Nat} {expr origin : Dag ν}
    (isCoherent : Coherent expr) (reached : Reaches expr origin)
    (inBlock : id ∈ blockOf next expr origin) :
    next ≤ id ∧ id < next + Derivative.newNodes * expr.count := by
  have placed := place_lt isCoherent reached
  rw [blockOf, Derivative.newNodes, List.mem_range'_1] at inBlock
  rw [Derivative.newNodes]
  omega

/-! ## Where nodes come from -/

variable [Arithmetic ν]

/-- What a rule is handed for a node: the node, its operands and their images. -/
def Handed (image : Dag ν → Dag ν) (node given : Dag ν) : Prop :=
  given = node ∨ ∃ child ∈ node.operands, given = child ∨ given = image child

/-- Whether the exponent is constant is asked of a simplification, but nothing of that
remains in the derivative. -/
theorem madeOf_differentiateNode (name : String) (next : Nat) (image : Dag ν → Dag ν)
    (node : Dag ν) :
    MadeOf (fun k => ⟨next + k, node.source⟩) (Handed image node)
      (differentiateNode name next image node).expr := by
  have given : ∀ child ∈ node.operands,
      Handed image node child ∧ Handed image node (image child) := fun child member =>
    ⟨Or.inr ⟨child, member, Or.inl rfl⟩, Or.inr ⟨child, member, Or.inr rfl⟩⟩
  cases node with
  | num _ _ => exact .num (by decide)
  | var _ _ => exact .num (by decide)
  | binary tag operator a b =>
      obtain ⟨⟨givenA, givenDa⟩, givenB, givenDb⟩ := Expr.forall_operands_binary_iff.mp given
      exact Derivative.madeOf_ofBinary _ operator givenA givenB givenDa givenDb
  | apply tag function u =>
      obtain ⟨givenU, givenDu⟩ := Expr.forall_operands_apply_iff.mp given
      obtain ⟨_, laid, fits⟩ := Derivative.exists_laid_ofApply function (Or.inl rfl) givenU givenDu
      exact laid.madeOf fits

/-- A node below the derivative of a node is one of the expression, or it lies below the
derivative of an origin and bears one of the marks that the place of the origin supplies. -/
theorem exists_origin_of_reaches (name : String) (next : Nat) {expr node inner : Dag ν}
    (isCoherent : Coherent expr) (reached : Reaches expr node)
    (below : Reaches (derivativeOf name next expr node) inner) :
    Reaches expr inner ∨ ∃ origin, Reaches expr origin ∧
      Reaches (derivativeOf name next expr origin) inner ∧ ∃ k, k < Derivative.newNodes ∧
        inner.mark = ⟨next + Derivative.newNodes * expr.place origin + k, origin.source⟩ := by
  have made := madeOf_differentiateNode name (next + Derivative.newNodes * expr.place node)
    (derivativeOf name next expr) node
  rw [← derivativeOf_eq name next isCoherent reached] at made
  rcases made.given_or_mark below with ⟨start, handed, reachedInner⟩ | ⟨k, few, marked⟩
  · rcases handed with rfl | ⟨child, member, rfl | rfl⟩
    · exact Or.inl (reached.trans reachedInner)
    · exact Or.inl ((reached.step member).trans reachedInner)
    · exact exists_origin_of_reaches name next isCoherent (reached.step member) reachedInner
  · exact Or.inr ⟨node, reached, below, k, few, marked⟩
termination_by node.size
decreasing_by exact size_lt_of_mem_operands member

/-- The nodes of a derivative that were made for a node of the expression. -/
def madeFor (name : String) (next : Nat) (expr origin : Dag ν) : List (Dag ν) :=
  (differentiate name next expr).derivative.nodes.filter fun node =>
    decide (node.id ∈ blockOf next expr origin)

section Made

variable (name : String) {next : Nat} {expr : Dag ν} (isCoherent : Coherent expr)
  (below : Below next expr)

include isCoherent below

theorem mem_madeFor_iff {origin node : Dag ν} :
    node ∈ madeFor name next expr origin ↔
      Reaches (differentiate name next expr).derivative node ∧
        node.id ∈ blockOf next expr origin := by
  obtain ⟨derivativeCoherent, _, _⟩ := differentiate_spec name isCoherent below
  rw [madeFor, List.mem_filter, mem_nodes_iff derivativeCoherent, decide_eq_true_iff]

/-- Every node of a derivative is one of the expression or was made for one. -/
theorem reaches_or_made {node : Dag ν}
    (reached : Reaches (differentiate name next expr).derivative node) :
    Reaches expr node ∨ ∃ origin, Reaches expr origin ∧ node ∈ madeFor name next expr origin := by
  rcases exists_origin_of_reaches name next isCoherent (.root expr) reached with
    old | ⟨origin, reachedOrigin, _, k, few, marked⟩
  · exact Or.inl old
  · exact Or.inr ⟨origin, reachedOrigin,
      (mem_madeFor_iff name isCoherent below).mpr ⟨reached, mem_blockOf_of_mark few marked⟩⟩

theorem length_madeFor_le (origin : Dag ν) :
    (madeFor name next expr origin).length ≤ Derivative.newNodes := by
  obtain ⟨derivativeCoherent, _, _⟩ := differentiate_spec name isCoherent below
  obtain ⟨listing, _, _⟩ := listing_nodes derivativeCoherent
  have inBlock : ∀ node ∈ madeFor name next expr origin, node.id ∈ blockOf next expr origin :=
    fun node made => ((mem_madeFor_iff name isCoherent below).mp made).2
  have few := listing.length_le_of_sublist List.filter_sublist inBlock
  rwa [blockOf, List.length_range'] at few

/-- What is made for a node is new, and lies below the derivative of that node. -/
theorem isNew_of_mem_madeFor {origin node : Dag ν} (reachedOrigin : Reaches expr origin)
    (made : node ∈ madeFor name next expr origin) :
    ¬Reaches expr node ∧ Reaches (derivativeOf name next expr origin) node := by
  obtain ⟨reached, inBlock⟩ := (mem_madeFor_iff name isCoherent below).mp made
  have isNew : ¬Reaches expr node := by
    intro old
    have free := (bounds_of_mem_blockOf isCoherent reachedOrigin inBlock).1
    exact absurd (below node old) (Nat.not_lt.mpr free)
  refine ⟨isNew, ?_⟩
  rcases exists_origin_of_reaches name next isCoherent (.root expr) reached with
    old | ⟨other, reachedOther, belowOther, k, few, marked⟩
  · exact absurd old isNew
  · have same := place_eq_of_mem_blockOf inBlock (mem_blockOf_of_mark few marked)
    rwa [eq_of_place_eq isCoherent reachedOrigin reachedOther same]

theorem count_differentiate_le :
    (differentiate name next expr).derivative.count ≤ (1 + Derivative.newNodes) * expr.count := by
  obtain ⟨derivativeCoherent, _, _⟩ := differentiate_spec name isCoherent below
  have among : ∀ node, Reaches (differentiate name next expr).derivative node →
      node.id ∈ expr.nodes.map Expr.id ++ List.range' next (Derivative.newNodes * expr.count) := by
    intro node reached
    rcases reaches_or_made name isCoherent below reached with
      old | ⟨origin, reachedOrigin, made⟩
    · exact List.mem_append_left _ (List.mem_map_of_mem ((mem_nodes_iff isCoherent).mpr old))
    · have inBlock := ((mem_madeFor_iff name isCoherent below).mp made).2
      exact List.mem_append_right _
        (List.mem_range'_1.mpr (bounds_of_mem_blockOf isCoherent reachedOrigin inBlock))
  calc
    (differentiate name next expr).derivative.count
      ≤ (expr.nodes.map Expr.id ++
          List.range' next (Derivative.newNodes * expr.count)).length :=
        count_le_of_reaches derivativeCoherent among
    _ = expr.count + Derivative.newNodes * expr.count := by
        rw [List.length_append, List.length_map, List.length_range', count]
    _ = (1 + Derivative.newNodes) * expr.count := by rw [Nat.add_mul, Nat.one_mul]

end Made

/-! ## Successive derivatives -/

/-- Differentiates by one variable after the other, each time with the supply that the
derivative before has left. -/
def differentiateInTurn : List String → Nat → Dag ν → Dag ν
  | [], _, expr => expr
  | name :: names, next, expr =>
      differentiateInTurn names (differentiate name next expr).next
        (differentiate name next expr).derivative

theorem count_differentiateInTurn_le (names : List String) {next : Nat} {expr : Dag ν}
    (isCoherent : Coherent expr) (below : Below next expr) :
    (differentiateInTurn names next expr).count ≤
      (1 + Derivative.newNodes) ^ names.length * expr.count := by
  induction names generalizing next expr with
  | nil => simp [differentiateInTurn]
  | cons name names ih =>
      obtain ⟨derivativeCoherent, derivativeBelow, _⟩ := differentiate_spec name isCoherent below
      calc
        (differentiateInTurn (name :: names) next expr).count
          ≤ (1 + Derivative.newNodes) ^ names.length *
              (differentiate name next expr).derivative.count :=
            ih derivativeCoherent derivativeBelow
        _ ≤ (1 + Derivative.newNodes) ^ names.length *
              ((1 + Derivative.newNodes) * expr.count) :=
            Nat.mul_le_mul_left _ (count_differentiate_le name isCoherent below)
        _ = (1 + Derivative.newNodes) ^ (name :: names).length * expr.count := by
            rw [List.length_cons, Nat.pow_succ, Nat.mul_assoc]

/-- Differentiation is linear in the number of nodes. A node of the derivative is one of
the expression, or one of at most eight new ones that were made for a node of it. -/
theorem differentiate_linear (name : String) {next : Nat} {expr : Dag ν}
    (isCoherent : Coherent expr) (below : Below next expr) :
    (∀ node, Reaches (differentiate name next expr).derivative node → Reaches expr node ∨
      ∃ origin, Reaches expr origin ∧ node ∈ madeFor name next expr origin) ∧
    (∀ origin, Reaches expr origin → (madeFor name next expr origin).length ≤ 8 ∧
      ∀ node ∈ madeFor name next expr origin, ¬Reaches expr node ∧
        Reaches (derivativeOf name next expr origin) node) ∧
    (differentiate name next expr).derivative.count ≤ 9 * expr.count ∧
    ∀ names : List String,
      (differentiateInTurn names next expr).count ≤ 9 ^ names.length * expr.count := by
  refine ⟨fun node reached => reaches_or_made name isCoherent below reached, ?_,
    count_differentiate_le name isCoherent below,
    fun names => count_differentiateInTurn_le names isCoherent below⟩
  intro origin reachedOrigin
  exact ⟨length_madeFor_le name isCoherent below origin, fun node made =>
    isNew_of_mem_madeFor name isCoherent below reachedOrigin made⟩

/-- The power `(1*x)^(1*x)` has at most four nodes, its derivative 36, and the next one
324. -/
theorem differentiate_linear_sharedPower :
    (sharedPower : Dag Float).count ≤ 4 ∧
      (differentiate "x" 4 (sharedPower : Dag Float)).derivative.count ≤ 36 ∧
      (differentiateInTurn ["x", "x"] 4 (sharedPower : Dag Float)).count ≤ 324 := by
  obtain ⟨_, _, once, inTurn⟩ := differentiate_linear "x" (coherent_sharedPower (ν := Float))
    below_sharedPower
  have twice := inTurn ["x", "x"]
  rw [show ["x", "x"].length = 2 from rfl] at twice
  have among : ∀ node, Reaches (sharedPower : Dag Float) node → node.id ∈ [0, 1, 2, 3] := by
    intro node reached
    rcases reaches_sharedPower_iff.mp reached with rfl | rfl | rfl | rfl <;> decide
  have four : (sharedPower : Dag Float).count ≤ 4 := count_le_of_reaches coherent_sharedPower among
  omega

end Dag

end Fluxion
