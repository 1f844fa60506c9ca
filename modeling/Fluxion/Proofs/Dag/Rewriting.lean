import Mathlib.Data.List.Basic
import Mathlib.Logic.Relation
import Fluxion.Proofs.Dag.Sweep

/-!
# Rewriting with calls

A rule for a node may ask what becomes of other nodes. It is answered from a memo; where the memo
has no answer, the rule is called for the other node, and the caller waits. So calls could nest
as deep as the expression is.

They never do if the nodes are taken in the order of the listing and a rule asks for nothing but
the operands of its node. A machine with a stack of calls shows it, one step after the other:
every request is in the memo when it is made, so a call is done before the next one starts,
each node is called for once, and the memo becomes the table of a sweep.
-/

namespace Fluxion.Dag

variable {ν β ω : Type}

/-! ## Rules at work -/

/-- A rule at work on a node: it is done, it asks what becomes of a node and goes on with the
answer, or it tells something and goes on. -/
inductive Work (ν β ω : Type) where
  | done (result : β)
  | ask (node : Dag ν) (next : β → Work ν β ω)
  | tell (line : ω) (rest : Work ν β ω)

namespace Work

/-- Asks for some nodes one after the other, and goes on with what is known then. -/
def asking (known : Dag ν → Option β) (nodes : List (Dag ν))
    (next : (Dag ν → Option β) → Work ν β ω) : Work ν β ω :=
  match nodes with
  | [] => next known
  | node :: nodes =>
      .ask node fun answer =>
        asking (fun other => if other.id = node.id then some answer else known other) nodes next

/-- What is told, and the result, if every request can be answered from a memo. -/
def finish (memo : Table β) : Work ν β ω → Option (List ω × β)
  | done result => some ([], result)
  | ask node next => (memo[node.id]?).bind fun answer => (next answer).finish memo
  | tell line rest => (rest.finish memo).map fun told => (line :: told.1, told.2)

/-- Behind the requests for some nodes, what is known of them is what the memo says. -/
theorem exists_finish_asking {memo : Table β} {nodes : List (Dag ν)}
    (answered : ∀ node ∈ nodes, ∃ answer, memo[node.id]? = some answer)
    (known : Dag ν → Option β) :
    ∃ known', (∀ next : (Dag ν → Option β) → Work ν β ω,
        (asking known nodes next).finish memo = (next known').finish memo) ∧
      ∀ other, other ∈ nodes ∨ known other = memo[other.id]? → known' other = memo[other.id]? := by
  induction nodes generalizing known with
  | nil => exact ⟨known, fun _ => rfl, fun other same => same.resolve_left List.not_mem_nil⟩
  | cons node nodes ih =>
      obtain ⟨answer, found⟩ := answered node List.mem_cons_self
      obtain ⟨known', same, knows⟩ := ih (fun other member =>
        answered other (List.mem_cons_of_mem _ member))
        fun other => if other.id = node.id then some answer else known other
      refine ⟨known', ?_, ?_⟩
      · intro next
        rw [asking, finish, found, Option.bind_some, same]
      · intro other asked
        refine knows other ?_
        by_cases isNode : other.id = node.id
        · rw [if_pos isNode, isNode, found]
          exact Or.inr rfl
        · rw [if_neg isNode]
          rcases asked with member | isKnown
          · rcases List.mem_cons.mp member with rfl | member
            · exact absurd rfl isNode
            · exact Or.inl member
          · exact Or.inr isKnown

/-- A step that asks for operands only can be taken behind the requests for them. -/
theorem finish_asking_operands {step : Nat → (Dag ν → Option β) → Dag ν → β}
    (isLocal : IsLocal step) (place : Nat) {node : Dag ν} {memo : Table β}
    (answered : ∀ child ∈ node.operands, ∃ answer, memo[child.id]? = some answer) :
    (asking (fun _ => none) node.operands fun known =>
        (done (step place known node) : Work ν β ω)).finish memo =
      some ([], step place (fun other => memo[other.id]?) node) := by
  obtain ⟨known, finishes, knows⟩ := exists_finish_asking (ω := ω) answered fun _ => none
  rw [finishes, finish, isLocal place known _ node fun child member => knows child (Or.inl member)]

end Work

/-! ## The machine -/

/-- How far a rewriting has come: the nodes that are still to be taken, the calls of the rule that
are going on with the innermost first, the results, the nodes that the rule was called for, and
what was told. -/
structure Rewriting (ν β ω : Type) where
  todo : List (Dag ν)
  calls : List (Dag ν × Work ν β ω)
  memo : Table β
  called : List (Dag ν)
  told : List ω

namespace Rewriting

/-- The rule is called for a node. It is told how many calls there were before. -/
def call (rule : Nat → Dag ν → Work ν β ω) (node : Dag ν) (state : Rewriting ν β ω) :
    Rewriting ν β ω :=
  { state with
    calls := (node, rule state.called.length node) :: state.calls
    called := state.called ++ [node] }

/-- The innermost call goes on by one step. If there is none, the next node is taken. -/
def step? (rule : Nat → Dag ν → Work ν β ω) (state : Rewriting ν β ω) :
    Option (Rewriting ν β ω) :=
  match state.calls with
  | [] =>
      match state.todo with
      | [] => none
      | node :: todo =>
          if state.memo.contains node.id then some { state with todo := todo }
          else some (call rule node { state with todo := todo })
  | (node, .done result) :: callers =>
      some { state with calls := callers, memo := state.memo.insert node.id result }
  | (node, .ask other next) :: callers =>
      match state.memo[other.id]? with
      | some answer => some { state with calls := (node, next answer) :: callers }
      | none => some (call rule other state)
  | (node, .tell line rest) :: callers =>
      some { state with calls := (node, rest) :: callers, told := state.told ++ [line] }

/-- All nodes are to be taken in the order of the listing, and in the end the expression
itself is asked for. -/
def start (expr : Dag ν) : Rewriting ν β ω :=
  ⟨expr.nodes ++ [expr], [], ∅, [], []⟩

/-- A state is reached from another one by some steps. -/
def Leads (rule : Nat → Dag ν → Work ν β ω) : Rewriting ν β ω → Rewriting ν β ω → Prop :=
  Relation.ReflTransGen fun state state' => state.step? rule = some state'

/-- No call waits for another one, and what the rule asks for is in the memo. -/
structure Flat (state : Rewriting ν β ω) : Prop where
  alone : state.calls.length ≤ 1
  answered : ∀ node other next callers, state.calls = (node, .ask other next) :: callers →
    ∃ answer, state.memo[other.id]? = some answer

variable {rule : Nat → Dag ν → Work ν β ω} {state state' state'' : Rewriting ν β ω}

theorem flat_of_no_calls (idle : state.calls = []) : state.Flat where
  alone := by
    rw [idle]
    exact Nat.zero_le 1
  answered := by
    rintro node other next callers calls
    rw [idle] at calls
    cases calls

/-- Steps from one state to another through flat ones only. -/
inductive FlatRun (rule : Nat → Dag ν → Work ν β ω) : Rewriting ν β ω → Rewriting ν β ω → Prop
  | refl {state : Rewriting ν β ω} : state.Flat → FlatRun rule state state
  | step {state state' state'' : Rewriting ν β ω} : state.Flat →
      state.step? rule = some state' → FlatRun rule state' state'' → FlatRun rule state state''

namespace FlatRun

theorem trans (first : FlatRun rule state state') (second : FlatRun rule state' state'') :
    FlatRun rule state state'' := by
  induction first with
  | refl _ => exact second
  | step flat next _ ih => exact .step flat next (ih second)

theorem flat (run : FlatRun rule state state') : state.Flat := by
  cases run with
  | refl flat => exact flat
  | step flat _ _ => exact flat

theorem leads (run : FlatRun rule state state') : Leads rule state state' := by
  induction run with
  | refl _ => exact .refl
  | step _ next _ ih => exact .head next ih

/-- Since there is one next state at most, a run that has come to its end passed through all
states that can be reached. -/
theorem flat_of_leads (run : FlatRun rule state state'') (ended : state''.step? rule = none)
    (leads : Leads rule state state') : state'.Flat := by
  induction leads using Relation.ReflTransGen.head_induction_on with
  | refl => exact run.flat
  | head next _ ih =>
      cases run with
      | refl _ =>
          rw [ended] at next
          cases next
      | step _ next' rest =>
          rw [next'] at next
          cases next
          exact ih rest

end FlatRun

/-! ## Runs -/

variable {todo called : List (Dag ν)} {memo : Table β} {told lines : List ω} {node : Dag ν}

/-- A call whose requests can all be answered comes to its end alone. -/
theorem flatRun_work {work : Work ν β ω} {result : β}
    (finishes : work.finish memo = some (lines, result)) :
    FlatRun rule ⟨todo, [(node, work)], memo, called, told⟩
      ⟨todo, [], memo.insert node.id result, called, told ++ lines⟩ := by
  have alone : ∀ work : Work ν β ω, [(node, work)].length ≤ 1 := fun _ => Nat.le_refl 1
  induction work generalizing lines told with
  | done result =>
      cases finishes
      rw [List.append_nil]
      refine .step ⟨alone _, ?_⟩ rfl (.refl (flat_of_no_calls rfl))
      rintro _ _ _ _ ⟨⟩
  | ask other next ih =>
      obtain ⟨answer, found, finishes⟩ := Option.bind_eq_some_iff.mp finishes
      refine .step ⟨alone _, ?_⟩ ?_ (ih answer finishes)
      · rintro _ _ _ _ ⟨⟩
        exact ⟨answer, found⟩
      · simp only [step?, found]
  | tell line rest ih =>
      obtain ⟨⟨lines', result'⟩, restFinishes, same⟩ := Option.map_eq_some_iff.mp finishes
      cases same
      have run : FlatRun rule ⟨todo, [(node, rest)], memo, called, told ++ [line]⟩ _ :=
        ih restFinishes
      rw [List.append_assoc] at run
      refine .step ⟨alone _, ?_⟩ rfl run
      rintro _ _ _ _ ⟨⟩

theorem flatRun_known (known : memo.contains node.id = true) :
    FlatRun rule ⟨node :: todo, [], memo, called, told⟩ ⟨todo, [], memo, called, told⟩ := by
  refine .step (flat_of_no_calls rfl) ?_ (.refl (flat_of_no_calls rfl))
  simp only [step?, known, if_true]

theorem flatRun_new {result : β} (isNew : memo.contains node.id = false)
    (finishes : (rule called.length node).finish memo = some (lines, result)) :
    FlatRun rule ⟨node :: todo, [], memo, called, told⟩
      ⟨todo, [], memo.insert node.id result, called ++ [node], told ++ lines⟩ := by
  refine .step (flat_of_no_calls rfl) ?_ (flatRun_work finishes)
  simp only [step?, isNew, Bool.false_eq_true, if_false, call]

/-! ## Rules that ask for operands -/

/-- A rule does what a step of a sweep does, and tells a line at most, if the operands of the
node are in the memo. -/
def Follows (rule : Nat → Dag ν → Work ν β ω) (step : Nat → (Dag ν → Option β) → Dag ν → β)
    (line? : Dag ν → β → Option ω) : Prop :=
  ∀ place node (memo : Table β),
    (∀ child ∈ node.operands, ∃ answer, memo[child.id]? = some answer) →
    (rule place node).finish memo =
      some ((line? node (step place (fun other => memo[other.id]?) node)).toList,
        step place (fun other => memo[other.id]?) node)

/-- What is told of some nodes. -/
def toldOf (line? : Dag ν → β → Option ω) (memo : Table β) (nodes : List (Dag ν)) : List ω :=
  nodes.filterMap fun node => (memo[node.id]?).bind (line? node)

/-- The rewriting of an expression is flat, in whichever state it is. It comes to an end with a
memo, and with what it has told, when the rule has been called for the nodes one by one in the
order of the listing. -/
structure Rewrites (rule : Nat → Dag ν → Work ν β ω) (expr : Dag ν) (memo : Table β)
    (told : List ω) : Prop where
  flat : ∀ state, Leads rule (start expr) state → state.Flat
  ends : Leads rule (start expr) ⟨[], [], memo, expr.nodes, told⟩

variable {step : Nat → (Dag ν → Option β) → Dag ν → β} {line? : Dag ν → β → Option ω}

/-- A new node adds what is told of it, and nothing changes for those before it. -/
theorem toldOf_insert {passed : List (Dag ν)} (isNew : node.id ∉ passed.map Expr.id) (result : β) :
    toldOf line? (memo.insert node.id result) (passed ++ [node]) =
      toldOf line? memo passed ++ (line? node result).toList := by
  have before : toldOf line? (memo.insert node.id result) passed = toldOf line? memo passed := by
    refine List.filterMap_congr fun other listed => ?_
    rw [getElem?_insert_of_isNew isNew listed]
  rw [toldOf, List.filterMap_append, ← toldOf, before]
  cases told : line? node result <;> simp [told]

/-- The nodes are taken one by one, each with its operands in the memo. -/
theorem flatRun_nodes (follows : Follows rule step line?) {expr : Dag ν}
    (isCoherent : Coherent expr) :
    FlatRun rule (start expr)
        ⟨[expr], [], expr.sweep step, expr.nodes, toldOf line? (expr.sweep step) expr.nodes⟩ ∧
      (expr.sweep step).contains expr.id = true := by
  suffices along : (∀ todo, FlatRun rule ⟨expr.nodes ++ todo, [], ∅, [], []⟩
        ⟨todo, [], expr.sweep step, expr.nodes, toldOf line? (expr.sweep step) expr.nodes⟩) ∧
      ∀ id, (expr.sweep step).contains id = true ↔ id ∈ expr.nodes.map Expr.id by
    refine ⟨along.1 [expr], (along.2 expr.id).mpr ?_⟩
    exact List.mem_map_of_mem ((mem_nodes_iff isCoherent).mpr (.root expr))
  refine sweep_induction (motive := fun passed table =>
    (∀ todo, FlatRun rule ⟨passed ++ todo, [], ∅, [], []⟩
      ⟨todo, [], table, passed, toldOf line? table passed⟩) ∧
    ∀ id, table.contains id = true ↔ id ∈ passed.map Expr.id) isCoherent ?_ ?_
  · exact ⟨fun _ => .refl (flat_of_no_calls rfl), by simp⟩
  · rintro passed node table _ _ operands isNew ⟨run, filled⟩
    have answered : ∀ child ∈ node.operands, ∃ answer, table[child.id]? = some answer := by
      intro child member
      have known := (filled child.id).mpr (List.mem_map_of_mem (operands child member))
      rw [Std.HashMap.contains_eq_isSome_getElem?] at known
      exact Option.isSome_iff_exists.mp known
    have isAbsent : table.contains node.id = false := by
      rw [← Bool.not_eq_true, filled]
      exact isNew
    constructor
    · intro todo
      have first := run (node :: todo)
      have second : FlatRun rule ⟨node :: todo, [], table, passed, toldOf line? table passed⟩ _ :=
        flatRun_new isAbsent (follows passed.length node table answered)
      rw [← toldOf_insert isNew] at second
      rw [List.append_assoc]
      exact first.trans second
    · intro id
      rw [Std.HashMap.contains_insert, Bool.or_eq_true, filled, beq_iff_eq, List.map_append,
        List.mem_append, List.map_singleton, List.mem_singleton, or_comm, eq_comm]

theorem rewrites_of_follows (follows : Follows rule step line?) {expr : Dag ν}
    (isCoherent : Coherent expr) :
    Rewrites rule expr (expr.sweep step) (toldOf line? (expr.sweep step) expr.nodes) := by
  obtain ⟨run, known⟩ := flatRun_nodes follows isCoherent
  have whole : FlatRun rule (start expr)
      ⟨[], [], expr.sweep step, expr.nodes, toldOf line? (expr.sweep step) expr.nodes⟩ :=
    run.trans (flatRun_known known)
  exact ⟨fun _ leads => whole.flat_of_leads rfl leads, whole.leads⟩

end Rewriting

end Fluxion.Dag
