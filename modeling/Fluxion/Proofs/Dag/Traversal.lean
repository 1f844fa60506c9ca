import Fluxion.Proofs.Dag.Listing

/-!
# The loop that lists the nodes

The agenda of a listing is a stack, and the loop takes one task from it in each iteration. A node
that is looked into for the first time is opened: the tasks to look into its operands are put on
the stack, in front of one to list the node. A node counts as met only when it is taken from the
stack, so a shared one may stand there several times.

What an iteration does not depend on is how many ways lead to a node. The first task is to look
into the root, all others are put on the stack when a node is opened, every node that is listed
was opened once, and every task is taken once. This counts the iterations, whatever is shared.
-/

namespace Fluxion.Dag

variable {ν : Type}

/-- How far the loop has come: the stack with its top in front, the identities that were met,
and what is listed. -/
structure Traversal (ν : Type) where
  todo : List (Task ν)
  met : Std.HashSet Nat
  listed : List (Dag ν)

namespace Traversal

/-- The loop before its first iteration. -/
def start (expr : Dag ν) : Traversal ν :=
  ⟨[.visit expr], ∅, []⟩

/-- One iteration takes the task on the top of the stack. There is none when the stack is
empty. -/
def step? (state : Traversal ν) : Option (Traversal ν) :=
  match state.todo with
  | [] => none
  | .list node :: todo => some { state with todo := todo, listed := state.listed ++ [node] }
  | .visit node :: todo =>
      if state.met.contains node.id then some { state with todo := todo }
      else
        some { state with
          todo := node.operands.map .visit ++ .list node :: todo
          met := state.met.insert node.id }

/-- From a state, the loop ends after a number of iterations, and this is listed then. -/
inductive Runs : Traversal ν → Nat → List (Dag ν) → Prop
  | ended {state : Traversal ν} : state.step? = none → Runs state 0 state.listed
  | next {state state' : Traversal ν} {n : Nat} {listed : List (Dag ν)} :
      state.step? = some state' → Runs state' n listed → Runs state (n + 1) listed

/-- The loop has one way to go. -/
theorem Runs.unique {state : Traversal ν} {n n' : Nat} {listed listed' : List (Dag ν)}
    (runs : Runs state n listed) (runs' : Runs state n' listed') : n' = n ∧ listed' = listed := by
  induction runs generalizing n' listed' with
  | ended none =>
      cases runs' with
      | ended _ => exact ⟨rfl, rfl⟩
      | next step _ =>
          rw [none] at step
          cases step
  | next step _ ih =>
      cases runs' with
      | ended none =>
          rw [step] at none
          cases none
      | next step' rest =>
          rw [step] at step'
          cases step'
          obtain ⟨rfl, rfl⟩ := ih rest
          exact ⟨rfl, rfl⟩

/-! ## Counting iterations -/

/-- The number of tasks that some nodes put on the stack when they are opened: one for each
operand, and one to list the node. -/
def tasksOf (nodes : List (Dag ν)) : Nat :=
  nodes.length + (nodes.flatMap Expr.operands).length

/-- The nodes on a stack that are opened and wait to be listed. -/
def opened : List (Task ν) → List (Dag ν)
  | [] => []
  | .visit _ :: todo => opened todo
  | .list node :: todo => node :: opened todo

theorem tasksOf_cons (node : Dag ν) (nodes : List (Dag ν)) :
    tasksOf (node :: nodes) = node.operands.length + 1 + tasksOf nodes := by
  simp only [tasksOf, List.length_cons, List.flatMap_cons, List.length_append]
  omega

theorem opened_visits (nodes : List (Dag ν)) (todo : List (Task ν)) :
    opened (nodes.map .visit ++ todo) = opened todo := by
  induction nodes with
  | nil => rfl
  | cons node nodes ih => exact ih

/-- The loop lists what the agenda lists. All tasks are taken that stand on the stack or come
there later, and these come with the nodes that are listed and not opened yet. -/
theorem exists_runs (met : Std.HashSet Nat) (todo : List (Task ν)) (listed : List (Dag ν)) :
    ∃ n, Runs ⟨todo, met, listed⟩ n (listed ++ listFrom met todo) ∧
      n + tasksOf (opened todo) = todo.length + tasksOf (listFrom met todo) := by
  induction met, todo using listFrom.induct generalizing listed with
  | case1 met =>
      rw [listFrom, List.append_nil]
      exact ⟨0, .ended rfl, rfl⟩
  | case2 met node todo ih =>
      obtain ⟨n, runs, taken⟩ := ih (listed ++ [node])
      rw [List.append_assoc, List.singleton_append] at runs
      rw [listFrom]
      refine ⟨n + 1, .next rfl runs, ?_⟩
      rw [opened, tasksOf_cons, tasksOf_cons, List.length_cons]
      omega
  | case3 met node todo old ih =>
      obtain ⟨n, runs, taken⟩ := ih listed
      rw [listFrom, if_pos old]
      refine ⟨n + 1, .next ?_ runs, ?_⟩
      · exact if_pos old
      · rw [opened, List.length_cons]
        omega
  | case4 met node todo isNew ih =>
      obtain ⟨n, runs, taken⟩ := ih listed
      rw [listFrom, if_neg isNew]
      refine ⟨n + 1, .next ?_ runs, ?_⟩
      · exact if_neg isNew
      · rw [opened_visits, opened, tasksOf_cons, List.length_append, List.length_map,
          List.length_cons] at taken
        rw [opened, List.length_cons]
        omega

/-- From the start, the loop ends after one iteration and the tasks of the nodes. -/
theorem runs_start_iff {expr : Dag ν} {n : Nat} {listed : List (Dag ν)} :
    Runs (start expr) n listed ↔ n = 1 + tasksOf expr.nodes ∧ listed = expr.nodes := by
  obtain ⟨m, runs, taken⟩ := exists_runs ∅ [.visit expr] []
  rw [List.nil_append, ← nodes] at runs
  have counted : m = 1 + tasksOf expr.nodes := taken
  rw [← counted]
  constructor
  · exact runs.unique
  · rintro ⟨rfl, rfl⟩
    exact runs

end Traversal

/-! ## The order -/

/-- In a listing, the operands of a node stand before it. -/
theorem Listing.mem_of_operand {before after : List (Dag ν)} {node child : Dag ν}
    (listing : Listing (before ++ node :: after)) (member : child ∈ node.operands) :
    child ∈ before := by
  have first : Listing (before ++ [node]) := by
    rw [← List.singleton_append, ← List.append_assoc] at listing
    exact listing.of_append
  generalize whole : before ++ [node] = nodes at first
  cases first with
  | nil => simp at whole
  | snoc _ operands _ =>
      obtain ⟨rfl, same⟩ := List.append_inj' whole rfl
      cases same
      exact operands child member

theorem getLast?_depthFirst_nil (expr : Dag ν) : (depthFirst [] expr).getLast? = some expr := by
  rw [depthFirst_of_new (List.not_mem_nil), List.getLast?_concat]

/-- The loop that lists the nodes of a coherent expression ends, always after as many iterations:
one for each node, one for each operand of a node, and one. Then every node that the expression
reaches is listed, once, behind all of its operands, the expression itself is the last one, and
the order is that of recursion, which visits operands from left to right and passes over what it
has visited. -/
theorem runs_in_post_order {expr : Dag ν} (isCoherent : Coherent expr) :
    (∀ n listed, Traversal.Runs (.start expr) n listed ↔
        n = 1 + (expr.count + (expr.nodes.flatMap Expr.operands).length) ∧
          listed = expr.nodes) ∧
      (expr.nodes.map Expr.id).Nodup ∧
      (∀ node, node ∈ expr.nodes ↔ Reaches expr node) ∧
      (∀ before node after, expr.nodes = before ++ node :: after →
        ∀ child ∈ node.operands, child ∈ before) ∧
      expr.nodes.getLast? = some expr ∧
      expr.nodes = depthFirst [] expr := by
  obtain ⟨listing, _, _⟩ := listing_nodes isCoherent
  have order := nodes_eq_depthFirst isCoherent
  refine ⟨fun _ _ => Traversal.runs_start_iff, listing.nodup, fun _ => mem_nodes_iff isCoherent,
    ?_, ?_, order⟩
  · intro before node after split child member
    rw [split] at listing
    exact listing.mem_of_operand member
  · rw [order]
    exact getLast?_depthFirst_nil expr

/-- Two ways lead to the product in `(1*x)^(1*x)`, which is listed once. -/
theorem runs_in_post_order_sharedPower :
    Coherent (sharedPower : Dag Float) ∧
      Traversal.Runs (.start (sharedPower : Dag Float)) 9
        [.int ⟨0, none⟩ 1, .var ⟨1, none⟩ "x", sharedFactor, sharedPower] := by
  have isCoherent := coherent_sharedPower (ν := Float)
  obtain ⟨runs, _, _, _, _, order⟩ := runs_in_post_order isCoherent
  have nodes : (sharedPower : Dag Float).nodes =
      [.int ⟨0, none⟩ 1, .var ⟨1, none⟩ "x", sharedFactor, sharedPower] :=
    order
  refine ⟨isCoherent, (runs _ _).mpr ⟨?_, nodes.symm⟩⟩
  rw [count, nodes]
  rfl

end Fluxion.Dag
