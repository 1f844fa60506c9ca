import Fluxion.Trace
import Fluxion.Proofs.Dag.Rewriting
import Fluxion.Proofs.Derivative.Sharing

/-!
# The rules are called once for each node

The rules of differentiation and of simplification ask for the operands of their node, and the
rule for a power asks for the exponent first, since it tells whether the exponent is constant
before it goes on. So they rewrite expressions without calls that wait for one another, and what
is told is a line for each power in the order of the listing.

Whether an exponent is constant is the answer of a simplification that runs on its own. It
depends on nothing but the derivative of the exponent, so any supply gives the same answer.
-/

namespace Fluxion.Dag

open Rewriting

variable {ν : Type} [Arithmetic ν]

/-! ## The rules at work -/

/-- A step of the sweep that simplifies. -/
def simplifierStep (identities : Bool) (next place : Nat) (simplified : Dag ν → Option (Dag ν))
    (node : Dag ν) : Dag ν :=
  simplifyNode identities ⟨next + place, node.source⟩
    (fun operand => (simplified operand).getD operand) node

/-- The derivative of an operand, as far as it is known. -/
def knownDerivative (derivative : Dag ν → Option (NodeDerivative ν)) (operand : Dag ν) : Dag ν :=
  ((derivative operand).map NodeDerivative.expr).getD operand

/-- A step of the sweep that differentiates. -/
def derivativeStep (name : String) (next place : Nat)
    (derivative : Dag ν → Option (NodeDerivative ν)) (node : Dag ν) : NodeDerivative ν :=
  differentiateNode name (next + Derivative.newNodes * place) (knownDerivative derivative) node

/-- What is told of a power with a tag when the derivative of its exponent is known. -/
def exponentRemark (next : Nat) (tag : Tag) (db : Dag ν) : PowerRemark :=
  ⟨(simplify false next db).1.isInt 0, tag.source.map (·.column)⟩

/-- The simplification of a node asks for the operands. -/
def simplifierWork (identities : Bool) (next place : Nat) (node : Dag ν) :
    Work ν (Dag ν) PowerRemark :=
  .asking (fun _ => none) node.operands fun known =>
    .done (simplifierStep identities next place known node)

/-- The derivative of a node asks for the operands. A power asks for its exponent, tells whether
that is constant, and asks for its base. -/
def derivativeWork (name : String) (next place : Nat) (node : Dag ν) :
    Work ν (NodeDerivative ν) PowerRemark :=
  match node with
  | .binary tag .pow a b =>
      .asking (fun _ => none) [b] fun known =>
        .tell
            (exponentRemark (next + Derivative.newNodes * place) tag (knownDerivative known b)) <|
          .asking known [a] fun known => .done (derivativeStep name next place known node)
  | node =>
      .asking (fun _ => none) node.operands fun known =>
        .done (derivativeStep name next place known node)

/-- What is told of a node with its derivative: a remark, if it is a power. -/
def remarkOn? (node : Dag ν) (result : NodeDerivative ν) : Option PowerRemark :=
  match node with
  | .binary tag .pow _ _ => some ⟨result.constantExponent, tag.source.map (·.column)⟩
  | _ => none

theorem follows_simplifierWork (identities : Bool) (next : Nat) :
    Follows (simplifierWork (ν := ν) identities next) (simplifierStep identities next)
      fun _ _ => none := fun place _ _ answered =>
  Work.finish_asking_operands (isLocal_simplifyNode identities next) place answered

theorem follows_derivativeWork (name : String) (next : Nat) :
    Follows (derivativeWork (ν := ν) name next) (derivativeStep name next) remarkOn? := by
  intro place node memo answered
  have isLocal : IsLocal (derivativeStep (ν := ν) name next) := isLocal_differentiateNode name next
  have plain := Work.finish_asking_operands (ω := PowerRemark) isLocal place answered
  cases node with
  | num _ _ => exact plain
  | var _ _ => exact plain
  | apply _ _ _ => exact plain
  | binary tag operator a b =>
      cases operator with
      | add => exact plain
      | sub => exact plain
      | mul => exact plain
      | div => exact plain
      | pow =>
          obtain ⟨answeredA, answeredB⟩ := Expr.forall_operands_binary_iff.mp answered
          obtain ⟨known, asksB, knows⟩ := Work.exists_finish_asking (ω := PowerRemark)
            (List.forall_mem_singleton.mpr answeredB) fun _ => none
          obtain ⟨known', asksA, knows'⟩ := Work.exists_finish_asking (ω := PowerRemark)
            (List.forall_mem_singleton.mpr answeredA) known
          have exponent : known b = memo[b.id]? := knows b (Or.inl List.mem_cons_self)
          have whole := isLocal place known' (fun other => memo[other.id]?) (.binary tag .pow a b)
            (Expr.forall_operands_binary_iff.mpr
              ⟨knows' a (Or.inl List.mem_cons_self), knows' b (Or.inr exponent)⟩)
          rw [derivativeWork, asksB, Work.finish, asksA, Work.finish, whole, knownDerivative,
            exponent]
          rfl

/-! ## What is told of powers -/

omit [Arithmetic ν] in
theorem remark?_eq (known : Table (NodeDerivative ν)) (node : Dag ν) :
    remark? known node = (known[node.id]?).bind (remarkOn? node) :=
  match node with
  | .binary _ .pow _ _ => Option.map_eq_bind
  | .num _ _ | .var _ _ | .apply _ _ _ | .binary _ .add _ _ | .binary _ .sub _ _
  | .binary _ .mul _ _ | .binary _ .div _ _ => (Option.bind_fun_none _).symm

/-- What is to be told of a node: if it is a power, whether the derivative of its exponent
simplifies to zero. -/
def powerRemark? (name : String) (next : Nat) (expr node : Dag ν) : Option PowerRemark :=
  match node with
  | .binary tag .pow _ b =>
      some (exponentRemark (differentiate name next expr).next tag (derivativeOf name next expr b))
  | _ => none

/-- Behind the differentiation, an exponent is found constant if the recursion finds it so. -/
theorem exponentRemark_eq (name : String) {next : Nat} {expr b : Dag ν} (tag : Tag)
    (isCoherent : Coherent expr) (below : Below next expr) (reached : Reaches expr b) :
    exponentRemark (differentiate name next expr).next tag (derivativeOf name next expr b) =
      ⟨((unfold b).derivative name).isConstantBy, tag.source.map (·.column)⟩ := by
  obtain ⟨_, supplied, results⟩ := exists_supplied_derivatives name isCoherent below
  obtain ⟨held, unfolds, _⟩ := results b reached
  obtain ⟨coherentDb, belowDb⟩ := supplied.coherent_below held
  rw [exponentRemark, isInt_simplify_eq_isConstantBy coherentDb belowDb, unfolds]

/-- The rule asks while the expression is being differentiated, and it gets the same answer. -/
theorem remark?_eq_powerRemark? (name : String) {next : Nat} {expr node : Dag ν}
    (isCoherent : Coherent expr) (below : Below next expr) (reached : Reaches expr node) :
    remark? (expr.derivatives name next) node = powerRemark? name next expr node := by
  match node, reached with
  | .binary tag .pow a b, reached =>
      have found : (expr.derivatives name next)[tag.id]? = _ :=
        derivatives_eq name next isCoherent reached
      obtain ⟨_, _, results⟩ := exists_supplied_derivatives name isCoherent below
      obtain ⟨_, _, constant⟩ := results _ reached
      rw [remark?, found, Option.map_some, constant, powerRemark?,
        exponentRemark_eq name tag isCoherent below (reached.step Expr.right_mem_operands)]
      rfl
  | .num _ _, _ | .var _ _, _ | .apply _ _ _, _ | .binary _ .add _ _, _ | .binary _ .sub _ _, _
  | .binary _ .mul _ _, _ | .binary _ .div _ _, _ => rfl

/-- A line is told for each power, in the order of the listing. -/
theorem remarks_eq (name : String) {next : Nat} {expr : Dag ν} (isCoherent : Coherent expr)
    (below : Below next expr) :
    (differentiate name next expr).remarks =
      expr.nodes.filterMap (powerRemark? name next expr) :=
  List.filterMap_congr fun _ listed =>
    remark?_eq_powerRemark? name isCoherent below ((mem_nodes_iff isCoherent).mp listed)

/-- The line of the trace says what the remark does. -/
theorem trace_constant_iff (remark : PowerRemark) :
    (traceLine "derivative" "constant exponent").toList <+: remark.trace.toList ↔
      remark.constantExponent = true := by
  rcases remark with ⟨constantExponent, column⟩
  cases constantExponent with
  | true => simp [PowerRemark.trace, traceLine]
  | false => simp [PowerRemark.trace, traceLine]

/-! ## Calls -/

theorem rewrites_derivatives (name : String) (next : Nat) {expr : Dag ν}
    (isCoherent : Coherent expr) :
    Rewrites (derivativeWork name next) expr (expr.derivatives name next)
      (differentiate name next expr).remarks := by
  have told : toldOf remarkOn? (expr.derivatives name next) expr.nodes =
      (differentiate name next expr).remarks :=
    List.filterMap_congr fun node _ => (remark?_eq _ node).symm
  rw [← told]
  exact rewrites_of_follows (follows_derivativeWork name next) isCoherent

theorem rewrites_simplifications (identities : Bool) (next : Nat) {expr : Dag ν}
    (isCoherent : Coherent expr) :
    Rewrites (simplifierWork identities next) expr (expr.simplifications identities next) [] := by
  have told : toldOf (fun _ _ => (none : Option PowerRemark))
      (expr.simplifications identities next) expr.nodes = [] := by
    simp [toldOf]
  rw [← told]
  exact rewrites_of_follows (follows_simplifierWork identities next) isCoherent

/-- Differentiation and simplification call their rule once for each node, in the order of
the listing, which is that of recursion, and whatever a rule asks for is known when it asks. No
call ever waits for another one, also while the derivative of an exponent is simplified. A line
is told for each power, in the order of the listing, and it says that the exponent is constant
exactly if the derivative of the exponent simplifies to zero. -/
theorem rewriting_flat (name : String) {next : Nat} {expr : Dag ν} (isCoherent : Coherent expr)
    (below : Below next expr) :
    (expr.nodes = depthFirst [] expr ∧ (expr.nodes.map Expr.id).Nodup ∧
        ∀ node, node ∈ expr.nodes ↔ Reaches expr node) ∧
      Rewrites (derivativeWork name next) expr (expr.derivatives name next)
        (differentiate name next expr).remarks ∧
      (∀ identities, Rewrites (simplifierWork identities next) expr
        (expr.simplifications identities next) []) ∧
      (∀ node, Reaches expr node → ∀ identities supply,
        Rewrites (simplifierWork identities supply) (derivativeOf name next expr node)
          ((derivativeOf name next expr node).simplifications identities supply) []) ∧
      (differentiate name next expr).remarks = expr.nodes.filterMap (powerRemark? name next expr) ∧
      ∀ remark : PowerRemark, (traceLine "derivative" "constant exponent").toList <+:
        remark.trace.toList ↔ remark.constantExponent = true := by
  obtain ⟨listing, _, _⟩ := listing_nodes isCoherent
  refine ⟨⟨nodes_eq_depthFirst isCoherent, listing.nodup, fun _ => mem_nodes_iff isCoherent⟩,
    rewrites_derivatives name next isCoherent,
    fun identities => rewrites_simplifications identities next isCoherent, ?_,
    remarks_eq name isCoherent below, trace_constant_iff⟩
  intro node reached identities supply
  obtain ⟨_, supplied, results⟩ := exists_supplied_derivatives name isCoherent below
  exact rewrites_simplifications identities supply
    (supplied.coherent_below (results node reached).1).1

/-- The one power of `(1*x)^(1*x)` has a constant exponent for `y`, and another one for `x`. -/
theorem rewriting_flat_sharedPower :
    Coherent (sharedPower : Dag Float) ∧ Below 4 (sharedPower : Dag Float) ∧
      (∀ state, Leads (derivativeWork "x" 4) (start (sharedPower : Dag Float)) state →
        state.Flat) ∧
      (differentiate "x" 4 (sharedPower : Dag Float)).remarks = [⟨false, none⟩] ∧
      (differentiate "y" 4 (sharedPower : Dag Float)).remarks = [⟨true, none⟩] := by
  have isCoherent := coherent_sharedPower (ν := Float)
  have below := below_sharedPower (ν := Float)
  have told : ∀ name, (differentiate name 4 (sharedPower : Dag Float)).remarks =
      [⟨((unfold (sharedFactor : Dag Float)).derivative name).isConstantBy, none⟩] := by
    intro name
    obtain ⟨⟨order, _⟩, _, _, _, remarks, _⟩ := rewriting_flat name isCoherent below
    have power : powerRemark? name 4 (sharedPower : Dag Float) sharedPower = some _ :=
      congrArg some (exponentRemark_eq name ⟨3, none⟩ isCoherent below
        (reaches_sharedPower_iff.mpr (Or.inr (Or.inl rfl))))
    have nodes : depthFirst [] (sharedPower : Dag Float) =
        [.int ⟨0, none⟩ 1, .var ⟨1, none⟩ "x", sharedFactor, sharedPower] := by
      rfl
    rw [remarks, order, nodes]
    change [sharedPower].filterMap (powerRemark? name 4 sharedPower) = _
    rw [List.filterMap_cons_some power]
    rfl
  have varies : ((unfold (sharedFactor : Dag Float)).derivative "x").isConstantBy = false := by
    decide +kernel
  have constant : ((unfold (sharedFactor : Dag Float)).derivative "y").isConstantBy = true := by
    decide +kernel
  refine ⟨isCoherent, below, (rewriting_flat "x" isCoherent below).2.1.flat, ?_, ?_⟩
  · rw [told, varies]
  · rw [told, constant]

end Fluxion.Dag
