import Fluxion.Proofs.Derivative.Sharing
import Fluxion.Proofs.Evaluation.Sharing

/-!
# Sharing cannot be observed

Differentiation, simplification and evaluation pass along the listing and keep one
result for each identity. What they compute is what recursion over the unfolded
expression computes, mark by mark, although the unfolded expression may be
exponentially larger than the listing is long.

That the results are shared as the nodes are is said of the images of the nodes.
There is one image for an identity, the rules meet it whichever way they come to the
node, and identities tell the images and the nodes apart.
-/

namespace Fluxion.Dag

variable {ν : Type}

/-- A node for each node of an expression, as a rule makes it at the place of the node
from the images of the operands, and as recursion would have it. -/
structure IsImage (expr : Dag ν) (rule : Nat → (Dag ν → Dag ν) → Dag ν → Dag ν)
    (recursion : Tree ν → Tree ν) (image : Dag ν → Dag ν) : Prop where
  follows : ∀ node, Reaches expr node → image node = rule (expr.place node) image node
  unfolds : ∀ node, Reaches expr node → unfold (image node) = recursion (unfold node)
  apart : ∃ holds, Heap holds ∧
    ∀ node, Reaches expr node → holds node ∧ holds (image node)

variable [Arithmetic ν]

theorem isImage_simplificationOf (identities : Bool) {next : Nat} {expr : Dag ν}
    (isCoherent : Coherent expr) (below : Below next expr) :
    IsImage expr
      (fun place image node =>
        simplifyNode identities ⟨next + place, node.source⟩ image node)
      (Expr.simplify identities) (simplificationOf identities next expr) := by
  rcases exists_supplied_simplifications identities isCoherent below with
    ⟨holds, supplied, results⟩
  refine ⟨fun node reached => simplificationOf_eq identities next isCoherent reached,
    fun node reached => (results node reached).2, holds, supplied.heap, ?_⟩
  intro node reached
  exact ⟨supplied.original node reached, (results node reached).1⟩

theorem isImage_derivativeOf (name : String) {next : Nat} {expr : Dag ν}
    (isCoherent : Coherent expr) (below : Below next expr) :
    IsImage expr
      (fun place image node =>
        (differentiateNode name (next + Derivative.newNodes * place) image node).expr)
      (Expr.derivative name) (derivativeOf name next expr) := by
  rcases exists_supplied_derivatives name isCoherent below with ⟨holds, supplied, results⟩
  refine ⟨fun node reached => derivativeOf_eq name next isCoherent reached,
    fun node reached => (results node reached).2.1, holds, supplied.heap, ?_⟩
  intro node reached
  exact ⟨supplied.original node reached, (results node reached).1⟩

/-- Derivative, simplification and value of an expression with shared nodes are those of
the unfolded expression, and every node has one image. -/
theorem sharing_unobservable (name : String) (identities : Bool) (arguments : List (Value ν))
    {next : Nat} {expr : Dag ν} (isCoherent : Coherent expr) (below : Below next expr) :
    (unfold (differentiate name next expr).derivative = (unfold expr).derivative name ∧
      (differentiate name next expr).derivative = derivativeOf name next expr expr ∧
      IsImage expr
        (fun place image node =>
          (differentiateNode name (next + Derivative.newNodes * place) image node).expr)
        (Expr.derivative name) (derivativeOf name next expr)) ∧
    (unfold (simplify identities next expr).1 = (unfold expr).simplify identities ∧
      (simplify identities next expr).1 = simplificationOf identities next expr expr ∧
      IsImage expr
        (fun place image node =>
          simplifyNode identities ⟨next + place, node.source⟩ image node)
        (Expr.simplify identities) (simplificationOf identities next expr)) ∧
    evaluateAt arguments expr = (unfold expr).evaluateAt arguments := by
  obtain ⟨_, _, derivativeUnfolds⟩ := differentiate_spec name isCoherent below
  obtain ⟨_, _, simplificationUnfolds⟩ := simplify_spec identities isCoherent below
  exact ⟨⟨derivativeUnfolds, rfl, isImage_derivativeOf name isCoherent below⟩,
    ⟨simplificationUnfolds, rfl, isImage_simplificationOf identities isCoherent below⟩,
    evaluateAt_eq_unfold arguments isCoherent⟩

/-- The base and the exponent of `(1*x)^(1*x)` are one node. -/
theorem sharing_unobservable_sharedPower :
    Coherent (sharedPower : Dag Float) ∧ Below 4 (sharedPower : Dag Float) ∧
      unfold (differentiate "x" 4 (sharedPower : Dag Float)).derivative =
        (unfold sharedPower).derivative "x" ∧
      unfold (simplify true 4 (sharedPower : Dag Float)).1 =
        (unfold sharedPower).simplify true ∧
      evaluateAt [.scalar 2] (sharedPower : Dag Float) =
        (unfold sharedPower).evaluateAt [.scalar 2] := by
  obtain ⟨⟨derivative, _⟩, ⟨simplification, _⟩, value⟩ := sharing_unobservable "x" true
    [.scalar 2] (coherent_sharedPower (ν := Float)) below_sharedPower
  exact ⟨coherent_sharedPower, below_sharedPower, derivative, simplification, value⟩

end Fluxion.Dag
