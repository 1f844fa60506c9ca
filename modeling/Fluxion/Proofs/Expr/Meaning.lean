import Fluxion.Workspace
import Fluxion.Proofs.Decimal.ReadingBack
import Fluxion.Proofs.Evaluation.Assignment
import Fluxion.Proofs.Expr.RoundTrip
import Fluxion.Proofs.Simplify.Sharing

/-!
# What printed expressions mean

Every float is read back from its text as it is, but for a zero, which loses its minus
sign. So a printed expression reads back as the expression it was printed from, with zeros
for its negative zeros, and has the values of that one, simplified or not.

The sign of a zero can be seen: division tells the two zeros apart.
-/

namespace Fluxion

variable {ν α β : Type}

/-! ## Expressions without their marks -/

namespace Expr

/-- The expression without its marks. -/
def bare (expr : Expr ν α) : Expr ν Unit :=
  expr.map fun _ => ()

theorem bare_map (f : α → β) (expr : Expr ν α) : (expr.map f).bare = expr.bare :=
  map_map _ _ expr

/-- The expression with a function applied to every number. -/
def mapNumbers (f : ν → ν) : Expr ν α → Expr ν α
  | num m value => num m (f value)
  | var m name => var m name
  | binary m operator left right => binary m operator (left.mapNumbers f) (right.mapNumbers f)
  | apply m function argument => apply m function (argument.mapNumbers f)

@[simp]
theorem mark_mapNumbers (f : ν → ν) (expr : Expr ν α) : (expr.mapNumbers f).mark = expr.mark := by
  cases expr <;> rfl

theorem operands_mapNumbers (f : ν → ν) (expr : Expr ν α) :
    (expr.mapNumbers f).operands = expr.operands.map (mapNumbers f) := by
  cases expr <;> rfl

/-- A function that leaves the numbers of an expression alone leaves the expression alone. -/
theorem mapNumbers_eq_self {f : ν → ν} {expr : Expr ν α}
    (unchanged : ∀ x ∈ expr.numbers, f x = x) : expr.mapNumbers f = expr := by
  induction expr with
  | num m x => rw [mapNumbers, unchanged x (by simp [numbers])]
  | var _ _ => rfl
  | binary _ _ left right left_ih right_ih =>
      rw [mapNumbers, left_ih fun x member => unchanged x (by simp [numbers, member]),
        right_ih fun x member => unchanged x (by simp [numbers, member])]
  | apply _ _ argument ih => rw [mapNumbers, ih unchanged]

/-- Where the numbers of one expression are a function of those of another, the expressions
differ by that function and by their marks. -/
theorem Agrees.bare_eq {f : ν → ν} {tree : Expr ν α} {expr : Expr ν β}
    (agrees : Agrees (fun y x => y = f x) tree expr) :
    tree.bare = (expr.mapNumbers f).bare := by
  induction agrees with
  | num same =>
      rw [same]
      rfl
  | var => rfl
  | binary _ _ left_ih right_ih => exact congrArg₂ (Expr.binary () _) left_ih right_ih
  | apply _ ih => exact congrArg (Expr.apply () _) ih

/-- A printed expression reads back, but for its marks and the signs of its zeros. -/
theorem exists_bare_read_render {expr : Expr Float α}
    (named : ∀ name ∈ expr.names, Token.isVariable name = true) :
    ∃ tree : Expr Float Token, read expr.render = .ok tree ∧
      tree.bare = (expr.mapNumbers Decimal.unsignedZero).bare := by
  have readable : ∀ x ∈ expr.numbers, ∃ y,
      Numeral.read? (Numeral.canonical x) = some y ∧ y = Decimal.unsignedZero x :=
    fun x _ => ⟨_, Decimal.read?_canonical x, rfl⟩
  obtain ⟨tree, reads, agrees⟩ :=
    exists_read_render named (fun x _ => Decimal.fits_canonical x) readable
  exact ⟨tree, reads, agrees.bare_eq⟩

end Expr

/-! ## Values -/

namespace Dag

theorem exists_reaches_of_mapNumbers {f : ν → ν} {expr node : Dag ν}
    (reached : Reaches (expr.mapNumbers f) node) :
    ∃ origin, Reaches expr origin ∧ origin.mapNumbers f = node := by
  generalize image : expr.mapNumbers f = mapped at reached
  induction reached generalizing expr with
  | root _ => exact ⟨expr, .root expr, image⟩
  | operand member _ ih =>
      rw [← image, Expr.operands_mapNumbers] at member
      rcases List.mem_map.mp member with ⟨child, isOperand, same⟩
      obtain ⟨origin, below, isImage⟩ := ih same
      exact ⟨origin, .operand isOperand below, isImage⟩

/-- Other numbers do not change which nodes there are. -/
theorem coherent_below_mapNumbers {next : Nat} {expr : Dag ν} (f : ν → ν)
    (isCoherent : Coherent expr) (below : Below next expr) :
    Coherent (expr.mapNumbers f) ∧ Below next (expr.mapNumbers f) := by
  constructor
  · intro m n reachesM reachesN same
    rcases exists_reaches_of_mapNumbers reachesM with ⟨m, reachesOriginM, rfl⟩
    rcases exists_reaches_of_mapNumbers reachesN with ⟨n, reachesOriginN, rfl⟩
    rw [Expr.id, Expr.id, Expr.mark_mapNumbers, Expr.mark_mapNumbers] at same
    rw [isCoherent m n reachesOriginM reachesOriginN same]
  · intro node reached
    rcases exists_reaches_of_mapNumbers reached with ⟨origin, reachesOrigin, rfl⟩
    rw [Expr.id, Expr.mark_mapNumbers]
    exact below origin reachesOrigin

variable [Arithmetic ν]

/-- Two expressions take the same arguments and have the same values at them. Where every
variable has a number, this is a number. -/
structure SameValues (expr expr' : Dag ν) : Prop where
  names : expr.variableNames = expr'.variableNames
  values : ∀ arguments, evaluateAt arguments expr = evaluateAt arguments expr'
  number : ∀ assignment, ∃ value, evaluateUnder assignment expr = .ok (.scalar value) ∧
    evaluateUnder assignment expr' = .ok (.scalar value)

/-- Values are seen without marks. -/
theorem evaluateUnder_eq_bare {expr : Dag ν} (isCoherent : Coherent expr)
    (assignment : String → ν) :
    evaluateUnder assignment expr = .ok (.scalar (expr.bare.valueUnder assignment)) := by
  rw [evaluateUnder_eq isCoherent, Expr.bare, Expr.valueUnder_map]

theorem sameValues_of_bare {expr expr' : Dag ν} (isCoherent : Coherent expr)
    (isCoherent' : Coherent expr') (same : expr.bare = expr'.bare) : SameValues expr expr' := by
  have names : ∀ {expr : Dag ν}, Coherent expr → expr.variableNames = expr.bare.sortedNames := by
    intro expr isCoherent
    rw [variableNames_eq isCoherent, Expr.sortedNames, Expr.sortedNames, unfold, Expr.bare,
      Expr.names_map, Expr.names_map]
  have values : ∀ {expr : Dag ν}, Coherent expr → ∀ arguments,
      evaluateAt arguments expr = expr.bare.evaluateAt arguments := by
    intro expr isCoherent arguments
    rw [evaluateAt_eq_evaluate arguments isCoherent, Expr.evaluateAt, names isCoherent, Expr.bare,
      Expr.evaluate_map]
  constructor
  · rw [names isCoherent, names isCoherent', same]
  · intro arguments
    rw [values isCoherent, values isCoherent', same]
  · intro assignment
    refine ⟨expr.bare.valueUnder assignment, evaluateUnder_eq_bare isCoherent assignment, ?_⟩
    rw [evaluateUnder_eq_bare isCoherent', same]

/-- Simplification is seen without marks. -/
theorem bare_simplify (identities : Bool) {next : Nat} {expr : Dag ν}
    (isCoherent : Coherent expr) (below : Below next expr) :
    (simplify identities next expr).1.bare = expr.bare.simplify identities := by
  obtain ⟨_, _, unfolds⟩ := simplify_spec identities isCoherent below
  calc (simplify identities next expr).1.bare
      = (unfold (simplify identities next expr).1).bare := (Expr.bare_map _ _).symm
    _ = ((unfold expr).simplify identities).bare := by rw [unfolds]
    _ = (unfold expr).bare.simplify identities := (Expr.simplify_map _ identities _).symm
    _ = expr.bare.simplify identities := by rw [unfold, Expr.bare_map]

theorem evaluateUnder_simplify_eq_bare (identities : Bool) {next : Nat} {expr : Dag ν}
    (isCoherent : Coherent expr) (below : Below next expr) (assignment : String → ν) :
    evaluateUnder assignment (simplify identities next expr).1 =
      .ok (.scalar ((expr.bare.simplify identities).valueUnder assignment)) := by
  obtain ⟨simplified, _, _⟩ := simplify_spec identities isCoherent below
  rw [evaluateUnder_eq_bare simplified, bare_simplify identities isCoherent below]

end Dag

/-! ## The sign of a zero -/

namespace Expr

/-- The quotient of one by a number, which tells the two zeros apart. -/
def reciprocal (x : Float) : Expr Float Unit :=
  binary () .div (num () 1.0) (num () x)

theorem mapNumbers_reciprocal :
    (reciprocal (-0.0)).mapNumbers Decimal.unsignedZero = reciprocal 0.0 := by
  have one : Decimal.unsignedZero 1.0 = 1.0 := by decide +kernel
  have zero : Decimal.unsignedZero (-0.0) = 0.0 := by decide +kernel
  rw [reciprocal, mapNumbers, mapNumbers, mapNumbers, one, zero, reciprocal]

theorem valueUnder_reciprocal (assignment : String → Float) (identities : Bool) (x : Float) :
    (reciprocal x).valueUnder assignment = 1.0 / x ∧
      ((reciprocal x).simplify identities).valueUnder assignment = 1.0 / x := by
  have notAbsorbed : Reduct.isAbsorbed .div (num () 1.0) (num () x : Expr Float Unit) = false := by
    change ((1.0 : Float) == Float.ofInt 0) = false
    decide +kernel
  constructor
  · rfl
  · rw [reciprocal, simplify, simplify, simplify, Reduct.of?, notAbsorbed]
    rfl

end Expr

/-! ## Sessions -/

namespace Workspace

open Dag

/-- In a session, two expressions have the same values, before and after simplification. -/
structure SameMeaning [Arithmetic ν] (workspace : Workspace ν) (expr expr' : Dag ν) : Prop where
  values : SameValues expr expr'
  simplified : ∀ identities,
    SameValues (workspace.simplify identities expr).1 (workspace.simplify identities expr').1

theorem sameMeaning_of_bare [Arithmetic ν] {workspace : Workspace ν} {expr expr' : Dag ν}
    (isCoherent : Coherent expr) (below : Below workspace.next expr) (isCoherent' : Coherent expr')
    (below' : Below workspace.next expr') (same : expr.bare = expr'.bare) :
    workspace.SameMeaning expr expr' := by
  constructor
  · exact sameValues_of_bare isCoherent isCoherent' same
  · intro identities
    obtain ⟨simplified, _, _⟩ := simplify_spec identities isCoherent below
    obtain ⟨simplified', _, _⟩ := simplify_spec identities isCoherent' below'
    refine sameValues_of_bare simplified simplified' ?_
    calc (Dag.simplify identities workspace.next expr).1.bare
        = expr.bare.simplify identities := bare_simplify identities isCoherent below
      _ = expr'.bare.simplify identities := by rw [same]
      _ = (Dag.simplify identities workspace.next expr').1.bare :=
          (bare_simplify identities isCoherent' below').symm

/-- The text of an expression reads back over the marks of the session. -/
theorem exists_read_render_bare (workspace : Workspace Float) {expr : Dag Float}
    (isCoherent : Coherent expr)
    (named : ∀ name ∈ expr.variableNames, Token.isVariable name = true) :
    ∃ again later, workspace.read expr.render = .ok (again, later) ∧
      again.bare = (expr.mapNumbers Decimal.unsignedZero).bare ∧
      Coherent again ∧ Below later.next again ∧ workspace.next ≤ later.next := by
  have spelled : ∀ name ∈ expr.names, Token.isVariable name = true := by
    intro name member
    exact named name ((mem_variableNames_iff isCoherent).mpr (mem_names_iff.mp member))
  obtain ⟨tree, reads, sameTree⟩ := Expr.exists_bare_read_render spelled
  obtain ⟨againCoherent, againBelow⟩ := coherent_below_fresh some workspace.next tree
  refine ⟨(fresh some workspace.next tree).1,
    ⟨workspace.slots, (fresh some workspace.next tree).2⟩, ?_, ?_, againCoherent, againBelow, ?_⟩
  · rw [Workspace.read, reads]
    rfl
  · rw [← Expr.bare_map Tag.source, ← unfold, unfold_fresh, Expr.bare_map, sameTree]
  · rw [fresh_snd]
    exact Nat.le_add_right _ _

/-- An expression and what its text reads back as have the same values, before and after
simplification, but for the signs of the zeros in the expression. -/
theorem read_render_sameMeaning (workspace : Workspace Float) {expr : Dag Float}
    (isCoherent : Coherent expr) (below : Below workspace.next expr)
    (named : ∀ name ∈ expr.variableNames, Token.isVariable name = true) :
    ∃ again later, workspace.read expr.render = .ok (again, later) ∧
      later.SameMeaning again (expr.mapNumbers Decimal.unsignedZero) ∧
      ((∀ x ∈ expr.numbers, x ≠ -0.0) → later.SameMeaning again expr) := by
  obtain ⟨again, later, reads, same, againCoherent, againBelow, grown⟩ :=
    exists_read_render_bare workspace isCoherent named
  obtain ⟨unsignedCoherent, unsignedBelow⟩ :=
    coherent_below_mapNumbers Decimal.unsignedZero isCoherent below
  have laterBelow : Below later.next (expr.mapNumbers Decimal.unsignedZero) :=
    fun node reached => Nat.lt_of_lt_of_le (unsignedBelow node reached) grown
  have meaning : later.SameMeaning again (expr.mapNumbers Decimal.unsignedZero) :=
    sameMeaning_of_bare againCoherent againBelow unsignedCoherent laterBelow same
  refine ⟨again, later, reads, meaning, ?_⟩
  intro signless
  rw [Expr.mapNumbers_eq_self fun x member => Decimal.unsignedZero_eq_self (signless x member)]
    at meaning
  exact meaning

/-- The text of `2 * x / 0.1` reads back with the same values. -/
theorem read_render_sameMeaning_quotient :
    let expr := (.binary () .div (.binary () .mul (.num () 2.0) (.var () "x")) (.num () 0.1) :
      Expr Float Unit)
    let quotient := fresh (fun _ => none) 0 expr
    ∃ again later, (⟨[], quotient.2⟩ : Workspace Float).read quotient.1.render =
      .ok (again, later) ∧ later.SameMeaning again quotient.1 := by
  intro expr quotient
  obtain ⟨isCoherent, below⟩ := coherent_below_fresh (fun _ => none) 0 expr
  have named : ∀ name ∈ quotient.1.variableNames, Token.isVariable name = true := by
    intro name member
    have listed : name ∈ quotient.1.names :=
      mem_names_iff.mpr ((mem_variableNames_iff isCoherent).mp member)
    rw [List.mem_singleton.mp listed]
    decide
  have signless : ∀ x ∈ quotient.1.numbers, x ≠ -0.0 := by
    decide +kernel
  obtain ⟨again, later, reads, _, same⟩ :=
    read_render_sameMeaning ⟨[], quotient.2⟩ isCoherent below named
  exact ⟨again, later, reads, same signless⟩

/-- An expression and what its text reads back as can have different values: `1 / -0` is negative
infinity, and its text `1 / 0` is infinity. -/
theorem read_render_negative_infinity :
    let negative := (fresh (fun _ => none) 0 (Expr.reciprocal (-0.0))).1
    Coherent negative ∧ Below 3 negative ∧ negative.variableNames = [] ∧
      ∃ again later, (⟨[], 3⟩ : Workspace Float).read negative.render = .ok (again, later) ∧
        (∀ assignment,
          evaluateUnder assignment negative = .ok (.scalar (-(1.0 / 0.0))) ∧
          evaluateUnder assignment again = .ok (.scalar (1.0 / 0.0))) ∧
        (∀ identities assignment,
          evaluateUnder assignment (later.simplify identities negative).1 =
            .ok (.scalar (-(1.0 / 0.0))) ∧
          evaluateUnder assignment (later.simplify identities again).1 =
            .ok (.scalar (1.0 / 0.0))) ∧
        ¬Decimal.SameNumber (1.0 / 0.0) (-(1.0 / 0.0)) := by
  intro negative
  obtain ⟨isCoherent, below⟩ := coherent_below_fresh (fun _ => none) 0 (Expr.reciprocal (-0.0))
  have noNames : negative.variableNames = [] := by
    rw [List.eq_nil_iff_forall_not_mem]
    intro name member
    have listed : name ∈ negative.names :=
      mem_names_iff.mpr ((mem_variableNames_iff isCoherent).mp member)
    cases listed
  have named : ∀ name ∈ negative.variableNames, Token.isVariable name = true := by
    rw [noNames]
    exact List.forall_mem_nil _
  obtain ⟨again, later, reads, same, againCoherent, againBelow, grown⟩ :=
    exists_read_render_bare ⟨[], 3⟩ isCoherent named
  have laterBelow : Below later.next negative :=
    fun node reached => Nat.lt_of_lt_of_le (below node reached) grown
  have quotient : (1.0 / -0.0 : Float) = -(1.0 / 0.0) := by decide +kernel
  have signed : negative.bare = Expr.reciprocal (-0.0) := rfl
  have unsigned : again.bare = Expr.reciprocal 0.0 := same.trans Expr.mapNumbers_reciprocal
  refine ⟨isCoherent, below, noNames, again, later, reads, ?_, ?_, ?_⟩
  · intro assignment
    constructor
    · rw [evaluateUnder_eq_bare isCoherent, signed,
        (Expr.valueUnder_reciprocal assignment false _).1, quotient]
    · rw [evaluateUnder_eq_bare againCoherent, unsigned,
        (Expr.valueUnder_reciprocal assignment false _).1]
  · intro identities assignment
    have simplified := evaluateUnder_simplify_eq_bare identities isCoherent laterBelow assignment
    have simplifiedAgain :=
      evaluateUnder_simplify_eq_bare identities againCoherent againBelow assignment
    rw [signed, (Expr.valueUnder_reciprocal assignment identities _).2, quotient] at simplified
    rw [unsigned, (Expr.valueUnder_reciprocal assignment identities _).2] at simplifiedAgain
    exact ⟨simplified, simplifiedAgain⟩
  · rw [Decimal.SameNumber]
    decide +kernel

end Workspace

end Fluxion
