import Fluxion.Proofs.Expr.Subterms
import Fluxion.Proofs.Simplify.Normal

/-!
# Simplifying early

Parts of an expression may be simplified before the whole is: it makes no
difference to what the whole is simplified to. With the laws of the units put off
until the whole is simplified, this says that two sets of rules do not get in
each other's way. What the plain rules fold or absorb, they would have folded or
absorbed later, because a zero factor is a number and stays the number it is.

The rules of one set meet their own results only in normal forms, and there is
nothing left to do.
-/

namespace Fluxion

variable {ν α β : Type} [Arithmetic ν] {early late : Bool}

/-! ## Normal forms of both sets of rules -/

/-- What there is a rule for without the laws of the units, there is a rule for with them. -/
theorem Redex.mono (order : early ≤ late) {expr : Expr ν α} (redex : Redex early expr) :
    Redex late expr := by
  cases redex with
  | apply => exact .apply
  | operate => exact .operate
  | zero_mul isZero => exact .zero_mul isZero
  | mul_zero isZero => exact .mul_zero isZero
  | zero_div isZero => exact .zero_div isZero
  | one_mul asked isOne => exact .one_mul (order asked) isOne
  | mul_one asked isOne => exact .mul_one (order asked) isOne
  | zero_add asked isZero => exact .zero_add (order asked) isZero
  | add_zero asked isZero => exact .add_zero (order asked) isZero
  | sub_zero asked isZero => exact .sub_zero (order asked) isZero
  | div_one asked isOne => exact .div_one (order asked) isOne
  | pow_one asked isOne => exact .pow_one (order asked) isOne
  | pow_zero asked isZero => exact .pow_zero (order asked) isZero

namespace Expr

theorem Normal.mono (order : early ≤ late) {expr : Expr ν α} (isNormal : expr.Normal late) :
    expr.Normal early := by
  induction expr with
  | num _ _ => exact trivial
  | var _ _ => exact trivial
  | binary m operator a b a_ih b_ih =>
      obtain ⟨notRedex, aNormal, bNormal⟩ := isNormal
      exact ⟨fun redex => notRedex (redex.mono order), a_ih aNormal, b_ih bNormal⟩
  | apply m function u ih =>
      obtain ⟨notRedex, normal⟩ := isNormal
      exact ⟨fun redex => notRedex (redex.mono order), ih normal⟩

/-- A normal form is simplified to itself. -/
theorem simplify_eq_self {identities : Bool} {expr : Expr ν α}
    (isNormal : expr.Normal identities) : expr.simplify identities = expr := by
  induction expr with
  | num _ _ => rfl
  | var _ _ => rfl
  | binary m operator a b a_ih b_ih =>
      obtain ⟨notRedex, aNormal, bNormal⟩ := isNormal
      rw [simplify, a_ih aNormal, b_ih bNormal, Reduct.of?_eq_none_of_not_redex notRedex]
  | apply m function u ih =>
      obtain ⟨notRedex, normal⟩ := isNormal
      rw [simplify, ih normal]
      cases u with
      | num _ _ => exact absurd .apply notRedex
      | var _ _ => rfl
      | binary _ _ _ _ => rfl
      | apply _ _ _ => rfl

end Expr

/-! ## The plain rules first -/

/-- A whole number stays one. -/
theorem Expr.isInt_simplify {whole : Int} {expr : Expr ν α} (isWhole : expr.isInt whole = true)
    (identities : Bool) : (expr.simplify identities).isInt whole = true := by
  cases expr with
  | num _ _ => exact isWhole
  | var _ _ => cases isWhole
  | binary _ _ _ _ => cases isWhole
  | apply _ _ _ => cases isWhole

/-- What absorbs an operand still does when the operands are simplified further. -/
theorem Reduct.isAbsorbed_simplify {operator : Operator} {a b : Expr ν α}
    (absorbed : isAbsorbed operator a b = true) (identities : Bool) :
    isAbsorbed operator (a.simplify identities) (b.simplify identities) = true := by
  cases operator with
  | mul =>
      rw [isAbsorbed, Bool.or_eq_true] at absorbed ⊢
      rcases absorbed with isZero | isZero
      · exact Or.inl (Expr.isInt_simplify isZero identities)
      · exact Or.inr (Expr.isInt_simplify isZero identities)
  | div => exact Expr.isInt_simplify absorbed identities
  | add => cases absorbed
  | sub => cases absorbed
  | pow => cases absorbed

/-- A plain rule that applies still applies when the operands are simplified further, and it
comes before the laws of the units. -/
theorem Reduct.of?_simplify {operator : Operator} {a b : Expr ν α} {reduct : Reduct ν}
    (reduces : of? false operator a b = some reduct) (identities : Bool) :
    of? identities operator (a.simplify identities) (b.simplify identities) = some reduct := by
  unfold of? at reduces ⊢
  by_cases absorbed : isAbsorbed operator a b = true
  · rw [if_pos absorbed] at reduces
    rw [if_pos (isAbsorbed_simplify absorbed identities)]
    exact reduces
  · rw [if_neg absorbed] at reduces
    split at reduces
    · rw [Expr.simplify, Expr.simplify, if_neg absorbed]
      exact reduces
    · cases reduces

namespace Expr

/-- Simplifying with fewer rules first makes no difference. -/
theorem simplify_simplify (order : early ≤ late) (expr : Expr ν α) :
    (expr.simplify early).simplify late = expr.simplify late := by
  by_cases same : early = late
  · rw [same, simplify_eq_self (normal_simplify expr)]
  · have plain : early = false := by
      cases early with
      | false => rfl
      | true => exact absurd (order rfl).symm same
    subst plain
    induction expr with
    | num _ _ => rfl
    | var _ _ => rfl
    | binary m operator a b a_ih b_ih =>
        rw [simplify]
        cases reduces : Reduct.of? false operator (a.simplify false) (b.simplify false) with
        | none =>
            dsimp only
            rw [simplify, a_ih, b_ih, simplify]
        | some reduct =>
            have again := Reduct.of?_simplify reduces late
            rw [a_ih, b_ih] at again
            rw [simplify, again]
            cases reduct with
            | value _ => rfl
            | left => exact a_ih
            | right => exact b_ih
    | apply m function u ih =>
        have congruent : ∀ u', u'.simplify late = u.simplify late →
            (apply m function u').simplify late = (apply m function u).simplify late := by
          intro u' same
          rw [simplify, same, simplify]
        rw [simplify]
        cases simplified : u.simplify false with
        | num _ _ =>
            rw [simplified, simplify] at ih
            rw [simplify, simplify, ← ih]
        | var _ _ => exact congruent _ (simplified ▸ ih)
        | binary _ _ _ _ => exact congruent _ (simplified ▸ ih)
        | apply _ _ _ => exact congruent _ (simplified ▸ ih)

/-! ## Simplifying parts -/

/-- The expression with other expressions in the places of some of its nodes, and with a
function applied to the marks of the nodes around them. -/
def replaceAt (replacement? : Expr ν α → Option (Expr ν β)) (f : α → β) :
    Expr ν α → Expr ν β
  | num m value => (replacement? (num m value)).getD (num (f m) value)
  | var m name => (replacement? (var m name)).getD (var (f m) name)
  | binary m operator left right =>
      (replacement? (binary m operator left right)).getD
        (binary (f m) operator (left.replaceAt replacement? f) (right.replaceAt replacement? f))
  | apply m function argument =>
      (replacement? (apply m function argument)).getD
        (apply (f m) function (argument.replaceAt replacement? f))

/-- What replaces a node decides, or else what is rebuilt over the operands. -/
theorem simplify_getD {identities : Bool} {replacement : Option (Expr ν β)}
    {rebuilt expected : Expr ν β}
    (replaced : ∀ expr, replacement = some expr → expr.simplify identities = expected)
    (kept : rebuilt.simplify identities = expected) :
    (replacement.getD rebuilt).simplify identities = expected := by
  cases found : replacement with
  | none => exact kept
  | some expr => exact replaced expr found

/-- If what replaces a node is simplified to what the node is simplified to, then so is the
whole. -/
theorem simplify_replaceAt {identities : Bool} {replacement? : Expr ν α → Option (Expr ν β)}
    {f : α → β} {expr : Expr ν α}
    (faithful : ∀ node ∈ expr.subterms, ∀ other, replacement? node = some other →
      other.simplify identities = (node.map f).simplify identities) :
    (expr.replaceAt replacement? f).simplify identities = (expr.map f).simplify identities := by
  induction expr with
  | num m value => exact simplify_getD (faithful _ List.mem_cons_self) rfl
  | var m name => exact simplify_getD (faithful _ List.mem_cons_self) rfl
  | binary m operator left right left_ih right_ih =>
      have sameLeft := left_ih fun node member =>
        faithful node (List.mem_cons_of_mem _ (List.mem_append_left _ member))
      have sameRight := right_ih fun node member =>
        faithful node (List.mem_cons_of_mem _ (List.mem_append_right _ member))
      refine simplify_getD (faithful _ List.mem_cons_self) ?_
      rw [map, simplify, sameLeft, sameRight, simplify]
  | apply m function argument ih =>
      have same := ih fun node member => faithful node (List.mem_cons_of_mem _ member)
      refine simplify_getD (faithful _ List.mem_cons_self) ?_
      rw [map, simplify, same, simplify]

end Expr

namespace Dag

/-- Expressions that unfold to one tree are equal where every number equals itself. -/
theorem alike_of_unfold_eq {first second : Dag ν} (same : unfold first = unfold second)
    (reflexive : ∀ tag value, Reaches second (.num tag value) →
      Arithmetic.same value value = true) : alike first second = true := by
  unfold alike
  induction second generalizing first with
  | num tag value =>
      obtain ⟨_, rfl, _⟩ := Expr.map_eq_num_iff.mp same
      simp [Expr.alike, reflexive tag value (.root _)]
  | var _ _ =>
      obtain ⟨_, rfl, _⟩ := Expr.map_eq_var_iff.mp same
      simp [Expr.alike]
  | binary tag operator left right left_ih right_ih =>
      obtain ⟨_, left', right', rfl, _, sameLeft, sameRight⟩ := Expr.map_eq_binary_iff.mp same
      have leftAlike := left_ih sameLeft fun tag value reached =>
        reflexive tag value (.operand Expr.left_mem_operands reached)
      have rightAlike := right_ih sameRight fun tag value reached =>
        reflexive tag value (.operand Expr.right_mem_operands reached)
      simp [Expr.alike, leftAlike, rightAlike]
  | apply tag function argument ih =>
      obtain ⟨_, argument', rfl, _, sameArgument⟩ := Expr.map_eq_apply_iff.mp same
      have argumentAlike := ih sameArgument fun tag value reached =>
        reflexive tag value (.operand Expr.argument_mem_operands reached)
      simp [Expr.alike, argumentAlike]

/-- The tree of an expression with the nodes of some identities replaced by their own
simplifications. Where one such node is below another, the outer one is replaced. -/
def unfoldEarly (early : Bool) (next : Nat) (chosen : Nat → Bool) (expr : Dag ν) : Tree ν :=
  expr.replaceAt
    (fun node => if chosen node.id then some (unfold (simplify early next node).1) else none)
    Tag.source

/-- Whatever nodes are simplified early, the whole is simplified to the same tree. -/
theorem simplify_unfoldEarly (order : early ≤ late) {next : Nat} {expr : Dag ν}
    (isCoherent : Coherent expr) (below : Below next expr) (chosen : Nat → Bool) :
    (unfoldEarly early next chosen expr).simplify late = (unfold expr).simplify late := by
  refine Expr.simplify_replaceAt ?_
  intro node member other replaced
  have reached := mem_subterms_iff.mp member
  have nodeCoherent := Heap.coherent_of_reaches isCoherent reached
  have nodeBelow : Below next node := fun inner within => below inner (reached.trans within)
  cases isChosen : chosen node.id with
  | false => simp [isChosen] at replaced
  | true =>
      simp only [isChosen, if_true, Option.some.injEq] at replaced
      rw [← replaced, (simplify_spec early nodeCoherent nodeBelow).2.2,
        Expr.simplify_simplify order]
      rfl

/-- Simplification may be done early anywhere. If some nodes are replaced by what they are
simplified to with the same rules or fewer, however the result is put together of nodes, the
whole is simplified to the tree that it would be simplified to anyway, with its numbers and
sources, and to an equal expression unless a number is not even equal to itself. In particular
a pass with fewer rules may go first, and behind a pass with more rules it returns the very
node that it was given. -/
theorem simplify_early (order : early ≤ late) {next : Nat} {expr : Dag ν}
    (isCoherent : Coherent expr) (below : Below next expr) :
    (∀ (chosen : Nat → Bool) (next' : Nat) (replaced : Dag ν), Coherent replaced →
        Below next' replaced → unfold replaced = unfoldEarly early next chosen expr →
        unfold (simplify late next' replaced).1 = unfold (simplify late next expr).1 ∧
          ((∀ tag value, Reaches (simplify late next expr).1 (.num tag value) →
              Arithmetic.same value value = true) →
            alike (simplify late next' replaced).1 (simplify late next expr).1 = true)) ∧
      (∀ next', Below next' (simplify early next expr).1 →
        unfold (simplify late next' (simplify early next expr).1).1 =
          unfold (simplify late next expr).1) ∧
      ∀ next', (simplify early next' (simplify late next expr).1).1 =
        (simplify late next expr).1 := by
  obtain ⟨lateCoherent, _, lateUnfolds⟩ := simplify_spec late isCoherent below
  obtain ⟨earlyCoherent, _, earlyUnfolds⟩ := simplify_spec early isCoherent below
  refine ⟨?_, ?_, ?_⟩
  · intro chosen next' replaced replacedCoherent replacedBelow replaces
    have same : unfold (simplify late next' replaced).1 = unfold (simplify late next expr).1 := by
      rw [(simplify_spec late replacedCoherent replacedBelow).2.2, replaces,
        simplify_unfoldEarly order isCoherent below, lateUnfolds]
    exact ⟨same, alike_of_unfold_eq same⟩
  · intro next' earlyBelow
    rw [(simplify_spec late earlyCoherent earlyBelow).2.2, earlyUnfolds,
      Expr.simplify_simplify order, lateUnfolds]
  · intro next'
    have isNormal : (simplify late next expr).1.Normal late := by
      rw [← Expr.normal_map_iff Tag.source, ← unfold, lateUnfolds]
      exact Expr.normal_simplify (unfold expr)
    exact simplificationOf_eq_self next' lateCoherent (.root _) (isNormal.mono order)

/-- The power `x^x` over the variable of `(1*x)^(1*x)`. -/
def barePower : Dag ν :=
  .binary ⟨4, none⟩ .pow (.var ⟨1, none⟩ "x") (.var ⟨1, none⟩ "x")

/-- In `(1*x)^(1*x)` both factors, which are one node, may be simplified before the power
is. -/
theorem simplify_early_sharedPower :
    unfold (simplify true 5 (barePower : Dag Float)).1 =
        unfold (simplify true 4 (sharedPower : Dag Float)).1 ∧
      (simplify true 5 (simplify true 4 (sharedPower : Dag Float)).1).1 =
        (simplify true 4 sharedPower).1 := by
  have reaches_iff : ∀ node : Dag Float, Reaches barePower node ↔
      node = barePower ∨ node = .var ⟨1, none⟩ "x" := by
    intro node
    rw [barePower, reaches_binary_iff, or_self, reaches_var_iff]
  have isCoherent : Coherent (barePower : Dag Float) := by
    intro m n reachedM reachedN same
    rcases (reaches_iff m).mp reachedM with rfl | rfl <;>
      rcases (reaches_iff n).mp reachedN with rfl | rfl <;> first | rfl | cases same
  have below : Below 5 (barePower : Dag Float) := by
    intro node reached
    rcases (reaches_iff node).mp reached with rfl | rfl
    · exact Nat.lt_succ_self 4
    · exact Nat.lt_of_lt_of_le Nat.one_lt_two (Nat.le_add_left 2 3)
  have replaces : unfold (barePower : Dag Float) =
      unfoldEarly true 4 (fun id => id == 2) sharedPower := by
    have factorReached : Reaches (sharedPower : Dag Float) sharedFactor :=
      reaches_sharedPower_iff.mpr (Or.inr (Or.inl rfl))
    have factorBelow : Below 4 (sharedFactor : Dag Float) := fun inner within =>
      below_sharedPower inner (factorReached.trans within)
    have factor : unfold (simplify true 4 (sharedFactor : Dag Float)).1 = .var none "x" :=
      (simplify_spec true (Heap.coherent_of_reaches coherent_sharedPower factorReached)
        factorBelow).2.2
    have rebuilt : unfoldEarly true 4 (fun id => id == 2) (sharedPower : Dag Float) =
        .binary none .pow (unfold (simplify true 4 (sharedFactor : Dag Float)).1)
          (unfold (simplify true 4 (sharedFactor : Dag Float)).1) := rfl
    rw [rebuilt, factor]
    rfl
  obtain ⟨anywhere, _, kept⟩ := simplify_early (Bool.le_refl true)
    (coherent_sharedPower (ν := Float)) below_sharedPower
  exact ⟨(anywhere _ 5 barePower isCoherent below replaces).1, kept 5⟩

end Dag

end Fluxion
