import Fluxion.Proofs.Evaluation.Assignment
import Fluxion.Proofs.Simplify.Sharing

/-!
# Simplification preserves values

Where every subexpression has a finite value, the simplified expression has an
equal one. Equality is that of numbers, not identity: the sign of a zero may
change. What is used of the numbers is stated as laws on finite ones; finiteness
is what makes the absorbing rules sound, for an infinity times zero is no zero.
-/

namespace Fluxion

variable {ν α : Type} [Arithmetic ν]

/-- The laws of finite numbers. Among them, numeric equality is an equivalence that
every operation respects where its result is finite. -/
structure FiniteLaws (finite : ν → Prop) : Prop where
  refl : ∀ {x : ν}, finite x → Arithmetic.same x x = true
  symm : ∀ {x y : ν}, Arithmetic.same x y = true → Arithmetic.same y x = true
  trans : ∀ {x y z : ν}, Arithmetic.same x y = true → Arithmetic.same y z = true →
    Arithmetic.same x z = true
  finite_of_same : ∀ {x y : ν}, finite x → Arithmetic.same x y = true → finite y
  operate_congr : ∀ {operator : Operator} {x y x' y' : ν}, finite x → finite y →
    finite (Arithmetic.operate operator x y) → Arithmetic.same x x' = true →
    Arithmetic.same y y' = true →
    Arithmetic.same (Arithmetic.operate operator x y) (Arithmetic.operate operator x' y') = true
  apply_congr : ∀ {function : Elementary} {x x' : ν}, finite x →
    finite (Arithmetic.apply function x) → Arithmetic.same x x' = true →
    Arithmetic.same (Arithmetic.apply function x) (Arithmetic.apply function x') = true
  zero_mul : ∀ {x : ν}, finite x →
    Arithmetic.same (Arithmetic.operate .mul (Arithmetic.ofInt 0) x) (Arithmetic.ofInt 0) = true
  mul_zero : ∀ {x : ν}, finite x →
    Arithmetic.same (Arithmetic.operate .mul x (Arithmetic.ofInt 0)) (Arithmetic.ofInt 0) = true
  zero_div : ∀ {x : ν}, finite x → Arithmetic.same x (Arithmetic.ofInt 0) = false →
    Arithmetic.same (Arithmetic.operate .div (Arithmetic.ofInt 0) x) (Arithmetic.ofInt 0) = true
  div_zero : ∀ {x y : ν}, finite x → finite y → Arithmetic.same y (Arithmetic.ofInt 0) = true →
    ¬finite (Arithmetic.operate .div x y)
  mul_one : ∀ {x : ν}, finite x →
    Arithmetic.same (Arithmetic.operate .mul x (Arithmetic.ofInt 1)) x = true
  one_mul : ∀ {x : ν}, finite x →
    Arithmetic.same (Arithmetic.operate .mul (Arithmetic.ofInt 1) x) x = true
  add_zero : ∀ {x : ν}, finite x →
    Arithmetic.same (Arithmetic.operate .add x (Arithmetic.ofInt 0)) x = true
  zero_add : ∀ {x : ν}, finite x →
    Arithmetic.same (Arithmetic.operate .add (Arithmetic.ofInt 0) x) x = true
  sub_zero : ∀ {x : ν}, finite x →
    Arithmetic.same (Arithmetic.operate .sub x (Arithmetic.ofInt 0)) x = true
  div_one : ∀ {x : ν}, finite x →
    Arithmetic.same (Arithmetic.operate .div x (Arithmetic.ofInt 1)) x = true
  pow_one : ∀ {x : ν}, finite x →
    Arithmetic.same (Arithmetic.operate .pow x (Arithmetic.ofInt 1)) x = true
  pow_zero : ∀ {x : ν}, finite x →
    Arithmetic.same (Arithmetic.operate .pow x (Arithmetic.ofInt 0)) (Arithmetic.ofInt 1) = true

/-- All subexpressions have finite values. -/
def Expr.FiniteUnder (finite : ν → Prop) (assignment : String → ν) : Expr ν α → Prop
  | num _ value => finite value
  | var _ name => finite (assignment name)
  | binary _ operator left right =>
      left.FiniteUnder finite assignment ∧ right.FiniteUnder finite assignment ∧
        finite (Arithmetic.operate operator (left.valueUnder assignment)
          (right.valueUnder assignment))
  | apply _ function argument =>
      argument.FiniteUnder finite assignment ∧
        finite (Arithmetic.apply function (argument.valueUnder assignment))

variable {finite : ν → Prop} {assignment : String → ν}

theorem Expr.FiniteUnder.root {expr : Expr ν α} (all : expr.FiniteUnder finite assignment) :
    finite (expr.valueUnder assignment) := by
  cases expr with
  | num _ _ => exact all
  | var _ _ => exact all
  | binary _ _ _ _ => exact all.2.2
  | apply _ _ _ => exact all.2

/-- Marks do not matter. -/
theorem Expr.finiteUnder_map {β : Type} (f : α → β) (expr : Expr ν α) :
    (expr.map f).FiniteUnder finite assignment ↔ expr.FiniteUnder finite assignment := by
  induction expr with
  | num _ _ => rfl
  | var _ _ => rfl
  | binary _ operator left right left_ih right_ih =>
      simp only [Expr.map, Expr.FiniteUnder, Expr.valueUnder_map, left_ih, right_ih]
  | apply _ function argument ih =>
      simp only [Expr.map, Expr.FiniteUnder, Expr.valueUnder_map, ih]

/-- It is enough that the nodes that are reached have finite values. -/
theorem Dag.finiteUnder_of_reaches {expr : Dag ν}
    (all : ∀ node, Reaches expr node → finite (node.valueUnder assignment)) :
    expr.FiniteUnder finite assignment := by
  induction expr with
  | num _ _ => exact all _ (.root _)
  | var _ _ => exact all _ (.root _)
  | binary tag operator left right left_ih right_ih =>
      simp only [reaches_binary_iff, or_imp, forall_and, forall_eq] at all
      exact ⟨left_ih all.2.1, right_ih all.2.2, all.1⟩
  | apply tag function argument ih =>
      simp only [reaches_apply_iff, or_imp, forall_and, forall_eq] at all
      exact ⟨ih all.2, all.1⟩

/-- The nodes that are reached have finite values then. -/
theorem Dag.Reaches.finiteUnder {expr node : Dag ν} (reached : Reaches expr node)
    (all : expr.FiniteUnder finite assignment) : node.FiniteUnder finite assignment := by
  induction reached with
  | root _ => exact all
  | @operand expr child node member _ ih =>
      apply ih
      cases expr with
      | num _ _ => cases member
      | var _ _ => cases member
      | binary _ _ _ _ => exact Expr.forall_operands_binary_iff.mpr ⟨all.1, all.2.1⟩ child member
      | apply _ _ _ => exact Expr.forall_operands_apply_iff.mpr all.1 child member

/-- The value of a number that equals a small whole number. -/
theorem Expr.same_of_isInt {expr : Expr ν α} {whole : Int} (isInt : expr.isInt whole = true) :
    Arithmetic.same (expr.valueUnder assignment) (Arithmetic.ofInt whole) = true := by
  cases expr with
  | num _ _ => exact isInt
  | var _ _ => cases isInt
  | binary _ _ _ _ => cases isInt
  | apply _ _ _ => cases isInt

/-! ## The rules -/

/-- What an operator reduces to, as an expression over its operands. -/
def Reduct.resolve (m : α) (a b : Expr ν α) : Reduct ν → Expr ν α
  | value x => .num m x
  | left => a
  | right => b

namespace FiniteLaws

variable {a b : Expr ν α}

/-- What is absorbed is zero. -/
theorem same_of_isAbsorbed (laws : FiniteLaws finite) {operator : Operator}
    (finiteA : finite (a.valueUnder assignment)) (finiteB : finite (b.valueUnder assignment))
    (finiteResult : finite
      (Arithmetic.operate operator (a.valueUnder assignment) (b.valueUnder assignment)))
    (absorbed : Reduct.isAbsorbed operator a b = true) :
    Arithmetic.same (Arithmetic.ofInt 0)
      (Arithmetic.operate operator (a.valueUnder assignment) (b.valueUnder assignment)) =
      true := by
  cases operator with
  | add => cases absorbed
  | sub => cases absorbed
  | pow => cases absorbed
  | mul =>
      rw [Reduct.isAbsorbed, Bool.or_eq_true] at absorbed
      rcases absorbed with isZero | isZero
      · have zeroed := laws.operate_congr finiteA finiteB finiteResult
          (Expr.same_of_isInt isZero) (laws.refl finiteB)
        exact laws.symm (laws.trans zeroed (laws.zero_mul finiteB))
      · have zeroed := laws.operate_congr finiteA finiteB finiteResult (laws.refl finiteA)
          (Expr.same_of_isInt isZero)
        exact laws.symm (laws.trans zeroed (laws.mul_zero finiteA))
  | div =>
      have nonzero : Arithmetic.same (b.valueUnder assignment) (Arithmetic.ofInt 0) = false := by
        rw [← Bool.not_eq_true]
        exact fun isZero => laws.div_zero finiteA finiteB isZero finiteResult
      have zeroed := laws.operate_congr finiteA finiteB finiteResult
        (Expr.same_of_isInt absorbed) (laws.refl finiteB)
      exact laws.symm (laws.trans zeroed (laws.zero_div finiteB nonzero))

/-- An operator with a unit for its right operand. -/
theorem same_of_right_unit (laws : FiniteLaws finite) {operator : Operator} {whole : Int}
    (finiteA : finite (a.valueUnder assignment)) (finiteB : finite (b.valueUnder assignment))
    (finiteResult : finite
      (Arithmetic.operate operator (a.valueUnder assignment) (b.valueUnder assignment)))
    (isUnit : b.isInt whole = true) {result : ν}
    (law : Arithmetic.same
      (Arithmetic.operate operator (a.valueUnder assignment) (Arithmetic.ofInt whole)) result =
      true) :
    Arithmetic.same result
      (Arithmetic.operate operator (a.valueUnder assignment) (b.valueUnder assignment)) = true :=
  laws.symm (laws.trans
    (laws.operate_congr finiteA finiteB finiteResult (laws.refl finiteA)
      (Expr.same_of_isInt isUnit))
    law)

/-- An operator with a unit for its left operand. -/
theorem same_of_left_unit (laws : FiniteLaws finite) {operator : Operator} {whole : Int}
    (finiteA : finite (a.valueUnder assignment)) (finiteB : finite (b.valueUnder assignment))
    (finiteResult : finite
      (Arithmetic.operate operator (a.valueUnder assignment) (b.valueUnder assignment)))
    (isUnit : a.isInt whole = true) {result : ν}
    (law : Arithmetic.same
      (Arithmetic.operate operator (Arithmetic.ofInt whole) (b.valueUnder assignment)) result =
      true) :
    Arithmetic.same result
      (Arithmetic.operate operator (a.valueUnder assignment) (b.valueUnder assignment)) = true :=
  laws.symm (laws.trans
    (laws.operate_congr finiteA finiteB finiteResult (Expr.same_of_isInt isUnit)
      (laws.refl finiteB))
    law)

/-- The laws of the units drop what changes nothing. -/
theorem same_of_ofUnit? (laws : FiniteLaws finite) {operator : Operator} {reduct : Reduct ν}
    (finiteA : finite (a.valueUnder assignment)) (finiteB : finite (b.valueUnder assignment))
    (finiteResult : finite
      (Arithmetic.operate operator (a.valueUnder assignment) (b.valueUnder assignment)))
    (reduces : Reduct.ofUnit? operator a b = some reduct) (m : α) :
    Arithmetic.same ((reduct.resolve m a b).valueUnder assignment)
      (Arithmetic.operate operator (a.valueUnder assignment) (b.valueUnder assignment)) =
      true := by
  cases operator with
  | add =>
      rw [Reduct.ofUnit?] at reduces
      split at reduces
      · next isUnit =>
        cases reduces
        exact laws.same_of_left_unit finiteA finiteB finiteResult isUnit (laws.zero_add finiteB)
      · split at reduces
        · next isUnit =>
          cases reduces
          exact laws.same_of_right_unit finiteA finiteB finiteResult isUnit (laws.add_zero finiteA)
        · cases reduces
  | mul =>
      rw [Reduct.ofUnit?] at reduces
      split at reduces
      · next isUnit =>
        cases reduces
        exact laws.same_of_left_unit finiteA finiteB finiteResult isUnit (laws.one_mul finiteB)
      · split at reduces
        · next isUnit =>
          cases reduces
          exact laws.same_of_right_unit finiteA finiteB finiteResult isUnit (laws.mul_one finiteA)
        · cases reduces
  | sub =>
      rw [Reduct.ofUnit?] at reduces
      split at reduces
      · next isUnit =>
        cases reduces
        exact laws.same_of_right_unit finiteA finiteB finiteResult isUnit (laws.sub_zero finiteA)
      · cases reduces
  | div =>
      rw [Reduct.ofUnit?] at reduces
      split at reduces
      · next isUnit =>
        cases reduces
        exact laws.same_of_right_unit finiteA finiteB finiteResult isUnit (laws.div_one finiteA)
      · cases reduces
  | pow =>
      rw [Reduct.ofUnit?] at reduces
      split at reduces
      · next isUnit =>
        cases reduces
        exact laws.same_of_right_unit finiteA finiteB finiteResult isUnit (laws.pow_one finiteA)
      · split at reduces
        · next isUnit =>
          cases reduces
          exact laws.same_of_right_unit finiteA finiteB finiteResult isUnit (laws.pow_zero finiteA)
        · cases reduces

/-- Whatever an operator reduces to has the value of the operator. -/
theorem same_of_reduct (laws : FiniteLaws finite) {identities : Bool} {operator : Operator}
    {reduct : Reduct ν} (finiteA : finite (a.valueUnder assignment))
    (finiteB : finite (b.valueUnder assignment))
    (finiteResult : finite
      (Arithmetic.operate operator (a.valueUnder assignment) (b.valueUnder assignment)))
    (reduces : Reduct.of? identities operator a b = some reduct) (m : α) :
    Arithmetic.same ((reduct.resolve m a b).valueUnder assignment)
      (Arithmetic.operate operator (a.valueUnder assignment) (b.valueUnder assignment)) =
      true := by
  unfold Reduct.of? at reduces
  split at reduces
  · next absorbed =>
    cases reduces
    exact laws.same_of_isAbsorbed finiteA finiteB finiteResult absorbed
  · split at reduces
    · cases reduces
      exact laws.refl finiteResult
    · split at reduces
      · exact laws.same_of_ofUnit? finiteA finiteB finiteResult reduces m
      · cases reduces

/-! ## Expressions -/

/-- The simplified expression has a finite value, equal to that of the expression. -/
theorem simplify_value (laws : FiniteLaws finite) (identities : Bool) {expr : Expr ν α}
    (all : expr.FiniteUnder finite assignment) :
    finite ((expr.simplify identities).valueUnder assignment) ∧
      Arithmetic.same ((expr.simplify identities).valueUnder assignment)
        (expr.valueUnder assignment) = true := by
  induction expr with
  | num _ _ => exact ⟨all, laws.refl all⟩
  | var _ _ => exact ⟨all, laws.refl all⟩
  | binary m operator left right left_ih right_ih =>
      rcases all with ⟨leftAll, rightAll, finiteResult⟩
      obtain ⟨finiteLeft, sameLeft⟩ := left_ih leftAll
      obtain ⟨finiteRight, sameRight⟩ := right_ih rightAll
      have congr := laws.operate_congr leftAll.root rightAll.root finiteResult
        (laws.symm sameLeft) (laws.symm sameRight)
      have finiteOperated := laws.finite_of_same finiteResult congr
      suffices same : Arithmetic.same
          ((Expr.simplify identities (.binary m operator left right)).valueUnder assignment)
          (Arithmetic.operate operator ((left.simplify identities).valueUnder assignment)
            ((right.simplify identities).valueUnder assignment)) = true by
        exact ⟨laws.finite_of_same finiteOperated (laws.symm same),
          laws.trans same (laws.symm congr)⟩
      rw [Expr.simplify]
      cases reduces : Reduct.of? identities operator (left.simplify identities)
          (right.simplify identities) with
      | none => exact laws.refl finiteOperated
      | some reduct =>
          have same := laws.same_of_reduct finiteLeft finiteRight finiteOperated reduces m
          cases reduct with
          | value _ => exact same
          | left => exact same
          | right => exact same
  | apply m function argument ih =>
      rcases all with ⟨argumentAll, finiteResult⟩
      obtain ⟨finiteArgument, sameArgument⟩ := ih argumentAll
      have congr := laws.apply_congr argumentAll.root finiteResult (laws.symm sameArgument)
      have applied :
          (Expr.simplify identities (.apply m function argument)).valueUnder assignment =
            Arithmetic.apply function ((argument.simplify identities).valueUnder assignment) := by
        rw [Expr.simplify]
        cases argument.simplify identities <;> rfl
      rw [applied]
      exact ⟨laws.finite_of_same finiteResult congr, laws.symm congr⟩

end FiniteLaws

/-- Simplification preserves the value under every assignment that gives all
subexpressions finite values, with or without the laws of the units. -/
theorem Dag.evaluateUnder_simplify (laws : FiniteLaws finite) (identities : Bool) {next : Nat}
    {expr : Dag ν} (isCoherent : Coherent expr) (below : Below next expr)
    (all : ∀ node, Reaches expr node →
      ∃ x, evaluateUnder assignment node = .ok (.scalar x) ∧ finite x) :
    ∃ x y, evaluateUnder assignment expr = .ok (.scalar x) ∧
      evaluateUnder assignment (simplify identities next expr).1 = .ok (.scalar y) ∧
      finite y ∧ Arithmetic.same y x = true := by
  obtain ⟨resultCoherent, _, unfolds⟩ := simplify_spec identities isCoherent below
  have finiteNodes : ∀ node, Reaches expr node → finite (node.valueUnder assignment) := by
    intro node reached
    have nodeCoherent : Coherent node := (Heap.ofCoherent isCoherent).coherent reached
    obtain ⟨x, value, isFinite⟩ := all node reached
    rw [evaluateUnder_eq nodeCoherent, Except.ok.injEq, Value.scalar.injEq] at value
    rw [value]
    exact isFinite
  have unfoldedFinite : (unfold expr).FiniteUnder finite assignment :=
    (Expr.finiteUnder_map Tag.source expr).mpr (finiteUnder_of_reaches finiteNodes)
  have sameValue := laws.simplify_value identities unfoldedFinite
  rw [← unfolds] at sameValue
  refine ⟨_, _, evaluateUnder_eq isCoherent assignment, evaluateUnder_eq resultCoherent assignment,
    ?_⟩
  simpa [unfold] using sameValue

/-! ## Numbers with signed zeros -/

/-- Rational numbers with two zeros, two infinities and what is not a number. The sign of
a finite number that is not zero is that of its value. -/
inductive Extended where
  | number (value : Rat) (negativeZero : Bool)
  | infinity (negative : Bool)
  | nan
  deriving DecidableEq

namespace Extended

def isFinite : Extended → Bool
  | number _ _ => true
  | infinity _ | nan => false

/-- Whether a finite number has a minus sign. -/
def isNegative (value : Rat) (negativeZero : Bool) : Bool :=
  if value = 0 then negativeZero else decide (value < 0)

/-- Equal numbers, the two zeros among them. -/
def same : Extended → Extended → Bool
  | number x _, number y _ => x == y
  | infinity negative, infinity negative' => negative == negative'
  | _, _ => false

/-- The exact result where it is rational. -/
def exact : Operator → Rat → Rat → Option Rat
  | .add, x, y => some (x + y)
  | .sub, x, y => some (x - y)
  | .mul, x, y => some (x * y)
  | .div, x, y => if y = 0 then none else some (x / y)
  | .pow, x, y => if y.den = 1 ∧ 0 ≤ y.num then some (x ^ y.num.toNat) else none

/-- Whether a zero that results from two finite numbers has a minus sign. -/
def zeroIsNegative : Operator → Rat → Bool → Rat → Bool → Bool
  | .add, x, negative, _, negative' => decide (x = 0) && negative && negative'
  | .sub, x, negative, _, negative' => decide (x = 0) && negative && !negative'
  | .mul, x, negative, y, negative' | .div, x, negative, y, negative' =>
      isNegative x negative != isNegative y negative'
  | .pow, _, negative, y, _ => negative && decide (y.num % 2 = 1)

/-- The result of two finite numbers. By zero, only zero is not divided into an infinity, and
powers that need not be rational are not told. -/
def operateFinite (operator : Operator) (x : Rat) (negative : Bool) (y : Rat) (negative' : Bool) :
    Extended :=
  match exact operator x y with
  | some value => number value (zeroIsNegative operator x negative y negative')
  | none =>
      if operator = .div ∧ x ≠ 0 then infinity (isNegative x negative != isNegative y negative')
      else nan

/-- The result where one of the numbers is an infinity. -/
def operateInfinite : Operator → Extended → Extended → Extended
  | .add, infinity negative, infinity negative' =>
      if negative = negative' then infinity negative else nan
  | .sub, infinity negative, infinity negative' =>
      if negative = negative' then nan else infinity negative
  | .add, infinity negative, number _ _ | .sub, infinity negative, number _ _ => infinity negative
  | .add, number _ _, infinity negative => infinity negative
  | .sub, number _ _, infinity negative => infinity !negative
  | .mul, infinity negative, infinity negative' => infinity (negative != negative')
  | .mul, infinity negative, number y negative' | .mul, number y negative', infinity negative =>
      if y = 0 then nan else infinity (negative != isNegative y negative')
  | .div, infinity negative, number y negative' => infinity (negative != isNegative y negative')
  | .div, number x negative, infinity negative' => number 0 (isNegative x negative != negative')
  | .pow, _, number y _ => if y = 0 then number 1 false else nan
  | _, _, _ => nan

/-- The functions, where they have a rational value at zero and where they grow beyond all
bounds or vanish. Elsewhere they are not told. -/
def apply : Elementary → Extended → Extended
  | .sin, number x negative | .tan, number x negative | .asin, number x negative
  | .atan, number x negative | .sqrt, number x negative =>
      if x = 0 then number 0 negative else nan
  | .cos, number x _ | .sec, number x _ | .exp, number x _ =>
      if x = 0 then number 1 false else nan
  | .ln, number x _ => if x = 0 then infinity true else nan
  | .exp, infinity negative => if negative then number 0 false else infinity false
  | .sqrt, infinity false | .ln, infinity false => infinity false
  | _, _ => nan

instance : Arithmetic Extended where
  ofInt whole := number whole false
  operate
    | operator, number x negative, number y negative' =>
        operateFinite operator x negative y negative'
    | operator, x, y => operateInfinite operator x y
  apply := apply
  same := same

theorem same_number_iff {x y : Rat} {negative negative' : Bool} :
    same (number x negative) (number y negative') = true ↔ x = y :=
  beq_iff_eq

theorem same_infinity_iff {negative negative' : Bool} :
    same (infinity negative) (infinity negative') = true ↔ negative = negative' :=
  beq_iff_eq

theorem exists_eq_of_same {x : Rat} {negative : Bool} {y : Extended}
    (same : Arithmetic.same (number x negative) y = true) :
    ∃ negative', y = number x negative' := by
  cases y with
  | number y negative' => exact ⟨negative', by rw [same_number_iff.mp same]⟩
  | infinity _ => cases same
  | nan => cases same

/-- The signs of zeros do not matter to a finite result. -/
theorem same_operateFinite {operator : Operator} {x y : Rat} {negative negative' : Bool}
    (isFinite : (operateFinite operator x negative y negative').isFinite = true)
    (other other' : Bool) :
    same (operateFinite operator x negative y negative')
      (operateFinite operator x other y other') = true := by
  rw [operateFinite] at isFinite ⊢
  rw [operateFinite]
  cases result : exact operator x y with
  | some value => exact same_number_iff.mpr rfl
  | none =>
      rw [result] at isFinite
      dsimp only at isFinite
      split at isFinite <;> cases isFinite

theorem same_apply {function : Elementary} {x : Rat} {negative : Bool}
    (isFinite : (apply function (number x negative)).isFinite = true) (other : Bool) :
    same (apply function (number x negative)) (apply function (number x other)) = true := by
  by_cases zero : x = 0
  · cases function <;> simp_all [apply, same, Extended.isFinite]
  · cases function <;> simp_all [apply, Extended.isFinite]

theorem finiteLaws : FiniteLaws fun x : Extended => x.isFinite = true where
  refl := by
    rintro (⟨x, negative⟩ | _ | _) ⟨⟩
    exact same_number_iff.mpr rfl
  symm := by
    rintro (⟨x, negative⟩ | _ | _) (⟨y, negative'⟩ | _ | _) isSame
    case number.number => exact same_number_iff.mpr (same_number_iff.mp isSame).symm
    case infinity.infinity => exact same_infinity_iff.mpr (same_infinity_iff.mp isSame).symm
    all_goals cases isSame
  trans := by
    rintro (⟨x, negative⟩ | negative | _) y z sameXY sameYZ
    · obtain ⟨_, rfl⟩ := exists_eq_of_same sameXY
      obtain ⟨_, rfl⟩ := exists_eq_of_same sameYZ
      exact same_number_iff.mpr rfl
    · cases y with
      | infinity negative' =>
          rw [same_infinity_iff.mp sameXY]
          exact sameYZ
      | number _ _ => cases sameXY
      | nan => cases sameXY
    · cases sameXY
  finite_of_same := by
    rintro (⟨x, negative⟩ | _ | _) y ⟨⟩ isSame
    obtain ⟨_, rfl⟩ := exists_eq_of_same isSame
    rfl
  operate_congr := by
    rintro operator (⟨x, negative⟩ | _ | _) (⟨y, negative'⟩ | _ | _) x' y' ⟨⟩ ⟨⟩ isFinite sameX
      sameY
    obtain ⟨_, rfl⟩ := exists_eq_of_same sameX
    obtain ⟨_, rfl⟩ := exists_eq_of_same sameY
    exact same_operateFinite isFinite _ _
  apply_congr := by
    rintro function (⟨x, negative⟩ | _ | _) x' ⟨⟩ isFinite isSame
    obtain ⟨_, rfl⟩ := exists_eq_of_same isSame
    exact same_apply isFinite _
  zero_mul := by
    rintro (⟨x, negative⟩ | _ | _) ⟨⟩
    exact same_number_iff.mpr (Rat.zero_mul x)
  mul_zero := by
    rintro (⟨x, negative⟩ | _ | _) ⟨⟩
    exact same_number_iff.mpr (Rat.mul_zero x)
  zero_div := by
    rintro (⟨x, negative⟩ | _ | _) ⟨⟩ nonzero
    have different : x ≠ 0 := by
      rintro rfl
      cases nonzero
    have quotient : exact .div 0 x = some 0 := by
      rw [exact, if_neg different, Rat.div_def, Rat.zero_mul]
    change same (operateFinite .div 0 false x negative) (number 0 false) = true
    rw [operateFinite, quotient]
    exact same_number_iff.mpr rfl
  div_zero := by
    rintro (⟨x, negative⟩ | _ | _) (⟨y, negative'⟩ | _ | _) ⟨⟩ ⟨⟩ isZero
    have zero : y = 0 := same_number_iff.mp isZero
    change ¬(operateFinite .div x negative y negative').isFinite = true
    rw [operateFinite, exact, if_pos zero]
    dsimp only
    split <;> exact Bool.false_ne_true
  mul_one := by
    rintro (⟨x, negative⟩ | _ | _) ⟨⟩
    exact same_number_iff.mpr (Rat.mul_one x)
  one_mul := by
    rintro (⟨x, negative⟩ | _ | _) ⟨⟩
    exact same_number_iff.mpr (Rat.one_mul x)
  add_zero := by
    rintro (⟨x, negative⟩ | _ | _) ⟨⟩
    exact same_number_iff.mpr (Rat.add_zero x)
  zero_add := by
    rintro (⟨x, negative⟩ | _ | _) ⟨⟩
    exact same_number_iff.mpr (Rat.zero_add x)
  sub_zero := by
    rintro (⟨x, negative⟩ | _ | _) ⟨⟩
    refine same_number_iff.mpr ?_
    rw [Rat.intCast_zero, Rat.sub_eq_add_neg, Rat.neg_zero, Rat.add_zero]
  div_one := by
    rintro (⟨x, negative⟩ | _ | _) ⟨⟩
    have quotient : exact .div x 1 = some x := by
      rw [exact, if_neg (by decide), Rat.div_def, Rat.inv_eq_of_mul_eq_one (Rat.mul_one 1),
        Rat.mul_one]
    change same (operateFinite .div x negative 1 false) (number x negative) = true
    rw [operateFinite, quotient]
    exact same_number_iff.mpr rfl
  pow_one := by
    rintro (⟨x, negative⟩ | _ | _) ⟨⟩
    exact same_number_iff.mpr (Rat.pow_one x)
  pow_zero := by
    rintro (⟨x, negative⟩ | _ | _) ⟨⟩
    exact same_number_iff.mpr (Rat.pow_zero x)

/-- The quotient `x*0 / (y*cos(x*0))^1`, its nodes numbered. -/
def quotient : Dag Extended × Nat :=
  let product : Expr Extended Unit := .binary () .mul (.var () "x") (.num () (number 0 false))
  Dag.fresh (fun _ => none) 0
    (.binary () .div product
      (.binary () .pow (.binary () .mul (.var () "y") (.apply () .cos product))
        (.num () (number 1 false))) : Expr Extended Unit)

/-- Where `x` is -1/2 and `y` is 3. -/
def place (name : String) : Extended :=
  number (if name = "x" then -1 / 2 else 3) false

end Extended

/-- At `x = -1/2` and `y = 3` the quotient `x*0 / (y*cos(x*0))^1` is a zero with a minus sign.
Its simplification is the other zero, and that is the same number. -/
theorem Dag.evaluateUnder_simplify_quotient :
    ∃ x y, evaluateUnder Extended.place Extended.quotient.1 = .ok (.scalar x) ∧
      evaluateUnder Extended.place
        (simplify true Extended.quotient.2 Extended.quotient.1).1 = .ok (.scalar y) ∧
      y.isFinite = true ∧ Arithmetic.same y x = true ∧
      x = .number 0 true ∧ y = .number 0 false := by
  have numbered := coherent_below_fresh (ν := Extended) (α := Unit) (fun _ => none) 0
  have isCoherent : Coherent Extended.quotient.1 := (numbered _).1
  have below : Below Extended.quotient.2 Extended.quotient.1 := (numbered _).2
  have allFinite : Extended.quotient.1.FiniteUnder (fun x : Extended => x.isFinite = true)
      Extended.place :=
    ⟨⟨rfl, rfl, rfl⟩, ⟨⟨rfl, ⟨⟨rfl, rfl, rfl⟩, by decide +kernel⟩, by decide +kernel⟩, rfl,
      by decide +kernel⟩, by decide +kernel⟩
  have all : ∀ node, Reaches Extended.quotient.1 node →
      ∃ x : Extended, evaluateUnder Extended.place node = .ok (.scalar x) ∧ x.isFinite = true := by
    intro node reached
    have nodeCoherent : Coherent node := (Heap.ofCoherent isCoherent).coherent reached
    exact ⟨_, evaluateUnder_eq nodeCoherent _, (reached.finiteUnder allFinite).root⟩
  obtain ⟨x, y, before, after, isFinite, isSame⟩ :=
    evaluateUnder_simplify Extended.finiteLaws true isCoherent below all
  refine ⟨x, y, before, after, isFinite, isSame, ?_, ?_⟩
  · rw [evaluateUnder_eq isCoherent, Except.ok.injEq, Value.scalar.injEq] at before
    rw [← before]
    decide +kernel
  · obtain ⟨resultCoherent, _, unfolds⟩ := simplify_spec true isCoherent below
    rw [evaluateUnder_eq resultCoherent, Except.ok.injEq, Value.scalar.injEq,
      ← Expr.valueUnder_map Tag.source, ← unfold, unfolds] at after
    rw [← after]
    decide +kernel

end Fluxion
