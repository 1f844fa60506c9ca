import Fluxion.Proofs.Decimal.ReadingBack
import Fluxion.Proofs.Expr.Spelling
import Fluxion.Proofs.Parsing.Completeness

/-!
# Printed expressions read back

The tokens of a printed expression are those of a layered phrase: the printer
puts an operand in parentheses exactly where the grammar would take it apart
otherwise. So the parser gives the expression back, up to its numbers, which
come back as they are read from their texts.
-/

namespace Fluxion

/-! ## Agreement -/

/-- Two expressions of the same shape, with the same operators, functions and
names, and with related numbers. -/
inductive Expr.Agrees {ν α β : Type} (related : ν → ν → Prop) : Expr ν α → Expr ν β → Prop
  | num {m : α} {n : β} {x y : ν} : related x y → Agrees related (.num m x) (.num n y)
  | var {m : α} {n : β} {name : String} : Agrees related (.var m name) (.var n name)
  | binary {m : α} {n : β} {operator : Operator} {left right : Expr ν α}
      {left' right' : Expr ν β} :
      Agrees related left left' → Agrees related right right' →
      Agrees related (.binary m operator left right) (.binary n operator left' right')
  | apply {m : α} {n : β} {function : Elementary} {argument : Expr ν α} {argument' : Expr ν β} :
      Agrees related argument argument' →
      Agrees related (.apply m function argument) (.apply n function argument')

namespace Expr

variable {ν α β : Type} {related : ν → ν → Prop}

theorem Agrees.withMark {expr : Expr ν α} {expr' : Expr ν β} (agrees : Agrees related expr expr')
    (m : α) : Agrees related (expr.withMark m) expr' := by
  cases agrees with
  | num same => exact .num same
  | var => exact .var
  | binary left right => exact .binary left right
  | apply argument => exact .apply argument

/-- Where the numbers are the same, expressions that agree are alike. -/
theorem Agrees.alike [Arithmetic ν] {expr : Expr ν α} {expr' : Expr ν β}
    (agrees : Agrees related expr expr')
    (same : ∀ y ∈ expr'.numbers, ∀ x, related x y → Arithmetic.same x y = true) :
    expr.alike (fun _ _ => false) expr' = true := by
  induction agrees with
  | num numbers => simpa [Expr.alike] using same _ (by simp [Expr.numbers]) _ numbers
  | var => simp [Expr.alike]
  | binary _ _ left_ih right_ih =>
      have left := left_ih fun y member => same y (by simp [numbers, member])
      have right := right_ih fun y member => same y (by simp [numbers, member])
      simp [Expr.alike, left, right]
  | apply _ ih =>
      have argument := ih same
      simp [Expr.alike, argument]

/-! ## The phrase of a printed expression -/

/-- How strongly the root of an expression holds together in its text. -/
def strength : Expr ν α → Int
  | binary _ operator _ _ => operator.precedence
  | _ => 4

variable [Numeral ν]

/-- Some tokens are those of a layered phrase that says an expression which
agrees with a given one. -/
def SaidBy (related : ν → ν → Prop) (expr : Expr ν β) (tokens : List Token) (strength : Int) :
    Prop :=
  ∃ phrase : Phrase, phrase.Layered ∧ phrase.tokens = tokens ∧ phrase.strength = strength ∧
    ∃ tree : Expr ν Token, phrase.expr? = some tree ∧ Agrees related tree expr

theorem SaidBy.group {expr : Expr ν β} {tokens : List Token} {strength : Int}
    (said : SaidBy related expr tokens strength) {opening closing : Token}
    (opens : opening.kind = .openParen) (closes : closing.kind = .closeParen) :
    SaidBy related expr (opening :: (tokens ++ [closing])) 5 := by
  rcases said with ⟨phrase, layered, rfl, _, tree, meaning, agrees⟩
  refine ⟨.group opening phrase closing, .group opens layered closes, rfl,
    Phrase.strength_group opens, tree.withMark opening, ?_, agrees.withMark opening⟩
  exact Phrase.expr?_group_eq_some_iff.mpr ⟨tree, meaning, rfl⟩

theorem SaidBy.binary {left right : Expr ν β} {leftTokens rightTokens : List Token}
    {leftStrength rightStrength : Int} (saidLeft : SaidBy related left leftTokens leftStrength)
    (saidRight : SaidBy related right rightTokens rightStrength) {token : Token}
    {operator : Operator} (kind : token.kind = .operator) (text : token.text = operator.text)
    (leftStrong : (operator.precedence : Int) ≤ leftStrength)
    (rightStrong : (operator.precedence : Int) < rightStrength) (n : β) :
    SaidBy related (.binary n operator left right) (leftTokens ++ token :: rightTokens)
      operator.precedence := by
  rcases saidLeft with ⟨leftPhrase, leftLayered, rfl, rfl, leftTree, leftMeaning, leftAgrees⟩
  rcases saidRight with
    ⟨rightPhrase, rightLayered, rfl, rfl, rightTree, rightMeaning, rightAgrees⟩
  have found := Operator.ofText?_eq_some_iff.mpr text
  refine ⟨.binary leftPhrase token rightPhrase,
    .binary kind found leftLayered leftStrong rightLayered rightStrong, rfl,
    Phrase.strength_binary kind found, .binary token operator leftTree rightTree, ?_,
    .binary leftAgrees rightAgrees⟩
  exact Phrase.expr?_binary_eq_some_iff.mpr
    ⟨operator, leftTree, rightTree, found, leftMeaning, rightMeaning, rfl⟩

theorem SaidBy.apply {argument : Expr ν β} {tokens : List Token} {strength : Int}
    (said : SaidBy related argument tokens strength) {token : Token} {function : Elementary}
    (kind : token.kind = .function) (text : token.text = function.name)
    (strong : 4 < strength) (n : β) :
    SaidBy related (.apply n function argument) (token :: tokens) 4 := by
  rcases said with ⟨phrase, layered, rfl, rfl, tree, meaning, agrees⟩
  have found : Elementary.ofName? token.text = some function := by
    rw [text, Elementary.ofName?_name]
  refine ⟨.apply token phrase, .apply kind layered strong, rfl, Phrase.strength_apply kind,
    .apply token function tree, ?_, .apply agrees⟩
  exact Phrase.expr?_apply_eq_some_iff.mpr ⟨function, tree, found, meaning, rfl⟩

/-- Every spelling of an expression says it. -/
def Spoken (related : ν → ν → Prop) (expr : Expr ν β) (spelled : List (Token.Kind × String))
    (strength : Int) : Prop :=
  ∀ tokens : List Token, tokens.map Token.spelled = spelled →
    SaidBy related expr tokens strength

theorem Spoken.enclosed {expr : Expr ν β} {spelled : List (Token.Kind × String)} {strength : Int}
    (spoken : Spoken related expr spelled strength) (closed : Bool) :
    Spoken related expr (enclosed closed spelled) (if closed then 5 else strength) := by
  cases closed with
  | false => exact spoken
  | true =>
      intro tokens same
      rcases List.map_eq_cons_iff.mp same with ⟨opening, others, rfl, opens, rest⟩
      rcases List.map_eq_append_iff.mp rest with ⟨inside, last, rfl, inner, ending⟩
      rcases List.map_eq_singleton_iff.mp ending with ⟨closing, rfl, closes⟩
      exact (spoken inside inner).group (congrArg Prod.fst opens) (congrArg Prod.fst closes)

omit [Numeral ν] in
/-- A left operand is put in parentheses if it is weaker than the operator behind it. -/
theorem closedOnLeft_iff {operator : Operator} {left : Expr ν β} :
    left.closedOnLeft operator = true ↔ left.strength < operator.precedence := by
  have small : ¬(4 : Int) < operator.precedence := by
    cases operator <;> decide
  cases left with
  | binary _ inner _ _ =>
      rw [closedOnLeft, Bool.not_eq_true', ← Bool.not_eq_true, Operator.groupsBefore_eq_true_iff,
        Nat.not_le, strength, Int.ofNat_lt]
  | _ => exact iff_of_false Bool.false_ne_true small

omit [Numeral ν] in
/-- A right operand is put in parentheses unless it is stronger than the operator before it. -/
theorem closedOnRight_iff {operator : Operator} {right : Expr ν β} :
    right.closedOnRight operator = true ↔ right.strength ≤ operator.precedence := by
  have small : ¬(4 : Int) ≤ operator.precedence := by
    cases operator <;> decide
  cases right with
  | binary _ inner _ _ =>
      rw [closedOnRight, Operator.groupsBefore_eq_true_iff, strength, Int.ofNat_le]
  | _ => exact iff_of_false Bool.false_ne_true small

omit [Numeral ν] in
/-- With parentheses where they are put, a left operand is strong enough. -/
theorem le_strength_left (operator : Operator) (left : Expr ν β) :
    (operator.precedence : Int) ≤ if left.closedOnLeft operator then 5 else left.strength := by
  by_cases closed : left.closedOnLeft operator = true
  · rw [if_pos closed]
    cases operator <;> decide
  · rw [if_neg closed]
    exact Int.not_lt.mp (mt closedOnLeft_iff.mpr closed)

omit [Numeral ν] in
/-- With parentheses where they are put, a right operand is stronger than its operator. -/
theorem lt_strength_right (operator : Operator) (right : Expr ν β) :
    (operator.precedence : Int) < if right.closedOnRight operator then 5 else right.strength := by
  by_cases closed : right.closedOnRight operator = true
  · rw [if_pos closed]
    cases operator <;> decide
  · rw [if_neg closed]
    exact Int.not_le.mp (mt closedOnRight_iff.mpr closed)

/-- Where its numbers can be read, an expression is said by its spelling. -/
theorem spoken_spelling {expr : Expr ν β}
    (readable : ∀ x ∈ expr.numbers,
      ∃ y, Numeral.read? (Numeral.canonical x) = some y ∧ related y x) :
    Spoken related expr expr.spelling expr.strength := by
  induction expr with
  | num n x =>
      intro tokens same
      rcases List.map_eq_singleton_iff.mp same with ⟨token, rfl, spelled⟩
      obtain ⟨kind, text⟩ := Prod.mk.inj spelled
      obtain ⟨y, found, isRelated⟩ := readable x (by simp [numbers])
      rw [← text] at found
      refine ⟨.atom token, .atom (Or.inl kind), rfl, Phrase.strength_atom (Or.inl kind),
        .num token y, ?_, .num isRelated⟩
      simp [Phrase.expr?, Phrase.exprWithin, kind, found]
  | var n name =>
      intro tokens same
      rcases List.map_eq_singleton_iff.mp same with ⟨token, rfl, spelled⟩
      rcases Prod.mk.inj spelled with ⟨kind, rfl⟩
      refine ⟨.atom token, .atom (Or.inr kind), rfl, Phrase.strength_atom (Or.inr kind),
        .var token token.text, ?_, .var⟩
      simp [Phrase.expr?, Phrase.exprWithin, kind]
  | binary n operator left right left_ih right_ih =>
      have leftSpoken := left_ih fun x member => readable x (by simp [numbers, member])
      have rightSpoken := right_ih fun x member => readable x (by simp [numbers, member])
      intro tokens same
      rcases List.map_eq_append_iff.mp same with ⟨leftTokens, others, rfl, leftSame, rest⟩
      rcases List.map_eq_cons_iff.mp rest with ⟨token, rightTokens, rfl, spelled, rightSame⟩
      obtain ⟨kind, text⟩ := Prod.mk.inj spelled
      exact (leftSpoken.enclosed _ leftTokens leftSame).binary
        (rightSpoken.enclosed _ rightTokens rightSame) kind text (le_strength_left operator left)
        (lt_strength_right operator right) n
  | apply n function argument ih =>
      intro tokens same
      rcases List.map_eq_cons_iff.mp same with ⟨token, rest, rfl, spelled, inside⟩
      obtain ⟨kind, text⟩ := Prod.mk.inj spelled
      exact ((ih readable).enclosed true rest inside).apply kind text (by simp) n

/-! ## Reading back -/

/-- A printed expression reads back as one that agrees with it, if its numbers are
written as numbers and read back as related ones. -/
theorem exists_read_render {expr : Expr ν β}
    (named : ∀ name ∈ expr.names, Token.isVariable name = true)
    (fits : ∀ x ∈ expr.numbers, Token.Kind.number.Fits (Numeral.canonical x).toList)
    (readable : ∀ x ∈ expr.numbers,
      ∃ y, Numeral.read? (Numeral.canonical x) = some y ∧ related y x) :
    ∃ tree : Expr ν Token, read expr.render = .ok tree ∧ Agrees related tree expr := by
  obtain ⟨tokens, lexed, spelled⟩ := exists_ofSource_render named fits
  have lexes : (Lexed.ofSource expr.render).prioritized = .ok (Lexed.raised 0 tokens) := by
    rw [lexed]
    rfl
  obtain ⟨final, ranked⟩ := Lexed.ranked_of_prioritized lexes
  have raisedSpelled : (Lexed.raised 0 tokens).map Token.spelled = expr.spelling := by
    rw [Lexed.map_spelled_raised, spelled]
  rcases spoken_spelling readable _ raisedSpelled with
    ⟨phrase, layered, covers, _, tree, meaning, agrees⟩
  rw [← covers] at ranked lexes
  have parsed := Parsing.outcome_of_layered layered ranked meaning
  exact ⟨tree, read_eq_ok_iff.mpr ⟨_, lexes, parsed⟩, agrees⟩

end Expr

/-! ## Floats -/

namespace Decimal

/-- Equal numbers, or both not a number. -/
def SameNumber (y x : Float) : Prop :=
  (y == x) = true ∨ y.isNaN = true ∧ x.isNaN = true

/-- A float is the same number without the sign of a zero. -/
theorem sameNumber_unsignedZero (x : Float) : SameNumber (unsignedZero x) x := by
  by_cases negative : x = -0.0
  · rw [negative, SameNumber]
    decide +kernel
  · rw [unsignedZero_eq_self negative]
    cases isNaN : x.isNaN with
    | true => exact Or.inr ⟨isNaN, isNaN⟩
    | false => exact Or.inl (Binary64.beq_self_of_isNaN isNaN)

end Decimal

/-- A printed expression reads back with the same shape, operators, functions and
names, and with the same numbers; without a NaN it is equal to what was printed. -/
theorem Expr.exists_agrees_read_render {α : Type} {expr : Expr Float α}
    (named : ∀ name ∈ expr.names, Token.isVariable name = true) :
    ∃ tree : Expr Float Token, Expr.read expr.render = .ok tree ∧
      tree.Agrees Decimal.SameNumber expr ∧
      ((∀ x ∈ expr.numbers, x.isNaN = false) → tree.alike (fun _ _ => false) expr = true) := by
  have readable : ∀ x ∈ expr.numbers, ∃ y,
      Numeral.read? (Numeral.canonical x) = some y ∧ Decimal.SameNumber y x :=
    fun x _ => ⟨_, Decimal.read?_canonical x, Decimal.sameNumber_unsignedZero x⟩
  rcases exists_read_render named (fun x _ => Decimal.fits_canonical x) readable with
    ⟨tree, reads, agrees⟩
  refine ⟨tree, reads, agrees, ?_⟩
  intro noNaN
  refine agrees.alike ?_
  rintro x member y (same | ⟨_, isNaN⟩)
  · exact same
  · rw [noNaN x member] at isNaN
    cases isNaN

/-- The base of `-2.5^(x - inf)` keeps its sign. -/
theorem Expr.exists_agrees_read_render_power :
    let power : Expr Float Unit :=
      .binary () .pow (.num () (-2.5)) (.binary () .sub (.var () "x") (.num () (1.0 / 0.0)))
    ∃ tree : Expr Float Token, Expr.read power.render = .ok tree ∧
      tree.Agrees Decimal.SameNumber power ∧ tree.alike (fun _ _ => false) power = true := by
  intro power
  have named : ∀ name ∈ power.names, Token.isVariable name = true := by
    decide
  have noNaN : ∀ x ∈ power.numbers, x.isNaN = false := by
    decide +kernel
  obtain ⟨tree, reads, agrees, alike⟩ := Expr.exists_agrees_read_render named
  exact ⟨tree, reads, agrees, alike noNaN⟩

end Fluxion
