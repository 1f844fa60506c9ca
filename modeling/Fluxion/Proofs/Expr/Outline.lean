import Fluxion.Proofs.Expr.RoundTrip
import Fluxion.Proofs.Expr.Subterms
import Fluxion.Proofs.Token.Stray

/-!
# What the outline shows

The outline has a line for every place in an expression, in the order of reading, and the line
is indented by twice the depth of the place. It shows no more than that and the label.

A label is a text that the reader would take for a single token, and the kind of that token
tells numbers, variables, operators and functions apart. So the first of some lines says how many
operands the lines behind it are for, and the lines can be taken apart into expressions, from
the root on. No two expressions have the same outline, but for the sign of a zero, which the
outline does not show.
-/

namespace Fluxion

variable {ν α β : Type}

/-! ## Lines -/

namespace Text

/-- The lines of a text. -/
def lines (text : String) : List String :=
  (text.split '\n').toList.map (·.copy)

theorem lines_intercalate {parts : List String} (some : parts ≠ [])
    (whole : ∀ part ∈ parts, '\n' ∉ part.toList) : lines ("\n".intercalate parts) = parts := by
  have split := String.toList_split_intercalate whole
  rw [if_neg some] at split
  exact split

end Text

namespace Expr

/-- Every place in an expression with its depth, the operands of a node behind the node. -/
def levels (depth : Nat) : Expr ν α → List (Nat × Expr ν α)
  | num m value => [(depth, num m value)]
  | var m name => [(depth, var m name)]
  | binary m operator left right =>
      (depth, binary m operator left right) ::
        (left.levels (depth + 1) ++ right.levels (depth + 1))
  | apply m function argument =>
      (depth, apply m function argument) :: argument.levels (depth + 1)

theorem map_snd_levels (depth : Nat) (expr : Expr ν α) :
    (expr.levels depth).map Prod.snd = expr.subterms := by
  induction expr generalizing depth <;> simp_all [levels, subterms]

/-! ## Labels -/

section Numeral

variable [Numeral ν]

/-- The kind of token that the label of an expression is. -/
def labelKind : Expr ν α → Token.Kind
  | num _ _ => .number
  | var _ _ => .identifier
  | binary _ _ _ _ => .operator
  | apply _ _ _ => .function

/-- What an expression is labelled with is a text of a token, if its names and its numbers
are. -/
structure Legible (expr : Expr ν α) : Prop where
  names : ∀ name ∈ expr.names, Token.isVariable name = true
  numbers : ∀ x ∈ expr.numbers, Token.Kind.number.Fits (Numeral.canonical x).toList

namespace Legible

omit [Numeral ν] in
theorem labelKind_ne_stray (expr : Expr ν α) : expr.labelKind ≠ .stray := by
  cases expr <;> simp [labelKind]

theorem left {m : α} {operator : Operator} {left right : Expr ν α}
    (legible : Legible (binary m operator left right)) : left.Legible where
  names name member := legible.names name (List.mem_append_left _ member)
  numbers x member := legible.numbers x (List.mem_append_left _ member)

theorem right {m : α} {operator : Operator} {left right : Expr ν α}
    (legible : Legible (binary m operator left right)) : right.Legible where
  names name member := legible.names name (List.mem_append_right _ member)
  numbers x member := legible.numbers x (List.mem_append_right _ member)

theorem argument {m : α} {function : Elementary} {argument : Expr ν α}
    (legible : Legible (apply m function argument)) : argument.Legible :=
  ⟨legible.names, legible.numbers⟩

theorem of_mem_subterms {expr node : Expr ν α} (legible : expr.Legible)
    (member : node ∈ expr.subterms) : node.Legible := by
  induction expr with
  | num _ _ =>
      rw [subterms, List.mem_singleton] at member
      exact member ▸ legible
  | var _ _ =>
      rw [subterms, List.mem_singleton] at member
      exact member ▸ legible
  | binary _ _ left right left_ih right_ih =>
      rw [subterms, List.mem_cons, List.mem_append] at member
      rcases member with rfl | inLeft | inRight
      · exact legible
      · exact left_ih legible.left inLeft
      · exact right_ih legible.right inRight
  | apply _ _ argument ih =>
      rw [subterms, List.mem_cons] at member
      rcases member with rfl | inArgument
      · exact legible
      · exact ih legible.argument inArgument

theorem fits_label {expr : Expr ν α} (legible : expr.Legible) :
    expr.labelKind.Fits expr.label.toList := by
  cases expr with
  | num _ x => exact legible.numbers x (List.mem_singleton_self x)
  | var _ name => exact Token.fits_variable (legible.names name (List.mem_singleton_self name))
  | binary _ operator _ _ => exact Token.fits_operator operator
  | apply _ function _ => exact Token.fits_function function

/-- No label ends its line. -/
theorem newline_not_mem_label {expr : Expr ν α} (legible : expr.Legible) :
    '\n' ∉ expr.label.toList := by
  intro member
  rcases punctuation_of_fits legible.fits_label (labelKind_ne_stray expr) '\n' member (by decide)
    with isOperator | ⟨_, opens⟩ | ⟨_, closes⟩
  · exact absurd isOperator (by decide)
  · exact absurd opens (by decide)
  · exact absurd closes (by decide)

/-- The label tells numbers, variables, operators and functions apart. -/
theorem labelKind_eq {expr : Expr ν α} {expr' : Expr ν β} (legible : expr.Legible)
    (legible' : expr'.Legible) (same : expr.label = expr'.label) :
    expr.labelKind = expr'.labelKind := by
  have fits := legible.fits_label
  rw [same] at fits
  exact Token.Kind.eq_of_fits fits (labelKind_ne_stray expr) legible'.fits_label
    (labelKind_ne_stray expr')

end Legible

/-! ## Lines and places -/

theorem outlineLines_eq_map_levels (depth : Nat) (expr : Expr ν α) :
    expr.outlineLines (2 * depth) =
      (expr.levels depth).map fun level => outlineLine (2 * level.1) level.2.label := by
  induction expr generalizing depth with
  | num _ _ => rfl
  | var _ _ => rfl
  | binary _ _ left right left_ih right_ih =>
      rw [outlineLines, levels, List.map_cons, List.map_append, ← Nat.mul_add_one, left_ih,
        right_ih]
  | apply _ _ argument ih =>
      rw [outlineLines, levels, List.map_cons, ← Nat.mul_add_one, ih]

theorem newline_not_mem_outlineLine {indent : Nat} {label : String}
    (whole : '\n' ∉ label.toList) : '\n' ∉ (outlineLine indent label).toList := by
  simp [outlineLine, whole]

/-- The outline has a line for every place, in the order of reading and indented by twice the
depth of the place. -/
theorem lines_outline {expr : Expr ν α} (legible : expr.Legible) :
    Text.lines expr.outline =
      (expr.levels 0).map fun level => outlineLine (2 * level.1) level.2.label := by
  have lines := outlineLines_eq_map_levels 0 expr
  rw [← lines, Nat.mul_zero, outline, Text.lines_intercalate]
  · cases expr <;> exact List.cons_ne_nil _ _
  · intro line member
    rw [← Nat.mul_zero 2, lines] at member
    rcases List.mem_map.mp member with ⟨level, isLevel, rfl⟩
    have below : level.2 ∈ expr.subterms := by
      rw [← map_snd_levels 0]
      exact List.mem_map_of_mem isLevel
    exact newline_not_mem_outlineLine (legible.of_mem_subterms below).newline_not_mem_label

/-! ## Decoding -/

theorem label_eq_of_outlineLine {indent : Nat} {label label' : String}
    (same : outlineLine indent label = outlineLine indent label') : label = label' := by
  simpa [outlineLine, String.append_right_inj] using same

theorem outlineLines_eq_cons (indent : Nat) (expr : Expr ν α) :
    expr.outlineLines indent =
      outlineLine indent expr.label :: expr.operands.flatMap (outlineLines (indent + 2)) := by
  cases expr <;> simp [outlineLines, operands]

/-- The first line tells the root, and the operands are told by the lines behind it. -/
theorem root_eq_of_outlineLines {expr : Expr ν α} {expr' : Expr ν β} (legible : expr.Legible)
    (legible' : expr'.Legible) {indent : Nat} {rest rest' : List String}
    (same : expr.outlineLines indent ++ rest = expr'.outlineLines indent ++ rest') :
    expr.label = expr'.label ∧ expr.labelKind = expr'.labelKind ∧
      expr.operands.flatMap (outlineLines (indent + 2)) ++ rest =
        expr'.operands.flatMap (outlineLines (indent + 2)) ++ rest' := by
  rw [outlineLines_eq_cons, outlineLines_eq_cons] at same
  obtain ⟨first, below⟩ := List.cons.inj same
  have label := label_eq_of_outlineLine first
  exact ⟨label, legible.labelKind_eq legible' label, below⟩

/-- Lines that start with those of an expression start with those of no other one. -/
theorem agrees_of_outlineLines {related : ν → ν → Prop} {expr : Expr ν α} {expr' : Expr ν β}
    (legible : expr.Legible) (legible' : expr'.Legible)
    (told : ∀ x y, Numeral.canonical x = Numeral.canonical y → related x y)
    {indent : Nat} {rest rest' : List String}
    (same : expr.outlineLines indent ++ rest = expr'.outlineLines indent ++ rest') :
    Agrees related expr expr' ∧ rest = rest' := by
  induction expr generalizing expr' indent rest rest' with
  | num m x =>
      obtain ⟨label, kind, below⟩ := root_eq_of_outlineLines legible legible' same
      cases expr' with
      | num n y => exact ⟨.num (told x y label), below⟩
      | _ => cases kind
  | var m name =>
      obtain ⟨label, kind, below⟩ := root_eq_of_outlineLines legible legible' same
      cases expr' with
      | var n name' =>
          cases label
          exact ⟨.var, below⟩
      | _ => cases kind
  | binary m operator left right left_ih right_ih =>
      obtain ⟨label, kind, below⟩ := root_eq_of_outlineLines legible legible' same
      cases expr' with
      | binary n operator' left' right' =>
          have oneOperator := Operator.text_injective label
          subst oneOperator
          simp only [operands, List.flatMap_cons, List.flatMap_nil, List.append_nil,
            List.append_assoc] at below
          obtain ⟨leftAgrees, behind⟩ := left_ih legible.left legible'.left below
          obtain ⟨rightAgrees, rests⟩ := right_ih legible.right legible'.right behind
          exact ⟨.binary leftAgrees rightAgrees, rests⟩
      | _ => cases kind
  | apply m function argument ih =>
      obtain ⟨label, kind, below⟩ := root_eq_of_outlineLines legible legible' same
      cases expr' with
      | apply n function' argument' =>
          have oneFunction := Elementary.name_injective label
          subst oneFunction
          simp only [operands, List.flatMap_cons, List.flatMap_nil, List.append_nil] at below
          obtain ⟨agrees, rests⟩ := ih legible.argument legible'.argument below
          exact ⟨.apply agrees, rests⟩
      | _ => cases kind

/-- Expressions with one outline agree. -/
theorem agrees_of_outline {related : ν → ν → Prop} {expr : Expr ν α} {expr' : Expr ν β}
    (legible : expr.Legible) (legible' : expr'.Legible)
    (told : ∀ x y, Numeral.canonical x = Numeral.canonical y → related x y)
    (same : expr.outline = expr'.outline) : Agrees related expr expr' := by
  have lines : expr.outlineLines (2 * 0) = expr'.outlineLines (2 * 0) := by
    rw [outlineLines_eq_map_levels, outlineLines_eq_map_levels, ← lines_outline legible,
      ← lines_outline legible', same]
  exact (agrees_of_outlineLines legible legible' told (congrArg (· ++ []) lines)).1

end Numeral

end Expr

/-! ## Floats -/

namespace Decimal

/-- A float has the text of another one only if they are the same number. -/
theorem sameNumber_of_canonical_eq {x y : Float} (same : canonical x = canonical y) :
    SameNumber x y := by
  have unsigned : unsignedZero x = unsignedZero y := by
    have reads := read?_canonical x
    rw [same, read?_canonical] at reads
    exact (Option.some.inj reads).symm
  have negative : unsignedZero (-0.0) = 0.0 := by decide +kernel
  by_cases negativeX : x = -0.0
  · by_cases negativeY : y = -0.0
    · rw [negativeX, negativeY, SameNumber]
      decide +kernel
    · rw [negativeX, negative, unsignedZero_eq_self negativeY] at unsigned
      rw [negativeX, ← unsigned, SameNumber]
      decide +kernel
  · by_cases negativeY : y = -0.0
    · rw [negativeY, negative, unsignedZero_eq_self negativeX] at unsigned
      rw [negativeY, unsigned, SameNumber]
      decide +kernel
    · rw [unsignedZero_eq_self negativeX, unsignedZero_eq_self negativeY] at unsigned
      rw [unsigned]
      cases isNaN : y.isNaN with
      | true => exact Or.inr ⟨isNaN, isNaN⟩
      | false => exact Or.inl (Binary64.beq_self_of_isNaN isNaN)

end Decimal

namespace Expr

theorem legible_of_named {expr : Expr Float α}
    (named : ∀ name ∈ expr.names, Token.isVariable name = true) : expr.Legible :=
  ⟨named, fun x _ => Decimal.fits_canonical x⟩

/-- The outline has exactly one line for every node of the tree, in the order of reading, which is
indented by twice the depth of the node; and two expressions with one outline have the same
shape, operators, functions and names, and the same numbers. -/
theorem outline_unambiguous {expr : Expr Float α} {expr' : Expr Float β}
    (named : ∀ name ∈ expr.names, Token.isVariable name = true)
    (named' : ∀ name ∈ expr'.names, Token.isVariable name = true) :
    (expr.outline = expr'.outline → Agrees Decimal.SameNumber expr expr') ∧
      (expr.levels 0).map Prod.snd = expr.subterms ∧
      (Text.lines expr.outline).length = expr.size ∧
      Text.lines expr.outline =
        (expr.levels 0).map fun level => outlineLine (2 * level.1) level.2.label := by
  have legible := legible_of_named named
  have lines := lines_outline legible
  refine ⟨?_, map_snd_levels 0 expr, ?_, lines⟩
  · exact agrees_of_outline legible (legible_of_named named') fun _ _ =>
      Decimal.sameNumber_of_canonical_eq
  · rw [lines, List.length_map, ← length_subterms, ← map_snd_levels 0, List.length_map]

/-- The outlines of `0 + cos(x)` and of `-0 + cos(x)` are the same four lines. -/
theorem outline_unambiguous_zeros :
    let sum : Float → Expr Float Unit := fun x =>
      .binary () .add (.num () x) (.apply () .cos (.var () "x"))
    (∀ x, ∀ name ∈ (sum x).names, Token.isVariable name = true) ∧
      (sum 0.0).outline = (sum (-0.0)).outline ∧
      Agrees Decimal.SameNumber (sum 0.0) (sum (-0.0)) ∧
      Text.lines (sum 0.0).outline = ["| +", "  | 0", "  | cos", "    | x"] := by
  intro sum
  have named : ∀ x, ∀ name ∈ (sum x).names, Token.isVariable name = true := by
    intro x name member
    rw [List.mem_singleton.mp member]
    decide
  obtain ⟨unambiguous, _, _, lines⟩ := outline_unambiguous (named 0.0) (named (-0.0))
  have same : (sum 0.0).outline = (sum (-0.0)).outline := by decide +kernel
  refine ⟨named, same, unambiguous same, ?_⟩
  rw [lines]
  decide +kernel

end Expr

end Fluxion
