import Fluxion.Proofs.Expr.Subterms
import Fluxion.Proofs.Parsing.Loop
import Fluxion.Proofs.Parsing.Moved
import Fluxion.Proofs.Parsing.Soundness

/-!
# What is parsed reads like its tokens

Nothing is known here of the priorities of the tokens, so they are reduced in any
order and an expression need not be grouped as the grammar has it. It is still
made of the tokens in the order in which they stand: whenever an expression is
built, it stands for a phrase over a block of the tokens, and every token is in
one block only. Read from left to right, the expression gives the tokens back, up
to the parentheses, and these are nested.

Every reduction makes one node. If this node is given the place of the reduced token
for its identity, no two places in the expression have one identity.
-/

namespace Fluxion

variable {ν α : Type}

/-! ## Reading from left to right -/

/-- What a node is, apart from its operands. -/
inductive Label (ν : Type) where
  | number (value : ν)
  | variable (name : String)
  | operator (operator : Operator)
  | function (function : Elementary)

/-- The nodes of an expression from left to right: an operator stands between its operands
and a function before its argument. -/
def Expr.reading : Expr ν α → List (Label ν)
  | .num _ value => [.number value]
  | .var _ name => [.variable name]
  | .binary _ operator left right => left.reading ++ .operator operator :: right.reading
  | .apply _ function argument => .function function :: argument.reading

theorem Expr.reading_withMark (m : α) (expr : Expr ν α) :
    (expr.withMark m).reading = expr.reading := by
  cases expr <;> rfl

theorem Expr.length_reading (expr : Expr ν α) : expr.reading.length = expr.size := by
  induction expr with
  | num m value => rfl
  | var m name => rfl
  | binary m operator left right left_ih right_ih =>
      simp only [reading, size, List.length_append, List.length_cons, left_ih, right_ih]
      omega
  | apply m function argument ih => simp [reading, size, ih]

namespace Token

/-- The node that a token stands for, if it stands for one and can be read. -/
def label? [Numeral ν] (token : Token) : Option (Label ν) :=
  match token.kind with
  | .number => (Numeral.read? token.text).map .number
  | .identifier => some (.variable token.text)
  | .operator => (Operator.ofText? token.text).map .operator
  | .function => (Elementary.ofName? token.text).map .function
  | .openParen | .closeParen | .stray => none

/-- Whether a token is a parenthesis. -/
def isParen (token : Token) : Bool :=
  token.kind == .openParen || token.kind == .closeParen

end Token

/-- The tokens without the parentheses. -/
def solidTokens (tokens : List Token) : List Token :=
  tokens.filter fun token => !token.isParen

/-- Every parenthesis has its partner, and pairs do not overlap. -/
inductive Nested : List Token → Prop
  | nil : Nested []
  | solid {token : Token} {rest : List Token} : token.isParen = false → Nested rest →
      Nested (token :: rest)
  | pair {opening closing : Token} {content rest : List Token} :
      opening.kind = .openParen → Nested content → closing.kind = .closeParen → Nested rest →
      Nested (opening :: (content ++ closing :: rest))

theorem Nested.append {first second : List Token} (nested : Nested first)
    (nested' : Nested second) : Nested (first ++ second) := by
  induction nested with
  | nil => exact nested'
  | solid noParen _ ih => exact .solid noParen ih
  | pair opens content closes _ _ ih =>
      rw [List.cons_append, List.append_assoc, List.cons_append]
      exact .pair opens content closes ih

/-! ## Phrases of any grouping -/

namespace Phrase

/-- Every token of a phrase is of the kind that its place is for. How the operators of the
phrase are grouped is left open. -/
inductive WellKinded : Phrase → Prop
  | atom {token : Token} : token.kind = .number ∨ token.kind = .identifier →
      WellKinded (.atom token)
  | binary {left right : Phrase} {operator : Token} : operator.kind = .operator →
      WellKinded left → WellKinded right → WellKinded (.binary left operator right)
  | apply {function : Token} {argument : Phrase} : function.kind = .function →
      WellKinded argument → WellKinded (.apply function argument)
  | group {opening closing : Token} {content : Phrase} : opening.kind = .openParen →
      WellKinded content → closing.kind = .closeParen →
      WellKinded (.group opening content closing)

namespace WellKinded

variable {phrase : Phrase}

theorem nested (wellKinded : phrase.WellKinded) : Nested phrase.tokens := by
  induction wellKinded with
  | atom kind =>
      refine .solid ?_ .nil
      rcases kind with kind | kind <;> simp [Token.isParen, kind]
  | binary kind _ _ left_ih right_ih =>
      exact left_ih.append (.solid (by simp [Token.isParen, kind]) right_ih)
  | apply kind _ ih => exact .solid (by simp [Token.isParen, kind]) ih
  | group opens _ closes ih => exact .pair opens ih closes .nil

variable [Numeral ν]

/-- What a phrase says reads like its tokens. -/
theorem reading_eq (wellKinded : phrase.WellKinded) {expr : Expr ν Token}
    (meaning : phrase.expr? = some expr) :
    expr.reading.map some = (solidTokens phrase.tokens).map Token.label? := by
  induction wellKinded generalizing expr with
  | @atom token kind =>
      rcases kind with kind | kind
      · simp only [expr?, exprWithin, kind, Option.map_eq_some_iff] at meaning
        rcases meaning with ⟨value, found, rfl⟩
        simp [Expr.reading, solidTokens, tokens, Token.isParen, Token.label?, kind, found]
      · simp only [expr?, exprWithin, kind, Option.some.injEq] at meaning
        subst meaning
        simp [Expr.reading, solidTokens, tokens, Token.isParen, Token.label?, kind]
  | @binary left right operator kind _ _ left_ih right_ih =>
      rcases expr?_binary_eq_some_iff.mp meaning with
        ⟨symbol, leftExpr, rightExpr, found, leftMeaning, rightMeaning, rfl⟩
      have leftReads := left_ih leftMeaning
      have rightReads := right_ih rightMeaning
      simp_all [Expr.reading, solidTokens, tokens, Token.isParen, Token.label?]
  | @apply function argument kind _ ih =>
      rcases expr?_apply_eq_some_iff.mp meaning with
        ⟨elementary, argumentExpr, found, argumentMeaning, rfl⟩
      have argumentReads := ih argumentMeaning
      simp_all [Expr.reading, solidTokens, tokens, Token.isParen, Token.label?]
  | @group opening closing content opens _ closes ih =>
      rcases expr?_group_eq_some_iff.mp meaning with ⟨contentExpr, contentMeaning, rfl⟩
      have contentReads := ih contentMeaning
      rw [Expr.reading_withMark]
      simp_all [solidTokens, tokens, Token.isParen]

/-- The nodes of what a phrase says come from tokens of the phrase, each node from a token
of its own. -/
theorem marks_subperm (wellKinded : phrase.WellKinded) {expr : Expr ν Token}
    (meaning : phrase.expr? = some expr) : expr.marks.Subperm phrase.tokens := by
  induction wellKinded generalizing expr with
  | @atom token kind =>
      rcases kind with kind | kind
      · simp only [expr?, exprWithin, kind, Option.map_eq_some_iff] at meaning
        rcases meaning with ⟨value, found, rfl⟩
        exact .refl _
      · simp only [expr?, exprWithin, kind, Option.some.injEq] at meaning
        subst meaning
        exact .refl _
  | @binary left right operator kind _ _ left_ih right_ih =>
      rcases expr?_binary_eq_some_iff.mp meaning with
        ⟨symbol, leftExpr, rightExpr, found, leftMeaning, rightMeaning, rfl⟩
      have below := (left_ih leftMeaning).append (right_ih rightMeaning)
      rw [Expr.marks_eq_cons, tokens]
      simp only [Expr.operands, List.flatMap_cons, List.flatMap_nil, List.append_nil, Expr.mark]
      exact ((List.subperm_cons operator).mpr below).trans List.perm_middle.symm.subperm
  | @apply function argument kind _ ih =>
      rcases expr?_apply_eq_some_iff.mp meaning with
        ⟨elementary, argumentExpr, found, argumentMeaning, rfl⟩
      rw [Expr.marks_eq_cons, tokens]
      simp only [Expr.operands, List.flatMap_cons, List.flatMap_nil, List.append_nil, Expr.mark]
      exact (List.subperm_cons function).mpr (ih argumentMeaning)
  | @group opening closing content opens _ closes ih =>
      rcases expr?_group_eq_some_iff.mp meaning with ⟨contentExpr, contentMeaning, rfl⟩
      have fewer : contentExpr.marks.tail.Subperm (content.tokens ++ [closing]) :=
        (List.tail_sublist _).subperm.trans
          ((ih contentMeaning).trans (List.sublist_append_left _ _).subperm)
      rw [Expr.marks_withMark, tokens]
      exact (List.subperm_cons opening).mpr fewer

end WellKinded

end Phrase

/-! ## What is built along the run -/

namespace Parsing

/-- Blocks that cover the tokens, each token in one block, with phrases of any grouping. -/
structure Covers (tokens : List Token) (blocks : List Block) : Prop where
  covers : blocks.flatMap Block.tokens = tokens
  wellKinded : ∀ phrase, Block.phrase phrase ∈ blocks → phrase.WellKinded

theorem Covers.ofTokens (tokens : List Token) : Covers tokens (tokens.map .token) where
  covers := (Partition.ofTokens tokens).covers
  wellKinded := by simp

/-- A phrase that is joined from blocks takes their place. -/
theorem Covers.join {tokens : List Token} {before after earlier later : List Block} {token : Token}
    {phrase : Phrase} (blocks : Covers tokens (before ++ .token token :: after))
    (joins : Joins before token after phrase earlier later) :
    Covers tokens (earlier ++ .phrase phrase :: later) := by
  obtain ⟨_, joined, split, covers⟩ := joins.exists_joined
  have kinds : phrase.WellKinded ∧ earlier ⊆ before ∧ later ⊆ after := by
    cases joins with
    | binary kind _ =>
        exact ⟨.binary kind (blocks.wellKinded _ (by simp)) (blocks.wellKinded _ (by simp)),
          by simp, by simp⟩
    | group opens closes =>
        exact ⟨.group opens (blocks.wellKinded _ (by simp)) closes, by simp,
          fun _ member => by simp [member]⟩
    | apply kind _ =>
        exact ⟨.apply kind (blocks.wellKinded _ (by simp)), by simp, by simp⟩
    | atom kind => exact ⟨.atom kind, by simp, by simp⟩
  constructor
  · rw [← blocks.covers, split]
    simp [covers, Block.tokens]
  · intro other member
    rcases List.mem_append.mp member with member | member
    · exact blocks.wellKinded other (List.mem_append_left _ (kinds.2.1 member))
    · rcases List.mem_cons.mp member with same | member
      · cases same
        exact kinds.1
      · exact blocks.wellKinded other
          (List.mem_append_right _ (List.mem_cons_of_mem _ (kinds.2.2 member)))

variable [Numeral ν]

/-- A sole expression that is left stands for a phrase over all tokens. -/
theorem Covers.finish {tokens : List Token} {blocks : List Block} {entries : List (Entry ν)}
    (covers : Covers tokens blocks) (shown : ShowAll blocks entries) {expr : Expr ν Token}
    (answered : verdict entries = .ok expr) :
    ∃ phrase : Phrase, phrase.WellKinded ∧ phrase.tokens = tokens ∧ phrase.expr? = some expr := by
  obtain ⟨phrase, rfl, meaning⟩ := shown.sole answered
  refine ⟨phrase, covers.wellKinded phrase (by simp), ?_, meaning⟩
  simpa [Block.tokens] using covers.covers

/-- What tokens are parsed to is said by a phrase over these tokens. -/
theorem exists_wellKinded_of_outcome {tokens : List Token} {expr : Expr ν Token}
    (parsed : (ofTokens tokens).outcome = .ok expr) :
    ∃ phrase : Phrase, phrase.WellKinded ∧ phrase.tokens = tokens ∧ phrase.expr? = some expr := by
  have step : ∀ {before after restBefore restAfter : List (Entry ν)} {token : Token}
      {expr : Expr ν Token},
      (∃ blocks, Covers tokens blocks ∧ ShowAll blocks (before ++ .token token :: after)) →
      Leads before token after →
      Reduces before.reverse token after expr restBefore restAfter →
      ∃ blocks, Covers tokens blocks ∧
        ShowAll blocks (restBefore.reverse ++ .expr expr :: restAfter) := by
    rintro before after restBefore restAfter token expr ⟨blocks, covers, shown⟩ _ reduces
    rcases shown.split with ⟨beforeBlocks, others, rfl, shownBefore, shownOthers⟩
    rcases shownOthers.cons_token with ⟨afterBlocks, rfl, shownAfter⟩
    obtain ⟨phrase, earlier, later, joins, meaning, shownEarlier, shownLater⟩ :=
      reduces.joins shownBefore shownAfter
    exact ⟨_, covers.join joins,
      List.rel_append shownEarlier (.cons ⟨expr, meaning, rfl⟩ shownLater)⟩
  obtain ⟨last, ⟨blocks, covers, shown⟩, ends⟩ := (settles_ofTokens tokens).exists_ends
    (fun entries => ∃ blocks, Covers tokens blocks ∧ ShowAll blocks entries) step
    ⟨_, .ofTokens tokens, .ofTokens tokens⟩
  rw [parsed] at ends
  cases ends with
  | verdict _ answered => exact covers.finish shown answered

/-- What tokens are parsed to, with identities. A reduction marks the node that it makes with its
token, so the run on the numbered tokens gives the node the place of that token. -/
def identified (tokens : List Token) : Except Fault (Dag ν) :=
  (ofTokens (numbered tokens)).outcome.map
    (Expr.map fun token => ⟨token.column.toNat, some (token.moved (columnAt tokens))⟩)

/-- With these identities no node is shared. -/
theorem exists_identified {tokens : List Token} {tree : Expr ν Token}
    (parsed : (ofTokens tokens).outcome = .ok tree) :
    ∃ dag : Dag ν, identified tokens = .ok dag ∧ Dag.unfold dag = tree.map some ∧
      (dag.subterms.map Expr.id).Nodup := by
  obtain ⟨told, parsedNumbered, moved⟩ := exists_outcome_numbered parsed
  obtain ⟨phrase, wellKinded, covers, meaning⟩ := exists_wellKinded_of_outcome parsedNumbered
  rcases wellKinded.marks_subperm meaning with ⟨marks, same, among⟩
  rw [covers] at among
  refine ⟨_, by rw [identified, parsedNumbered]; rfl, ?_, ?_⟩
  · rw [Dag.unfold, Expr.map_map, ← moved, Expr.map_map]
    rfl
  · have places : (marks.map fun token => token.column.toNat).Nodup := by
      refine (among.map _).nodup ?_
      rw [places_numbered]
      exact List.nodup_range
    rw [Expr.subterms_map, List.map_map]
    have ids : ((Expr.id ∘ Expr.map fun token : Token =>
        (⟨token.column.toNat, some (token.moved (columnAt tokens))⟩ : Tag)) :
          Expr ν Token → Nat) = (fun token => token.column.toNat) ∘ Expr.mark := by
      funext node
      exact congrArg Tag.id (Expr.mark_map _ node)
    rw [ids, ← List.map_map]
    exact (same.map _).nodup_iff.mp places

/-- Whatever the tokens and their priorities, the loop ends after at most one iteration for each
token, having extracted from live slots only, and in one way. If there is an answer, it reads
from left to right like the tokens without their parentheses, its nodes come from tokens of
their own and are as many as these, and the parentheses are nested. With the identities that the
reductions give to the nodes, no two places in it are one node, and its nodes are as many. -/
theorem ofTokens_in_order (tokens : List Token) :
    (∃ n ≤ tokens.length, ∀ m (parsing : Parsing ν),
        Runs (Pending.ofList (tokens.map Entry.token)) m parsing ↔
          m = n ∧ parsing = ofTokens tokens) ∧
      ∀ tree : Expr ν Token, (ofTokens tokens).outcome = .ok tree →
        tree.reading.map some = (solidTokens tokens).map Token.label? ∧
          tree.marks.Subperm tokens ∧
          (∀ next, (Dag.fresh some next tree).1.count = (solidTokens tokens).length) ∧
          Nested tokens ∧
          (∀ reduction ∈ (ofTokens (numbered tokens) : Parsing ν).reductions,
            reduction.result.mark = reduction.token) ∧
          ∃ dag : Dag ν, identified tokens = .ok dag ∧ Dag.unfold dag = tree.map some ∧
            (dag.subterms.map Expr.id).Nodup ∧ dag.count = (solidTokens tokens).length := by
  constructor
  · obtain ⟨n, few, runs⟩ := exists_runs (ν := ν) tokens
    refine ⟨n, few, ?_⟩
    intro m parsing
    constructor
    · intro runs'
      exact runs'.unique runs
    · rintro ⟨rfl, rfl⟩
      exact runs
  · intro tree parsed
    obtain ⟨phrase, wellKinded, rfl, meaning⟩ := exists_wellKinded_of_outcome parsed
    have reads := wellKinded.reading_eq meaning
    have sameLength := congrArg List.length reads
    rw [List.length_map, List.length_map, Expr.length_reading] at sameLength
    obtain ⟨dag, given, unfolds, unshared⟩ := exists_identified parsed
    have sameSize := congrArg Expr.size unfolds
    rw [Dag.unfold, Expr.size_map, Expr.size_map] at sameSize
    refine ⟨reads, wellKinded.marks_subperm meaning, ?_, wellKinded.nested,
      (settles_ofTokens _).mark_eq, dag, given, unfolds, unshared, ?_⟩
    · intro next
      rw [Dag.count_fresh, sameLength]
    · rw [Dag.count_eq_size unshared, sameSize, sameLength]

/-- The tokens of `(x+y)`, with priorities that no source gives them. -/
def handmadeSum : List Token :=
  [⟨.openParen, "(", 1, -3⟩, ⟨.identifier, "x", 2, 7⟩, ⟨.operator, "+", 3, -2⟩,
    ⟨.identifier, "y", 4, 7⟩, ⟨.closeParen, ")", 5, -9⟩]

/-- The sum is parsed, so its parentheses are nested and it has a node for each of the other
three tokens. -/
theorem ofTokens_handmadeSum :
    (ofTokens handmadeSum).outcome =
        .ok (.binary ⟨.openParen, "(", 1, -3⟩ .add (.var ⟨.identifier, "x", 2, 7⟩ "x")
          (.var ⟨.identifier, "y", 4, 7⟩ "y") : Expr Float Token) ∧
      Nested handmadeSum ∧ (solidTokens handmadeSum).length = 3 := by
  have plus : Operator.ofText? "+" = some .add := by decide +kernel
  have parsed : (ofTokens handmadeSum).outcome =
      .ok (.binary ⟨.openParen, "(", 1, -3⟩ .add (.var ⟨.identifier, "x", 2, 7⟩ "x")
        (.var ⟨.identifier, "y", 4, 7⟩ "y") : Expr Float Token) := by
    rw [ofTokens_eq_settle]
    simp [handmadeSum, settle, select, reduceBetween, nearestOperand, nearestClosing, plus, bind,
      Except.bind, verdict, Expr.withMark]
  exact ⟨parsed, ((ofTokens_in_order handmadeSum).2 _ parsed).2.2.2.1, rfl⟩

end Parsing

end Fluxion
