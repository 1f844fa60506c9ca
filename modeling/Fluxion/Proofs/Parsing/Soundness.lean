import Mathlib.Data.List.Forall2
import Fluxion.Proofs.Grammar.Depth
import Fluxion.Proofs.Parsing.Run

/-!
# What is parsed is a phrase

Every expression that the parser has built stands for a layered phrase over a
block of the tokens, and the blocks partition the tokens. That the phrase is
layered rests on the order of the work: a token that is pending is outranked by
the root of every expression behind it, and not outranked itself where it stands
behind the expression, or it would have been reduced before.
-/

namespace Fluxion.Parsing

open Phrase

/-- A pending token, or a phrase in the place of the expression that it says. -/
inductive Block where
  | token (token : Token)
  | phrase (phrase : Phrase)

namespace Block

/-- The tokens of a block. -/
def tokens : Block → List Token
  | token pending => [pending]
  | phrase built => built.tokens

/-- What the parser has in the place of a block. -/
def Shows {ν : Type} [Numeral ν] : Block → Entry ν → Prop
  | token pending, entry => entry = .token pending
  | phrase built, entry => ∃ expr, built.expr? = some expr ∧ entry = .expr expr

/-- Of two blocks, the first being earlier, a pending token has not been passed
over for the root of a phrase. -/
def InOrder : Block → Block → Prop
  | token pending, phrase built => pending.priority < built.root.priority
  | phrase built, token pending => pending.priority ≤ built.root.priority
  | _, _ => True

end Block

/-- Blocks that partition tokens. -/
structure Partition (tokens : List Token) (blocks : List Block) : Prop where
  covers : blocks.flatMap Block.tokens = tokens
  layered : ∀ phrase, Block.phrase phrase ∈ blocks → phrase.Layered
  inOrder : blocks.Pairwise Block.InOrder

variable {ν : Type} [Numeral ν]

/-- At first every token is a block. -/
theorem Partition.ofTokens (tokens : List Token) : Partition tokens (tokens.map .token) where
  covers := by
    induction tokens with
    | nil => rfl
    | cons token tokens ih => simp_all [Block.tokens]
  layered := by simp
  inOrder := by
    rw [List.pairwise_map]
    exact List.pairwise_of_forall fun _ _ => trivial

/-- Blocks around a pending token are joined to a phrase with this token for its
root. -/
theorem Partition.join {tokens : List Token} {before joined after : List Block} {phrase : Phrase}
    (partition : Partition tokens (before ++ joined ++ after)) (layered : phrase.Layered)
    (covers : phrase.tokens = joined.flatMap Block.tokens)
    (below : ∀ other, Block.token other ∈ before → other.priority < phrase.root.priority)
    (atMost : ∀ other, Block.token other ∈ after → other.priority ≤ phrase.root.priority) :
    Partition tokens (before ++ .phrase phrase :: after) where
  covers := by
    rw [← partition.covers]
    simp [covers, Block.tokens]
  layered := by
    intro other member
    rcases List.mem_append.mp member with member | member
    · exact partition.layered other (by simp [member])
    · rcases List.mem_cons.mp member with same | member
      · cases same
        exact layered
      · exact partition.layered other (by simp [member])
  inOrder := by
    have ordered := partition.inOrder
    simp only [List.pairwise_append, List.pairwise_cons, List.mem_append, List.mem_cons]
      at ordered ⊢
    rcases ordered with ⟨⟨beforeOrdered, _, _⟩, afterOrdered, across⟩
    refine ⟨beforeOrdered, ⟨?_, afterOrdered⟩, ?_⟩
    · intro block member
      cases block with
      | token other => exact atMost other member
      | phrase other => trivial
    · intro block member block' member'
      rcases member' with rfl | member'
      · cases block with
        | token other => exact below other member
        | phrase other => trivial
      · exact across block (Or.inl member) block' member'

/-- What the parser has in the places of some blocks. -/
abbrev ShowAll (blocks : List Block) (entries : List (Entry ν)) : Prop :=
  List.Forall₂ Block.Shows blocks entries

theorem ShowAll.split {blocks : List Block} {first second : List (Entry ν)}
    (shown : ShowAll blocks (first ++ second)) :
    ∃ firstBlocks secondBlocks, blocks = firstBlocks ++ secondBlocks ∧
      ShowAll firstBlocks first ∧ ShowAll secondBlocks second :=
  ⟨_, _, (List.take_append_drop _ _).symm, List.forall₂_take_append _ _ _ shown,
    List.forall₂_drop_append _ _ _ shown⟩

theorem ShowAll.token_mem {blocks : List Block} {entries : List (Entry ν)}
    (shown : ShowAll blocks entries) {token : Token} (member : Block.token token ∈ blocks) :
    Entry.token token ∈ entries := by
  induction shown with
  | nil => cases member
  | cons head _ ih =>
      rcases List.mem_cons.mp member with rfl | member
      · rw [show _ = Entry.token token from head]
        simp
      · exact List.mem_cons_of_mem _ (ih member)

theorem ShowAll.cons_token {blocks : List Block} {token : Token} {entries : List (Entry ν)}
    (shown : ShowAll blocks (.token token :: entries)) :
    ∃ rest, blocks = .token token :: rest ∧ ShowAll rest entries := by
  cases shown with
  | @cons block _ rest _ head tail =>
      cases block with
      | token other =>
          cases head
          exact ⟨rest, rfl, tail⟩
      | phrase other =>
          rcases head with ⟨_, _, same⟩
          cases same

theorem ShowAll.cons_expr {blocks : List Block} {expr : Expr ν Token} {entries : List (Entry ν)}
    (shown : ShowAll blocks (.expr expr :: entries)) :
    ∃ phrase rest, blocks = .phrase phrase :: rest ∧ phrase.expr? = some expr ∧
      ShowAll rest entries := by
  cases shown with
  | @cons block _ rest _ head tail =>
      cases block with
      | token other => cases head
      | phrase built =>
          rcases head with ⟨_, meaning, same⟩
          cases same
          exact ⟨built, rest, rfl, meaning, tail⟩

/-- A pending token is joined with the blocks beside it to a phrase; the blocks that are left
over come last. -/
inductive Joins : List Block → Token → List Block → Phrase → List Block → List Block → Prop
  | binary {before after : List Block} {token : Token} {symbol : Operator} {left right : Phrase} :
      token.kind = .operator → Operator.ofText? token.text = some symbol →
      Joins (before ++ [.phrase left]) token (.phrase right :: after)
        (.binary left token right) before after
  | group {before after : List Block} {token closing : Token} {content : Phrase} :
      token.kind = .openParen → closing.kind = .closeParen →
      Joins before token (.phrase content :: .token closing :: after)
        (.group token content closing) before after
  | apply {before after : List Block} {token : Token} {function : Elementary} {argument : Phrase} :
      token.kind = .function → Elementary.ofName? token.text = some function →
      Joins before token (.phrase argument :: after) (.apply token argument) before after
  | atom {before after : List Block} {token : Token} :
      token.kind = .number ∨ token.kind = .identifier →
      Joins before token after (.atom token) before after

/-- What a phrase is joined from stands side by side, and its root is the token. -/
theorem Joins.exists_joined {before after restBefore restAfter : List Block} {token : Token}
    {phrase : Phrase} (joins : Joins before token after phrase restBefore restAfter) :
    phrase.root = token ∧ ∃ joined,
      before ++ .token token :: after = restBefore ++ joined ++ restAfter ∧
        phrase.tokens = joined.flatMap Block.tokens := by
  cases joins with
  | @binary _ _ _ _ left right _ _ =>
      refine ⟨rfl, [.phrase left, .token token, .phrase right], by simp, ?_⟩
      simp [Block.tokens, Phrase.tokens]
  | @group _ _ _ closing content _ _ =>
      refine ⟨rfl, [.token token, .phrase content, .token closing], by simp, ?_⟩
      simp [Block.tokens, Phrase.tokens]
  | @apply _ _ _ _ argument _ _ =>
      refine ⟨rfl, [.token token, .phrase argument], by simp, ?_⟩
      simp [Block.tokens, Phrase.tokens]
  | atom _ => exact ⟨rfl, [.token token], by simp, rfl⟩

/-- What a reduction does to the entries, joining does to the blocks in whose places they
stand. -/
theorem Reduces.joins {before after restBefore restAfter : List (Entry ν)} {token : Token}
    {expr : Expr ν Token} (reduces : Reduces before.reverse token after expr restBefore restAfter)
    {beforeBlocks afterBlocks : List Block} (shownBefore : ShowAll beforeBlocks before)
    (shownAfter : ShowAll afterBlocks after) :
    ∃ phrase earlier later, Joins beforeBlocks token afterBlocks phrase earlier later ∧
      phrase.expr? = some expr ∧ ShowAll earlier restBefore.reverse ∧ ShowAll later restAfter := by
  generalize nearest : before.reverse = nearestFirst at reduces
  have same : before = nearestFirst.reverse := by
    rw [← nearest, List.reverse_reverse]
  subst same
  cases reduces with
  | @operator _ symbol left right _ _ kind found =>
      rw [List.reverse_cons] at shownBefore
      rcases shownBefore.split with ⟨earlier, leftBlocks, rfl, shownEarlier, shownLeft⟩
      rcases shownLeft.cons_expr with ⟨leftPhrase, _, rfl, leftMeaning, shownNil⟩
      cases shownNil
      rcases shownAfter.cons_expr with ⟨rightPhrase, later, rfl, rightMeaning, shownLater⟩
      exact ⟨.binary leftPhrase token rightPhrase, earlier, later, .binary kind found,
        expr?_binary_eq_some_iff.mpr ⟨symbol, left, right, found, leftMeaning, rightMeaning, rfl⟩,
        shownEarlier, shownLater⟩
  | @group _ closing content _ _ kind closingKind =>
      rcases shownAfter.cons_expr with ⟨contentPhrase, _, rfl, contentMeaning, shownRest⟩
      rcases shownRest.cons_token with ⟨later, rfl, shownLater⟩
      exact ⟨.group token contentPhrase closing, beforeBlocks, later, .group kind closingKind,
        expr?_group_eq_some_iff.mpr ⟨content, contentMeaning, rfl⟩, shownBefore, shownLater⟩
  | @function _ elementary argument _ _ kind found =>
      rcases shownAfter.cons_expr with
        ⟨argumentPhrase, later, rfl, argumentMeaning, shownLater⟩
      exact ⟨.apply token argumentPhrase, beforeBlocks, later, .apply kind found,
        expr?_apply_eq_some_iff.mpr ⟨elementary, argument, found, argumentMeaning, rfl⟩,
        shownBefore, shownLater⟩
  | identifier kind =>
      exact ⟨.atom token, beforeBlocks, afterBlocks, .atom (Or.inr kind),
        by simp [expr?, exprWithin, kind], shownBefore, shownAfter⟩
  | @number _ value _ _ kind found =>
      exact ⟨.atom token, beforeBlocks, afterBlocks, .atom (Or.inl kind),
        by simp [expr?, exprWithin, kind, found], shownBefore, shownAfter⟩

omit [Numeral ν] in
/-- A token that leads a list leads every part of it that holds the token. -/
theorem Leads.of_subset {before after before' after' : List (Entry ν)} {token : Token}
    (leads : Leads before token after) (fewerBefore : before' ⊆ before)
    (fewerAfter : after' ⊆ after) : Leads before' token after' where
  below other member := leads.below other (fewerBefore member)
  atMost other member := leads.atMost other (fewerAfter member)

/-- A reduction adds no entry to those around the token. -/
theorem Reduces.subset {before after restBefore restAfter : List (Entry ν)} {token : Token}
    {expr : Expr ν Token} (reduces : Reduces before token after expr restBefore restAfter) :
    restBefore ⊆ before ∧ restAfter ⊆ after := by
  cases reduces <;> simp

/-- Blocks are joined to a phrase whose root leads the list. -/
theorem Partition.join_leading {tokens : List Token} {depth final : Int}
    (ranked : Ranked depth tokens final) {before joined after : List Block} (phrase : Phrase)
    (partition : Partition tokens (before ++ joined ++ after))
    (covers : phrase.tokens = joined.flatMap Block.tokens)
    (layered : ∀ depth final, Ranked depth phrase.tokens final → phrase.Layered)
    {beforeEntries afterEntries : List (Entry ν)} (shownBefore : ShowAll before beforeEntries)
    (shownAfter : ShowAll after afterEntries)
    (leads : Leads beforeEntries phrase.root afterEntries)
    {expr : Expr ν Token} (meaning : phrase.expr? = some expr) :
    ∃ blocks, Partition tokens blocks ∧
      ShowAll blocks (beforeEntries ++ .expr expr :: afterEntries) := by
  have whole : tokens =
      before.flatMap Block.tokens ++ (phrase.tokens ++ after.flatMap Block.tokens) := by
    rw [← partition.covers, covers]
    simp
  obtain ⟨start, finish, phraseRanked⟩ := (whole ▸ ranked).middle
  refine ⟨before ++ .phrase phrase :: after, ?_, ?_⟩
  · refine partition.join (layered start finish phraseRanked) covers ?_ ?_
    · intro other member
      exact leads.below other (shownBefore.token_mem member)
    · intro other member
      exact leads.atMost other (shownAfter.token_mem member)
  · exact List.rel_append shownBefore (.cons ⟨expr, meaning, rfl⟩ shownAfter)

omit [Numeral ν] in
/-- A pending token has not been passed over for the root of a phrase beside it, so what it is
joined to is layered. -/
theorem Partition.layered_of_joins {tokens : List Token} {before after earlier later : List Block}
    {token : Token} (partition : Partition tokens (before ++ .token token :: after))
    {phrase : Phrase} {depth final : Int} (ranked : Ranked depth phrase.tokens final)
    (joins : Joins before token after phrase earlier later) : phrase.Layered := by
  have inOrder := List.pairwise_append.mp partition.inOrder
  have notOutranked : ∀ phrase, Block.phrase phrase ∈ before →
      token.priority ≤ phrase.root.priority :=
    fun phrase member => inOrder.2.2 _ member (.token token) (by simp)
  have outranked : ∀ phrase, Block.phrase phrase ∈ after →
      token.priority < phrase.root.priority :=
    fun phrase member => (List.pairwise_cons.mp inOrder.2.1).1 _ member
  cases joins with
  | @binary _ _ _ _ left right kind found =>
      exact binary_layered ranked kind found (partition.layered left (by simp))
        (notOutranked left (by simp)) (partition.layered right (by simp))
        (outranked right (by simp))
  | @group _ _ _ closing content kind closingKind =>
      exact .group kind (partition.layered content (by simp)) closingKind
  | @apply _ _ _ _ argument kind found =>
      exact apply_layered ranked kind (partition.layered argument (by simp))
        (outranked argument (by simp))
  | atom kind => exact .atom kind

/-- Reducing the token that leads a list joins blocks. -/
theorem Partition.step {tokens : List Token} {depth final : Int}
    (ranked : Ranked depth tokens final) {blocks : List Block} {before after : List (Entry ν)}
    {token : Token} (partition : Partition tokens blocks)
    (shown : ShowAll blocks (before ++ .token token :: after)) (leads : Leads before token after)
    {expr : Expr ν Token} {restBefore restAfter : List (Entry ν)}
    (reduces : Reduces before.reverse token after expr restBefore restAfter) :
    ∃ blocks', Partition tokens blocks' ∧
      ShowAll blocks' (restBefore.reverse ++ .expr expr :: restAfter) := by
  rcases shown.split with ⟨beforeBlocks, others, rfl, shownBefore, shownOthers⟩
  rcases shownOthers.cons_token with ⟨afterBlocks, rfl, shownAfter⟩
  obtain ⟨phrase, earlier, later, joins, meaning, shownEarlier, shownLater⟩ :=
    reduces.joins shownBefore shownAfter
  obtain ⟨root, joined, split, covers⟩ := joins.exists_joined
  refine Partition.join_leading ranked phrase (split ▸ partition) covers ?_ shownEarlier
    shownLater ?_ meaning
  · exact fun depth final ranked => partition.layered_of_joins ranked joins
  · rw [root]
    obtain ⟨fewerBefore, fewerAfter⟩ := reduces.subset
    exact leads.of_subset (fun entry member => List.mem_reverse.mp
      (fewerBefore (List.mem_reverse.mp member))) fewerAfter

/-! ## The whole run -/

/-- A sole expression that is left stands in the place of a sole phrase. -/
theorem ShowAll.sole {blocks : List Block} {entries : List (Entry ν)}
    (shown : ShowAll blocks entries) {expr : Expr ν Token}
    (answered : verdict entries = .ok expr) :
    ∃ phrase : Phrase, blocks = [.phrase phrase] ∧ phrase.expr? = some expr := by
  rcases entries with _ | ⟨entry, _ | ⟨other, entries⟩⟩
  · cases answered
  · cases entry with
    | token pending => cases answered
    | expr result =>
        cases answered
        rcases shown.cons_expr with ⟨phrase, rest, rfl, meaning, shownNil⟩
        cases shownNil
        exact ⟨phrase, rfl, meaning⟩
  · cases entry <;> cases answered

/-- A sole expression that is left stands for a phrase over all tokens. -/
theorem Partition.finish {tokens : List Token} {blocks : List Block} {entries : List (Entry ν)}
    (partition : Partition tokens blocks) (shown : ShowAll blocks entries) {expr : Expr ν Token}
    (answered : verdict entries = .ok expr) :
    ∃ phrase : Phrase, phrase.Layered ∧ phrase.tokens = tokens ∧ phrase.expr? = some expr := by
  obtain ⟨phrase, rfl, meaning⟩ := shown.sole answered
  refine ⟨phrase, partition.layered phrase (by simp), ?_, meaning⟩
  simpa [Block.tokens] using partition.covers

theorem ShowAll.ofTokens (tokens : List Token) :
    ShowAll (ν := ν) (tokens.map .token) (tokens.map .token) := by
  induction tokens with
  | nil => exact .nil
  | cons token tokens ih => exact .cons rfl ih

/-- When a run ends, what is left stands in the places of blocks that partition the tokens. -/
theorem exists_partition_at_end {tokens : List Token} {depth final : Int}
    (ranked : Ranked depth tokens final) :
    ∃ (last : List (Entry ν)) (blocks : List Block), Partition tokens blocks ∧
      ShowAll blocks last ∧ Ends last (ofTokens tokens).outcome := by
  obtain ⟨last, ⟨blocks, partition, shown⟩, ends⟩ := (settles_ofTokens tokens).exists_ends
    (fun entries => ∃ blocks, Partition tokens blocks ∧ ShowAll (ν := ν) blocks entries)
    (fun ⟨_, partition, shown⟩ leads reduces => partition.step ranked shown leads reduces)
    ⟨_, .ofTokens tokens, .ofTokens tokens⟩
  exact ⟨last, blocks, partition, shown, ends⟩

/-- What tokens are parsed to is said by a layered phrase over these tokens. -/
theorem exists_phrase_of_outcome {tokens : List Token} {depth final : Int}
    (ranked : Ranked depth tokens final) {expr : Expr ν Token}
    (parsed : (Parsing.ofTokens tokens).outcome = .ok expr) :
    ∃ phrase : Phrase, phrase.Layered ∧ phrase.tokens = tokens ∧ phrase.expr? = some expr := by
  obtain ⟨last, blocks, partition, shown, ends⟩ := exists_partition_at_end (ν := ν) ranked
  rw [parsed] at ends
  cases ends with
  | verdict _ answered => exact partition.finish shown answered

end Fluxion.Parsing
