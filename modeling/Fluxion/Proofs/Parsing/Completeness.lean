import Fluxion.Proofs.Grammar.Depth
import Fluxion.Proofs.Parsing.Run

/-!
# Every phrase is parsed

The parser reduces the tokens of a phrase in the order of their priorities, which
is not the order of any walk through the phrase: parts that lie far apart are
reduced by turns. What holds in between is that the list is a cut through the
phrase, where some subphrases are expressions already and the rest are tokens
still. The token that leads a cut has its operands right beside it, and reducing
it gives a cut again.
-/

namespace Fluxion.Parsing

open Phrase

variable {ν : Type} [Numeral ν]

/-- A list of entries that a phrase has on the way from its tokens to its
expression. -/
inductive Cut : Phrase → List (Entry ν) → Prop
  | finished {phrase : Phrase} {expr : Expr ν Token} : phrase.expr? = some expr →
      Cut phrase [.expr expr]
  | atom (token : Token) : Cut (.atom token) [.token token]
  | binary {left right : Phrase} {operator : Token} {leftEntries rightEntries : List (Entry ν)} :
      Cut left leftEntries → Cut right rightEntries →
      Cut (.binary left operator right) (leftEntries ++ .token operator :: rightEntries)
  | apply {function : Token} {argument : Phrase} {entries : List (Entry ν)} :
      Cut argument entries → Cut (.apply function argument) (.token function :: entries)
  | group {opening closing : Token} {content : Phrase} {entries : List (Entry ν)} :
      Cut content entries →
      Cut (.group opening content closing) (.token opening :: (entries ++ [.token closing]))

/-- At first all tokens of a phrase are pending. -/
theorem Cut.ofTokens (phrase : Phrase) :
    Cut phrase (phrase.tokens.map (Entry.token (ν := ν))) := by
  induction phrase with
  | atom token => exact .atom token
  | binary left operator right left_ih right_ih =>
      rw [tokens, List.map_append, List.map_cons]
      exact .binary left_ih right_ih
  | apply function argument ih => exact .apply ih
  | group opening content closing ih =>
      rw [tokens, List.map_cons, List.map_append]
      exact .group ih

/-- Until a phrase is finished, its root is pending. -/
theorem Cut.finished_or_root_mem {phrase : Phrase} {entries : List (Entry ν)}
    (cut : Cut phrase entries) :
    (∃ expr, phrase.expr? = some expr ∧ entries = [.expr expr]) ∨
      .token phrase.root ∈ entries := by
  cases cut with
  | finished meaning => exact Or.inl ⟨_, meaning, rfl⟩
  | atom token => exact Or.inr (by simp [root])
  | binary _ _ => exact Or.inr (by simp [root])
  | apply _ => exact Or.inr (by simp [root])
  | group _ => exact Or.inr (by simp [root])

/-! ## One step of a cut -/

/-- A token leads a cut and can be reduced, and the list is a cut again then. -/
def AdvancesAt (phrase : Phrase) (entries : List (Entry ν)) (token : Token) : Prop :=
  ∃ before after expr restBefore restAfter,
    entries = before ++ .token token :: after ∧ Leads before token after ∧
      Reduces before.reverse token after expr restBefore restAfter ∧
      Cut phrase (restBefore.reverse ++ .expr expr :: restAfter)

theorem advancesAt_iff {phrase : Phrase} {entries : List (Entry ν)} {token : Token} :
    AdvancesAt phrase entries token ↔ Advances (Cut phrase) entries token :=
  Iff.rfl

namespace AdvancesAt

variable {phrase : Phrase} {entries : List (Entry ν)} {token : Token}

theorem priority_le (advances : AdvancesAt phrase entries token) {other : Token}
    (member : .token other ∈ entries) : other.priority ≤ token.priority :=
  (advancesAt_iff.mp advances).priority_le member

theorem root_le (advances : AdvancesAt phrase entries token) (cut : Cut phrase entries) :
    phrase.root.priority ≤ token.priority := by
  rcases cut.finished_or_root_mem with ⟨expr, _, rfl⟩ | member
  · have member := (advancesAt_iff.mp advances).mem
    simp at member
  · exact advances.priority_le member

/-- A cut advances within a larger one if its token leads that one too. -/
theorem within (advances : AdvancesAt phrase entries token) {outer : Phrase}
    {moreBefore moreAfter : List (Entry ν)}
    (context : ∀ entries, Cut phrase entries → Cut outer (moreBefore ++ (entries ++ moreAfter)))
    (below : ∀ other, Entry.token other ∈ moreBefore → other.priority < token.priority)
    (atMost : ∀ other, Entry.token other ∈ moreAfter → other.priority ≤ token.priority) :
    AdvancesAt outer (moreBefore ++ (entries ++ moreAfter)) token :=
  advancesAt_iff.mpr ((advancesAt_iff.mp advances).within context below atMost)

section Parts

variable {left right : Phrase} {operator : Token} {leftEntries rightEntries : List (Entry ν)}

/-- What leads the left operand leads the operation, unless it is outranked in the right
one. -/
theorem binary_left (advances : AdvancesAt left leftEntries token) (leftCut : Cut left leftEntries)
    (rightCut : Cut right rightEntries) (atMost : operator.priority ≤ left.root.priority)
    (rightAtMost : ∀ other, Entry.token other ∈ rightEntries → other.priority ≤ token.priority) :
    AdvancesAt (.binary left operator right) (leftEntries ++ .token operator :: rightEntries)
      token := by
  have context : ∀ entries : List (Entry ν), Cut left entries →
      Cut (.binary left operator right)
        ([] ++ (entries ++ .token operator :: rightEntries)) :=
    fun entries cut => .binary cut rightCut
  refine advances.within context (by simp) ?_
  intro other member
  rcases List.mem_cons.mp member with same | member
  · cases same
    exact Int.le_trans atMost (advances.root_le leftCut)
  · exact rightAtMost other member

/-- What leads the right operand leads the operation, if it outranks the left one. -/
theorem binary_right (advances : AdvancesAt right rightEntries token)
    (leftCut : Cut left leftEntries) (rightCut : Cut right rightEntries)
    (below : operator.priority < right.root.priority)
    (leftBelow : ∀ other, Entry.token other ∈ leftEntries → other.priority < token.priority) :
    AdvancesAt (.binary left operator right) (leftEntries ++ .token operator :: rightEntries)
      token := by
  have context : ∀ entries : List (Entry ν), Cut right entries →
      Cut (.binary left operator right)
        ((leftEntries ++ [.token operator]) ++ (entries ++ [])) := by
    intro entries cut
    simpa using Cut.binary leftCut cut
  have advanced := advances.within context ?_ (by simp)
  · simpa using advanced
  · intro other member
    rcases List.mem_append.mp member with member | member
    · exact leftBelow other member
    · cases List.mem_singleton.mp member
      exact Int.lt_of_lt_of_le below (advances.root_le rightCut)

/-- What leads the argument leads the application. -/
theorem apply {function : Token} {argument : Phrase} (advances : AdvancesAt argument entries token)
    (cut : Cut argument entries) (below : function.priority < argument.root.priority) :
    AdvancesAt (.apply function argument) (.token function :: entries) token := by
  have context : ∀ entries : List (Entry ν), Cut argument entries →
      Cut (.apply function argument) ([.token function] ++ (entries ++ [])) := by
    intro entries cut
    simpa using Cut.apply cut
  have advanced := advances.within context ?_ (by simp)
  · simpa using advanced
  · intro other member
    cases List.mem_singleton.mp member
    exact Int.lt_of_lt_of_le below (advances.root_le cut)

/-- What leads the content leads the group. -/
theorem group {opening closing : Token} {content : Phrase}
    (advances : AdvancesAt content entries token) (cut : Cut content entries)
    (below : opening.priority < content.root.priority)
    (atMost : closing.priority ≤ opening.priority) :
    AdvancesAt (.group opening content closing)
      (.token opening :: (entries ++ [.token closing])) token := by
  have context : ∀ entries : List (Entry ν), Cut content entries →
      Cut (.group opening content closing)
        ([.token opening] ++ (entries ++ [.token closing])) :=
    fun entries cut => .group cut
  have ahead := Int.lt_of_lt_of_le below (advances.root_le cut)
  refine advances.within context ?_ ?_
  · intro other member
    cases List.mem_singleton.mp member
    exact ahead
  · intro other member
    cases List.mem_singleton.mp member
    exact Int.le_trans atMost (Int.le_of_lt ahead)

end Parts

end AdvancesAt

theorem reduces_atom {token : Token} (layered : (Phrase.atom token).Layered)
    {expr : Expr ν Token} (meaning : (Phrase.atom token).expr? = some expr)
    (before after : List (Entry ν)) : Reduces before token after expr before after := by
  cases layered with
  | atom kind =>
      rcases kind with kind | kind <;> simp only [expr?, exprWithin, kind] at meaning
      · rcases Option.map_eq_some_iff.mp meaning with ⟨value, found, rfl⟩
        exact .number kind found
      · cases meaning
        exact .identifier kind

/-- A cut is finished or advances. -/
theorem Cut.advances {phrase : Phrase} {entries : List (Entry ν)} (cut : Cut phrase entries)
    (layered : phrase.Layered) {depth final : Int} (ranked : Ranked depth phrase.tokens final)
    {expr : Expr ν Token} (meaning : phrase.expr? = some expr) :
    entries = [.expr expr] ∨ ∃ token, AdvancesAt phrase entries token := by
  induction cut generalizing depth final expr with
  | finished meaning' =>
      rw [meaning] at meaning'
      cases meaning'
      exact Or.inl rfl
  | atom token =>
      refine Or.inr ⟨token, [], [], expr, [], [], rfl, ⟨by simp, by simp⟩, ?_, .finished meaning⟩
      exact reduces_atom layered meaning [] []
  | @binary left right operator leftEntries rightEntries leftCut rightCut left_ih right_ih =>
      obtain ⟨leftRanked, rightRanked, atMost, below⟩ := binary_ranked layered ranked
      rcases expr?_binary_eq_some_iff.mp meaning with
        ⟨symbol, leftExpr, rightExpr, found, leftMeaning, rightMeaning, rfl⟩
      cases layered with
      | binary kind _ leftLayered _ rightLayered _ =>
          -- The token that leads is the leading one of a part, or the operator.
          rcases left_ih leftLayered leftRanked leftMeaning with rfl | ⟨first, leftAdvances⟩ <;>
            rcases right_ih rightLayered rightRanked rightMeaning with
              rfl | ⟨second, rightAdvances⟩
          · refine Or.inr ⟨operator, [.expr leftExpr], [.expr rightExpr], _, [], [], rfl,
              ⟨by simp, by simp⟩, .operator kind found, .finished meaning⟩
          · exact Or.inr ⟨second, rightAdvances.binary_right leftCut rightCut below (by simp)⟩
          · exact Or.inr ⟨first, leftAdvances.binary_left leftCut rightCut atMost (by simp)⟩
          · by_cases ahead : second.priority ≤ first.priority
            · refine Or.inr ⟨first, leftAdvances.binary_left leftCut rightCut atMost ?_⟩
              intro other member
              exact Int.le_trans (rightAdvances.priority_le member) ahead
            · refine Or.inr ⟨second, rightAdvances.binary_right leftCut rightCut below ?_⟩
              intro other member
              exact Int.lt_of_le_of_lt (leftAdvances.priority_le member) (Int.not_le.mp ahead)
  | @apply function argument entries argumentCut ih =>
      obtain ⟨argumentRanked, below⟩ := apply_ranked layered ranked
      rcases expr?_apply_eq_some_iff.mp meaning with
        ⟨elementary, argumentExpr, found, argumentMeaning, rfl⟩
      cases layered with
      | apply kind argumentLayered _ =>
          rcases ih argumentLayered argumentRanked argumentMeaning with rfl | ⟨token, advances⟩
          · exact Or.inr ⟨function, [], [.expr argumentExpr], _, [], [], rfl,
              ⟨by simp, by simp⟩, .function kind found, .finished meaning⟩
          · exact Or.inr ⟨token, advances.apply argumentCut below⟩
  | @group opening closing content entries contentCut ih =>
      obtain ⟨contentRanked, below, atMost⟩ := group_ranked layered ranked
      rcases expr?_group_eq_some_iff.mp meaning with ⟨contentExpr, contentMeaning, rfl⟩
      cases layered with
      | group openKind contentLayered closeKind =>
          rcases ih contentLayered contentRanked contentMeaning with rfl | ⟨token, advances⟩
          · refine Or.inr ⟨opening, [], [.expr contentExpr, .token closing], _, [], [], rfl,
              ⟨by simp, ?_⟩, .group openKind closeKind, .finished meaning⟩
            simpa using atMost
          · exact Or.inr ⟨token, advances.group contentCut below atMost⟩

/-! ## The whole run -/

/-- The tokens of a layered phrase are parsed to the expression that it says. -/
theorem outcome_of_layered {phrase : Phrase} (layered : phrase.Layered) {depth final : Int}
    (ranked : Ranked depth phrase.tokens final) {expr : Expr ν Token}
    (meaning : phrase.expr? = some expr) :
    (Parsing.ofTokens phrase.tokens).outcome = .ok expr :=
  (settles_ofTokens phrase.tokens).outcome_of_advances
    (fun _ cut => cut.advances layered ranked meaning) (by simp) (Cut.ofTokens phrase)

end Fluxion.Parsing
