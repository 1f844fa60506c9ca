import Fluxion.Proofs.Parsing.InOrder

/-!
# The order of the reductions

A run takes the tokens in an order that is known before it starts: by descending
priority, those of equal priority from left to right. Reductions do not change
this order, since an operand is an expression when it is taken and so is no longer
in it. Closing parentheses are not in it at all: they are taken along with the
opening ones, and if the turn came to one it would be the end.
-/

namespace Fluxion.Parsing

variable {ν : Type}

/-! ## The order of priority -/

/-- Whether a token does not come behind another in the order of priority. -/
def isAhead (first second : Token) : Bool :=
  decide (second.priority ≤ first.priority)

/-- The tokens other than closing parentheses by descending priority, with those of equal
priority in the order in which they stand. -/
def byPriority (tokens : List Token) : List Token :=
  (tokens.filter fun token => token.kind != .closeParen).mergeSort isAhead

theorem isAhead_trans (first second third : Token) (ahead : isAhead first second = true)
    (ahead' : isAhead second third = true) : isAhead first third = true := by
  simp only [isAhead, decide_eq_true_eq] at ahead ahead' ⊢
  exact Int.le_trans ahead' ahead

theorem isAhead_total (first second : Token) :
    (isAhead first second || isAhead second first) = true := by
  simp only [isAhead, Bool.or_eq_true, decide_eq_true_eq]
  exact Int.le_total _ _

/-- In a sorted list, a token that stands first is put in front of the tokens that it is not
behind. -/
theorem mergeSort_cons_eq (token : Token) (tokens : List Token) :
    (token :: tokens).mergeSort isAhead =
      (tokens.mergeSort isAhead).takeWhile (fun other => !isAhead token other) ++
        token :: (tokens.mergeSort isAhead).dropWhile (fun other => !isAhead token other) := by
  obtain ⟨ahead, others, sorted, rest, outrank⟩ :=
    List.mergeSort_cons isAhead_trans isAhead_total token tokens
  have inOrder := List.pairwise_mergeSort isAhead_trans isAhead_total (token :: tokens)
  rw [sorted] at inOrder
  have behind := (List.pairwise_cons.mp (List.pairwise_append.mp inOrder).2.1).1
  rw [sorted, rest, List.takeWhile_append_of_pos outrank, List.dropWhile_append_of_pos outrank]
  cases others with
  | nil => simp
  | cons next others => simp [behind next (by simp)]

/-- The token that outranks those before it and is not outranked by those after it comes
first when all of them are sorted, and the others stay in their order. -/
theorem mergeSort_eq_cons {before after : List Token} {token : Token}
    (below : ∀ other ∈ before, other.priority < token.priority)
    (atMost : ∀ other ∈ after, other.priority ≤ token.priority) :
    (before ++ token :: after).mergeSort isAhead =
      token :: (before ++ after).mergeSort isAhead := by
  induction before with
  | nil =>
      have allBehind : ∀ other ∈ after.mergeSort isAhead, isAhead token other = true := by
        intro other member
        rw [List.mem_mergeSort] at member
        simpa [isAhead] using atMost other member
      rw [List.nil_append, List.nil_append, mergeSort_cons_eq]
      cases sorted : after.mergeSort isAhead with
      | nil => rfl
      | cons next others =>
          have nextBehind := allBehind next (by simp [sorted])
          simp [nextBehind]
  | cons first before ih =>
      have outranked : isAhead first token = false := by
        simpa [isAhead] using below first (by simp)
      have others := ih fun other member => below other (List.mem_cons_of_mem _ member)
      rw [List.cons_append, List.cons_append, mergeSort_cons_eq, others, mergeSort_cons_eq first]
      simp [outranked]

/-! ## A run takes the tokens in this order -/

/-- The pending tokens that can have a turn. -/
def upcoming (entries : List (Entry ν)) : List Token :=
  (pendingTokens entries).filter fun token => token.kind != .closeParen

@[simp]
theorem upcoming_nil : upcoming ([] : List (Entry ν)) = [] :=
  rfl

@[simp]
theorem upcoming_append (first second : List (Entry ν)) :
    upcoming (first ++ second) = upcoming first ++ upcoming second := by
  simp [upcoming]

@[simp]
theorem upcoming_expr (expr : Expr ν Token) (entries : List (Entry ν)) :
    upcoming (.expr expr :: entries) = upcoming entries := by
  simp [upcoming]

theorem upcoming_token {token : Token} (kind : token.kind ≠ .closeParen)
    (entries : List (Entry ν)) :
    upcoming (.token token :: entries) = token :: upcoming entries := by
  simp [upcoming, kind]

theorem upcoming_closing {token : Token} (kind : token.kind = .closeParen)
    (entries : List (Entry ν)) : upcoming (.token token :: entries) = upcoming entries := by
  simp [upcoming, kind]

variable [Numeral ν]

/-- Apart from the token itself, a reduction takes along closing parentheses only. -/
theorem Reduces.upcoming_eq {before after restBefore restAfter : List (Entry ν)} {token : Token}
    {expr : Expr ν Token}
    (reduces : Reduces before.reverse token after expr restBefore restAfter) :
    token.kind ≠ .closeParen ∧ upcoming restBefore.reverse = upcoming before ∧
      upcoming restAfter = upcoming after := by
  generalize nearest : before.reverse = nearestFirst at reduces
  have same : before = nearestFirst.reverse := by
    rw [← nearest, List.reverse_reverse]
  subst same
  cases reduces with
  | operator kind _ => simp [kind]
  | group kind closingKind => simp [kind, upcoming_closing closingKind]
  | function kind _ => simp [kind]
  | identifier kind => simp [kind]
  | number kind _ => simp [kind]

omit [Numeral ν] in
/-- The token that leads a list has the first turn. -/
theorem Leads.upcoming_eq {before after : List (Entry ν)} {token : Token}
    (leads : Leads before token after) (kind : token.kind ≠ .closeParen) :
    (upcoming (before ++ .token token :: after)).mergeSort isAhead =
      token :: (upcoming before ++ upcoming after).mergeSort isAhead := by
  rw [upcoming_append, upcoming_token kind]
  refine mergeSort_eq_cons ?_ ?_
  · intro other member
    exact leads.below other (mem_pendingTokens.mp (List.mem_of_mem_filter member))
  · intro other member
    exact leads.atMost other (mem_pendingTokens.mp (List.mem_of_mem_filter member))

/-- The tokens that are reduced, in their order. -/
def reducedTokens (parsing : Parsing ν) : List Token :=
  parsing.reductions.map Reduction.token

/-- A run that comes to an answer takes all tokens that can have a turn, in the order of their
priorities; a run that fails takes the first of them. -/
theorem Settles.reducedTokens_eq {entries : List (Entry ν)} {parsing : Parsing ν}
    (settles : Settles entries parsing) :
    (∀ tree, parsing.outcome = .ok tree →
        reducedTokens parsing = (upcoming entries).mergeSort isAhead) ∧
      (∀ fault, parsing.outcome = .error fault →
        reducedTokens parsing <+: (upcoming entries).mergeSort isAhead) := by
  induction settles with
  | @finished entries none =>
      have nothing : pendingTokens entries = [] :=
        List.eq_nil_iff_forall_not_mem.mpr fun token member =>
          none token (mem_pendingTokens.mp member)
      simp [reducedTokens, upcoming, nothing]
  | failed _ _ => simp [reducedTokens]
  | @reduced before after restBefore restAfter token expr later leads reduces _ ih =>
      obtain ⟨kind, sameBefore, sameAfter⟩ := reduces.upcoming_eq
      have others : upcoming (restBefore.reverse ++ .expr expr :: restAfter) =
          upcoming before ++ upcoming after := by
        rw [upcoming_append, upcoming_expr, sameBefore, sameAfter]
      rw [others] at ih
      rw [leads.upcoming_eq kind]
      constructor
      · intro tree parsed
        simpa [reducedTokens] using ih.1 tree parsed
      · intro fault refused
        simpa [reducedTokens] using ih.2 fault refused

/-- Whatever the kinds and priorities of the tokens are: if there is an answer, the tokens that
were reduced are all but the closing parentheses, sorted by descending priority and otherwise
left in their order. If there is none, they are a first part of that list. -/
theorem ofTokens_by_priority (tokens : List Token) :
    (∀ tree : Expr ν Token, (ofTokens tokens).outcome = .ok tree →
        reducedTokens (ofTokens tokens : Parsing ν) = byPriority tokens) ∧
      (∀ fault, (ofTokens tokens : Parsing ν).outcome = .error fault →
        reducedTokens (ofTokens tokens : Parsing ν) <+: byPriority tokens) := by
  have same : (upcoming (tokens.map (Entry.token (ν := ν)))).mergeSort isAhead =
      byPriority tokens := by
    simp [byPriority, upcoming, pendingTokens]
  rw [← same]
  exact (settles_ofTokens tokens).reducedTokens_eq

/-- Of the sum in parentheses all tokens are reduced but the closing one. Of the sum behind an
operator that has nothing on its left, as many as come before that operator. -/
theorem ofTokens_by_priority_handmadeSum :
    byPriority handmadeSum =
        [⟨.identifier, "x", 2, 7⟩, ⟨.identifier, "y", 4, 7⟩, ⟨.operator, "+", 3, -2⟩,
          ⟨.openParen, "(", 1, -3⟩] ∧
      reducedTokens (ofTokens handmadeSum : Parsing Float) = byPriority handmadeSum ∧
      reducedTokens (ofTokens (⟨.operator, "*", 0, 2⟩ :: handmadeSum) : Parsing Float) <+:
        byPriority (⟨.operator, "*", 0, 2⟩ :: handmadeSum) := by
  have plus : Operator.ofText? "+" = some .add := by decide +kernel
  have times : Operator.ofText? "*" = some .mul := by decide +kernel
  have parsed : (ofTokens handmadeSum).outcome =
      .ok (.binary ⟨.openParen, "(", 1, -3⟩ .add (.var ⟨.identifier, "x", 2, 7⟩ "x")
        (.var ⟨.identifier, "y", 4, 7⟩ "y") : Expr Float Token) := by
    rw [ofTokens_eq_settle]
    simp [handmadeSum, settle, select, reduceBetween, nearestOperand, nearestClosing, plus, bind,
      Except.bind, verdict, Expr.withMark]
  have refused : (ofTokens (⟨.operator, "*", 0, 2⟩ :: handmadeSum) : Parsing Float).outcome =
      .error (.missingOperand .left ⟨.operator, "*", 0, 2⟩) := by
    rw [ofTokens_eq_settle]
    simp [handmadeSum, settle, select, reduceBetween, nearestOperand, bind, Except.bind]
  have sorted : byPriority handmadeSum =
      [⟨.identifier, "x", 2, 7⟩, ⟨.identifier, "y", 4, 7⟩, ⟨.operator, "+", 3, -2⟩,
        ⟨.openParen, "(", 1, -3⟩] := by
    simp [byPriority, handmadeSum, mergeSort_cons_eq, isAhead]
  exact ⟨sorted, (ofTokens_by_priority handmadeSum).1 _ parsed,
    (ofTokens_by_priority (⟨.operator, "*", 0, 2⟩ :: handmadeSum)).2 _ refused⟩

end Fluxion.Parsing
