import Fluxion.Proofs.Parsing.Settling

/-!
# Runs

`settle` is told how many steps it may take. A run is described here without that
number: it goes on as long as a token is pending, one reduction after the other,
and there is an end because every reduction uses up a token. Whatever is said of
parsing is an induction on runs. There are two principles: what every step
preserves holds of the list on which the run ends, and a run ends on a list if
whatever comes before it can be reduced and leads there.
-/

namespace Fluxion.Parsing

variable {ν : Type}

/-! ## Pending tokens -/

/-- The tokens that are still to be reduced. -/
def pendingTokens (entries : List (Entry ν)) : List Token :=
  entries.filterMap fun
    | .token token => some token
    | .expr _ => none

@[simp]
theorem pendingTokens_append (first second : List (Entry ν)) :
    pendingTokens (first ++ second) = pendingTokens first ++ pendingTokens second := by
  simp [pendingTokens]

@[simp]
theorem pendingTokens_token (token : Token) (entries : List (Entry ν)) :
    pendingTokens (.token token :: entries) = token :: pendingTokens entries := by
  simp [pendingTokens]

@[simp]
theorem pendingTokens_expr (expr : Expr ν Token) (entries : List (Entry ν)) :
    pendingTokens (.expr expr :: entries) = pendingTokens entries := by
  simp [pendingTokens]

theorem length_pendingTokens_reverse (entries : List (Entry ν)) :
    (pendingTokens entries.reverse).length = (pendingTokens entries).length := by
  simp [pendingTokens, List.filterMap_reverse]

theorem mem_pendingTokens {entries : List (Entry ν)} {token : Token} :
    token ∈ pendingTokens entries ↔ Entry.token token ∈ entries := by
  rw [pendingTokens, List.mem_filterMap]
  constructor
  · rintro ⟨_ | _, member, same⟩ <;> cases same
    exact member
  · intro member
    exact ⟨.token token, member, rfl⟩

variable [Numeral ν]

/-- Every step reduces one token and adds none. -/
theorem Reduces.length_pendingTokens {before after restBefore restAfter : List (Entry ν)}
    {token : Token} {expr : Expr ν Token}
    (reduces : Reduces before token after expr restBefore restAfter) :
    (pendingTokens restBefore).length + (pendingTokens restAfter).length ≤
      (pendingTokens before).length + (pendingTokens after).length := by
  cases reduces <;> simp

/-- An expression comes from the token that was reduced to it. -/
theorem Reduces.mark_eq {before after restBefore restAfter : List (Entry ν)} {token : Token}
    {expr : Expr ν Token} (reduces : Reduces before token after expr restBefore restAfter) :
    expr.mark = token := by
  cases reduces with
  | group _ _ => exact Expr.mark_withMark _ _
  | operator _ _ => rfl
  | function _ _ => rfl
  | identifier _ => rfl
  | number _ _ => rfl

/-! ## Runs -/

/-- From a list of entries, reductions are made in the order of the priorities until no token
is left or one cannot be reduced. -/
inductive Settles : List (Entry ν) → Parsing ν → Prop
  | finished {entries : List (Entry ν)} : (∀ token, Entry.token token ∉ entries) →
      Settles entries ⟨[], verdict entries⟩
  | failed {before after : List (Entry ν)} {token : Token} {fault : Fault} :
      Leads before token after → reduceBetween before.reverse token after = .error fault →
      Settles (before ++ .token token :: after) ⟨[], .error fault⟩
  | reduced {before after restBefore restAfter : List (Entry ν)} {token : Token}
      {expr : Expr ν Token} {later : Parsing ν} : Leads before token after →
      Reduces before.reverse token after expr restBefore restAfter →
      Settles (restBefore.reverse ++ .expr expr :: restAfter) later →
      Settles (before ++ .token token :: after)
        ⟨⟨token, expr⟩ :: later.reductions, later.outcome⟩

/-- With at least as many steps as there are tokens, the bounded run is a run. -/
theorem settles_settle (steps : Nat) {entries : List (Entry ν)}
    (enough : (pendingTokens entries).length ≤ steps) :
    Settles entries (settle steps entries) := by
  induction steps generalizing entries with
  | zero =>
      refine .finished ?_
      intro token member
      have counted := List.length_pos_of_mem (mem_pendingTokens.mpr member)
      omega
  | succ steps ih =>
      rw [settle]
      cases selected : select entries with
      | none => exact .finished (select_eq_none_iff.mp selected)
      | some choice =>
          rcases choice with ⟨before, token, after⟩
          rcases select_eq_some_iff.mp selected with ⟨rfl, leads⟩
          dsimp only
          cases reduced : reduceBetween before.reverse token after with
          | error fault => exact .failed leads reduced
          | ok answer =>
              rcases answer with ⟨expr, restBefore, restAfter⟩
              have reduces := reduceBetween_eq_ok_iff.mp reduced
              have shrinks := reduces.length_pendingTokens
              rw [length_pendingTokens_reverse] at shrinks
              refine .reduced leads reduces (ih ?_)
              simp only [pendingTokens_append, pendingTokens_token, pendingTokens_expr,
                List.length_append, List.length_cons, length_pendingTokens_reverse] at enough ⊢
              omega

/-- Parsing tokens is a run on the list of them. -/
theorem settles_ofTokens (tokens : List Token) :
    Settles (tokens.map .token) (ofTokens tokens : Parsing ν) := by
  rw [ofTokens_eq_settle]
  exact settles_settle tokens.length (by simp [pendingTokens])

/-- Every reduction marks its result with its token. -/
theorem Settles.mark_eq {entries : List (Entry ν)} {parsing : Parsing ν}
    (settles : Settles entries parsing) :
    ∀ reduction ∈ parsing.reductions, reduction.result.mark = reduction.token := by
  induction settles with
  | finished _ => simp
  | failed _ _ => simp
  | reduced _ reduces _ ih =>
      intro reduction member
      rcases List.mem_cons.mp member with rfl | later
      · exact reduces.mark_eq
      · exact ih reduction later

/-! ## What steps preserve -/

/-- How a run can end on a list: with the verdict if no token is left, or with the fault of
reducing the token that leads it. -/
inductive Ends (entries : List (Entry ν)) : Except Fault (Expr ν Token) → Prop
  | verdict {outcome : Except Fault (Expr ν Token)} : (∀ token, Entry.token token ∉ entries) →
      verdict entries = outcome → Ends entries outcome
  | fault {before after : List (Entry ν)} {token : Token} {fault : Fault} :
      entries = before ++ .token token :: after → Leads before token after →
      reduceBetween before.reverse token after = .error fault → Ends entries (.error fault)

/-- What every step of a run preserves holds of the list on which the run ends. -/
theorem Settles.exists_ends {entries : List (Entry ν)} {parsing : Parsing ν}
    (settles : Settles entries parsing) (holds : List (Entry ν) → Prop)
    (step : ∀ {before after restBefore restAfter : List (Entry ν)} {token : Token}
      {expr : Expr ν Token}, holds (before ++ .token token :: after) → Leads before token after →
      Reduces before.reverse token after expr restBefore restAfter →
      holds (restBefore.reverse ++ .expr expr :: restAfter))
    (start : holds entries) : ∃ last, holds last ∧ Ends last parsing.outcome := by
  induction settles with
  | finished none => exact ⟨_, start, .verdict none rfl⟩
  | failed leads refused => exact ⟨_, start, .fault rfl leads refused⟩
  | reduced leads reduces _ ih => exact ih (step start leads reduces)

/-! ## Lists that advance -/

/-- What a reduction does not need does not matter to it. -/
theorem Reduces.append {before after restBefore restAfter : List (Entry ν)} {token : Token}
    {expr : Expr ν Token} (reduces : Reduces before token after expr restBefore restAfter)
    (moreBefore moreAfter : List (Entry ν)) :
    Reduces (before ++ moreBefore) token (after ++ moreAfter) expr (restBefore ++ moreBefore)
      (restAfter ++ moreAfter) := by
  cases reduces with
  | operator kind found => exact .operator kind found
  | group kind closingKind => exact .group kind closingKind
  | function kind found => exact .function kind found
  | identifier kind => exact .identifier kind
  | number kind found => exact .number kind found

/-- The token that leads a list can be reduced, and what holds of the list holds again then. -/
def Advances (holds : List (Entry ν) → Prop) (entries : List (Entry ν)) (token : Token) : Prop :=
  ∃ before after expr restBefore restAfter,
    entries = before ++ .token token :: after ∧ Leads before token after ∧
      Reduces before.reverse token after expr restBefore restAfter ∧
      holds (restBefore.reverse ++ .expr expr :: restAfter)

namespace Advances

variable {holds : List (Entry ν) → Prop} {entries : List (Entry ν)} {token : Token}

theorem mem (advances : Advances holds entries token) : .token token ∈ entries := by
  rcases advances with ⟨before, after, _, _, _, rfl, _⟩
  simp

theorem priority_le (advances : Advances holds entries token) {other : Token}
    (member : .token other ∈ entries) : other.priority ≤ token.priority := by
  rcases advances with ⟨before, after, _, _, _, rfl, leads, _, _⟩
  rcases List.mem_append.mp member with member | member
  · exact Int.le_of_lt (leads.below other member)
  · rcases List.mem_cons.mp member with same | member
    · cases same
      exact Int.le_refl _
    · exact leads.atMost other member

/-- A list advances within a larger one if its token leads that one too. -/
theorem within (advances : Advances holds entries token) {wider : List (Entry ν) → Prop}
    {moreBefore moreAfter : List (Entry ν)}
    (context : ∀ entries, holds entries → wider (moreBefore ++ (entries ++ moreAfter)))
    (below : ∀ other, Entry.token other ∈ moreBefore → other.priority < token.priority)
    (atMost : ∀ other, Entry.token other ∈ moreAfter → other.priority ≤ token.priority) :
    Advances wider (moreBefore ++ (entries ++ moreAfter)) token := by
  rcases advances with ⟨before, after, expr, restBefore, restAfter, rfl, leads, reduces, again⟩
  refine ⟨moreBefore ++ before, after ++ moreAfter, expr, restBefore ++ moreBefore.reverse,
    restAfter ++ moreAfter, by simp, ?_, ?_, ?_⟩
  · constructor
    · intro other member
      rcases List.mem_append.mp member with member | member
      · exact below other member
      · exact leads.below other member
    · intro other member
      rcases List.mem_append.mp member with member | member
      · exact leads.atMost other member
      · exact atMost other member
  · rw [List.reverse_append]
    exact reduces.append moreBefore.reverse moreAfter
  · simpa using context _ again

end Advances

/-- If lists of some sort advance until they are a list without tokens, the answer is the
verdict on that list. -/
theorem Settles.outcome_of_advances {entries last : List (Entry ν)} {parsing : Parsing ν}
    (settles : Settles entries parsing) {holds : List (Entry ν) → Prop}
    (advances : ∀ entries, holds entries → entries = last ∨ ∃ token, Advances holds entries token)
    (none : ∀ token, Entry.token token ∉ last) (start : holds entries) :
    parsing.outcome = verdict last := by
  induction settles with
  | @finished entries absent =>
      rcases advances entries start with rfl | ⟨token, advance⟩
      · rfl
      · exact absurd advance.mem (absent token)
  | @failed before after token fault leads refused =>
      rcases advances _ start with same | ⟨_, _, _, _, _, _, same, leads', reduces, _⟩
      · exact absurd (by simp [← same]) (none token)
      · rcases leads.unique leads' same with ⟨rfl, rfl, rfl⟩
        rw [reduceBetween_eq_ok_iff.mpr reduces] at refused
        cases refused
  | @reduced before after _ _ token _ _ leads reduces _ ih =>
      rcases advances _ start with same | ⟨_, _, _, _, _, _, same, leads', reduces', again⟩
      · exact absurd (by simp [← same]) (none token)
      · rcases leads.unique leads' same with ⟨rfl, rfl, rfl⟩
        have sameAnswer := (reduceBetween_eq_ok_iff.mpr reduces).symm.trans
          (reduceBetween_eq_ok_iff.mpr reduces')
        cases sameAnswer
        exact ih again

end Fluxion.Parsing
