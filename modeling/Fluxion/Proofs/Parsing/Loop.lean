import Fluxion.Proofs.Parsing.Completeness

/-!
# The loop of the parser

`Parsing.reduceAll` is told beforehand how many steps it may take, and where a
slot is missing or vacant it answers as if there were none. The loop it stands
for has no such bound and no such answers. `Runs` describes that loop: an
iteration is possible only if every slot that it extracts from is live at that
moment. From the tokens of any list the loop ends, after at most one iteration
for each of them, with the answer of `Parsing.ofTokens`.
-/

namespace Fluxion

namespace Pending

variable {ε : Type}

/-- A slot that is linked and has an entry. -/
structure Live (pending : Pending ε) (i : Nat) : Prop where
  linked : i ∈ pending.numbers
  occupied : (pending.entry? i).isSome = true

/-- Slots are extracted from one after the other, each of them live when its turn
comes. -/
inductive Extracts : Pending ε → List Nat → Pending ε → Prop
  | nothing {pending : Pending ε} : Extracts pending [] pending
  | next {pending middle rest : Pending ε} {i : Nat} {entry : ε} {later : List Nat} :
      pending.Live i → pending.extract? i = some (some entry, middle) →
      Extracts middle later rest → Extracts pending (i :: later) rest

theorem Holds.live {pending : Pending ε} {before after : List (Nat × ε)} {i : Nat} {entry : ε}
    (holds : Holds pending (before ++ (i, entry) :: after)) : pending.Live i where
  linked := by simp [holds.numbers_eq]
  occupied := by simp [holds.entry?_eq]

end Pending

namespace Parsing

open Pending

variable {ν : Type}

/-! ## What an iteration extracts -/

/-- The slot that an operand is taken from, and what is extracted from the sequence
that is left if there is an operand. -/
def operandSlots (pending : Pending (Entry ν)) (i : Nat) (token : Token) (side : Side)
    (later : Pending (Entry ν) → List Nat) : List Nat :=
  (side.neighbour? pending i).toList ++
    match takeOperand pending i token side with
    | .ok (_, rest) => later rest
    | .error _ => []

/-- The slots that `reduce` extracts from, in order. -/
def extractions (pending : Pending (Entry ν)) (i : Nat) (token : Token) : List Nat :=
  match token.kind with
  | .operator =>
      operandSlots pending i token .left fun afterLeft =>
        operandSlots afterLeft i token .right fun _ => []
  | .openParen =>
      operandSlots pending i token .right fun afterContent => (afterContent.behind? i).toList
  | .function =>
      match Elementary.ofName? token.text with
      | some _ => operandSlots pending i token .right fun _ => []
      | none => []
  | .identifier | .number | .closeParen | .stray => []

variable {pending : Pending (Entry ν)} {i : Nat} {token : Token} {before after : List (Entry ν)}

/-- What stands beside a token can be extracted, and then the token still stands between
entries. -/
theorem HoldsAround.extracts_neighbour (around : HoldsAround pending i before token after)
    (side : Side) {j : Nat} (beside : side.neighbour? pending i = some j) :
    ∃ entry rest before' after', pending.Live j ∧
      pending.extract? j = some (some entry, rest) ∧
      HoldsAround rest i before' token after' := by
  rcases around with ⟨left, right, holds, -, -⟩
  cases side with
  | left =>
      rw [Side.neighbour?, holds.before?_eq] at beside
      rcases List.eq_nil_or_concat' left with rfl | ⟨left, ⟨k, entry⟩, rfl⟩
      · simp at beside
      · simp only [lastNumber_concat, Option.some.injEq] at beside
        subst beside
        have nearest : Holds pending (left ++ (k, entry) :: ((i, .token token) :: right)) := by
          simpa using holds
        rcases nearest.extract? with ⟨rest, extracted, remains⟩
        exact ⟨entry, rest, _, _, nearest.live, extracted, left, right, remains, rfl, rfl⟩
  | right =>
      rw [Side.neighbour?, holds.behind?_eq] at beside
      rcases right with _ | ⟨⟨k, entry⟩, right⟩
      · simp at beside
      · simp only [firstNumber_cons, Option.some.injEq] at beside
        subst beside
        have nearest : Holds pending ((left ++ [(i, .token token)]) ++ (k, entry) :: right) := by
          simpa using holds
        rcases nearest.extract? with ⟨rest, extracted, remains⟩
        exact ⟨entry, rest, _, _, nearest.live, extracted, left, right, by simpa using remains,
          rfl, rfl⟩

/-- An operand that was taken was extracted from the slot beside the token. -/
theorem extract?_of_takeOperand {side : Side} {expr : Expr ν Token} {rest : Pending (Entry ν)}
    (taken : takeOperand pending i token side = .ok (expr, rest)) :
    ∃ j, side.neighbour? pending i = some j ∧
      pending.extract? j = some (some (.expr expr), rest) := by
  unfold takeOperand at taken
  split at taken
  · next expr' rest' found =>
    cases taken
    exact Option.bind_eq_some_iff.mp found
  · cases taken
  · cases taken

/-- A closing parenthesis that was taken was extracted from the slot behind the token. -/
theorem extract?_of_takeClosing {rest : Pending (Entry ν)}
    (taken : takeClosing pending i token = .ok rest) :
    ∃ j entry, pending.behind? i = some j ∧
      pending.extract? j = some (some entry, rest) := by
  unfold takeClosing at taken
  split at taken
  · next entry rest' found =>
    split at taken
    · cases taken
      obtain ⟨j, behind, extracted⟩ := Option.bind_eq_some_iff.mp found
      exact ⟨j, _, behind, extracted⟩
    · cases taken
  · cases taken

/-- Taking an operand extracts from a live slot, and so does what follows if it does. -/
theorem HoldsAround.extracts_operand (around : HoldsAround pending i before token after)
    (side : Side) {later : Pending (Entry ν) → List Nat} {Final : Pending (Entry ν) → Prop}
    (refused : ∀ fault final, takeOperand pending i token side = .error fault → Final final)
    (taken : ∀ expr rest before after, takeOperand pending i token side = .ok (expr, rest) →
      HoldsAround rest i before token after → ∃ final, Extracts rest (later rest) final ∧
        Final final) :
    ∃ final, Extracts pending (operandSlots pending i token side later) final ∧ Final final := by
  cases result : takeOperand pending i token side with
  | error fault =>
      simp only [operandSlots, result, List.append_nil]
      cases beside : side.neighbour? pending i with
      | none => exact ⟨pending, .nothing, refused fault pending result⟩
      | some j =>
          obtain ⟨_, rest, _, _, live, extracted, _⟩ := around.extracts_neighbour side beside
          exact ⟨rest, .next live extracted .nothing, refused fault rest result⟩
  | ok answer =>
      rcases answer with ⟨expr, rest⟩
      obtain ⟨j, beside, extracted⟩ := extract?_of_takeOperand result
      obtain ⟨_, rest', _, _, live, extracted', around'⟩ :=
        around.extracts_neighbour side beside
      rw [extracted] at extracted'
      cases extracted'
      obtain ⟨final, extracts, reached⟩ := taken expr rest _ _ result around'
      simp only [operandSlots, result, beside, Option.toList_some, List.singleton_append]
      exact ⟨final, .next live extracted extracts, reached⟩

/-- The slots are live in their turn, and what is left when all are extracted is what is left
by the reduction. -/
def ExtractsLive [Numeral ν] (pending : Pending (Entry ν)) (i : Nat) (token : Token)
    (slots : List Nat) : Prop :=
  ∃ final, Extracts pending slots final ∧
    ∀ (expr : Expr ν Token) rest, reduce pending i token = .ok (expr, rest) → rest = final

variable [Numeral ν]

theorem HoldsAround.extractsLive_operator (around : HoldsAround pending i before token after)
    (kind : token.kind = .operator) :
    ExtractsLive pending i token
      (operandSlots pending i token .left fun afterLeft =>
        operandSlots afterLeft i token .right fun _ => []) := by
  refine around.extracts_operand .left ?_ ?_
  · intro fault final refused expr rest reduced
    simp [reduce, kind, refused, bind, Except.bind] at reduced
  · intro left afterLeft before after takenLeft aroundLeft
    refine aroundLeft.extracts_operand .right ?_ ?_
    · intro fault final refused expr rest reduced
      simp [reduce, kind, takenLeft, refused, bind, Except.bind] at reduced
    · intro right afterRight _ _ takenRight _
      refine ⟨afterRight, .nothing, ?_⟩
      intro expr rest reduced
      simp only [reduce, kind, takenLeft, takenRight, bind, Except.bind] at reduced
      split at reduced
      · cases reduced
        rfl
      · cases reduced

theorem HoldsAround.extractsLive_group (around : HoldsAround pending i before token after)
    (kind : token.kind = .openParen) :
    ExtractsLive pending i token
      (operandSlots pending i token .right fun afterContent =>
        (afterContent.behind? i).toList) := by
  refine around.extracts_operand .right ?_ ?_
  · intro fault final refused expr rest reduced
    simp [reduce, kind, refused, bind, Except.bind] at reduced
  · intro content afterContent _ _ taken aroundContent
    have closing : ∀ expr rest, reduce pending i token = .ok (expr, rest) →
        ∃ j entry, afterContent.behind? i = some j ∧
          afterContent.extract? j = some (some entry, rest) := by
      intro expr rest reduced
      simp only [reduce, kind, taken, bind, Except.bind] at reduced
      split at reduced
      · cases reduced
      · next closed =>
        cases reduced
        exact extract?_of_takeClosing closed
    cases beside : afterContent.behind? i with
    | none =>
        refine ⟨afterContent, .nothing, ?_⟩
        intro expr rest reduced
        obtain ⟨_, _, behind, _⟩ := closing expr rest reduced
        rw [beside] at behind
        cases behind
    | some j =>
        obtain ⟨_, final, _, _, live, extracted, _⟩ :=
          aroundContent.extracts_neighbour .right beside
        refine ⟨final, .next live extracted .nothing, ?_⟩
        intro expr rest reduced
        obtain ⟨_, _, behind, extracted'⟩ := closing expr rest reduced
        rw [beside] at behind
        cases behind
        rw [extracted] at extracted'
        cases extracted'
        rfl

theorem HoldsAround.extractsLive_function (around : HoldsAround pending i before token after)
    (kind : token.kind = .function) {function : Elementary}
    (named : Elementary.ofName? token.text = some function) :
    ExtractsLive pending i token (operandSlots pending i token .right fun _ => []) := by
  refine around.extracts_operand .right ?_ ?_
  · intro fault final refused expr rest reduced
    simp [reduce, kind, named, refused, bind, Except.bind] at reduced
  · intro argument afterArgument _ _ taken _
    refine ⟨afterArgument, .nothing, ?_⟩
    intro expr rest reduced
    simp only [reduce, kind, named, taken, bind, Except.bind] at reduced
    cases reduced
    rfl

/-- Where nothing is extracted, a reduction leaves the sequence as it is. -/
theorem extractsLive_nothing
    (unchanged : ∀ (expr : Expr ν Token) rest, reduce pending i token = .ok (expr, rest) →
      rest = pending) :
    ExtractsLive pending i token [] :=
  ⟨pending, .nothing, unchanged⟩

/-- Every slot that a reduction extracts from is live in its turn. -/
theorem HoldsAround.extractsLive (around : HoldsAround pending i before token after) :
    ExtractsLive pending i token (extractions pending i token) := by
  unfold extractions
  cases kind : token.kind with
  | operator => exact around.extractsLive_operator kind
  | openParen => exact around.extractsLive_group kind
  | function =>
      cases named : Elementary.ofName? token.text with
      | none => exact extractsLive_nothing (by simp [reduce, kind, named])
      | some function => exact around.extractsLive_function kind named
  | identifier => exact extractsLive_nothing (by simp [reduce, kind])
  | number =>
      refine extractsLive_nothing ?_
      intro expr rest reduced
      simp only [reduce, kind] at reduced
      split at reduced <;> cases reduced
      rfl
  | closeParen => exact extractsLive_nothing (by simp [reduce, kind])
  | stray => exact extractsLive_nothing (by simp [reduce, kind])

/-! ## The loop -/

/-- From a work list, the loop ends after a number of iterations with an answer. It goes on
as long as a token is pending. -/
inductive Runs : Pending (Entry ν) → Nat → Parsing ν → Prop
  | finished {pending : Pending (Entry ν)} : pending.highest? Entry.rank = none →
      Runs pending 0 ⟨[], finish pending⟩
  | failed {pending rest : Pending (Entry ν)} {i : Nat} {token : Token} {fault : Fault} :
      pending.highest? Entry.rank = some i → pending.entry? i = some (.token token) →
      Extracts pending (extractions pending i token) rest →
      reduce pending i token = .error fault →
      Runs pending 1 ⟨[], .error fault⟩
  | reduced {pending rest : Pending (Entry ν)} {i n : Nat} {token : Token} {expr : Expr ν Token}
      {later : Parsing ν} :
      pending.highest? Entry.rank = some i → pending.entry? i = some (.token token) →
      Extracts pending (extractions pending i token) rest →
      reduce pending i token = .ok (expr, rest) →
      Runs (rest.replace i (.expr expr)) n later →
      Runs pending (n + 1) ⟨⟨token, expr⟩ :: later.reductions, later.outcome⟩

/-- The loop has one way to go. -/
theorem Runs.unique {n m : Nat} {parsing other : Parsing ν} (runs : Runs pending n parsing)
    (runs' : Runs pending m other) : n = m ∧ parsing = other := by
  induction runs generalizing m other with
  | finished none =>
      cases runs' <;> simp_all
  | failed _ _ _ _ =>
      cases runs' <;> simp_all
  | reduced highest here _ reduced _ ih =>
      cases runs' with
      | finished none =>
          rw [highest] at none
          cases none
      | failed highest' here' _ failed =>
          simp_all
      | reduced highest' here' _ reduced' later' =>
          rw [highest] at highest'
          cases highest'
          rw [here] at here'
          cases here'
          rw [reduced] at reduced'
          cases reduced'
          rcases ih later' with ⟨rfl, rfl⟩
          exact ⟨rfl, rfl⟩

/-- What a reduction leaves of a work list. -/
theorem HoldsAround.reduced (around : HoldsAround pending i before token after)
    {expr : Expr ν Token} {rest : Pending (Entry ν)}
    (reduced : reduce pending i token = .ok (expr, rest)) :
    ∃ restBefore restAfter, Reduces before token after expr restBefore restAfter ∧
      HoldsAround rest i restBefore token restAfter := by
  rcases (reduce_agrees around).error_or_ok with ⟨fault, failed, _⟩ |
    ⟨⟨_, _⟩, ⟨_, restBefore, restAfter⟩, onSlots, onList, rfl, remains⟩
  · rw [reduced] at failed
    cases failed
  · rw [reduced] at onSlots
    cases onSlots
    exact ⟨restBefore, restAfter, reduceBetween_eq_ok_iff.mp onList, remains⟩

omit [Numeral ν] in
/-- What has the highest priority is a token. -/
theorem exists_token_of_highest? {live : List (Nat × Entry ν)} {i : Nat}
    (holds : Holds pending live) (found : pending.highest? Entry.rank = some i) :
    ∃ left token right, live = left ++ (i, .token token) :: right := by
  rcases holds.isHighest_of_highest? found with ⟨left, entry, right, highest, rfl, top⟩
  have ranked := top.ranked
  cases entry with
  | token token => exact ⟨left, token, right, rfl⟩
  | expr expr => cases ranked

/-- With at least as many steps as there are tokens, the bounded loop is the loop. -/
theorem exists_runs_reduceAll (steps : Nat) {live : List (Nat × Entry ν)}
    (holds : Holds pending live) (enough : (pendingTokens (live.map Prod.snd)).length ≤ steps) :
    ∃ n ≤ (pendingTokens (live.map Prod.snd)).length,
      Runs pending n (reduceAll steps pending) := by
  induction steps generalizing pending live with
  | zero =>
      refine ⟨0, Nat.zero_le _, .finished ?_⟩
      cases found : pending.highest? Entry.rank with
      | none => rfl
      | some i =>
          rcases exists_token_of_highest? holds found with ⟨left, token, right, rfl⟩
          simp at enough
  | succ steps ih =>
      cases found : pending.highest? Entry.rank with
      | none =>
          refine ⟨0, Nat.zero_le _, ?_⟩
          simpa [reduceAll, found] using Runs.finished found
      | some i =>
          rcases exists_token_of_highest? holds found with ⟨left, token, right, rfl⟩
          have around : HoldsAround pending i (left.map Prod.snd).reverse token
              (right.map Prod.snd) := ⟨left, right, holds, rfl, rfl⟩
          have here := holds.entry?_eq
          obtain ⟨final, extracts, leaves⟩ := around.extractsLive
          simp only [List.map_append, List.map_cons, pendingTokens_append,
            pendingTokens_token, List.length_append, List.length_cons] at enough ⊢
          cases result : reduce pending i token with
          | error fault =>
              refine ⟨1, by omega, ?_⟩
              simpa [reduceAll, found, here, result] using
                Runs.failed found here extracts result
          | ok answer =>
              rcases answer with ⟨expr, rest⟩
              have same := leaves expr rest result
              subst same
              obtain ⟨restBefore, restAfter, reduces, left', right', remains, rfl, rfl⟩ :=
                around.reduced result
              have fewer := reduces.length_pendingTokens
              simp only [length_pendingTokens_reverse] at fewer
              have replaced := remains.replace (.expr expr)
              obtain ⟨n, few, runs⟩ := ih replaced (by simp; omega)
              refine ⟨n + 1, ?_, ?_⟩
              · simp only [List.map_append, List.map_cons, pendingTokens_append,
                  pendingTokens_expr, List.length_append] at few
                omega
              · simpa [reduceAll, found, here, result] using
                  Runs.reduced found here extracts result runs

/-- From the tokens of any list the loop ends after at most one iteration for each of them,
with what they are parsed to. -/
theorem exists_runs (tokens : List Token) :
    ∃ n ≤ tokens.length,
      Runs (Pending.ofList (tokens.map Entry.token)) n (ofTokens tokens : Parsing ν) := by
  obtain ⟨live, holds, same⟩ := Holds.ofList (tokens.map (Entry.token (ν := ν)))
  have counted : (pendingTokens (live.map Prod.snd)).length = tokens.length := by
    rw [same]
    simp [pendingTokens]
  obtain ⟨n, few, runs⟩ := exists_runs_reduceAll tokens.length holds (Nat.le_of_eq counted)
  exact ⟨n, counted ▸ few, runs⟩

end Parsing

end Fluxion
