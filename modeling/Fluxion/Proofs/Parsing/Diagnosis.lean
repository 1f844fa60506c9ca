import Fluxion.Proofs.Parsing.Blame
import Fluxion.Proofs.Parsing.Brackets
import Fluxion.Proofs.Parsing.Row

/-!
# What a report means

A run fails in the order of the priorities, after parts of the tokens have been
joined to expressions, yet what is reported is true of the tokens as they stand
in the source. A closing parenthesis whose turn comes has no partner, because the
partner would have had its turn before. Where a token has no neighbour in the
list, it has none in the source. And where several expressions are left, the
source is several expressions in a row.
-/

namespace Fluxion

variable {ν : Type}

/-- No two faults that blame a token have the same report. -/
theorem Fault.eq_of_report?_eq {fault other : Fault} {message : String} {token : Token}
    (reported : other.report? = some ⟨.grammatical, message, some token⟩)
    (same : fault.report? = other.report?) : fault = other := by
  cases other with
  | missingOperand side _ =>
      clear reported
      cases side <;> rcases fault with _ | _ | ⟨_ | _, _⟩ | _ <;> simp_all [report?, Side.word]
  | unexpectedToken _ | unclosedParen _ | unmatchedParen _ | severalValues _ =>
      clear reported
      rcases fault with _ | _ | ⟨_ | _, _⟩ | _ <;> simp_all [report?, Side.word]
  | _ => simp [report?] at reported

namespace Parsing

/-! ## One step -/

theorem nearestOperand_eq_error_iff {side : Side} {token : Token} {entries : List (Entry ν)}
    {fault : Fault} :
    nearestOperand side token entries = .error fault ↔
      (entries = [] ∧ fault = .missingOperand side token) ∨
        ∃ other rest, entries = .token other :: rest ∧ fault = .unexpectedToken other := by
  constructor
  · intro refused
    rcases entries with _ | ⟨other | expr, entries⟩ <;> cases refused
    · exact Or.inl ⟨rfl, rfl⟩
    · exact Or.inr ⟨other, entries, rfl, rfl⟩
  · rintro (⟨rfl, rfl⟩ | ⟨other, rest, rfl, rfl⟩) <;> rfl

theorem exists_unclosedParen_of_nearestClosing {token : Token} {entries : List (Entry ν)}
    {fault : Fault} (refused : nearestClosing token entries = .error fault) :
    ∃ blamed, fault = .unclosedParen blamed := by
  rcases entries with _ | ⟨⟨kind, text, column, priority⟩ | expr, entries⟩
  · cases refused
    exact ⟨_, rfl⟩
  · cases kind <;> cases refused <;> exact ⟨_, rfl⟩
  · cases refused
    exact ⟨_, rfl⟩

variable [Numeral ν]

/-- A token between entries cannot be reduced. -/
inductive Refuses : List (Entry ν) → Token → List (Entry ν) → Fault → Prop
  | noLeft {token : Token} {after : List (Entry ν)} : token.kind = .operator →
      Refuses [] token after (.missingOperand .left token)
  | noRight {before : List (Entry ν)} {token : Token} :
      Refuses before token [] (.missingOperand .right token)
  | pendingOperand {before after : List (Entry ν)} {token other : Token} :
      .token other ∈ before ++ after → Refuses before token after (.unexpectedToken other)
  | notClosed {before after : List (Entry ν)} {token blamed : Token} : token.kind = .openParen →
      Refuses before token after (.unclosedParen blamed)
  | notNamed {before after : List (Entry ν)} {token : Token} :
      Refuses before token after (.unknownName token.text)
  | notRead {before after : List (Entry ν)} {token : Token} : token.kind = .number →
      Refuses before token after (.unreadableNumber token.text)
  | notOpened {before after : List (Entry ν)} {token : Token} :
      token.kind = .closeParen ∨ token.kind = .stray →
      Refuses before token after (.unmatchedParen token)

omit [Numeral ν] in
/-- The operand on the right may be missing or pending. -/
theorem refuses_of_nearestOperand {before after : List (Entry ν)} {token : Token} {fault : Fault}
    (refused : nearestOperand .right token after = .error fault) :
    Refuses before token after fault := by
  rcases nearestOperand_eq_error_iff.mp refused with ⟨rfl, rfl⟩ | ⟨other, rest, rfl, rfl⟩
  · exact .noRight
  · exact .pendingOperand (by simp)

theorem refuses_of_reduceBetween {before after : List (Entry ν)} {token : Token} {fault : Fault}
    (refused : reduceBetween before.reverse token after = .error fault) :
    Refuses before token after fault := by
  unfold reduceBetween at refused
  cases kind : token.kind with
  | operator =>
      simp only [kind, bind_eq_error_iff, Prod.exists, nearestOperand_eq_ok_iff] at refused
      rcases refused with
        noOperand | ⟨left, restBefore, _, noOperand | ⟨right, restAfter, rfl, named⟩⟩
      · rcases nearestOperand_eq_error_iff.mp noOperand with ⟨none, rfl⟩ | ⟨other, rest, next, rfl⟩
        · rw [List.reverse_eq_nil_iff.mp none]
          exact .noLeft kind
        · have member : Entry.token other ∈ before := by
            rw [← List.mem_reverse, next]
            exact List.mem_cons_self
          exact .pendingOperand (List.mem_append_left after member)
      · exact refuses_of_nearestOperand noOperand
      · cases found : Operator.ofText? token.text with
        | none =>
            rw [found] at named
            cases named
            exact .notNamed
        | some symbol => simp [found] at named
  | openParen =>
      simp only [kind, bind_eq_error_iff, Prod.exists, nearestOperand_eq_ok_iff] at refused
      rcases refused with noOperand | ⟨content, rest, rfl, unclosed | ⟨_, _, done⟩⟩
      · exact refuses_of_nearestOperand noOperand
      · obtain ⟨blamed, rfl⟩ := exists_unclosedParen_of_nearestClosing unclosed
        exact .notClosed kind
      · cases done
  | function =>
      simp only [kind] at refused
      cases found : Elementary.ofName? token.text with
      | none =>
          rw [found] at refused
          cases refused
          exact .notNamed
      | some function =>
          simp only [found, bind_eq_error_iff, Prod.exists] at refused
          rcases refused with noOperand | ⟨argument, rest, _, done⟩
          · exact refuses_of_nearestOperand noOperand
          · cases done
  | identifier =>
      simp only [kind] at refused
      cases refused
  | number =>
      simp only [kind] at refused
      cases found : (Numeral.read? token.text : Option ν) with
      | none =>
          rw [found] at refused
          cases refused
          exact .notRead kind
      | some value => simp [found] at refused
  | closeParen =>
      simp only [kind] at refused
      cases refused
      exact .notOpened (Or.inl kind)
  | stray =>
      simp only [kind] at refused
      cases refused
      exact .notOpened (Or.inr kind)

/-! ## The whole run -/

/-- Where no token is pending, blocks are phrases and the entries are what they say. -/
theorem ShowAll.exists_phrases {blocks : List Block} {entries : List (Entry ν)}
    (shown : ShowAll blocks entries) (none : ∀ token, Entry.token token ∉ entries) :
    ∃ (phrases : List Phrase) (exprs : List (Expr ν Token)), blocks = phrases.map .phrase ∧
      entries = exprs.map .expr ∧
      List.Forall₂ (fun phrase expr => phrase.expr? = some expr) phrases exprs := by
  induction shown with
  | nil => exact ⟨[], [], rfl, rfl, .nil⟩
  | @cons block entry blocks entries head _ ih =>
      obtain ⟨phrases, exprs, rfl, rfl, meanings⟩ :=
        ih fun token member => none token (List.mem_cons_of_mem _ member)
      cases block with
      | token pending =>
          rw [show entry = Entry.token pending from head] at none
          exact absurd List.mem_cons_self (none pending)
      | phrase built =>
          obtain ⟨expr, meaning, rfl⟩ := head
          exact ⟨built :: phrases, expr :: exprs, rfl, rfl, .cons meaning meanings⟩

theorem says_of_meanings {phrases : List Phrase} {exprs : List (Expr ν Token)}
    {depth final : Int} (ranked : Ranked depth (phrases.flatMap Phrase.tokens) final)
    (layered : ∀ phrase ∈ phrases, phrase.Layered)
    (meanings : List.Forall₂ (fun phrase expr => phrase.expr? = some expr) phrases exprs) :
    List.Forall₂ Says phrases exprs := by
  induction meanings generalizing depth with
  | nil => exact .nil
  | cons meaning _ ih =>
      obtain ⟨middle, headRanked, restRanked⟩ := Ranked.append.mp ranked
      exact .cons ⟨layered _ List.mem_cons_self, ⟨_, _, headRanked⟩, meaning⟩
        (ih restRanked fun phrase member => layered phrase (List.mem_cons_of_mem _ member))

/-- How tokens fail to be parsed: at a token that leads all that is left, with blocks on both
sides of it, or because they are phrases in a row and not just one. -/
inductive Fails (ν : Type) [Numeral ν] (tokens : List Token) : Fault → Prop
  | stuck {beforeBlocks afterBlocks : List Block} {before after : List (Entry ν)} {token : Token}
      {fault : Fault} : Partition tokens (beforeBlocks ++ .token token :: afterBlocks) →
      ShowAll beforeBlocks before → ShowAll afterBlocks after → Leads before token after →
      Refuses before token after fault → Fails ν tokens fault
  | unsettled {phrases : List Phrase} {exprs : List (Expr ν Token)} {fault : Fault} :
      tokens = phrases.flatMap Phrase.tokens → List.Forall₂ Says phrases exprs →
      verdict (exprs.map Entry.expr) = .error fault → Fails ν tokens fault

theorem fails_of_outcome {tokens : List Token} {depth final : Int}
    (ranked : Ranked depth tokens final) {fault : Fault}
    (refused : (ofTokens tokens : Parsing ν).outcome = .error fault) : Fails ν tokens fault := by
  obtain ⟨last, blocks, partition, shown, ends⟩ := exists_partition_at_end (ν := ν) ranked
  rw [refused] at ends
  cases ends with
  | verdict none answer =>
      obtain ⟨phrases, exprs, rfl, rfl, meanings⟩ := shown.exists_phrases none
      have covers : tokens = phrases.flatMap Phrase.tokens := by
        rw [← partition.covers, List.flatMap_map]
        rfl
      have layered : ∀ phrase ∈ phrases, phrase.Layered := fun phrase member =>
        partition.layered phrase (List.mem_map_of_mem member)
      exact .unsettled covers (says_of_meanings (covers ▸ ranked) layered meanings) answer
  | fault split leads stuck =>
      subst split
      obtain ⟨beforeBlocks, others, rfl, shownBefore, shownOthers⟩ := shown.split
      obtain ⟨afterBlocks, rfl, shownAfter⟩ := shownOthers.cons_token
      exact .stuck partition shownBefore shownAfter leads (refuses_of_reduceBetween stuck)

/-! ## What the tokens are like -/

section Tokens

variable {tokens : List Token}

/-- A closing parenthesis that leads what is left has no partner: the partner would be pending,
and it would lead. -/
theorem Partition.openBehind_eq_nil {depth final : Int} (ranked : Ranked depth tokens final)
    {beforeBlocks afterBlocks : List Block} {closing : Token}
    (partition : Partition tokens (beforeBlocks ++ .token closing :: afterBlocks))
    {before after : List (Entry ν)} (shownBefore : ShowAll beforeBlocks before)
    (leads : Leads before closing after) (closes : closing.kind = .closeParen) :
    openBehind (beforeBlocks.flatMap Block.tokens) = [] := by
  rcases isOpen : openBehind (beforeBlocks.flatMap Block.tokens) with _ | ⟨opening, opened⟩
  · rfl
  · obtain ⟨earlier, content, covers, opens, nested, _⟩ := exists_nested_of_openBehind isOpen
    have layered : ∀ phrase, Block.phrase phrase ∈ beforeBlocks → phrase.Layered :=
      fun phrase member => partition.layered phrase (List.mem_append_left _ member)
    have pending := mem_blocks_of_open layered covers opens nested
    have below := leads.below opening (shownBefore.token_mem pending)
    have split : tokens =
        earlier ++ opening :: (content ++ closing :: afterBlocks.flatMap Block.tokens) := by
      rw [← partition.covers, List.flatMap_append, covers]
      simp [Block.tokens]
    have above := closing_lt_opening (split ▸ ranked) opens nested closes
    exact absurd below (Int.not_lt.mpr (Int.le_of_lt above))

omit [Numeral ν] in
/-- The verdict on expressions is that there are none, one or several. -/
theorem fault_of_verdict {exprs : List (Expr ν Token)} {fault : Fault}
    (refused : verdict (exprs.map .expr) = .error fault) :
    fault = .emptyInput ∨ ∃ token, fault = .severalValues token := by
  rcases exprs with _ | ⟨first, _ | ⟨second, others⟩⟩ <;> cases refused
  · exact Or.inl rfl
  · exact Or.inr ⟨_, rfl⟩

theorem Fails.unmatched {depth final : Int} (ranked : Ranked depth tokens final)
    (noStray : ∀ token ∈ tokens, token.kind ≠ .stray) {token : Token}
    (fails : Fails ν tokens (.unmatchedParen token)) :
    token.kind = .closeParen ∧
      ∃ before after, tokens = before ++ token :: after ∧ openBehind before = [] := by
  cases fails with
  | @stuck beforeBlocks afterBlocks _ _ _ _ partition shownBefore _ leads refuses =>
      cases refuses with
      | notOpened kind =>
          have split : tokens = beforeBlocks.flatMap Block.tokens ++
              token :: afterBlocks.flatMap Block.tokens := by
            rw [← partition.covers]
            simp [Block.tokens]
          rcases kind with closes | isStray
          · exact ⟨closes, _, _, split,
              partition.openBehind_eq_nil ranked shownBefore leads closes⟩
          · exact absurd isStray (noStray token (by simp [split]))
  | unsettled _ _ answer => rcases fault_of_verdict answer with same | ⟨_, same⟩ <;> cases same

theorem Fails.left {token : Token} (fails : Fails ν tokens (.missingOperand .left token)) :
    token.kind = .operator ∧ tokens.head? = some token := by
  cases fails with
  | stuck partition shownBefore _ _ refuses =>
      cases refuses with
      | noLeft kind =>
          cases shownBefore
          rw [← partition.covers]
          exact ⟨kind, rfl⟩
  | unsettled _ _ answer => rcases fault_of_verdict answer with same | ⟨_, same⟩ <;> cases same

theorem Fails.right {token : Token} (fails : Fails ν tokens (.missingOperand .right token)) :
    tokens.getLast? = some token := by
  cases fails with
  | stuck partition _ shownAfter _ refuses =>
      cases refuses with
      | noRight =>
          cases shownAfter
          rw [← partition.covers]
          simp [Block.tokens]
  | unsettled _ _ answer => rcases fault_of_verdict answer with same | ⟨_, same⟩ <;> cases same

omit [Numeral ν] in
/-- Several expressions are left if there is more than one, and the first one is blamed. -/
theorem verdict_eq_severalValues_iff {exprs : List (Expr ν Token)} {token : Token} :
    verdict (exprs.map .expr) = .error (.severalValues token) ↔
      1 < exprs.length ∧ exprs.head?.map Expr.mark = some token := by
  rcases exprs with _ | ⟨first, _ | ⟨second, others⟩⟩
  · simp [verdict]
  · simp [verdict]
  · simp [verdict, Entry.source]

/-- Tokens are several expressions if and only if they are several sequences one behind the
other each of which is parsed on its own. -/
theorem outcome_eq_severalValues_iff {depth final : Int} (ranked : Ranked depth tokens final)
    {token : Token} :
    (ofTokens tokens : Parsing ν).outcome = .error (.severalValues token) ↔
      ∃ (parts : List (List Token)) (trees : List (Expr ν Token)),
        tokens = parts.flatten ∧ 1 < parts.length ∧
          List.Forall₂ (fun part tree => (ofTokens part).outcome = .ok tree) parts trees ∧
          trees.head?.map Expr.mark = some token := by
  constructor
  · intro refused
    cases fails_of_outcome ranked refused with
    | stuck _ _ _ _ refuses =>
          cases refuses
    | unsettled covers say answer =>
        obtain ⟨several, first⟩ := verdict_eq_severalValues_iff.mp answer
        rw [← say.length_eq] at several
        exact ⟨_, _, by rw [covers, List.flatMap_def], by rwa [List.length_map],
          outcomes_of_row say, first⟩
  · rintro ⟨parts, trees, rfl, several, parsed, first⟩
    obtain ⟨phrases, rfl, say⟩ := exists_phrases_of_outcomes ranked parsed
    rw [parsed.length_eq] at several
    rw [← List.flatMap_def, outcome_of_row say]
    exact verdict_eq_severalValues_iff.mpr ⟨several, first⟩

end Tokens

end Parsing

/-! ## Reading a source -/

/-- A source is refused with a message on one of its tokens. -/
def RefusedWith (ν : Type) [Numeral ν] (source message : String) (token : Token) : Prop :=
  ∃ fault, (Expr.read source : Except Fault (Expr ν Token)) = .error fault ∧
    fault.report? = some ⟨.grammatical, message, some token⟩

/-- A message belongs to one fault. -/
theorem refusedWith_iff [Numeral ν] {source message : String} {tokens : List Token}
    (lexes : (Lexed.ofSource source).prioritized = .ok tokens) {fault : Fault} {token : Token}
    (reported : fault.report? = some ⟨.grammatical, message, some token⟩) :
    RefusedWith ν source message token ↔
      (Parsing.ofTokens tokens : Parsing ν).outcome = .error fault := by
  have sameParse : (Expr.read source : Except Fault (Expr ν Token)) =
      (Parsing.ofTokens tokens).outcome := by
    rw [Expr.read, Parsing.ofSource, lexes]
  rw [RefusedWith, sameParse]
  constructor
  · rintro ⟨other, refused, reported'⟩
    rw [refused, Fault.eq_of_report?_eq reported (reported'.trans reported.symm)]
  · intro refused
    exact ⟨fault, refused, reported⟩

/-- What is reported of a source that can be cut into tokens is true of these tokens. A closing
parenthesis that is called unmatched has no partner. A token that misses its left operand is an
operator and the first token, one that misses its right operand is the last token. And several
values are reported exactly if the tokens are two or more sequences each of which is parsed on
its own, and then on the token that the first of them comes from. -/
theorem refusedWith_truthful [Numeral ν] {source : String} {tokens : List Token}
    (lexes : (Lexed.ofSource source).prioritized = .ok tokens) :
    (∀ token, RefusedWith ν source "Unmatched closing parenthesis" token →
        token.kind = .closeParen ∧
          ∃ before after, tokens = before ++ token :: after ∧ openBehind before = []) ∧
      (∀ token, RefusedWith ν source "Expected an operand to the left" token →
        token.kind = .operator ∧ tokens.head? = some token) ∧
      (∀ token, RefusedWith ν source "Expected an operand to the right" token →
        tokens.getLast? = some token) ∧
      ∀ token, RefusedWith ν source "Expression does not evaluate to a single value" token ↔
        ∃ (parts : List (List Token)) (trees : List (Expr ν Token)),
          tokens = parts.flatten ∧ 1 < parts.length ∧
            List.Forall₂ (fun part tree => (Parsing.ofTokens part).outcome = .ok tree)
              parts trees ∧
            trees.head?.map Expr.mark = some token := by
  obtain ⟨final, ranked⟩ := Lexed.ranked_of_prioritized lexes
  have noStray := Lexed.kind_ne_stray_of_prioritized lexes
  refine ⟨?_, ?_, ?_, ?_⟩
  · intro token refused
    exact (Parsing.fails_of_outcome ranked ((refusedWith_iff lexes rfl).mp refused)).unmatched
      ranked noStray
  · intro token refused
    exact (Parsing.fails_of_outcome ranked ((refusedWith_iff lexes rfl).mp refused)).left
  · intro token refused
    exact (Parsing.fails_of_outcome ranked ((refusedWith_iff lexes rfl).mp refused)).right
  · intro token
    exact (refusedWith_iff lexes rfl).trans (Parsing.outcome_eq_severalValues_iff ranked)

/-- In `(x)(y)` both groups are parsed on their own, so there are several values, and the first
opening parenthesis is blamed. -/
theorem refusedWith_truthful_groups :
    RefusedWith Float "(x)(y)" "Expression does not evaluate to a single value"
      ⟨.openParen, "(", 1, 5⟩ := by
  have lexes : (Lexed.ofSource "(x)(y)").prioritized =
      .ok [⟨.openParen, "(", 1, 5⟩, ⟨.identifier, "x", 2, 10⟩, ⟨.closeParen, ")", 3, 0⟩,
        ⟨.openParen, "(", 4, 5⟩, ⟨.identifier, "y", 5, 10⟩, ⟨.closeParen, ")", 6, 0⟩] := by
    decide +kernel
  have group : ∀ (column : Int) (name : String),
      (Parsing.ofTokens [⟨.openParen, "(", column, 5⟩, ⟨.identifier, name, column + 1, 10⟩,
        ⟨.closeParen, ")", column + 2, 0⟩]).outcome =
          .ok (.var ⟨.openParen, "(", column, 5⟩ name : Expr Float Token) := by
    intro column name
    rw [Parsing.ofTokens_eq_settle]
    simp [Parsing.settle, Parsing.select, Parsing.reduceBetween, Parsing.nearestOperand,
      Parsing.nearestClosing, bind, Except.bind, Parsing.verdict, Expr.withMark]
  exact ((refusedWith_truthful lexes).2.2.2 _).mpr
    ⟨[_, _], [_, _], rfl, Nat.lt_add_one 1, .cons (group 1 "x") (.cons (group 4 "y") .nil), rfl⟩

end Fluxion
