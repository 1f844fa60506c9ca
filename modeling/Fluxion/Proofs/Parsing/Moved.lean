import Fluxion.Proofs.Parsing.Settling

/-!
# Moved tokens

The parser looks at the kinds, the texts and the priorities of tokens, and hands their
columns on to what it says of them. If tokens are moved to other columns, it makes the
same reductions and comes to the same end, with the moved tokens in the places of the
old ones.

So columns can be used to tell tokens apart. If every token is moved to the column that
is its place in the list, tokens that are equal otherwise differ, and the marks of an
expression say which token each of its nodes was made from.
-/

namespace Fluxion

variable {ν : Type}

/-! ## Moved tokens -/

/-- The token at another column. -/
def Token.moved (place : Int → Int) (token : Token) : Token :=
  { token with column := place token.column }

@[simp]
theorem Token.moved_priority (place : Int → Int) (token : Token) :
    (token.moved place).priority = token.priority :=
  rfl

/-- The fault with the token it is about at another column. -/
def Fault.moved (place : Int → Int) : Fault → Fault
  | strayCharacter token => strayCharacter (token.moved place)
  | missingOperand side token => missingOperand side (token.moved place)
  | unexpectedToken token => unexpectedToken (token.moved place)
  | unclosedParen token => unclosedParen (token.moved place)
  | unmatchedParen token => unmatchedParen (token.moved place)
  | severalValues token => severalValues (token.moved place)
  | fault => fault

/-- What is said of tokens is said of them where they are moved. -/
theorem Fault.report?_moved {fault : Fault} {message : String} {token : Option Token}
    (reported : fault.report? = some ⟨.grammatical, message, token⟩) (place : Int → Int) :
    (fault.moved place).report? = some ⟨.grammatical, message, token.map (Token.moved place)⟩ := by
  cases fault <;> cases reported <;> rfl

namespace Parsing

/-- The entry with its tokens at other columns. -/
def movedEntry (place : Int → Int) : Entry ν → Entry ν
  | .token token => .token (token.moved place)
  | .expr expr => .expr (expr.map (Token.moved place))

/-- The answer with a function applied to it, or the fault at another column. -/
def movedAnswer {α β : Type} (place : Int → Int) (f : α → β) : Except Fault α → Except Fault β
  | .ok answer => .ok (f answer)
  | .error fault => .error (fault.moved place)

variable {place : Int → Int}

theorem movedAnswer_bind {α β α' β' : Type} {f : α → α'} {g : β → β'} {first : Except Fault α}
    {next : α → Except Fault β} {next' : α' → Except Fault β'}
    (same : ∀ answer, next' (f answer) = movedAnswer place g (next answer)) :
    movedAnswer place f first >>= next' = movedAnswer place g (first >>= next) := by
  cases first with
  | error fault => rfl
  | ok answer => exact same answer

/-! ## One step -/

theorem nearestOperand_moved (side : Side) (token : Token) (entries : List (Entry ν)) :
    nearestOperand side (token.moved place) (entries.map (movedEntry place)) =
      movedAnswer place (Prod.map (Expr.map (Token.moved place)) (List.map (movedEntry place)))
        (nearestOperand side token entries) := by
  rcases entries with _ | ⟨_ | _, entries⟩ <;> rfl

theorem nearestClosing_moved (token : Token) (entries : List (Entry ν)) :
    nearestClosing (token.moved place) (entries.map (movedEntry place)) =
      movedAnswer place (List.map (movedEntry place)) (nearestClosing token entries) := by
  rcases entries with _ | ⟨⟨kind, _, _, _⟩ | expr, entries⟩
  · rfl
  · cases kind <;> rfl
  · simp [nearestClosing, movedEntry, movedAnswer, Fault.moved, Entry.source]

theorem map_withMark (f : Token → Token) (token : Token) (expr : Expr ν Token) :
    (expr.withMark token).map f = (expr.map f).withMark (f token) := by
  cases expr <;> rfl

variable [Numeral ν]

theorem reduceBetween_moved (before : List (Entry ν)) (token : Token) (after : List (Entry ν)) :
    reduceBetween (before.map (movedEntry place)) (token.moved place)
        (after.map (movedEntry place)) =
      movedAnswer place
        (Prod.map (Expr.map (Token.moved place))
          (Prod.map (List.map (movedEntry place)) (List.map (movedEntry place))))
        (reduceBetween before token after) := by
  rcases token with ⟨kind, text, column, priority⟩
  cases kind with
  | operator =>
      refine (congrArg (· >>= _) (nearestOperand_moved .left _ before)).trans ?_
      refine movedAnswer_bind fun (left, before) => ?_
      refine (congrArg (· >>= _) (nearestOperand_moved .right _ after)).trans ?_
      refine movedAnswer_bind fun (right, after) => ?_
      dsimp only [Token.moved]
      cases Operator.ofText? text <;> rfl
  | openParen =>
      refine (congrArg (· >>= _) (nearestOperand_moved .right _ after)).trans ?_
      refine movedAnswer_bind fun (content, after) => ?_
      refine (congrArg (· >>= _) (nearestClosing_moved _ after)).trans ?_
      refine movedAnswer_bind fun after => ?_
      rw [movedAnswer, Prod.map, map_withMark]
      rfl
  | function =>
      unfold reduceBetween
      dsimp only [Token.moved]
      cases Elementary.ofName? text with
      | none => rfl
      | some function =>
          dsimp only
          refine (congrArg (· >>= _) (nearestOperand_moved .right
            ⟨.function, text, column, priority⟩ after)).trans ?_
          exact movedAnswer_bind fun (argument, after) => rfl
  | identifier => rfl
  | number =>
      unfold reduceBetween
      dsimp only [Token.moved]
      cases (Numeral.read? text : Option ν) <;> rfl
  | closeParen => rfl
  | stray => rfl

omit [Numeral ν] in
theorem select_moved (entries : List (Entry ν)) :
    select (entries.map (movedEntry place)) =
      (select entries).map
        (Prod.map (List.map (movedEntry place))
          (Prod.map (Token.moved place) (List.map (movedEntry place)))) := by
  induction entries with
  | nil => rfl
  | cons entry rest ih =>
      cases entry with
      | expr expr =>
          rw [List.map_cons, movedEntry, select, ih, select, Option.map_map, Option.map_map]
          rfl
      | token first =>
          rw [List.map_cons, movedEntry, select, ih, select]
          cases select rest with
          | none => rfl
          | some choice =>
              rcases choice with ⟨before, token, after⟩
              by_cases overtaken : first.priority < token.priority <;>
                simp [overtaken, movedEntry]

omit [Numeral ν] in
theorem verdict_moved (entries : List (Entry ν)) :
    verdict (entries.map (movedEntry place)) =
      movedAnswer place (Expr.map (Token.moved place)) (verdict entries) := by
  rcases entries with _ | ⟨entry, _ | ⟨other, entries⟩⟩
  · rfl
  · cases entry <;> rfl
  · cases entry with
    | token token => rfl
    | expr expr => simp [verdict, movedEntry, movedAnswer, Fault.moved, Entry.source]

/-! ## The whole run -/

theorem outcome_settle_moved (steps : Nat) (entries : List (Entry ν)) :
    (settle steps (entries.map (movedEntry place))).outcome =
      movedAnswer place (Expr.map (Token.moved place)) (settle steps entries).outcome := by
  induction steps generalizing entries with
  | zero => exact verdict_moved entries
  | succ steps ih =>
      rw [settle, select_moved, settle]
      cases select entries with
      | none => exact verdict_moved entries
      | some choice =>
          rcases choice with ⟨before, token, after⟩
          dsimp only [Option.map_some, Prod.map]
          rw [← List.map_reverse, reduceBetween_moved]
          cases reduceBetween before.reverse token after with
          | error fault => rfl
          | ok answer =>
              rcases answer with ⟨expr, restBefore, restAfter⟩
              have again := ih (restBefore.reverse ++ .expr expr :: restAfter)
              rw [List.map_append, List.map_cons, List.map_reverse] at again
              exact again

/-- Moved tokens are parsed to what the tokens are parsed to, with the tokens moved. -/
theorem outcome_ofTokens_moved (place : Int → Int) (tokens : List Token) :
    (ofTokens (tokens.map (Token.moved place)) : Parsing ν).outcome =
      movedAnswer place (Expr.map (Token.moved place)) (ofTokens tokens).outcome := by
  have entries : ((tokens.map (Token.moved place)).map Entry.token : List (Entry ν)) =
      (tokens.map Entry.token).map (movedEntry place) := by
    rw [List.map_map, List.map_map]
    rfl
  rw [ofTokens_eq_settle, ofTokens_eq_settle, List.length_map, entries, outcome_settle_moved]

/-! ## Numbered tokens -/

/-- The tokens, each at the column that is its place among them. -/
def numbered (tokens : List Token) : List Token :=
  tokens.zipIdx.map fun (token, place) => token.moved fun _ => place

/-- The column of the token at a place. -/
def columnAt (tokens : List Token) (place : Int) : Int :=
  (tokens[place.toNat]?.map Token.column).getD 0

/-- No two tokens have the same number. -/
theorem places_numbered (tokens : List Token) :
    (numbered tokens).map (fun token => token.column.toNat) = List.range tokens.length := by
  have numbers : (fun token : Token => token.column.toNat) ∘
      (fun (token, place) => Token.moved (fun _ => (place : Nat)) token) = Prod.snd := rfl
  rw [numbered, List.map_map, numbers, List.zipIdx_map_snd, List.range_eq_range']

/-- The numbered tokens are the tokens, moved. -/
theorem map_moved_numbered (tokens : List Token) :
    (numbered tokens).map (Token.moved (columnAt tokens)) = tokens := by
  have back : ∀ entry ∈ tokens.zipIdx,
      (entry.1.moved fun _ => (entry.2 : Int)).moved (columnAt tokens) = entry.1 := by
    rintro ⟨token, place⟩ member
    have found := List.mem_zipIdx_iff_getElem?.mp member
    simp only [Token.moved, columnAt, Int.toNat_natCast, found, Option.map_some, Option.getD_some]
  calc (numbered tokens).map (Token.moved (columnAt tokens))
      = tokens.zipIdx.map fun entry =>
          (entry.1.moved fun _ => (entry.2 : Int)).moved (columnAt tokens) := by
        rw [numbered, List.map_map]
        rfl
    _ = tokens.zipIdx.map Prod.fst := List.map_congr_left back
    _ = tokens := List.zipIdx_map_fst 0 tokens

/-- Whatever tokens are parsed to, the numbered tokens are parsed to as well. -/
theorem exists_outcome_numbered {tokens : List Token} {tree : Expr ν Token}
    (parsed : (ofTokens tokens).outcome = .ok tree) :
    ∃ told : Expr ν Token, (ofTokens (numbered tokens)).outcome = .ok told ∧
      told.map (Token.moved (columnAt tokens)) = tree := by
  have same := outcome_ofTokens_moved (ν := ν) (columnAt tokens) (numbered tokens)
  rw [map_moved_numbered, parsed] at same
  cases outcome : (ofTokens (numbered tokens) : Parsing ν).outcome with
  | error fault =>
      rw [outcome] at same
      cases same
  | ok told =>
      rw [outcome] at same
      exact ⟨told, rfl, (Except.ok.inj same).symm⟩

end Parsing

end Fluxion
