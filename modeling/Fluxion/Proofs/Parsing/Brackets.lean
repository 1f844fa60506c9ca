import Fluxion.Proofs.Parsing.InOrder

/-!
# Matching parentheses

Read from left to right, a closing parenthesis is the partner of the innermost
opening one that is open, and of none if none is open. `openBehind` keeps the
list of those that are open.

What stands between partners is nested, so the depth is the same at both, and the
opening one outranks the closing one. Nor can an opening parenthesis be hidden in
a phrase, whose parentheses are all paired, while it is still open behind it.
-/

namespace Fluxion

/-- The opening parentheses that are open behind a token, the innermost one first, from those
that are open before it. -/
def Token.openedBehind (opened : List Token) (token : Token) : List Token :=
  match token.kind with
  | .openParen => token :: opened
  | .closeParen => opened.tail
  | _ => opened

/-- The opening parentheses that are open behind some tokens, the innermost one first. -/
def openBehind (tokens : List Token) : List Token :=
  tokens.foldl Token.openedBehind []

theorem openBehind_concat (tokens : List Token) (token : Token) :
    openBehind (tokens ++ [token]) = token.openedBehind (openBehind tokens) := by
  simp [openBehind]

theorem Token.openedBehind_solid {token : Token} (solid : token.isParen = false)
    (opened : List Token) : token.openedBehind opened = opened := by
  unfold openedBehind
  cases kind : token.kind <;> simp_all [isParen]

namespace Nested

/-- Behind nested tokens the same parentheses are open as before them. -/
theorem foldl_openedBehind {tokens : List Token} (nested : Nested tokens) (opened : List Token) :
    tokens.foldl Token.openedBehind opened = opened := by
  induction nested generalizing opened with
  | nil => rfl
  | solid noParen _ ih => rw [List.foldl_cons, Token.openedBehind_solid noParen, ih]
  | @pair opening closing _ _ opens _ closes _ content_ih rest_ih =>
      rw [List.foldl_cons, List.foldl_append, content_ih, List.foldl_cons, rest_ih]
      simp [Token.openedBehind, opens, closes]

/-- Within nested tokens all parentheses stay open that are open before them. -/
theorem exists_foldl_openedBehind {tokens first second : List Token} (nested : Nested tokens)
    (split : tokens = first ++ second) (opened : List Token) :
    ∃ inner, first.foldl Token.openedBehind opened = inner ++ opened := by
  induction nested generalizing first second opened with
  | nil =>
      rw [List.nil_eq, List.append_eq_nil_iff] at split
      exact ⟨[], by simp [split.1]⟩
  | @solid token rest noParen _ ih =>
      cases first with
      | nil => exact ⟨[], rfl⟩
      | cons head first =>
          simp only [List.cons_append, List.cons.injEq] at split
          rcases split with ⟨rfl, split⟩
          rw [List.foldl_cons, Token.openedBehind_solid noParen]
          exact ih split opened
  | @pair opening closing content rest opens contentNested closes _ content_ih rest_ih =>
      cases first with
      | nil => exact ⟨[], rfl⟩
      | cons head first =>
          simp only [List.cons_append, List.cons.injEq] at split
          rcases split with ⟨rfl, split⟩
          have opened' : opening.openedBehind opened = opening :: opened := by
            simp [Token.openedBehind, opens]
          rw [List.foldl_cons, opened']
          -- The first part ends within the pair, at its end, or behind it.
          rcases List.append_eq_append_iff.mp split with ⟨middle, rfl, tail⟩ | ⟨middle, rfl, _⟩
          · rw [List.foldl_append, contentNested.foldl_openedBehind]
            cases middle with
            | nil => exact ⟨[opening], rfl⟩
            | cons head middle =>
                simp only [List.cons_append, List.cons.injEq] at tail
                rcases tail with ⟨rfl, tail⟩
                have closed : closing.openedBehind (opening :: opened) = opened := by
                  simp [Token.openedBehind, closes]
                rw [List.foldl_cons, closed]
                exact rest_ih tail opened
          · obtain ⟨inner, same⟩ := content_ih rfl (opening :: opened)
            exact ⟨inner ++ [opening], by simp [same]⟩

/-- A parenthesis that is open where nested tokens begin is still open in the midst of them,
so it does not stand in nested tokens that end there. -/
theorem false_of_overlap {before middle after : List Token} {opening : Token}
    (opens : opening.kind = .openParen) (nested : Nested (before ++ opening :: middle))
    (nested' : Nested (middle ++ after)) : False := by
  have closed := nested.foldl_openedBehind []
  obtain ⟨inner, still⟩ :=
    nested'.exists_foldl_openedBehind rfl (opening :: before.foldl Token.openedBehind [])
  rw [List.foldl_append, List.foldl_cons, Token.openedBehind, opens, still] at closed
  simp at closed

/-- Nested tokens end at the depth at which they begin. -/
theorem ranked {tokens : List Token} (nested : Nested tokens) {depth final : Int}
    (ranked : Ranked depth tokens final) : final = depth := by
  induction nested generalizing depth final with
  | nil => exact ranked.symm
  | @solid token rest noParen _ ih =>
      have same : token.depthBehind depth = depth := by
        cases kind : token.kind <;> simp_all [Token.isParen, Token.depthBehind, Token.depthAt]
      exact ih (same ▸ ranked.2)
  | @pair opening closing content rest opens _ closes _ content_ih rest_ih =>
      obtain ⟨middle, contentRanked, _, restRanked⟩ := Ranked.append.mp ranked.2
      have inside := content_ih contentRanked
      have outside := rest_ih restRanked
      simp_all [Token.depthBehind, Token.depthAt]

end Nested

/-- What is open was opened by a parenthesis, and all behind it is nested. -/
theorem exists_nested_of_openBehind {tokens opened : List Token} {opening : Token}
    (isOpen : openBehind tokens = opening :: opened) :
    ∃ before content, tokens = before ++ opening :: content ∧ opening.kind = .openParen ∧
      Nested content ∧ openBehind before = opened := by
  -- By induction on the number of tokens: behind a closing parenthesis, the one before its
  -- partner has to be found in what precedes the partner.
  induction counted : tokens.length using Nat.strongRecOn
    generalizing tokens opening opened with
  | _ count ih =>
    rcases List.eq_nil_or_concat' tokens with rfl | ⟨init, last, rfl⟩
    · simp [openBehind] at isOpen
    · have shorter : init.length < count := by simp [← counted]
      rw [openBehind_concat] at isOpen
      cases kind : last.kind with
      | openParen =>
          simp only [Token.openedBehind, kind, List.cons.injEq] at isOpen
          rcases isOpen with ⟨rfl, rfl⟩
          exact ⟨init, [], rfl, kind, .nil, rfl⟩
      | closeParen =>
          simp only [Token.openedBehind, kind] at isOpen
          rcases inside : openBehind init with _ | ⟨partner, others⟩
          · simp [inside] at isOpen
          · rw [inside, List.tail_cons] at isOpen
            subst isOpen
            obtain ⟨before, content, rfl, opens, nested, outside⟩ := ih _ shorter inside rfl
            have evenShorter : before.length < count := by
              simp only [List.length_append, List.length_cons] at shorter
              omega
            obtain ⟨earlier, content', rfl, opens', nested', rest⟩ :=
              ih _ evenShorter outside rfl
            refine ⟨earlier, content' ++ partner :: (content ++ [last]), by simp, opens', ?_, rest⟩
            exact nested'.append (.pair opens nested kind .nil)
      | operator | number | identifier | function | stray =>
          have solid : last.isParen = false := by simp [Token.isParen, kind]
          rw [Token.openedBehind_solid solid] at isOpen
          obtain ⟨before, content, rfl, opens, nested, rest⟩ := ih _ shorter isOpen rfl
          exact
            ⟨before, content ++ [last], by simp, opens, nested.append (.solid solid .nil), rest⟩

/-- An opening parenthesis outranks its partner. -/
theorem closing_lt_opening {depth final : Int} {before content after : List Token}
    {opening closing : Token}
    (ranked : Ranked depth (before ++ opening :: (content ++ closing :: after)) final)
    (opens : opening.kind = .openParen) (nested : Nested content)
    (closes : closing.kind = .closeParen) : closing.priority < opening.priority := by
  obtain ⟨outside, _, atOpening, rest⟩ := Ranked.append.mp ranked
  obtain ⟨inside, contentRanked, atClosing, _⟩ := Ranked.append.mp rest
  have inward : opening.depthBehind outside = outside + 1 := by
    simp [Token.depthBehind, Token.depthAt, opens]
  have outward : closing.depthAt (outside + 1) = outside := by
    simp [Token.depthAt, closes]
  rw [nested.ranked contentRanked, inward, outward, closes] at atClosing
  simp only [opens, Token.basePriority, Token.depthAt, reduceCtorEq, if_false]
    at atOpening atClosing
  omega

/-! ## Phrases and blocks -/

theorem Phrase.Layered.wellKinded {phrase : Phrase} (layered : phrase.Layered) :
    phrase.WellKinded := by
  induction layered with
  | atom kind => exact .atom kind
  | binary kind _ _ _ _ _ left_ih right_ih => exact .binary kind left_ih right_ih
  | apply kind _ _ ih => exact .apply kind ih
  | group opens _ closes ih => exact .group opens ih closes

namespace Parsing

/-- In blocks, what is open behind all of them is a block of its own. -/
theorem mem_blocks_of_open {blocks : List Block} {before content : List Token} {opening : Token}
    (layered : ∀ phrase, Block.phrase phrase ∈ blocks → phrase.Layered)
    (covers : blocks.flatMap Block.tokens = before ++ opening :: content)
    (opens : opening.kind = .openParen) (nested : Nested content) :
    Block.token opening ∈ blocks := by
  induction blocks generalizing before with
  | nil => simp at covers
  | cons block blocks ih =>
      have later : ∀ {before}, blocks.flatMap Block.tokens = before ++ opening :: content →
          Block.token opening ∈ block :: blocks := fun covers =>
        List.mem_cons_of_mem _
          (ih (fun phrase member => layered phrase (List.mem_cons_of_mem _ member)) covers)
      rw [List.flatMap_cons] at covers
      rcases List.append_eq_append_iff.mp covers with ⟨middle, _, rest⟩ | ⟨middle, first, rest⟩
      · exact later rest
      · cases middle with
        | nil =>
            have rest : blocks.flatMap Block.tokens = [] ++ opening :: content := rest.symm
            exact later rest
        | cons token middle =>
            simp only [List.cons_append, List.cons.injEq] at rest
            rcases rest with ⟨rfl, rfl⟩
            cases block with
            | token pending =>
                have same : [pending] = before ++ opening :: middle := first
                cases before with
                | nil =>
                    cases same
                    exact List.mem_cons_self
                | cons other before => simp at same
            | phrase built =>
                have built_nested := (layered built List.mem_cons_self).wellKinded.nested
                rw [show built.tokens = before ++ opening :: middle from first] at built_nested
                exact (built_nested.false_of_overlap opens nested).elim

end Parsing

end Fluxion
