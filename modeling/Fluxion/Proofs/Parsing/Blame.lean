import Fluxion.Proofs.Parsing.Grammar
import Fluxion.Proofs.Parsing.Loop
import Fluxion.Proofs.Token.Stray

/-!
# What is said of a source that is refused

A source is refused for a character that starts no token, for being blank, or for
the way its tokens follow one another. In the last case one of the tokens is
blamed. It may be a token that was never reduced, the one that is being reduced,
or the one that an expression comes from: whatever the parser holds comes from a
token of the source.

The other causes of failure do not arise, because a token that was cut from a
source can be read as what its kind says.
-/

namespace Fluxion

variable {ν : Type}

/-- The fault is reported as one of grammar, and it is blamed on one of the tokens. -/
def Fault.Blames (fault : Fault) (tokens : List Token) : Prop :=
  ∃ message token, fault.report? = some ⟨.grammatical, message, some token⟩ ∧ token ∈ tokens

theorem Fault.Blames.mono {fault : Fault} {tokens more : List Token} (blames : fault.Blames tokens)
    (among : tokens ⊆ more) : fault.Blames more := by
  rcases blames with ⟨message, token, reported, member⟩
  exact ⟨message, token, reported, among member⟩

/-- An operator, function or number whose text is one. -/
def Token.Readable (ν : Type) [Numeral ν] (token : Token) : Prop :=
  match token.kind with
  | .operator => (Operator.ofText? token.text).isSome = true
  | .function => (Elementary.ofName? token.text).isSome = true
  | .number => (Numeral.read? token.text : Option ν).isSome = true
  | .identifier | .openParen | .closeParen | .stray => True

/-- A token that fits its kind can be read. -/
theorem Token.readable_of_fits {token : Token} (fits : token.kind.Fits token.text.toList) :
    token.Readable Float := by
  unfold Readable
  cases kind : token.kind with
  | operator =>
      rw [kind, Token.Kind.Fits, String.ofList_toList] at fits
      exact fits
  | function =>
      rw [kind, Token.Kind.Fits, String.ofList_toList] at fits
      exact fits
  | number => exact Option.isSome_iff_exists.mpr (Token.exists_value_of_fits kind fits)
  | identifier => trivial
  | openParen => trivial
  | closeParen => trivial
  | stray => trivial

namespace Parsing

/-! ## One step -/

/-- The tokens that entries come from. -/
abbrev sources (entries : List (Entry ν)) : List Token :=
  entries.map Entry.source

theorem blames_of_nearestOperand {side : Side} {token : Token} {entries : List (Entry ν)}
    {fault : Fault} (refused : nearestOperand side token entries = .error fault) :
    fault.Blames (token :: sources entries) := by
  rcases entries with _ | ⟨other | expr, entries⟩
  · cases refused
    exact ⟨_, token, rfl, by simp⟩
  · cases refused
    exact ⟨_, other, rfl, by simp [Entry.source]⟩
  · cases refused

theorem blames_of_nearestClosing {token : Token} {entries : List (Entry ν)} {fault : Fault}
    (refused : nearestClosing token entries = .error fault) :
    fault.Blames (token :: sources entries) := by
  rcases entries with _ | ⟨entry, entries⟩
  · cases refused
    exact ⟨_, token, rfl, by simp⟩
  · unfold nearestClosing at refused
    split at refused
    · next none => cases none
    · cases refused
    · next same =>
      cases same
      cases refused
      exact ⟨_, entry.source, rfl, by simp⟩

variable [Numeral ν]

/-- If a token that can be read cannot be reduced, a token beside it or the token itself is
blamed. -/
theorem blames_of_reduceBetween {before after : List (Entry ν)} {token : Token} {fault : Fault}
    (readable : token.Readable ν) (refused : reduceBetween before token after = .error fault) :
    fault.Blames (token :: (sources before ++ sources after)) := by
  have onLeft : token :: sources before ⊆ token :: (sources before ++ sources after) :=
    List.cons_subset_cons _ (List.subset_append_left _ _)
  have onRight : ∀ rest : List (Entry ν), sources rest ⊆ sources after →
      token :: sources rest ⊆ token :: (sources before ++ sources after) := fun rest among =>
    List.cons_subset_cons _ (List.subset_append_of_subset_right _ among)
  unfold reduceBetween at refused
  unfold Token.Readable at readable
  cases kind : token.kind with
  | operator =>
      simp only [kind, bind_eq_error_iff, Prod.exists, nearestOperand_eq_ok_iff]
        at readable refused
      rcases refused with
        refused | ⟨left, restBefore, rfl, refused | ⟨right, restAfter, rfl, named⟩⟩
      · exact (blames_of_nearestOperand refused).mono onLeft
      · exact (blames_of_nearestOperand refused).mono (onRight after (List.Subset.refl _))
      · obtain ⟨operator, found⟩ := Option.isSome_iff_exists.mp readable
        simp [found] at named
  | openParen =>
      simp only [kind, bind_eq_error_iff, Prod.exists, nearestOperand_eq_ok_iff] at refused
      rcases refused with refused | ⟨content, rest, rfl, refused | ⟨_, _, done⟩⟩
      · exact (blames_of_nearestOperand refused).mono (onRight after (List.Subset.refl _))
      · exact (blames_of_nearestClosing refused).mono (onRight rest (by simp))
      · cases done
  | function =>
      simp only [kind] at readable refused
      obtain ⟨function, found⟩ := Option.isSome_iff_exists.mp readable
      simp only [found, bind_eq_error_iff, Prod.exists] at refused
      rcases refused with refused | ⟨argument, rest, _, done⟩
      · exact (blames_of_nearestOperand refused).mono (onRight after (List.Subset.refl _))
      · cases done
  | identifier =>
      simp only [kind] at refused
      cases refused
  | number =>
      simp only [kind] at readable refused
      obtain ⟨value, found⟩ := Option.isSome_iff_exists.mp readable
      simp [found] at refused
  | closeParen =>
      simp only [kind] at refused
      cases refused
      exact ⟨_, token, rfl, by simp⟩
  | stray =>
      simp only [kind] at refused
      cases refused
      exact ⟨_, token, rfl, by simp⟩

/-- A reduction brings in no other token than those that the entries come from. -/
theorem Reduces.sources_subset {before after restBefore restAfter : List (Entry ν)}
    {token : Token} {expr : Expr ν Token}
    (reduces : Reduces before.reverse token after expr restBefore restAfter) :
    sources (restBefore.reverse ++ .expr expr :: restAfter) ⊆
      sources (before ++ .token token :: after) := by
  obtain ⟨fewerBefore, fewerAfter⟩ := reduces.subset
  intro source member
  rw [sources, List.map_append, List.map_cons, List.map_reverse] at member
  rw [sources, List.map_append, List.map_cons]
  rcases List.mem_append.mp member with member | member
  · have inBefore := List.map_subset Entry.source fewerBefore (List.mem_reverse.mp member)
    rw [List.map_reverse, List.mem_reverse] at inBefore
    exact List.mem_append_left _ inBefore
  · rcases List.mem_cons.mp member with rfl | member
    · exact List.mem_append_right _ (List.mem_cons.mpr (Or.inl reduces.mark_eq))
    · exact List.mem_append_right _
        (List.mem_cons_of_mem _ (List.map_subset Entry.source fewerAfter member))

/-! ## The whole run -/

omit [Numeral ν] in
/-- What is left when a run ends is blamed on one of its tokens if it is not an answer. -/
theorem blames_of_verdict {entries : List (Entry ν)} {fault : Fault} (some : entries ≠ [])
    (refused : verdict entries = .error fault) : fault.Blames (sources entries) := by
  rcases entries with _ | ⟨entry, _ | ⟨other, entries⟩⟩
  · exact absurd rfl some
  · cases entry with
    | token token =>
        cases refused
        exact ⟨_, token, rfl, by simp [Entry.source]⟩
    | expr expr => cases refused
  · cases entry <;> cases refused <;> exact ⟨_, _, rfl, by simp⟩

/-- There are entries, and all of them come from the tokens. -/
structure ComeFrom (tokens : List Token) (entries : List (Entry ν)) : Prop where
  nonempty : entries ≠ []
  among : sources entries ⊆ tokens

omit [Numeral ν] in
theorem ComeFrom.ofTokens {tokens : List Token} (some : tokens ≠ []) :
    ComeFrom tokens (tokens.map (Entry.token (ν := ν))) where
  nonempty := by simpa using some
  among := by simp [sources, Function.comp_def, Entry.source]

/-- If tokens that can be read are not parsed, one of them is blamed, unless there is none. -/
theorem emptyInput_or_blames {tokens : List Token} (readable : ∀ token ∈ tokens, token.Readable ν)
    {fault : Fault} (refused : (ofTokens tokens : Parsing ν).outcome = .error fault) :
    (tokens = [] ∧ fault = .emptyInput) ∨ fault.Blames tokens := by
  by_cases empty : tokens = []
  · subst empty
    cases refused
    exact Or.inl ⟨rfl, rfl⟩
  · obtain ⟨last, ⟨nonempty, among⟩, ends⟩ := (settles_ofTokens tokens).exists_ends
      (ComeFrom (ν := ν) tokens)
      (fun known _ reduces => ⟨by simp, List.Subset.trans reduces.sources_subset known.among⟩)
      (.ofTokens empty)
    rw [refused] at ends
    cases ends with
    | verdict _ refused => exact Or.inr ((blames_of_verdict nonempty refused).mono among)
    | @fault before after token _ split _ refused =>
        subst split
        have present : token ∈ tokens := among (by simp [Entry.source])
        refine Or.inr ((blames_of_reduceBetween (readable token present) refused).mono ?_)
        intro source member
        refine among ?_
        simpa [Entry.source, or_left_comm] using member

end Parsing

/-! ## Reading a source -/

/-- There is no token exactly if all is blank. -/
theorem Lexed.ofText_eq_nil_iff (operandExpected : Bool) (column : Nat) (text : List Char) :
    ofText operandExpected column text = ⟨[], none⟩ ↔
      ∀ c ∈ text, Text.isBlank c = true := by
  induction operandExpected, column, text using ofText.induct with
  | case1 => simp [ofText]
  | case2 operandExpected column c tail blank ih =>
      rw [ofText, if_pos blank, ih]
      simp [blank]
  | case3 operandExpected column c tail solid lexeme isStray =>
      rw [ofText, if_neg solid, if_pos isStray]
      simp [solid]
  | case4 operandExpected column c tail solid lexeme kept ih =>
      rw [ofText, if_neg solid, if_neg kept]
      simp [solid]

theorem Lexed.prioritized_eq_nil_iff {source : String} :
    (ofSource source).prioritized = .ok [] ↔ ∀ c ∈ source.toList, Text.isBlank c = true := by
  rw [← ofText_eq_nil_iff true 1, prioritized_eq_ok_iff, ofSource]
  rcases ofText true 1 source.toList with ⟨_ | ⟨token, tokens⟩, stray⟩
  · simp [raised]
  · simp [raised]

/-- What is reported when a source is refused. -/
inductive Refusal (source : String) : Report → Prop
  /-- A character starts no token, and what is blamed stands in the source. -/
  | stray {message : String} {token : Token} : HoldsStray true source.toList →
      token.StandsIn source → Refusal source ⟨.lexical, message, some token⟩
  /-- There is nothing but blanks. -/
  | empty {message : String} : ¬HoldsStray true source.toList →
      (∀ c ∈ source.toList, Text.isBlank c = true) → Refusal source ⟨.grammatical, message, none⟩
  /-- The tokens do not follow one another rightly, and the one that is blamed stands in the
  source. -/
  | misplaced {message : String} {token : Token} : ¬HoldsStray true source.toList →
      token.StandsIn source → Refusal source ⟨.grammatical, message, some token⟩

/-- Whenever a source is refused, this is reported, and in one of these ways. -/
theorem exists_refusal_of_read {source : String} {fault : Fault}
    (refused : (Expr.read source : Except Fault (Expr Float Token)) = .error fault) :
    ∃ report, fault.report? = some report ∧ Refusal source report := by
  unfold Expr.read Parsing.ofSource at refused
  cases lexes : (Lexed.ofSource source).prioritized with
  | error stray =>
      rw [lexes] at refused
      cases refused
      exact ⟨_, rfl, .stray (Lexed.exists_prioritized_eq_error_iff.mp ⟨stray, lexes⟩)
        (Lexed.standsIn_of_stray lexes)⟩
  | ok tokens =>
      rw [lexes] at refused
      have noStray : ¬HoldsStray true source.toList := by
        intro holds
        obtain ⟨stray, failed⟩ := Lexed.exists_prioritized_eq_error_iff.mpr holds
        rw [lexes] at failed
        cases failed
      have readable : ∀ token ∈ tokens, token.Readable Float := fun token member =>
        Token.readable_of_fits (Lexed.fits_of_prioritized lexes token member)
      rcases Parsing.emptyInput_or_blames readable refused with
        ⟨rfl, rfl⟩ | ⟨message, token, reported, member⟩
      · exact ⟨_, rfl, .empty noStray (Lexed.prioritized_eq_nil_iff.mp lexes)⟩
      · exact ⟨_, reported, .misplaced noStray (Lexed.standsIn_of_prioritized lexes token member)⟩

/-- A source that holds a stray character is not read. -/
theorem exists_stray_of_holdsStray {source : String} (holds : HoldsStray true source.toList) :
    ∃ stray, (Expr.read source : Except Fault (Expr Float Token)) =
      .error (.strayCharacter stray) := by
  obtain ⟨stray, lexes⟩ := Lexed.exists_prioritized_eq_error_iff.mpr holds
  refine ⟨stray, ?_⟩
  rw [Expr.read, Parsing.ofSource, lexes]

/-- Every source is read, or it is refused with a report. The report is lexical exactly if the
source holds a character that starts no token, which every foreign character does, whatever the
grammar says of the tokens before it. Every report but that of a blank source blames a token
that is a slice of the source. And when the tokens are parsed, the loop of the parser comes to
its end with live slots only. -/
theorem read_or_refusal (source : String) :
    ((∃ tree : Expr Float Token, Expr.read source = .ok tree ∧ ¬HoldsStray true source.toList) ∨
        ∃ fault report, (Expr.read source : Except Fault (Expr Float Token)) = .error fault ∧
          fault.report? = some report ∧ Refusal source report) ∧
      (HoldsStray true source.toList ∨ ∀ c ∈ source.toList, ¬Foreign c) ∧
      (HoldsStray true source.toList ∨ ∃ tokens n,
        (Lexed.ofSource source).prioritized = .ok tokens ∧ n ≤ tokens.length ∧
          Parsing.Runs (Pending.ofList (tokens.map Entry.token)) n
            (Parsing.ofSource source : Parsing Float)) := by
  refine ⟨?_, ?_, ?_⟩
  · cases answer : (Expr.read source : Except Fault (Expr Float Token)) with
    | ok tree =>
        refine Or.inl ⟨tree, rfl, ?_⟩
        intro holds
        obtain ⟨stray, refused⟩ := exists_stray_of_holdsStray holds
        rw [answer] at refused
        cases refused
    | error fault =>
        obtain ⟨report, reported, refusal⟩ := exists_refusal_of_read answer
        exact Or.inr ⟨fault, report, rfl, reported, refusal⟩
  · by_cases foreign : ∃ c ∈ source.toList, Foreign c
    · rcases foreign with ⟨c, member, foreign⟩
      exact Or.inl (holdsStray_of_foreign foreign true 1 source.toList member)
    · refine Or.inr ?_
      intro c member isForeign
      exact foreign ⟨c, member, isForeign⟩
  · cases lexes : (Lexed.ofSource source).prioritized with
    | error stray => exact Or.inl (Lexed.exists_prioritized_eq_error_iff.mp ⟨stray, lexes⟩)
    | ok tokens =>
        obtain ⟨n, few, runs⟩ := Parsing.exists_runs (ν := Float) tokens
        refine Or.inr ⟨tokens, n, rfl, few, ?_⟩
        rwa [Parsing.ofSource, lexes]

end Fluxion
