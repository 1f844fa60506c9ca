import Fluxion.Proofs.Decimal.Reading
import Fluxion.Proofs.Parsing.Completeness
import Fluxion.Proofs.Parsing.Soundness
import Fluxion.Proofs.Token.Cut

/-!
# The parser follows the grammar

Together, soundness and completeness of the reductions say which sources are
parsed and to what: those whose tokens are a sentence of the grammar, and to what
the only derivation of the sentence says. That a derivation of tokens that were
cut from a source always says something rests on the lexer: it takes no number
that the reader of floats refuses.
-/

namespace Fluxion

open Phrase

/-- A number token can be read. -/
theorem Token.exists_value_of_fits {token : Token} (kind : token.kind = .number)
    (fits : token.kind.Fits token.text.toList) :
    ∃ value : Float, Numeral.read? token.text = some value := by
  rw [kind] at fits
  rcases fits with ⟨number, isNumber, same | same⟩
  · have readable := Decimal.isSome_read?_number isNumber
    rw [← same, String.ofList_toList] at readable
    exact Option.isSome_iff_exists.mp readable
  · have readable := Decimal.isSome_read?_negative isNumber
    rw [← same, String.ofList_toList] at readable
    exact Option.isSome_iff_exists.mp readable

/-- A layered phrase over tokens that fit their kinds says an expression. -/
theorem Phrase.Layered.exists_expr {phrase : Phrase} (layered : phrase.Layered)
    (fits : ∀ token ∈ phrase.tokens, token.kind.Fits token.text.toList) :
    ∃ expr : Expr Float Token, phrase.expr? = some expr := by
  induction layered with
  | @atom token kind =>
      rcases kind with kind | kind
      · rcases Token.exists_value_of_fits kind (fits token (by simp [tokens])) with ⟨value, found⟩
        exact ⟨.num token value, by simp [expr?, exprWithin, kind, found]⟩
      · exact ⟨.var token token.text, by simp [expr?, exprWithin, kind]⟩
  | @binary left right operator symbol kind found _ _ _ _ left_ih right_ih =>
      rcases left_ih (fun token member => fits token (by simp [tokens, member])) with
        ⟨leftExpr, leftMeaning⟩
      rcases right_ih (fun token member => fits token (by simp [tokens, member])) with
        ⟨rightExpr, rightMeaning⟩
      exact ⟨.binary operator symbol leftExpr rightExpr, expr?_binary_eq_some_iff.mpr
        ⟨symbol, leftExpr, rightExpr, found, leftMeaning, rightMeaning, rfl⟩⟩
  | @apply function argument kind _ _ ih =>
      rcases ih (fun token member => fits token (by simp [tokens, member])) with
        ⟨argumentExpr, meaning⟩
      have named := fits function (by simp [tokens])
      rw [kind] at named
      obtain ⟨elementary, found⟩ := Option.isSome_iff_exists.mp named
      rw [String.ofList_toList] at found
      exact ⟨.apply function elementary argumentExpr, expr?_apply_eq_some_iff.mpr
        ⟨elementary, argumentExpr, found, meaning, rfl⟩⟩
  | @group opening content closing _ _ _ ih =>
      rcases ih (fun token member => fits token (by simp [tokens, member])) with
        ⟨contentExpr, meaning⟩
      exact ⟨contentExpr.withMark opening, expr?_group_eq_some_iff.mpr
        ⟨contentExpr, meaning, rfl⟩⟩

/-- A source that can be cut into tokens is parsed to what the derivation of its
tokens says; it is parsed to something exactly if there is such a derivation, and
there is at most one. -/
theorem outcome_ofSource_iff_derives {source : String} {tokens : List Token}
    (lexes : (Lexed.ofSource source).prioritized = .ok tokens) :
    (∀ tree : Expr Float Token, (Parsing.ofSource source).outcome = .ok tree ↔
        ∃ phrase, Derives .expression phrase ∧ phrase.tokens = tokens ∧
          phrase.expr? = some tree) ∧
      ((∃ tree : Expr Float Token, (Parsing.ofSource source).outcome = .ok tree) ↔
        ∃ phrase, Derives .expression phrase ∧ phrase.tokens = tokens) ∧
      ∀ first second, Derives .expression first → Derives .expression second →
        first.tokens = tokens → second.tokens = tokens → first = second := by
  obtain ⟨final, ranked⟩ := Lexed.ranked_of_prioritized lexes
  have sameParse : (Parsing.ofSource source : Parsing Float) = Parsing.ofTokens tokens := by
    rw [Parsing.ofSource, lexes]
  have exact : ∀ tree : Expr Float Token, (Parsing.ofSource source).outcome = .ok tree ↔
      ∃ phrase, Derives .expression phrase ∧ phrase.tokens = tokens ∧
        phrase.expr? = some tree := by
    intro tree
    rw [sameParse]
    constructor
    · intro parsed
      rcases Parsing.exists_phrase_of_outcome ranked parsed with
        ⟨phrase, layered, covers, meaning⟩
      exact ⟨phrase, derives_of_layered layered .expression layered.one_le_strength, covers,
        meaning⟩
    · rintro ⟨phrase, derives, rfl, meaning⟩
      exact Parsing.outcome_of_layered (layered_of_derives derives).1 ranked meaning
  refine ⟨exact, ?_, ?_⟩
  · constructor
    · rintro ⟨tree, parsed⟩
      obtain ⟨phrase, derives, covers, _⟩ := (exact tree).mp parsed
      exact ⟨phrase, derives, covers⟩
    · rintro ⟨phrase, derives, covers⟩
      have fits := Lexed.fits_of_prioritized lexes
      rw [← covers] at fits
      obtain ⟨tree, meaning⟩ := (layered_of_derives derives).1.exists_expr fits
      exact ⟨tree, (exact tree).mpr ⟨phrase, derives, covers, meaning⟩⟩
  · intro first second firstDerives secondDerives firstCovers secondCovers
    rw [← firstCovers] at ranked
    exact (layered_of_derives firstDerives).1.unique (layered_of_derives secondDerives).1 ranked
      (firstCovers.trans secondCovers.symm)

/-- In `a*((b+c))` the sum comes from the outer one of its parentheses. -/
theorem outcome_ofSource_enclosed_sum :
    (Parsing.ofSource "a*((b+c))").outcome =
      .ok (.binary ⟨.operator, "*", 2, 2⟩ .mul (.var ⟨.identifier, "a", 1, 4⟩ "a")
        (.binary ⟨.openParen, "(", 3, 5⟩ .add (.var ⟨.identifier, "b", 5, 16⟩ "b")
          (.var ⟨.identifier, "c", 7, 16⟩ "c")) : Expr Float Token) := by
  have lexes : (Lexed.ofSource "a*((b+c))").prioritized =
      .ok [⟨.identifier, "a", 1, 4⟩, ⟨.operator, "*", 2, 2⟩, ⟨.openParen, "(", 3, 5⟩,
        ⟨.openParen, "(", 4, 11⟩, ⟨.identifier, "b", 5, 16⟩, ⟨.operator, "+", 6, 13⟩,
        ⟨.identifier, "c", 7, 16⟩, ⟨.closeParen, ")", 8, 6⟩, ⟨.closeParen, ")", 9, 0⟩] := by
    decide +kernel
  have derives : Derives .expression
      (.binary (.atom ⟨.identifier, "a", 1, 4⟩) ⟨.operator, "*", 2, 2⟩
        (.group ⟨.openParen, "(", 3, 5⟩
          (.group ⟨.openParen, "(", 4, 11⟩
            (.binary (.atom ⟨.identifier, "b", 5, 16⟩) ⟨.operator, "+", 6, 13⟩
              (.atom ⟨.identifier, "c", 7, 16⟩))
            ⟨.closeParen, ")", 8, 6⟩)
          ⟨.closeParen, ")", 9, 0⟩)) := by
    refine .ofTerm (.product (.ofPower (.ofAtom (.identifier rfl))) rfl (Or.inl rfl)
      (.ofAtom (.group rfl (.ofTerm (.ofPower (.ofAtom (.group rfl ?_ rfl)))) rfl)))
    exact .sum (.ofTerm (.ofPower (.ofAtom (.identifier rfl)))) rfl (Or.inl rfl)
      (.ofPower (.ofAtom (.identifier rfl)))
  exact ((outcome_ofSource_iff_derives lexes).1 _).mpr ⟨_, derives, rfl, rfl⟩

end Fluxion
