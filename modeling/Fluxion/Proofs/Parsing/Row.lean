import Fluxion.Proofs.Parsing.Completeness
import Fluxion.Proofs.Parsing.Soundness

/-!
# Phrases in a row

Phrases that stand next to each other with nothing between them do not disturb
each other. The tokens of all of them are reduced by turns, but every reduction
stays within one phrase, and at the end the expressions stand in a row.
-/

namespace Fluxion.Parsing

variable {ν : Type} [Numeral ν]

/-- A layered phrase, with tokens that carry the priorities of their places, says an
expression. -/
structure Says (phrase : Phrase) (expr : Expr ν Token) : Prop where
  layered : phrase.Layered
  ranked : ∃ depth final, Ranked depth phrase.tokens final
  meaning : phrase.expr? = some expr

/-- Cuts through phrases, one behind the other. -/
inductive Row : List Phrase → List (Entry ν) → Prop
  | nil : Row [] []
  | cons {phrase : Phrase} {phrases : List Phrase} {entries more : List (Entry ν)} :
      Cut phrase entries → Row phrases more → Row (phrase :: phrases) (entries ++ more)

/-- At first all tokens of the phrases are pending. -/
theorem Row.ofTokens (phrases : List Phrase) :
    Row phrases ((phrases.flatMap Phrase.tokens).map (Entry.token (ν := ν))) := by
  induction phrases with
  | nil => exact .nil
  | cons phrase phrases ih =>
      rw [List.flatMap_cons, List.map_append]
      exact .cons (.ofTokens phrase) ih

/-- What leads a cut leads the row that begins with it, unless it is outranked further on. -/
theorem Row.advances_head {phrase : Phrase} {phrases : List Phrase} {entries more : List (Entry ν)}
    {token : Token} (advances : AdvancesAt phrase entries token) (row : Row phrases more)
    (atMost : ∀ other, Entry.token other ∈ more → other.priority ≤ token.priority) :
    Advances (Row (phrase :: phrases)) (entries ++ more) token := by
  have context : ∀ entries, Cut phrase entries →
      Row (phrase :: phrases) ([] ++ (entries ++ more)) := by
    intro entries cut
    rw [List.nil_append]
    exact .cons cut row
  exact (advancesAt_iff.mp advances).within context (by simp) atMost

/-- What leads a row leads one that begins with a cut before it, if it outranks that cut. -/
theorem Row.advances_tail {phrase : Phrase} {phrases : List Phrase} {entries more : List (Entry ν)}
    {token : Token} (advances : Advances (Row phrases) more token) (cut : Cut phrase entries)
    (below : ∀ other, Entry.token other ∈ entries → other.priority < token.priority) :
    Advances (Row (phrase :: phrases)) (entries ++ more) token := by
  have context : ∀ more, Row phrases more → Row (phrase :: phrases) (entries ++ (more ++ [])) := by
    intro more row
    simpa using Row.cons cut row
  simpa using advances.within context below (by simp)

/-- A row is finished or advances. -/
theorem Row.advances {phrases : List Phrase} {exprs : List (Expr ν Token)}
    {entries : List (Entry ν)} (row : Row phrases entries)
    (say : List.Forall₂ Says phrases exprs) :
    entries = exprs.map .expr ∨ ∃ token, Advances (Row phrases) entries token := by
  induction row generalizing exprs with
  | nil =>
      cases say
      exact Or.inl rfl
  | @cons phrase phrases entries more cut row ih =>
      cases say with
      | cons head tail =>
          obtain ⟨depth, final, ranked⟩ := head.ranked
          -- The token that leads is the leading one of the first cut or of the rest.
          rcases cut.advances head.layered ranked head.meaning with rfl | ⟨first, headAdvances⟩ <;>
            rcases ih tail with rfl | ⟨second, tailAdvances⟩
          · exact Or.inl rfl
          · exact Or.inr ⟨second, Row.advances_tail tailAdvances cut (by simp)⟩
          · exact Or.inr ⟨first, Row.advances_head headAdvances row (by simp)⟩
          · by_cases ahead : second.priority ≤ first.priority
            · refine Or.inr ⟨first, Row.advances_head headAdvances row ?_⟩
              intro other member
              exact Int.le_trans (tailAdvances.priority_le member) ahead
            · refine Or.inr ⟨second, Row.advances_tail tailAdvances cut ?_⟩
              intro other member
              exact Int.lt_of_le_of_lt (headAdvances.priority_le member) (Int.not_le.mp ahead)

/-- The tokens of phrases in a row are parsed to the expressions in a row. -/
theorem outcome_of_row {phrases : List Phrase} {exprs : List (Expr ν Token)}
    (say : List.Forall₂ Says phrases exprs) :
    (ofTokens (phrases.flatMap Phrase.tokens)).outcome = verdict (exprs.map .expr) :=
  (settles_ofTokens _).outcome_of_advances (fun _ row => row.advances say) (by simp)
    (Row.ofTokens phrases)

/-! ## Parts of the tokens -/

/-- If parts of tokens are parsed, each to an expression, phrases over these parts say the
expressions. -/
theorem exists_phrases_of_outcomes {parts : List (List Token)} {trees : List (Expr ν Token)}
    {depth final : Int} (ranked : Ranked depth parts.flatten final)
    (parsed : List.Forall₂ (fun part tree => (ofTokens part).outcome = .ok tree) parts trees) :
    ∃ phrases : List Phrase, parts = phrases.map Phrase.tokens ∧
      List.Forall₂ Says phrases trees := by
  induction parsed generalizing depth with
  | nil => exact ⟨[], rfl, .nil⟩
  | cons head _ ih =>
      obtain ⟨middle, headRanked, restRanked⟩ := Ranked.append.mp ranked
      obtain ⟨phrase, layered, rfl, meaning⟩ := exists_phrase_of_outcome headRanked head
      obtain ⟨phrases, rfl, say⟩ := ih restRanked
      exact ⟨phrase :: phrases, rfl, .cons ⟨layered, ⟨_, _, headRanked⟩, meaning⟩ say⟩

/-- What a phrase of a row says, its tokens are parsed to on their own. -/
theorem outcomes_of_row {phrases : List Phrase} {exprs : List (Expr ν Token)}
    (say : List.Forall₂ Says phrases exprs) :
    List.Forall₂ (fun part tree => (ofTokens part).outcome = .ok tree)
      (phrases.map Phrase.tokens) exprs := by
  rw [List.forall₂_map_left_iff]
  refine say.imp ?_
  rintro phrase expr ⟨layered, ⟨_, _, ranked⟩, meaning⟩
  exact outcome_of_layered layered ranked meaning

end Fluxion.Parsing
