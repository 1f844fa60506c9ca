import Fluxion.Definition
import Fluxion.Proofs.Expr.RoundTrip
import Fluxion.Proofs.Parsing.InOrder
import Fluxion.Proofs.Token.Stray

/-!
# What a variable is

Whether a text is a variable is decided in two ways. The check of a name looks at the text as a
whole: it has to be a word, and none that is a number or a function. A source is cut from its
start: blanks are passed over, the longest word is taken, and then its kind is asked for.

A word is cut whole where it ends, so a text that passes the check is a single token. The other
way around, every token fits its kind, and the names in an expression that was read are texts of
its tokens. So a text that fails the check is no variable of any expression, whatever it is
written between.
-/

namespace Fluxion

open Fluxion.Token

variable {ν α : Type}

/-! ## Variables as tokens -/

/-- What fits an identifier passes the check of a name. -/
theorem Token.isVariable_of_fits {token : Token} (fits : token.kind.Fits token.text.toList)
    (kind : token.kind = .identifier) : isVariable token.text = true := by
  rwa [kind, Kind.Fits, String.ofList_toList] at fits

/-- A token that is all of its source stands at its start. -/
theorem Token.StandsIn.column_eq_one {token : Token} (stands : token.StandsIn token.text) :
    token.column = 1 := by
  obtain ⟨_, before, after, split, place⟩ := stands
  have lengths := congrArg List.length split
  rw [List.length_append, List.length_append] at lengths
  omega

/-- A text passes the check of a name exactly if it is cut as one token, an identifier that is
all of it. -/
theorem Lexed.isVariable_iff_exists_ofSource {name : String} :
    isVariable name = true ↔
      ∃ token, ofSource name = ⟨[token], none⟩ ∧
        token.kind = .identifier ∧ token.text = name ∧ token.column = 1 := by
  constructor
  · intro isName
    have cuts := cuts_of_fits (fits_variable isName) (by decide) ends_nil
    rw [List.append_nil, String.ofList_toList] at cuts
    obtain ⟨tokens, lexed, spelled⟩ := exists_ofSource_of_cuts cuts
    rcases List.map_eq_singleton_iff.mp spelled with ⟨token, rfl, same⟩
    rcases Prod.mk.inj same with ⟨kind, rfl⟩
    have stands : token.StandsIn token.text := standsIn_ofSource (by simp [pieces, lexed])
    exact ⟨token, lexed, kind, rfl, stands.column_eq_one⟩
  · rintro ⟨token, lexed, kind, rfl, _⟩
    have wellCut : WellCut token := by
      apply wellCut_ofText true 1 token.text.toList
      rw [← ofSource, lexed]
      exact List.mem_singleton_self token
    exact isVariable_of_fits wellCut.fits kind

/-! ## Variables in expressions -/

/-- Only an identifier stands for a variable, and for the one with its text. -/
theorem Token.label?_eq_variable_iff [Numeral ν] {token : Token} {name : String} :
    token.label? = some (.variable name : Label ν) ↔
      token.kind = .identifier ∧ token.text = name := by
  rw [label?]
  cases token.kind <;> simp

namespace Expr

/-- The names of an expression are what is read in it as variables from left to right. -/
theorem variable_mem_reading_iff {name : String} (expr : Expr ν α) :
    .variable name ∈ expr.reading ↔ name ∈ expr.names := by
  induction expr with
  | num _ _ => simp [reading, names]
  | var _ other => simp [reading, names]
  | binary _ _ left right left_ih right_ih => simp [reading, names, left_ih, right_ih]
  | apply _ _ argument ih => simp [reading, names, ih]

variable [Numeral ν]

/-- Every name in an expression that was read passes the check of a name. -/
theorem isVariable_of_mem_names {source : String} {tree : Expr ν Token}
    (reads : read source = .ok tree) : ∀ name ∈ tree.names, isVariable name = true := by
  intro name member
  obtain ⟨tokens, lexes, parsed⟩ := read_eq_ok_iff.mp reads
  obtain ⟨phrase, wellKinded, rfl, meaning⟩ := Parsing.exists_wellKinded_of_outcome parsed
  have isRead : some (.variable name) ∈ tree.reading.map some :=
    List.mem_map_of_mem ((variable_mem_reading_iff tree).mpr member)
  rw [wellKinded.reading_eq meaning] at isRead
  obtain ⟨token, solid, labelled⟩ := List.mem_map.mp isRead
  obtain ⟨kind, rfl⟩ := label?_eq_variable_iff.mp labelled
  have inPhrase : token ∈ phrase.tokens := List.mem_of_mem_filter solid
  exact isVariable_of_fits (Lexed.fits_of_prioritized lexes token inPhrase) kind

/-- What passes the check of a name reads as the variable. -/
theorem exists_read_of_isVariable {name : String} (isName : isVariable name = true) :
    ∃ token, (read name : Except Fault (Expr ν Token)) = .ok (.var token name) := by
  have named : ∀ other ∈ (var () name : Expr ν Unit).names, isVariable other = true := by
    simpa [names] using isName
  obtain ⟨tree, reads, agrees⟩ :
      ∃ tree : Expr ν Token, read name = .ok tree ∧ Agrees Eq tree (var () name) :=
    exists_read_render named (by simp [numbers]) (by simp [numbers])
  cases agrees with
  | @var token => exact ⟨token, reads⟩

/-- A name can be written as a variable in an expression. -/
def Writable (ν : Type) [Numeral ν] (name : String) : Prop :=
  ∃ (source : String) (tree : Expr ν Token), read source = .ok tree ∧ name ∈ tree.names

theorem writable_iff {name : String} : Writable ν name ↔ isVariable name = true := by
  constructor
  · rintro ⟨source, tree, reads, member⟩
    exact isVariable_of_mem_names reads name member
  · intro isName
    obtain ⟨token, reads⟩ := exists_read_of_isVariable (ν := ν) isName
    exact ⟨name, .var token name, reads, List.mem_singleton_self name⟩

end Expr

/-! ## Variables to differentiate by -/

/-- A derivative is refused for what fails the check of a name, and for nothing else. -/
theorem Definition.derivative_eq_error_iff [Arithmetic ν] {name : String}
    {definition : Definition ν} {fault : Fault} :
    definition.derivative name = .error fault ↔
      fault = .invalidVariable name ∧ ¬isVariable name = true := by
  rw [derivative]
  by_cases isName : isVariable name = true
  · simp [isName]
  · rw [if_neg isName]
    simp [isName, eq_comm]

/-- The check of a name, the cutting of a source and the parser agree on what a variable is. A
text passes the check exactly if it is cut as one token, an identifier that is all of it and
stands in the first column, and this is so exactly if it reads as the variable with this name. So
the names to differentiate by that are refused, with no other fault, are exactly those that cannot
be written as a variable in an expression. -/
theorem isVariable_agrees [Numeral ν] [Arithmetic ν] (name : String) :
    (isVariable name = true ↔
        ∃ token, Lexed.ofSource name = ⟨[token], none⟩ ∧
          token.kind = .identifier ∧ token.text = name ∧ token.column = 1) ∧
      (isVariable name = true ↔
        ∃ token, (Expr.read name : Except Fault (Expr ν Token)) = .ok (.var token name)) ∧
      ∀ (definition : Definition ν) (fault : Fault),
        definition.derivative name = .error fault ↔
          fault = .invalidVariable name ∧ ¬Expr.Writable ν name := by
  refine ⟨Lexed.isVariable_iff_exists_ofSource, ⟨Expr.exists_read_of_isVariable, ?_⟩, ?_⟩
  · rintro ⟨token, reads⟩
    exact Expr.isVariable_of_mem_names reads name (List.mem_singleton_self name)
  · intro definition fault
    rw [Expr.writable_iff]
    exact Definition.derivative_eq_error_iff

/-- A variable may start with the name of a function or with a number. -/
example : ["sinx", "info", "sin", "inf", " x"].filter isVariable = ["sinx", "info"] := by
  decide +kernel

end Fluxion
