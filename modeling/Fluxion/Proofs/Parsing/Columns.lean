import Fluxion.Proofs.Expr.Meaning
import Fluxion.Proofs.Parsing.Blame
import Fluxion.Proofs.Parsing.Moved
import Fluxion.Proofs.Token.Layout
import Fluxion.Proofs.Token.Lossless

/-!
# Columns play no part in parsing

Sources whose tokens have the same kinds and texts differ in columns only, and the
parser hands columns on without looking at them. So the layout of a source does not
matter to how it is read.
-/

namespace Fluxion

variable {ν : Type}

/-! ## Tokens of the same kinds and texts -/

/-- If the tokens of two sources have the same kinds and texts, and no two tokens of the first
start at one column, the tokens of the second are those of the first, moved. -/
theorem exists_eq_map_moved {tokens tokens' : List Token}
    (spelled : tokens'.map Token.spelled = tokens.map Token.spelled)
    (wellCut : ∀ token ∈ tokens, token.WellCut) (wellCut' : ∀ token ∈ tokens', token.WellCut)
    (distinct : (tokens.map Token.column).Nodup) :
    ∃ place, tokens' = tokens.map (Token.moved place) := by
  induction tokens generalizing tokens' with
  | nil => exact ⟨id, List.map_eq_nil_iff.mp spelled⟩
  | cons token tokens ih =>
      obtain ⟨token', rest, rfl, same, later⟩ := List.map_eq_cons_iff.mp spelled
      rw [List.map_cons, List.nodup_cons] at distinct
      obtain ⟨place, rfl⟩ := ih later (fun other member => wellCut other (by simp [member]))
        (fun other member => wellCut' other (List.mem_cons_of_mem _ member)) distinct.2
      refine ⟨Function.update place token.column token'.column, ?_⟩
      rw [List.map_cons, List.cons.injEq]
      constructor
      · obtain ⟨sameKind, sameText⟩ := Prod.mk.inj same
        have samePriority : token'.priority = token.priority := by
          rw [(wellCut' token' List.mem_cons_self).base, (wellCut token List.mem_cons_self).base,
            sameKind, sameText]
        rw [Token.moved, Function.update_self, ← sameKind, ← sameText, ← samePriority]
      · refine List.map_congr_left fun other member => ?_
        have elsewhere : other.column ≠ token.column := by
          intro meet
          rw [← meet] at distinct
          exact distinct.1 (List.mem_map_of_mem member)
        rw [Token.moved, Token.moved, Function.update_of_ne elsewhere]

namespace Lexed

theorem raised_moved (place : Int → Int) (depth : Int) (tokens : List Token) :
    raised depth (tokens.map (Token.moved place)) =
      (raised depth tokens).map (Token.moved place) := by
  induction tokens generalizing depth with
  | nil => rfl
  | cons token tokens ih =>
      rw [List.map_cons, raised, raised, List.map_cons, ih]
      rfl

/-- No two tokens start at one column. -/
theorem nodup_column_ofSource (source : String) :
    ((ofSource source).tokens.map Token.column).Nodup := by
  have inOrder := (pairwise_ofText true 1 source.toList).sublist
    (List.sublist_append_left (ofSource source).tokens (ofSource source).stray.toList)
  rw [List.Nodup, List.pairwise_map]
  refine inOrder.imp_of_mem fun {first second} member _ ends same => ?_
  have nonempty := (standsIn_ofSource (List.mem_append_left _ member)).1
  have long : 0 < first.text.length :=
    Nat.pos_of_ne_zero (mt String.length_eq_zero_iff.mp nonempty)
  rw [Token.EndsBefore, same] at ends
  omega

end Lexed

/-! ## Two layouts of one source -/

/-- Two reports say the same of tokens that stand at one place in two lists, or of no token. -/
inductive Report.Corresponds (tokens tokens' : List Token) : Report → Report → Prop
  | whole {category : Category} {message : String} :
      Corresponds tokens tokens' ⟨category, message, none⟩ ⟨category, message, none⟩
  | atPlace {category : Category} {message : String} {token token' : Token} (place : Nat) :
      tokens[place]? = some token → tokens'[place]? = some token' →
      Corresponds tokens tokens' ⟨category, message, some token⟩ ⟨category, message, some token'⟩

/-- Two sources are read as one expression, or both are refused, for the same reason and because
of corresponding tokens. -/
inductive ReadAlike (source other : String) : Prop
  | read {tree tree' : Expr Float Token} : Expr.read source = .ok tree →
      Expr.read other = .ok tree' → tree'.bare = tree.bare →
      ((∀ x ∈ tree.numbers, x.isNaN = false) → tree'.alike (fun _ _ => false) tree = true) →
      ReadAlike source other
  | refused {fault fault' : Fault} {report report' : Report} {tokens tokens' : List Token} :
      (Expr.read source : Except Fault (Expr Float Token)) = .error fault →
      (Expr.read other : Except Fault (Expr Float Token)) = .error fault' →
      fault.report? = some report → fault'.report? = some report' →
      (Lexed.ofSource source).prioritized = .ok tokens →
      (Lexed.ofSource other).prioritized = .ok tokens' →
      report.Corresponds tokens tokens' report' → ReadAlike source other

theorem Expr.agrees_map {α β : Type} (f : α → β) (expr : Expr ν α) :
    Agrees (fun y x => y = x) (expr.map f) expr := by
  induction expr with
  | num _ _ => exact .num rfl
  | var _ _ => exact .var
  | binary _ _ _ _ left_ih right_ih => exact .binary left_ih right_ih
  | apply _ _ _ ih => exact .apply ih

/-- Sources whose tokens have the same kinds and texts are read alike. -/
theorem readAlike_of_spelled {source other : String}
    (clean : (Lexed.ofSource source).stray = none) (clean' : (Lexed.ofSource other).stray = none)
    (spelled : (Lexed.ofSource other).tokens.map Token.spelled =
      (Lexed.ofSource source).tokens.map Token.spelled) : ReadAlike source other := by
  obtain ⟨place, moved⟩ := exists_eq_map_moved spelled
    (Lexed.wellCut_ofText true 1 source.toList) (Lexed.wellCut_ofText true 1 other.toList)
    (Lexed.nodup_column_ofSource source)
  have lexes := Lexed.prioritized_eq_ok_iff.mpr ⟨clean, rfl⟩
  have lexes' := Lexed.prioritized_eq_ok_iff.mpr ⟨clean', rfl⟩
  rw [moved, Lexed.raised_moved] at lexes'
  have readable : ∀ token ∈ Lexed.raised 0 (Lexed.ofSource source).tokens,
      token.Readable Float := fun token member =>
    Token.readable_of_fits (Lexed.fits_of_prioritized lexes token member)
  generalize Lexed.raised 0 (Lexed.ofSource source).tokens = tokens at lexes lexes' readable
  have same := Parsing.outcome_ofTokens_moved (ν := Float) place tokens
  cases outcome : (Parsing.ofTokens tokens : Parsing Float).outcome with
  | ok tree =>
      rw [outcome] at same
      have reads : Expr.read source = .ok tree := by
        rw [Expr.read, Parsing.ofSource, lexes]
        exact outcome
      have reads' : Expr.read other = .ok (tree.map (Token.moved place)) := by
        rw [Expr.read, Parsing.ofSource, lexes']
        exact same
      refine .read reads reads' (Expr.bare_map _ tree) ?_
      intro noNaN
      refine (Expr.agrees_map (Token.moved place) tree).alike ?_
      rintro x member _ rfl
      exact Decimal.Binary64.beq_self_of_isNaN (noNaN _ member)
  | error fault =>
      rw [outcome] at same
      have refused : (Expr.read source : Except Fault (Expr Float Token)) = .error fault := by
        rw [Expr.read, Parsing.ofSource, lexes]
        exact outcome
      have refused' : (Expr.read other : Except Fault (Expr Float Token)) =
          .error (fault.moved place) := by
        rw [Expr.read, Parsing.ofSource, lexes']
        exact same
      rcases Parsing.emptyInput_or_blames readable outcome with
        ⟨-, rfl⟩ | ⟨message, token, reported, member⟩
      · exact .refused refused refused' rfl rfl lexes lexes' .whole
      · obtain ⟨i, found⟩ := List.getElem?_of_mem member
        refine .refused refused refused' reported (Fault.report?_moved reported place) lexes lexes'
          (.atPlace i found ?_)
        rw [List.getElem?_map, found]
        rfl

/-- Layout does not matter between tokens. If the texts of the tokens of a source are set with
gaps around them, of blanks only and none of those between two texts empty, the tokens have the
same kinds and texts, and what they make up is read as it was: as the same expression but for
the marks, or it is refused for the same reason and because of the corresponding token. -/
theorem read_layOut {source gap : String} {pieces : List (String × String)}
    (clean : (Lexed.ofSource source).stray = none)
    (texts : pieces.map Prod.fst = (Lexed.ofSource source).tokens.map Token.text)
    (apart : Lexed.KeepsApart gap pieces) :
    (Lexed.ofSource (Lexed.layOut gap pieces)).stray = none ∧
      (Lexed.ofSource (Lexed.layOut gap pieces)).tokens.map Token.spelled =
        (Lexed.ofSource source).tokens.map Token.spelled ∧
      ReadAlike source (Lexed.layOut gap pieces) := by
  obtain ⟨expected, cuts⟩ := Lexed.exists_cuts_layOut true 1 source.toList clean apart texts
  obtain ⟨tokens, lexed, spelled⟩ := Lexed.exists_ofSource_of_cuts cuts
  have clean' : (Lexed.ofSource (Lexed.layOut gap pieces)).stray = none := by
    rw [lexed]
  have spelled' : (Lexed.ofSource (Lexed.layOut gap pieces)).tokens.map Token.spelled =
      (Lexed.ofSource source).tokens.map Token.spelled := by
    rw [lexed]
    exact spelled
  exact ⟨clean', spelled', readAlike_of_spelled clean clean' spelled'⟩

/-- In `2*-1` the minus sign belongs to the number, however the three tokens are laid out. -/
theorem read_layOut_negative :
    let source := "2*-1"
    let pieces := [("2", "\t"), ("*", " \n"), ("-1", "")]
    (Lexed.ofSource source).stray = none ∧
      pieces.map Prod.fst = (Lexed.ofSource source).tokens.map Token.text ∧
      Lexed.KeepsApart " " pieces ∧ Lexed.layOut " " pieces = " 2\t* \n-1" ∧
      ReadAlike source (Lexed.layOut " " pieces) := by
  intro source pieces
  have clean : (Lexed.ofSource source).stray = none := by decide +kernel
  have texts : pieces.map Prod.fst = (Lexed.ofSource source).tokens.map Token.text := by
    decide +kernel
  have apart : Lexed.KeepsApart " " pieces := by
    have blank : (" " :: pieces.map Prod.snd).all (·.toList.all Text.isBlank) = true := by
      decide
    exact ⟨by simpa only [List.all_eq_true] using blank, by decide⟩
  exact ⟨clean, texts, apart, by decide, (read_layOut clean texts apart).2.2⟩

end Fluxion
