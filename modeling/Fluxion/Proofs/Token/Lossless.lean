import Fluxion.Proofs.Token.Stray

/-!
# Cutting loses nothing

The tokens of a source are slices of it, one behind the other without overlap,
and what they leave uncovered is blank, up to the stray character if there is
one. A character that is not blank is lost to no token, so the cutting fails
exactly if some uncovered character starts no token, and what it reports is the
first such character.
-/

namespace Fluxion

open Fluxion.Token

/-! ## Places in a source -/

namespace Token

/-- The part of a source that begins at the column of a token and is as long as its text. -/
def slice (source : String) (token : Token) : String :=
  String.ofList ((source.toList.drop (token.column - 1).toNat).take token.text.length)

/-- A token reaches over the character at a place, which is counted from 0 as columns are
counted from 1. -/
def Covers (token : Token) (place : Nat) : Prop :=
  token.column ≤ place + 1 ∧ (place : Int) + 1 < token.column + token.text.length

/-- A token ends before another begins. -/
def EndsBefore (first second : Token) : Prop :=
  first.column + first.text.length ≤ second.column

theorem StandsIn.slice_eq {source : String} {token : Token} (stands : token.StandsIn source) :
    token.slice source = token.text := by
  obtain ⟨_, before, after, split, place⟩ := stands
  have start : (token.column - 1).toNat = before.length := by
    rw [place, Int.add_sub_cancel, Int.toNat_natCast]
  rw [slice, start, split, List.drop_left, ← String.length_toList, List.take_left,
    String.ofList_toList]

end Token

/-- No token reaches over the character at a place. -/
def Uncovered (tokens : List Token) (place : Nat) : Prop :=
  ∀ token ∈ tokens, ¬token.Covers place

/-- Outside the tokens there is a character at a place that starts no token. -/
def StrayAt (source : String) (tokens : List Token) (place : Nat) (c : Char) : Prop :=
  Uncovered tokens place ∧
    ∃ tail, source.toList.drop place = c :: tail ∧ StartsNothing c tail

namespace Lexed

/-! ## The order of the tokens -/

/-- Nothing is cut before the column at which the text starts. -/
theorem column_le_of_mem_pieces {operandExpected : Bool} {column : Nat} {text : List Char}
    {token : Token} (member : token ∈ (ofText operandExpected column text).pieces) :
    (column : Int) ≤ token.column := by
  obtain ⟨_, before, _, _, place⟩ := exists_slice_ofText operandExpected column text token member
  rw [place]
  exact Int.le_add_of_nonneg_right (Int.natCast_nonneg _)

/-- Each token ends before the next one begins, and the last one before the stray
character. -/
theorem pairwise_ofText (operandExpected : Bool) (column : Nat) (text : List Char) :
    (ofText operandExpected column text).pieces.Pairwise Token.EndsBefore := by
  induction operandExpected, column, text using ofText.induct with
  | case1 => simp [ofText, pieces]
  | case2 operandExpected column c tail blank ih =>
      rw [ofText, if_pos blank]
      exact ih
  | case3 operandExpected column c tail solid lexeme isStray =>
      rw [ofText, if_neg solid, if_pos isStray]
      exact List.pairwise_singleton _ _
  | case4 operandExpected column c tail solid lexeme kept ih =>
      rw [ofText, if_neg solid, if_neg kept]
      refine List.pairwise_cons.mpr ⟨?_, ih⟩
      intro other member
      have behind := column_le_of_mem_pieces member
      rw [Token.EndsBefore, String.length_ofList]
      exact_mod_cast behind

/-! ## What is left uncovered -/

/-- An uncovered character is blank, or it does not come before the stray one. -/
theorem blank_or_stray_ofText (operandExpected : Bool) (column : Nat) (text : List Char) :
    ∀ k c, text[k]? = some c →
      (∀ token ∈ (ofText operandExpected column text).tokens,
        ¬(token.column ≤ (column + k : Nat) ∧
          ((column + k : Nat) : Int) < token.column + token.text.length)) →
      Text.isBlank c = true ∨ ∃ stray, (ofText operandExpected column text).stray = some stray ∧
        stray.column ≤ (column + k : Nat) := by
  induction operandExpected, column, text using ofText.induct with
  | case1 => simp
  | case2 operandExpected column d tail blank ih =>
      rw [ofText, if_pos blank]
      intro k c found uncovered
      cases k with
      | zero =>
          cases found
          exact Or.inl blank
      | succ k =>
          have next : column + (k + 1) = column + 1 + k := by omega
          rw [next] at uncovered ⊢
          exact ih k c found uncovered
  | case3 operandExpected column d tail solid lexeme isStray =>
      rw [ofText, if_neg solid, if_pos isStray]
      intro k c found uncovered
      exact Or.inr ⟨_, rfl, Int.ofNat_le.mpr (Nat.le_add_right column k)⟩
  | case4 operandExpected column d tail solid lexeme kept ih =>
      obtain ⟨split, _⟩ := scan_append operandExpected d tail
      rw [ofText, if_neg solid, if_neg kept]
      intro k c found uncovered
      by_cases inside : k < lexeme.text.length
      · -- The lexeme covers its own characters.
        have missed := uncovered _ List.mem_cons_self
        rw [String.length_ofList] at missed
        exact absurd ⟨Int.ofNat_le.mpr (Nat.le_add_right column k),
          Int.ofNat_lt.mpr (Nat.add_lt_add_left inside column)⟩ missed
      · rw [Nat.not_lt] at inside
        obtain ⟨k, rfl⟩ := Nat.exists_eq_add_of_le inside
        rw [← split, List.getElem?_append_right inside, Nat.add_sub_cancel_left] at found
        rw [← Nat.add_assoc] at uncovered ⊢
        exact ih k c found fun token member => uncovered token (List.mem_cons_of_mem _ member)

/-- A lexeme that is stray is its first character alone. -/
theorem text_scan_of_stray {operandExpected : Bool} {c : Char} {tail : List Char}
    (isStray : (scan operandExpected c tail).kind = .stray) :
    (scan operandExpected c tail).text = [c] := by
  have fits := fits_scan operandExpected c tail
  rw [isStray] at fits
  obtain ⟨d, single⟩ := fits
  have append := (scan_append operandExpected c tail).1
  rw [single, List.cons_append, List.cons.injEq] at append
  rw [single, append.1]

/-- The stray character starts no token, and it is reported at its column. -/
theorem exists_of_stray_ofText {operandExpected : Bool} {column : Nat} {text : List Char}
    {stray : Token} (found : (ofText operandExpected column text).stray = some stray) :
    ∃ before c tail, text = before ++ c :: tail ∧ StartsNothing c tail ∧
      stray = ⟨.stray, String.ofList [c], (column + before.length : Nat), 0⟩ := by
  induction operandExpected, column, text using ofText.induct with
  | case1 => simp [ofText] at found
  | case2 operandExpected column c tail blank ih =>
      rw [ofText, if_pos blank] at found
      obtain ⟨before, d, rest, rfl, nothing, rfl⟩ := ih found
      refine ⟨c :: before, d, rest, rfl, nothing, ?_⟩
      rw [List.length_cons, Nat.add_assoc, Nat.add_comm 1]
  | case3 operandExpected column c tail solid lexeme isStray =>
      rw [ofText, if_neg solid, if_pos isStray] at found
      rw [Bool.not_eq_true] at solid
      cases found
      refine ⟨[], c, tail, rfl, (scan_kind_eq_stray_iff solid operandExpected tail).mp isStray, ?_⟩
      rw [text_scan_of_stray isStray, isStray]
      rfl
  | case4 operandExpected column c tail solid lexeme kept ih =>
      rw [ofText, if_neg solid, if_neg kept] at found
      obtain ⟨split, _⟩ := scan_append operandExpected c tail
      obtain ⟨before, d, rest, later, nothing, rfl⟩ := ih found
      refine ⟨lexeme.text ++ before, d, rest, ?_, nothing, ?_⟩
      · rw [List.append_assoc, ← later]
        exact split.symm
      · rw [List.length_append, Nat.add_assoc]

/-! ## Sources -/

section Source

variable {source : String}

theorem blank_or_stray {place : Nat} {c : Char} (found : source.toList[place]? = some c)
    (uncovered : Uncovered (ofSource source).tokens place) :
    Text.isBlank c = true ∨ ∃ stray, (ofSource source).stray = some stray ∧
      stray.column ≤ place + 1 := by
  have shifted : ((1 + place : Nat) : Int) = place + 1 := by omega
  have either := blank_or_stray_ofText true 1 source.toList place c found
  rw [shifted] at either
  exact either uncovered

theorem getElem?_of_strayAt {tokens : List Token} {place : Nat} {c : Char}
    (strayAt : StrayAt source tokens place c) : source.toList[place]? = some c := by
  obtain ⟨_, tail, here, _⟩ := strayAt
  rw [← List.head?_drop, here]
  rfl

/-- If a character outside the tokens starts none, a stray character is reported, not behind
it. -/
theorem exists_stray_of_strayAt {place : Nat} {c : Char}
    (strayAt : StrayAt source (ofSource source).tokens place c) :
    ∃ stray, (ofSource source).stray = some stray ∧ stray.column ≤ place + 1 := by
  obtain ⟨_, _, nothing⟩ := strayAt.2
  rcases blank_or_stray (getElem?_of_strayAt strayAt) strayAt.1 with blank | found
  · rw [nothing.solid] at blank
    cases blank
  · exact found

/-- What is reported as stray is the first character outside the tokens that starts none. -/
theorem exists_strayAt_of_stray {stray : Token} (found : (ofSource source).stray = some stray) :
    ∃ place c, StrayAt source (ofSource source).tokens place c ∧
      (∀ other d, StrayAt source (ofSource source).tokens other d → place ≤ other) ∧
      stray = ⟨.stray, String.ofList [c], place + 1, 0⟩ := by
  obtain ⟨before, c, tail, split, nothing, rfl⟩ := exists_of_stray_ofText found
  have shifted : ((1 + before.length : Nat) : Int) = before.length + 1 := by omega
  have inOrder := pairwise_ofText true 1 source.toList
  rw [shifted] at found ⊢
  refine ⟨before.length, c, ⟨?_, tail, ?_, nothing⟩, ?_, rfl⟩
  · intro token member covers
    have ends := (List.pairwise_append.mp inOrder).2.2 token member _
      (by rw [← ofSource, found]; exact List.mem_singleton_self _)
    exact absurd covers.2 (Int.not_lt.mpr ends)
  · rw [split, List.drop_left]
  · intro other d strayAt
    obtain ⟨stray, found', place⟩ := exists_stray_of_strayAt strayAt
    rw [found] at found'
    cases found'
    simpa using place

/-- A stray character is reported exactly if a character outside the tokens starts none. -/
theorem isSome_stray_iff_exists_strayAt : (ofSource source).stray.isSome = true ↔
    ∃ place c, StrayAt source (ofSource source).tokens place c := by
  rw [Option.isSome_iff_exists]
  constructor
  · rintro ⟨stray, found⟩
    obtain ⟨place, c, strayAt, _⟩ := exists_strayAt_of_stray found
    exact ⟨place, c, strayAt⟩
  · rintro ⟨place, c, strayAt⟩
    obtain ⟨stray, found, _⟩ := exists_stray_of_strayAt strayAt
    exact ⟨stray, found⟩

/-- The first character outside the tokens that starts none is the one reported as stray. -/
theorem stray_eq_of_first {place : Nat} {c : Char}
    (strayAt : StrayAt source (ofSource source).tokens place c)
    (first : ∀ other d, StrayAt source (ofSource source).tokens other d → place ≤ other) :
    (ofSource source).stray = some ⟨.stray, String.ofList [c], place + 1, 0⟩ := by
  obtain ⟨stray, found, _⟩ := exists_stray_of_strayAt strayAt
  obtain ⟨place', c', strayAt', first', rfl⟩ := exists_strayAt_of_stray found
  -- Both are first, so they are one place.
  have same : place' = place := Nat.le_antisymm (first' place c strayAt) (first place' c' strayAt')
  subst same
  have sameChar := (getElem?_of_strayAt strayAt').symm.trans (getElem?_of_strayAt strayAt)
  cases sameChar
  exact found

/-- Cutting a source loses nothing. Its tokens are slices of it at their columns and not empty,
each ends before the next one begins, and every character outside them is blank, up to the
stray one if there is one. A stray character is reported exactly if outside the tokens there is
a character that starts none, and it is the first such character. -/
theorem ofSource_lossless (source : String) :
    (∀ token ∈ (ofSource source).tokens,
        token.text ≠ "" ∧ 1 ≤ token.column ∧ token.slice source = token.text) ∧
      (ofSource source).pieces.Pairwise Token.EndsBefore ∧
      (∀ place c, source.toList[place]? = some c → Uncovered (ofSource source).tokens place →
        (∀ stray, (ofSource source).stray = some stray → (place : Int) + 1 < stray.column) →
        Text.isBlank c = true) ∧
      ((ofSource source).stray.isSome = true ↔
        ∃ place c, StrayAt source (ofSource source).tokens place c) ∧
      ∀ stray, (ofSource source).stray = some stray ↔
        ∃ place c, StrayAt source (ofSource source).tokens place c ∧
          (∀ other d, StrayAt source (ofSource source).tokens other d → place ≤ other) ∧
          stray = ⟨.stray, String.ofList [c], place + 1, 0⟩ := by
  refine ⟨?_, pairwise_ofText true 1 source.toList, ?_, isSome_stray_iff_exists_strayAt, ?_⟩
  · intro token member
    have piece := List.mem_append_left (ofSource source).stray.toList member
    have stands := standsIn_ofSource piece
    exact ⟨stands.1, column_le_of_mem_pieces piece, stands.slice_eq⟩
  · intro place c found uncovered before
    rcases blank_or_stray found uncovered with blank | ⟨stray, isStray, behind⟩
    · exact blank
    · exact absurd behind (Int.not_le.mpr (before stray isStray))
  · intro stray
    constructor
    · exact exists_strayAt_of_stray
    · rintro ⟨place, c, strayAt, first, rfl⟩
      exact stray_eq_of_first strayAt first

end Source

/-- In `a.b` the point is stray, because no digit follows it. -/
theorem ofSource_lossless_point :
    (ofSource "a.b").stray = some ⟨.stray, ".", 2, 0⟩ ∧
      ∃ place c, StrayAt "a.b" (ofSource "a.b").tokens place c ∧
        (⟨.stray, ".", 2, 0⟩ : Token) = ⟨.stray, String.ofList [c], place + 1, 0⟩ := by
  have found : (ofSource "a.b").stray = some ⟨.stray, ".", 2, 0⟩ := by decide +kernel
  obtain ⟨_, _, _, _, exactly⟩ := ofSource_lossless "a.b"
  obtain ⟨place, c, strayAt, _, same⟩ := (exactly _).mp found
  exact ⟨found, place, c, strayAt, same⟩

end Lexed

end Fluxion
