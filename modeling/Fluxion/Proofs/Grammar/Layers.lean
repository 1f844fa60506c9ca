import Fluxion.Proofs.Grammar.Phrase

/-!
# Layers of phrases

The grammar read as a statement about strengths: the strength of a phrase is the
priority that its root has outside all parentheses, and an operator takes a left
operand that is at least as strong as itself and a stronger right one. This is
the form in which the grammar meets the priorities of the parser.
-/

namespace Fluxion

theorem Operator.ofText?_eq_some_iff {text : String} {operator : Operator} :
    Operator.ofText? text = some operator ↔ text = operator.text := by
  constructor
  · intro found
    unfold Operator.ofText? at found
    split at found
    · next symbol isSymbol =>
      rw [← String.ofList_toList (s := text), isSymbol, ← Operator.symbol_of_ofSymbol? found]
      rfl
    · cases found
  · rintro rfl
    exact Operator.ofText?_text operator

namespace Phrase

/-- How strongly a phrase holds together. -/
def strength (phrase : Phrase) : Int :=
  Token.basePriority phrase.root.kind phrase.root.text

/-- Every operator and every function of a phrase has operands that are strong
enough. An application takes a group, which is the strongest phrase. -/
inductive Layered : Phrase → Prop
  | atom {token : Token} : token.kind = .number ∨ token.kind = .identifier →
      Layered (.atom token)
  | binary {left right : Phrase} {operator : Token} {symbol : Operator} :
      operator.kind = .operator → Operator.ofText? operator.text = some symbol →
      Layered left → (symbol.precedence : Int) ≤ left.strength →
      Layered right → (symbol.precedence : Int) < right.strength →
      Layered (.binary left operator right)
  | apply {function : Token} {argument : Phrase} :
      function.kind = .function → Layered argument → 4 < argument.strength →
      Layered (.apply function argument)
  | group {opening closing : Token} {content : Phrase} :
      opening.kind = .openParen → Layered content → closing.kind = .closeParen →
      Layered (.group opening content closing)

theorem strength_atom {token : Token} (kind : token.kind = .number ∨ token.kind = .identifier) :
    (atom token).strength = 4 := by
  rcases kind with kind | kind <;> simp [strength, root, Token.basePriority, kind]

theorem strength_binary {left right : Phrase} {operator : Token} {symbol : Operator}
    (kind : operator.kind = .operator) (text : Operator.ofText? operator.text = some symbol) :
    (binary left operator right).strength = symbol.precedence := by
  simp [strength, root, Token.basePriority, kind, text]

theorem strength_apply {function : Token} {argument : Phrase} (kind : function.kind = .function) :
    (apply function argument).strength = 4 := by
  simp [strength, root, Token.basePriority, kind]

theorem strength_group {opening closing : Token} {content : Phrase}
    (kind : opening.kind = .openParen) : (group opening content closing).strength = 5 := by
  simp [strength, root, Token.basePriority, kind]

theorem Layered.one_le_strength {phrase : Phrase} (layered : phrase.Layered) :
    1 ≤ phrase.strength := by
  cases layered with
  | atom kind => rw [strength_atom kind]; decide
  | @binary _ _ _ symbol kind text _ _ _ _ =>
      rw [strength_binary kind text]
      cases symbol <;> decide
  | apply kind _ _ => rw [strength_apply kind]; decide
  | group kind _ _ => rw [strength_group kind]; decide

/-- The phrases that are stronger than every application are the groups. -/
theorem Layered.eq_group {phrase : Phrase} (layered : phrase.Layered)
    (strong : 4 < phrase.strength) :
    ∃ opening content closing, phrase = Phrase.group opening content closing := by
  cases layered with
  | atom kind => rw [strength_atom kind] at strong; exact absurd strong (by decide)
  | @binary _ _ _ symbol kind text _ _ _ _ =>
      rw [strength_binary kind text] at strong
      cases symbol <;> exact absurd strong (by decide)
  | apply kind _ _ => rw [strength_apply kind] at strong; exact absurd strong (by decide)
  | group kind _ _ => exact ⟨_, _, _, rfl⟩

end Phrase

/-- The least strength of the phrases in a category. -/
def Category.strength : Category → Int
  | expression => 1
  | term => 2
  | power => 3
  | atom => 4

namespace Phrase

private theorem layered_binary {left right : Phrase} {operator : Token} (strength : Nat)
    (kind : operator.kind = .operator)
    (text : ∃ symbol : Operator, operator.text = symbol.text ∧ symbol.precedence = strength)
    (leftLayered : left.Layered ∧ (strength : Int) ≤ left.strength)
    (rightLayered : right.Layered ∧ (strength + 1 : Int) ≤ right.strength) :
    (binary left operator right).Layered ∧
      (strength : Int) ≤ (binary left operator right).strength := by
  rcases text with ⟨symbol, text, rfl⟩
  have found := Operator.ofText?_eq_some_iff.mpr text
  rw [strength_binary kind found]
  exact ⟨.binary kind found leftLayered.1 leftLayered.2 rightLayered.1 rightLayered.2,
    Int.le_refl _⟩

/-- What the grammar derives is layered. -/
theorem layered_of_derives {category : Category} {phrase : Phrase}
    (derives : Derives category phrase) :
    phrase.Layered ∧ category.strength ≤ phrase.strength := by
  induction derives with
  | sum _ kind text _ leftLayered rightLayered =>
      refine layered_binary 1 kind ?_ leftLayered rightLayered
      rcases text with text | text
      · exact ⟨.add, text, rfl⟩
      · exact ⟨.sub, text, rfl⟩
  | product _ kind text _ leftLayered rightLayered =>
      refine layered_binary 2 kind ?_ leftLayered rightLayered
      rcases text with text | text
      · exact ⟨.mul, text, rfl⟩
      · exact ⟨.div, text, rfl⟩
  | power _ kind text _ leftLayered rightLayered =>
      exact layered_binary 3 kind ⟨.pow, text, rfl⟩ leftLayered rightLayered
  | ofTerm _ ih => exact ⟨ih.1, Int.le_trans (by decide) ih.2⟩
  | ofPower _ ih => exact ⟨ih.1, Int.le_trans (by decide) ih.2⟩
  | ofAtom _ ih => exact ⟨ih.1, Int.le_trans (by decide) ih.2⟩
  | number kind => exact ⟨.atom (Or.inl kind), by rw [strength_atom (Or.inl kind)]; decide⟩
  | identifier kind => exact ⟨.atom (Or.inr kind), by rw [strength_atom (Or.inr kind)]; decide⟩
  | application kind opening _ closing ih =>
      refine ⟨.apply kind (.group opening ih.1 closing) ?_, ?_⟩
      · rw [strength_group opening]
        decide
      · rw [strength_apply kind]
        decide
  | group opening _ closing ih =>
      refine ⟨.group opening ih.1 closing, ?_⟩
      rw [strength_group opening]
      decide

/-- A phrase of a category belongs to every looser one. -/
theorem derives_of_le {phrase : Phrase} {tight : Category} (derives : Derives tight phrase)
    (loose : Category) (looser : loose.strength ≤ tight.strength) : Derives loose phrase := by
  cases tight with
  | expression =>
      cases loose with
      | expression => exact derives
      | term => exact absurd looser (by decide)
      | power => exact absurd looser (by decide)
      | atom => exact absurd looser (by decide)
  | term =>
      cases loose with
      | expression => exact .ofTerm derives
      | term => exact derives
      | power => exact absurd looser (by decide)
      | atom => exact absurd looser (by decide)
  | power =>
      cases loose with
      | expression => exact .ofTerm (.ofPower derives)
      | term => exact .ofPower derives
      | power => exact derives
      | atom => exact absurd looser (by decide)
  | atom =>
      cases loose with
      | expression => exact .ofTerm (.ofPower (.ofAtom derives))
      | term => exact .ofPower (.ofAtom derives)
      | power => exact .ofAtom derives
      | atom => exact derives

theorem derives_of_atom {phrase : Phrase} (derives : Derives .atom phrase) (category : Category) :
    Derives category phrase :=
  derives_of_le derives category (by cases category <;> decide)

/-- What is layered is derived in every category that is not too tight for it. -/
theorem derives_of_layered {phrase : Phrase} (layered : phrase.Layered) (category : Category)
    (enough : category.strength ≤ phrase.strength) : Derives category phrase := by
  induction layered generalizing category with
  | atom kind =>
      rcases kind with kind | kind
      · exact derives_of_atom (.number kind) category
      · exact derives_of_atom (.identifier kind) category
  | @binary left right operator symbol kind found _ leftStrong _ rightStrong left_ih right_ih =>
      rw [strength_binary kind found] at enough
      have text := Operator.ofText?_eq_some_iff.mp found
      cases symbol with
      | add =>
          have derives : Derives .expression (.binary left operator right) :=
            .sum (left_ih _ leftStrong) kind (Or.inl text) (right_ih _ rightStrong)
          exact derives_of_le derives category enough
      | sub =>
          have derives : Derives .expression (.binary left operator right) :=
            .sum (left_ih _ leftStrong) kind (Or.inr text) (right_ih _ rightStrong)
          exact derives_of_le derives category enough
      | mul =>
          have derives : Derives .term (.binary left operator right) :=
            .product (left_ih _ leftStrong) kind (Or.inl text) (right_ih _ rightStrong)
          exact derives_of_le derives category enough
      | div =>
          have derives : Derives .term (.binary left operator right) :=
            .product (left_ih _ leftStrong) kind (Or.inr text) (right_ih _ rightStrong)
          exact derives_of_le derives category enough
      | pow =>
          have derives : Derives .power (.binary left operator right) :=
            .power (left_ih _ leftStrong) kind text (right_ih _ rightStrong)
          exact derives_of_le derives category enough
  | @apply function argument kind argumentLayered strong ih =>
      rcases argumentLayered.eq_group strong with ⟨opening, content, closing, rfl⟩
      cases ih .atom (Int.le_of_lt strong) with
      | group opening content closing =>
          exact derives_of_atom (.application kind opening content closing) category
  | group opening contentLayered closing ih =>
      have content := ih .expression contentLayered.one_le_strength
      exact derives_of_atom (.group opening content closing) category

end Phrase

end Fluxion
