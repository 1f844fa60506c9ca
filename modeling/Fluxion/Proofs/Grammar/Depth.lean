import Fluxion.Proofs.Grammar.Layers
import Fluxion.Token.Lexer

/-!
# Depth and priority

The priority of a token is that of its kind, raised by the parentheses that are
open around it. Phrases are balanced: the depth behind a phrase is the depth
before it, and its root stands at this depth. So next to each other, phrases and
tokens compare by priority as they compare by strength.

From this it follows that the grammar is unambiguous: the root of a phrase is the
last of its tokens of the lowest priority.
-/

namespace Fluxion

/-- The depth at which a token stands if `depth` parentheses are open before
it. -/
def Token.depthAt (depth : Int) (token : Token) : Int :=
  if token.kind = .closeParen then depth - 1 else depth

/-- The depth behind a token. -/
def Token.depthBehind (depth : Int) (token : Token) : Int :=
  if token.kind = .openParen then token.depthAt depth + 1 else token.depthAt depth

/-- Tokens that carry the priorities of their places, from one depth to
another. -/
def Ranked (depth : Int) : List Token → Int → Prop
  | [], final => depth = final
  | token :: rest, final =>
      token.priority =
          Token.basePriority token.kind token.text + token.depthAt depth * Token.parenOffset ∧
        Ranked (token.depthBehind depth) rest final

namespace Ranked

theorem append {depth final : Int} {first second : List Token} :
    Ranked depth (first ++ second) final ↔
      ∃ middle, Ranked depth first middle ∧ Ranked middle second final := by
  induction first generalizing depth with
  | nil => simp [Ranked]
  | cons token first ih => simp [Ranked, ih, and_assoc]

theorem middle {depth final : Int} {first second third : List Token}
    (ranked : Ranked depth (first ++ (second ++ third)) final) :
    ∃ start finish, Ranked start second finish := by
  obtain ⟨start, _, rest⟩ := append.mp ranked
  obtain ⟨finish, middle, _⟩ := append.mp rest
  exact ⟨start, finish, middle⟩

/-- Raising tokens gives them the priorities of their places. -/
theorem of_raised (depth : Int) {tokens : List Token}
    (base : ∀ token ∈ tokens, token.priority = Token.basePriority token.kind token.text) :
    ∃ final, Ranked depth (Lexed.raised depth tokens) final := by
  induction tokens generalizing depth with
  | nil => exact ⟨depth, rfl⟩
  | cons token tokens ih =>
      rcases ih (token.depthBehind depth) (fun other member => base other (by simp [member])) with
        ⟨final, ranked⟩
      refine ⟨final, ?_, ranked⟩
      simp [Token.depthAt, base token]

end Ranked

namespace Phrase

/-- A phrase is balanced, and its root stands at the depth of the phrase. -/
theorem Layered.ranked {phrase : Phrase} (layered : phrase.Layered) {depth final : Int}
    (ranked : Ranked depth phrase.tokens final) :
    final = depth ∧ phrase.root.priority = phrase.strength + depth * Token.parenOffset := by
  induction layered generalizing depth final with
  | @atom token kind =>
      rcases ranked with ⟨priority, behind⟩
      rcases kind with kind | kind <;>
        simp_all [Token.depthAt, Token.depthBehind, Ranked, strength, root]
  | @binary left right operator symbol kind found _ _ _ _ left_ih right_ih =>
      obtain ⟨middle, leftRanked, priority, rightRanked⟩ := Ranked.append.mp ranked
      have leftBalanced := (left_ih leftRanked).1
      have rightBalanced := (right_ih rightRanked).1
      simp_all [Token.depthAt, Token.depthBehind, strength, root]
  | @apply function argument kind _ _ ih =>
      rcases ranked with ⟨priority, argumentRanked⟩
      have balanced := (ih argumentRanked).1
      simp_all [Token.depthAt, Token.depthBehind, strength, root]
  | @group opening closing content openKind _ closeKind ih =>
      rcases ranked with ⟨priority, rest⟩
      obtain ⟨middle, contentRanked, _, closed⟩ := Ranked.append.mp rest
      have balanced := (ih contentRanked).1
      simp_all [Token.depthAt, Token.depthBehind, strength, root, Ranked]

/-! ## Roots in order of priority -/

variable {depth final : Int}

/-- An operator does not outrank its left operand, and it is outranked by its
right one. -/
theorem binary_ranked {left right : Phrase} {operator : Token}
    (layered : (binary left operator right).Layered)
    (ranked : Ranked depth (binary left operator right).tokens final) :
    Ranked depth left.tokens depth ∧ Ranked depth right.tokens depth ∧
      operator.priority ≤ left.root.priority ∧ operator.priority < right.root.priority := by
  have atOperator := (layered.ranked ranked).2
  cases layered with
  | binary kind found leftLayered leftStrong rightLayered rightStrong =>
      obtain ⟨middle, leftRanked, _, rightRanked⟩ := Ranked.append.mp ranked
      rcases leftLayered.ranked leftRanked with ⟨rfl, atLeft⟩
      rw [Token.depthBehind, Token.depthAt, kind] at rightRanked
      have rightRanked : Ranked middle right.tokens final := by simpa using rightRanked
      rcases rightLayered.ranked rightRanked with ⟨rfl, atRight⟩
      rw [strength_binary kind found, root] at atOperator
      exact ⟨leftRanked, rightRanked, by omega, by omega⟩

/-- A function is outranked by its argument. -/
theorem apply_ranked {function : Token} {argument : Phrase}
    (layered : (apply function argument).Layered)
    (ranked : Ranked depth (apply function argument).tokens final) :
    Ranked depth argument.tokens depth ∧ function.priority < argument.root.priority := by
  have atFunction := (layered.ranked ranked).2
  cases layered with
  | apply kind argumentLayered strong =>
      have argumentRanked : Ranked depth argument.tokens final := by
        simpa [Token.depthBehind, Token.depthAt, kind] using ranked.2
      rcases argumentLayered.ranked argumentRanked with ⟨rfl, atArgument⟩
      rw [strength_apply kind, root] at atFunction
      exact ⟨argumentRanked, by omega⟩

/-- An opening parenthesis is outranked by what it encloses, and the closing one
does not outrank it. -/
theorem group_ranked {opening closing : Token} {content : Phrase}
    (layered : (group opening content closing).Layered)
    (ranked : Ranked depth (group opening content closing).tokens final) :
    Ranked (depth + 1) content.tokens (depth + 1) ∧
      opening.priority < content.root.priority ∧ closing.priority ≤ opening.priority := by
  have atOpening := (layered.ranked ranked).2
  cases layered with
  | group openKind contentLayered closeKind =>
      obtain ⟨middle, contentRanked, atClosing, _⟩ := Ranked.append.mp ranked.2
      have contentRanked : Ranked (depth + 1) content.tokens middle := by
        simpa [Token.depthBehind, Token.depthAt, openKind] using contentRanked
      rcases contentLayered.ranked contentRanked with ⟨rfl, atContent⟩
      rw [strength_group openKind, root] at atOpening
      have positive := contentLayered.one_le_strength
      simp only [Token.parenOffset, Token.depthAt, closeKind, Token.basePriority, if_true]
        at atOpening atContent atClosing
      exact ⟨contentRanked, by omega, by omega⟩

/-- Where tokens carry the priorities of their places, an operator that compares so
with its operands makes a layered phrase. -/
theorem binary_layered {left right : Phrase} {operator : Token} {symbol : Operator}
    (ranked : Ranked depth (binary left operator right).tokens final)
    (kind : operator.kind = .operator) (found : Operator.ofText? operator.text = some symbol)
    (leftLayered : left.Layered) (atMost : operator.priority ≤ left.root.priority)
    (rightLayered : right.Layered) (below : operator.priority < right.root.priority) :
    (binary left operator right).Layered := by
  obtain ⟨middle, leftRanked, atOperator, rightRanked⟩ := Ranked.append.mp ranked
  rcases leftLayered.ranked leftRanked with ⟨rfl, atLeft⟩
  have rightRanked : Ranked middle right.tokens final := by
    simpa [Token.depthBehind, Token.depthAt, kind] using rightRanked
  rcases rightLayered.ranked rightRanked with ⟨rfl, atRight⟩
  simp only [Token.basePriority, Token.depthAt, kind, found] at atOperator
  refine .binary kind found leftLayered ?_ rightLayered ?_
  · simp at atOperator
    omega
  · simp at atOperator
    omega

/-- Where tokens carry the priorities of their places, a function that its argument
outranks makes a layered phrase. -/
theorem apply_layered {function : Token} {argument : Phrase}
    (ranked : Ranked depth (apply function argument).tokens final)
    (kind : function.kind = .function) (argumentLayered : argument.Layered)
    (below : function.priority < argument.root.priority) : (apply function argument).Layered := by
  rcases ranked with ⟨atFunction, argumentRanked⟩
  have argumentRanked : Ranked depth argument.tokens final := by
    simpa [Token.depthBehind, Token.depthAt, kind] using argumentRanked
  rcases argumentLayered.ranked argumentRanked with ⟨rfl, atArgument⟩
  simp only [Token.basePriority, Token.depthAt, kind] at atFunction
  refine .apply kind argumentLayered ?_
  simp at atFunction
  omega

/-- No token of a phrase that takes operands or stands for one has a lower
priority than the root. -/
theorem Layered.root_le {phrase : Phrase} (layered : phrase.Layered)
    (ranked : Ranked depth phrase.tokens final) :
    ∀ token ∈ phrase.tokens, token.kind ≠ .closeParen → phrase.root.priority ≤ token.priority := by
  induction phrase generalizing depth final with
  | atom token => simp [tokens, root]
  | binary left operator right left_ih right_ih =>
      obtain ⟨leftRanked, rightRanked, atMost, below⟩ := binary_ranked layered ranked
      cases layered with
      | binary _ _ leftLayered _ rightLayered _ =>
          intro token member notClosing
          rcases List.mem_append.mp member with member | member
          · exact Int.le_trans atMost (left_ih leftLayered leftRanked token member notClosing)
          · rcases List.mem_cons.mp member with rfl | member
            · exact Int.le_refl _
            · have above := right_ih rightLayered rightRanked token member notClosing
              exact Int.le_trans (Int.le_of_lt below) above
  | apply function argument ih =>
      obtain ⟨argumentRanked, below⟩ := apply_ranked layered ranked
      cases layered with
      | apply _ argumentLayered _ =>
          intro token member notClosing
          rcases List.mem_cons.mp member with rfl | member
          · exact Int.le_refl _
          · have above := ih argumentLayered argumentRanked token member notClosing
            exact Int.le_trans (Int.le_of_lt below) above
  | group opening content closing ih =>
      obtain ⟨contentRanked, below, _⟩ := group_ranked layered ranked
      cases layered with
      | group _ contentLayered closeKind =>
          intro token member notClosing
          rcases List.mem_cons.mp member with rfl | member
          · exact Int.le_refl _
          · rcases List.mem_append.mp member with member | member
            · have above := ih contentLayered contentRanked token member notClosing
              exact Int.le_trans (Int.le_of_lt below) above
            · rw [List.mem_singleton.mp member] at notClosing
              exact absurd closeKind notClosing

/-! ## Unambiguity -/

/-- The tokens of a phrase before its root. -/
def beforeRoot : Phrase → List Token
  | binary left _ _ => left.tokens
  | _ => []

/-- The tokens of a phrase behind its root. -/
def behindRoot : Phrase → List Token
  | atom _ => []
  | binary _ _ right => right.tokens
  | apply _ argument => argument.tokens
  | group _ content closing => content.tokens ++ [closing]

theorem tokens_eq_append (phrase : Phrase) :
    phrase.tokens = phrase.beforeRoot ++ phrase.root :: phrase.behindRoot := by
  cases phrase <;> rfl

theorem root_mem_tokens (phrase : Phrase) : phrase.root ∈ phrase.tokens := by
  rw [tokens_eq_append]
  simp

theorem Layered.root_kind_ne {phrase : Phrase} (layered : phrase.Layered) :
    phrase.root.kind ≠ .closeParen := by
  cases layered with
  | atom kind => rcases kind with kind | kind <;> simp [root, kind]
  | binary kind _ _ _ _ _ => simp [root, kind]
  | apply kind _ _ => simp [root, kind]
  | group kind _ _ => simp [root, kind]

/-- The root of a phrase is the last of the tokens of the lowest priority. -/
theorem Layered.root_lt {phrase : Phrase} (layered : phrase.Layered)
    (ranked : Ranked depth phrase.tokens final) :
    ∀ token ∈ phrase.behindRoot, token.kind ≠ .closeParen →
      phrase.root.priority < token.priority := by
  intro token member notClosing
  cases phrase with
  | atom root => simp [behindRoot] at member
  | binary left operator right =>
      obtain ⟨_, rightRanked, _, below⟩ := binary_ranked layered ranked
      cases layered with
      | binary _ _ _ _ rightLayered _ =>
          exact Int.lt_of_lt_of_le below
            (rightLayered.root_le rightRanked token member notClosing)
  | apply function argument =>
      obtain ⟨argumentRanked, below⟩ := apply_ranked layered ranked
      cases layered with
      | apply _ argumentLayered _ =>
          exact Int.lt_of_lt_of_le below
            (argumentLayered.root_le argumentRanked token member notClosing)
  | group opening content closing =>
      obtain ⟨contentRanked, below, _⟩ := group_ranked layered ranked
      cases layered with
      | group _ contentLayered closeKind =>
          rcases List.mem_append.mp member with member | member
          · exact Int.lt_of_lt_of_le below
              (contentLayered.root_le contentRanked token member notClosing)
          · rw [List.mem_singleton.mp member] at notClosing
            exact absurd closeKind notClosing

/-- Two phrases over the same tokens have the same root at the same place. -/
theorem root_unique {first second : Phrase} (firstLayered : first.Layered)
    (secondLayered : second.Layered) (same : first.tokens = second.tokens)
    (ranked : Ranked depth first.tokens final) :
    first.beforeRoot = second.beforeRoot ∧ first.root = second.root ∧
      first.behindRoot = second.behindRoot := by
  have secondRanked : Ranked depth second.tokens final := same ▸ ranked
  have firstAtMost := firstLayered.root_le ranked second.root
    (same ▸ second.root_mem_tokens) secondLayered.root_kind_ne
  have secondAtMost := secondLayered.root_le secondRanked first.root
    (same ▸ first.root_mem_tokens) firstLayered.root_kind_ne
  rw [tokens_eq_append first, tokens_eq_append second] at same
  rcases List.append_eq_append_iff.mp same with ⟨middle, before, rest⟩ | ⟨middle, before, rest⟩
  · cases middle with
    | nil => simp_all
    | cons token middle =>
        simp only [List.cons_append, List.cons.injEq] at rest
        have later := firstLayered.root_lt ranked second.root (by simp [rest.2])
          secondLayered.root_kind_ne
        omega
  · cases middle with
    | nil => simp_all
    | cons token middle =>
        simp only [List.cons_append, List.cons.injEq] at rest
        have later := secondLayered.root_lt secondRanked first.root (by simp [rest.2])
          firstLayered.root_kind_ne
        omega

/-- The grammar is unambiguous: tokens have at most one layered phrase. -/
theorem Layered.unique {first second : Phrase} (firstLayered : first.Layered)
    (secondLayered : second.Layered) (ranked : Ranked depth first.tokens final)
    (same : first.tokens = second.tokens) : first = second := by
  induction first generalizing second depth final with
  | atom token =>
      obtain ⟨_, sameRoot, _⟩ := root_unique firstLayered secondLayered same ranked
      cases firstLayered with
      | atom kind =>
          cases secondLayered with
          | atom _ =>
              simp only [root] at sameRoot
              rw [sameRoot]
          | binary kind' _ _ _ _ _ => simp_all [root]
          | apply kind' _ _ => simp_all [root]
          | group kind' _ _ => simp_all [root]
  | binary left operator right left_ih right_ih =>
      rcases root_unique firstLayered secondLayered same ranked with
        ⟨sameLeft, sameRoot, sameRight⟩
      obtain ⟨leftRanked, rightRanked, _⟩ := binary_ranked firstLayered ranked
      cases firstLayered with
      | binary kind _ leftLayered _ rightLayered _ =>
          cases secondLayered with
          | atom kind' => simp_all [root]
          | binary _ _ leftLayered' _ rightLayered' _ =>
              simp only [root] at sameRoot
              rw [left_ih leftLayered leftLayered' leftRanked sameLeft, sameRoot,
                right_ih rightLayered rightLayered' rightRanked sameRight]
          | apply kind' _ _ => simp_all [root]
          | group kind' _ _ => simp_all [root]
  | apply function argument ih =>
      obtain ⟨_, sameRoot, sameArgument⟩ := root_unique firstLayered secondLayered same ranked
      obtain ⟨argumentRanked, _⟩ := apply_ranked firstLayered ranked
      cases firstLayered with
      | apply kind argumentLayered _ =>
          cases secondLayered with
          | atom kind' => simp_all [root]
          | binary kind' _ _ _ _ _ => simp_all [root]
          | apply _ argumentLayered' _ =>
              simp only [root] at sameRoot
              rw [ih argumentLayered argumentLayered' argumentRanked sameArgument, sameRoot]
          | group kind' _ _ => simp_all [root]
  | group opening content closing ih =>
      obtain ⟨_, sameRoot, sameRest⟩ := root_unique firstLayered secondLayered same ranked
      obtain ⟨contentRanked, _⟩ := group_ranked firstLayered ranked
      cases firstLayered with
      | group kind contentLayered _ =>
          cases secondLayered with
          | atom kind' => simp_all [root]
          | binary kind' _ _ _ _ _ => simp_all [root]
          | apply kind' _ _ => simp_all [root]
          | group _ contentLayered' _ =>
              obtain ⟨sameContent, sameClosing⟩ := List.append_inj' sameRest rfl
              simp only [root] at sameRoot
              rw [ih contentLayered contentLayered' contentRanked sameContent, sameRoot,
                List.head_eq_of_cons_eq sameClosing]

end Phrase

end Fluxion
