import Fluxion.Token.Lexeme

/-!
# Cutting a source into tokens

Blanks separate lexemes and are dropped; everything else belongs to a token. A
character that starts no lexeme ends the cutting: it is the stray token, and
the tokens before it stand.
-/

namespace Fluxion

open Fluxion.Token

/-- The tokens of a source, and the stray character that ended them if there is
one. -/
structure Lexed where
  tokens : List Token
  stray : Option Token

/-- After a token of this kind an operand has to follow. -/
def Token.Kind.expectsOperand : Token.Kind → Bool
  | .operator | .openParen => true
  | _ => false

namespace Lexed

/-- Cuts a text that starts at `column`. -/
def ofText (operandExpected : Bool) (column : Nat) : List Char → Lexed
  | [] => ⟨[], none⟩
  | c :: tail =>
      if Text.isBlank c then ofText operandExpected (column + 1) tail
      else
        let lexeme := scan operandExpected c tail
        let text := String.ofList lexeme.text
        let token : Token := ⟨lexeme.kind, text, column, basePriority lexeme.kind text⟩
        if lexeme.kind = .stray then ⟨[], some token⟩
        else
          let later :=
            ofText lexeme.kind.expectsOperand (column + lexeme.text.length) lexeme.rest
          ⟨token :: later.tokens, later.stray⟩
termination_by text => text.length
decreasing_by
  · simp
  · exact length_scan_rest_lt operandExpected c tail

/-- Cuts a source. -/
def ofSource (source : String) : Lexed :=
  ofText true 1 source.toList

/-- Raises every token by the parentheses around it; `depth` of them are open
before the first. An opening parenthesis stands outside its own pair, and so
does the closing one. -/
def raised (depth : Int) : List Token → List Token
  | [] => []
  | token :: rest =>
      let here := if token.kind = .closeParen then depth - 1 else depth
      let after := if token.kind = .openParen then here + 1 else here
      { token with priority := token.priority + here * parenOffset } :: raised after rest

/-- The tokens with their priorities by position, or the stray character. -/
def prioritized : Lexed → Except Token (List Token)
  | ⟨tokens, none⟩ => .ok (raised 0 tokens)
  | ⟨_, some stray⟩ => .error stray

end Lexed

end Fluxion
