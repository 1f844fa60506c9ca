import Fluxion.Token.Basic

/-!
# Faults and their reports

A fault is a cause: what is wrong, and where. Causes that concern the user of
the program have a report, which words them; from a report the one-line
summary and the diagnostic with a caret are made. The other causes arise only
from requests that no source text can make, such as an operator token whose
text is no operator.
-/

namespace Fluxion

/-- The sides of a token on which it takes an operand. -/
inductive Side where
  | left
  | right
  deriving DecidableEq

/-- The word for a side. -/
def Side.word : Side → String
  | .left => "left"
  | .right => "right"

/-- Everything that can go wrong. -/
inductive Fault where
  /-- A character starts no token. -/
  | strayCharacter (token : Token)
  /-- There is nothing to parse. -/
  | emptyInput
  /-- Nothing stands where a token takes an operand. -/
  | missingOperand (side : Side) (token : Token)
  /-- A token stands where an operand should. -/
  | unexpectedToken (token : Token)
  /-- A parenthesis is not closed before this token. -/
  | unclosedParen (token : Token)
  /-- A closing parenthesis closes nothing. -/
  | unmatchedParen (token : Token)
  /-- More than one expression is left; the first one starts from this token. -/
  | severalValues (token : Token)
  /-- A text is not a name that a variable may have. -/
  | invalidVariable (name : String)
  /-- A value was asked for at a point of one variable, but others are free. -/
  | otherVariables (name point : String) (others : List String)
  /-- A text names no operator, function or slot. -/
  | unknownName (name : String)
  /-- A text is not a number. -/
  | unreadableNumber (text : String)
  /-- A variable has no value. -/
  | missingArgument (name : String)
  /-- A node was asked for its value before it had one. -/
  | unknownValue (id : Nat)
  /-- Two vectors of different lengths are combined. -/
  | lengthMismatch (left right : Nat)
  /-- A position is out of range. -/
  | outOfRange (index : Int)
  deriving DecidableEq

/-- The kinds of report that a user can get. -/
inductive Report.Category where
  | general
  | lexical
  | grammatical
  | derivationVariable
  | evaluation
  deriving DecidableEq

/-- What the user is told: a message, and the token that is to blame if there
is one. -/
structure Report where
  category : Report.Category
  message : String
  token : Option Token
  deriving DecidableEq

namespace Report

/-- The words that open a diagnostic of each kind. -/
def Category.heading : Category → String
  | .general | .evaluation => "Invalid input"
  | .lexical => "Invalid token"
  | .grammatical => "Parsing error on token"
  | .derivationVariable => "Invalid derivation variable"

/-- The report in one line. -/
def summary (report : Report) : String :=
  match report.token with
  | none => report.message
  | some token =>
      report.message ++ " (token " ++ Text.quoted token.text ++ " at column "
        ++ toString token.column ++ ")"

/-- A line with a caret under a column. Columns before the first have theirs at
the start of the line. -/
def caretLine (column : Int) : String :=
  String.ofList (List.replicate (column - 1).toNat ' ' ++ ['^'])

/-- The report with the source and a caret under the token to blame. -/
def diagnostic (report : Report) (source : String) : String :=
  match report.token with
  | none => "Invalid input:\n" ++ report.message
  | some token =>
      "\n".intercalate
        [report.category.heading ++ " `" ++ token.text ++ "` at column "
            ++ toString token.column ++ ":",
          "", source, caretLine token.column, "", report.message]

end Report

/-- The report of a fault, if it concerns the user. A name that is refused as a
variable is blamed as a token of its own. -/
def Fault.report? : Fault → Option Report
  | .strayCharacter token => some ⟨.lexical, "String is not a valid token.", some token⟩
  | .emptyInput => some ⟨.grammatical, "Cannot parse empty input", none⟩
  | .missingOperand side token =>
      some ⟨.grammatical, "Expected an operand to the " ++ side.word, some token⟩
  | .unexpectedToken token =>
      some ⟨.grammatical, "Invalid syntax, this token was not expected", some token⟩
  | .unclosedParen token => some ⟨.grammatical, "Expected a closing parenthesis", some token⟩
  | .unmatchedParen token => some ⟨.grammatical, "Unmatched closing parenthesis", some token⟩
  | .severalValues token =>
      some ⟨.grammatical, "Expression does not evaluate to a single value", some token⟩
  | .invalidVariable name =>
      some ⟨.derivationVariable, "`" ++ name ++ "` is not a valid variable name",
        some ⟨.identifier, name, 1, 0⟩⟩
  | .otherVariables name point others =>
      some ⟨.evaluation, "Cannot evaluate at " ++ name ++ " = " ++ point
        ++ ", other free variables: " ++ ", ".intercalate others, none⟩
  | .unknownName _ | .unreadableNumber _ | .missingArgument _ | .unknownValue _
  | .lengthMismatch _ _ | .outOfRange _ => none

/-! ## Answers that may be refused -/

theorem bind_eq_ok_iff {α β : Type} {first : Except Fault α} {next : α → Except Fault β}
    {answer : β} :
    first >>= next = .ok answer ↔ ∃ middle, first = .ok middle ∧ next middle = .ok answer := by
  cases first with
  | error fault => simp [bind, Except.bind]
  | ok middle => simp [bind, Except.bind]

theorem bind_eq_error_iff {α β : Type} {first : Except Fault α} {next : α → Except Fault β}
    {fault : Fault} :
    first >>= next = .error fault ↔
      first = .error fault ∨ ∃ middle, first = .ok middle ∧ next middle = .error fault := by
  cases first with
  | error other => simp [bind, Except.bind]
  | ok middle => simp [bind, Except.bind]

end Fluxion
