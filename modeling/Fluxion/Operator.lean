/-!
# Operators and elementary functions

The vocabulary of expressions: five binary operators, which bind with three
strengths, and ten elementary functions of one argument. A name or symbol
determines its operation, and every operation has one name.
-/

namespace Fluxion

/-- The side on which a run of equally strong operators is grouped first. -/
inductive Associativity where
  | left
  | right
  deriving DecidableEq

/-- The binary operators. -/
inductive Operator where
  | add
  | sub
  | div
  | mul
  | pow
  deriving DecidableEq

namespace Operator

/-- Every operator, weaker ones first. -/
def all : List Operator :=
  [add, sub, div, mul, pow]

/-- The character that writes an operator. -/
def symbol : Operator → Char
  | add => '+'
  | sub => '-'
  | div => '/'
  | mul => '*'
  | pow => '^'

/-- The operator written by a character. -/
def ofSymbol? : Char → Option Operator
  | '+' => some add
  | '-' => some sub
  | '/' => some div
  | '*' => some mul
  | '^' => some pow
  | _ => none

/-- The operator's symbol as a text. -/
def text (operator : Operator) : String :=
  String.singleton operator.symbol

/-- The operator written by a text. -/
def ofText? (text : String) : Option Operator :=
  match text.toList with
  | [symbol] => ofSymbol? symbol
  | _ => none

/-- How strongly an operator holds its operands. -/
def precedence : Operator → Nat
  | add | sub => 1
  | div | mul => 2
  | pow => 3

/-- Runs of equally strong operators are grouped from the left, powers too. -/
def associativity : Operator → Associativity
  | add | sub | div | mul | pow => .left

/-- In `x o y p z` without parentheses, `o` takes `y` before `p` does. -/
def groupsBefore (o p : Operator) : Bool :=
  p.precedence < o.precedence
    || (o.precedence == p.precedence && p.associativity == .left)

@[simp]
theorem ofSymbol?_symbol (operator : Operator) :
    ofSymbol? operator.symbol = some operator := by
  cases operator <;> rfl

@[simp]
theorem ofText?_text (operator : Operator) : ofText? operator.text = some operator := by
  simp [ofText?, text]

theorem symbol_of_ofSymbol? {c : Char} {operator : Operator}
    (found : ofSymbol? c = some operator) : operator.symbol = c := by
  unfold ofSymbol? at found
  split at found <;> cases found <;> rfl

theorem text_injective {o p : Operator} (same : o.text = p.text) : o = p := by
  simpa using congrArg ofText? same

/-- All operators associate to the left, so only a strictly stronger right
operator escapes being grouped late. -/
theorem groupsBefore_eq_true_iff {o p : Operator} :
    o.groupsBefore p = true ↔ p.precedence ≤ o.precedence := by
  cases o <;> cases p <;> decide

end Operator

/-- The elementary functions of one argument. -/
inductive Elementary where
  | sin
  | cos
  | tan
  | asin
  | acos
  | atan
  | sqrt
  | ln
  | sec
  | exp
  deriving DecidableEq

namespace Elementary

/-- Every elementary function. -/
def all : List Elementary :=
  [sin, cos, tan, asin, acos, atan, sqrt, ln, sec, exp]

/-- The word that names a function. -/
def name : Elementary → String
  | sin => "sin"
  | cos => "cos"
  | tan => "tan"
  | asin => "asin"
  | acos => "acos"
  | atan => "atan"
  | sqrt => "sqrt"
  | ln => "ln"
  | sec => "sec"
  | exp => "exp"

/-- The function named by a word. -/
def ofName? (word : String) : Option Elementary :=
  all.find? (·.name == word)

@[simp]
theorem ofName?_name (function : Elementary) : ofName? function.name = some function := by
  cases function <;> decide

theorem name_of_ofName? {word : String} {function : Elementary}
    (found : ofName? word = some function) : function.name = word := by
  simpa using List.find?_some found

theorem name_injective {f g : Elementary} (same : f.name = g.name) : f = g := by
  simpa using congrArg ofName? same

end Elementary

end Fluxion
