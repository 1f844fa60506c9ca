import Fluxion.CommandLine.Run
import Fluxion.Proofs.Derivative.Names
import Fluxion.Proofs.Derivative.Sharing
import Fluxion.Proofs.Evaluation.Assignment
import Fluxion.Proofs.Expr.Outline
import Fluxion.Proofs.Expr.Variables
import Fluxion.Proofs.Parsing.Blame

/-!
# How a run of the program ends

Without a trace, a run ends in one of six ways, and the options decide which. The
name of the variable is refused, or the source is; or the text of the derivative nests
deeper than calls may nest, and nothing is printed; or the derivative is printed, and
if a value is asked for, it is printed too unless the derivative has a variable that
the point does not give a value to. Such a variable comes from the source, as neither
differentiation nor simplification brings one in.

The derivative is the one that recursion over the source gives. What the program has
made of it shares nodes, but texts, names and values do not tell.
-/

namespace Fluxion

/-! ## Definitions along the way -/

namespace Definition

variable {ν : Type}

end Definition

namespace CommandLine

open Definition

/-! ## The derivative that is asked for -/

/-- The derivative that the options ask for, by recursion. -/
def Options.derivativeOf (options : Options) (expr : Expr Float Token) : Tree Float :=
  let derivative := (expr.map some).derivative options.variableName
  if options.simplified then derivative.simplify options.identities else derivative

/-- Some lines tell a derivative as the options ask for it. The first one holds a text
that reads back as the derivative. The others, if an outline is asked for, hold a node
each, in the order of reading and two columns further in than its operator. -/
structure Options.Tells (options : Options) (derivative : Tree Float) (printed : List String) :
    Prop where
  eq : printed = ("f\x27 = " ++ derivative.render) ::
    if options.tree then
      (derivative.levels 0).map fun level =>
        String.ofList (List.replicate (2 * level.1) ' ') ++ "| " ++ level.2.label
    else []
  readsBack : ∃ again : Expr Float Token, Expr.read derivative.render = .ok again ∧
    again.Agrees Decimal.SameNumber derivative

/-- A line tells the value of a derivative where its variable is a given number. Both
numbers stand in it as texts that read back. -/
def Options.TellsValue (options : Options) (derivative : Tree Float) (point : Float)
    (line : String) : Prop :=
  ∃ value, line = "f\x27(" ++ Decimal.canonical point ++ ") = " ++ Decimal.canonical value ∧
    (∀ assignment : String → Float, assignment options.variableName = point →
      derivative.valueUnder assignment = value) ∧
    Decimal.read? (Decimal.canonical point) = some (Decimal.unsignedZero point) ∧
    Decimal.read? (Decimal.canonical value) = some (Decimal.unsignedZero value)

theorem lines_cons (text : String) (texts : List String) :
    lines (text :: texts) = text ++ "\n" ++ lines texts := by
  rw [lines, List.map_cons, String.join_cons, lines]

theorem lines_singleton (text : String) : lines [text] = text ++ "\n" := by
  simp [lines, String.join]

/-- A text of several lines is printed as these lines. -/
theorem lines_intercalate {texts : List String} (some : texts ≠ []) :
    lines ["\n".intercalate texts] = lines texts := by
  induction texts with
  | nil => exact absurd rfl some
  | cons first rest ih =>
      cases rest with
      | nil => rw [String.intercalate_singleton]
      | cons second later =>
          have rests := ih (List.cons_ne_nil second later)
          rw [lines_singleton] at rests
          rw [String.intercalate_cons_of_ne_nil (List.cons_ne_nil second later), lines_singleton,
            String.append_assoc, rests, lines_cons first]

variable {room : Room} {options : Options} {expr : Expr Float Token}
  {definition : Definition Float}

/-- The point gives a value to every variable of a derivative. -/
def Options.Covers (options : Options) (derivative : Tree Float) : Prop :=
  ∀ name ∈ derivative.names, name = options.variableName

/-- The variables of a derivative that the point gives no value to. -/
def Options.uncovered (options : Options) (derivative : Tree Float) : List String :=
  derivative.sortedNames.filter (· != options.variableName)

/-- How a run without a trace can end. -/
inductive Ends (room : Room) (options : Options) : Ending → Prop
  /-- The variable has no name that a variable may have. -/
  | invalidVariable : Token.isVariable options.variableName = false →
      Ends room options (.exits ⟨1, "",
        "Invalid derivation variable `" ++ options.variableName ++ "` at column 1:\n\n" ++
          options.variableName ++ "\n^\n\n`" ++ options.variableName ++
          "` is not a valid variable name\n"⟩)
  /-- The source is refused. -/
  | refused {fault : Fault} {report : Report} : Token.isVariable options.variableName = true →
      (Expr.read options.source : Except Fault (Expr Float Token)) = .error fault →
      fault.report? = some report →
      Ends room options (.exits ⟨1, "", report.diagnostic options.source ++ "\n"⟩)
  /-- The text of the derivative nests too deep, and nothing is printed. -/
  | overflows {expr : Expr Float Token} : Token.isVariable options.variableName = true →
      Expr.read options.source = .ok expr →
      room.printing < (options.derivativeOf expr).nesting → Ends room options (.overflows [])
  /-- No value is asked for. -/
  | printed {expr : Expr Float Token} {printed : List String} :
      Token.isVariable options.variableName = true → Expr.read options.source = .ok expr →
      (options.derivativeOf expr).nesting ≤ room.printing → options.point = none →
      options.Tells (options.derivativeOf expr) printed →
      Ends room options (.exits ⟨0, String.join (printed.map (· ++ "\n")), ""⟩)
  /-- The value is printed last. -/
  | evaluated {expr : Expr Float Token} {point : Float} {printed : List String} {line : String} :
      Token.isVariable options.variableName = true → Expr.read options.source = .ok expr →
      (options.derivativeOf expr).nesting ≤ room.printing → options.point = some point →
      options.Covers (options.derivativeOf expr) →
      options.Tells (options.derivativeOf expr) printed →
      options.TellsValue (options.derivativeOf expr) point line →
      Ends room options (.exits ⟨0, String.join ((printed ++ [line]).map (· ++ "\n")), ""⟩)
  /-- The derivative has no value at the point. -/
  | uncovered {expr : Expr Float Token} {point : Float} {printed : List String} :
      Token.isVariable options.variableName = true → Expr.read options.source = .ok expr →
      (options.derivativeOf expr).nesting ≤ room.printing → options.point = some point →
      ¬options.Covers (options.derivativeOf expr) →
      options.Tells (options.derivativeOf expr) printed →
      Ends room options (.exits ⟨1, String.join (printed.map (· ++ "\n")),
        "Invalid input:\nCannot evaluate at " ++ options.variableName ++ " = " ++
          Decimal.canonical point ++ ", other free variables: " ++
          ", ".intercalate (options.uncovered (options.derivativeOf expr)) ++ "\n"⟩)

/-- The options for which the program fails, if the derivative can be printed. -/
def Options.Fails (options : Options) : Prop :=
  Token.isVariable options.variableName = false ∨
    (∃ fault, (Expr.read options.source : Except Fault (Expr Float Token)) = .error fault) ∨
    ∃ expr, Expr.read options.source = .ok expr ∧ options.point.isSome = true ∧
      ¬options.Covers (options.derivativeOf expr)

/-- The sum of one more `x` than `n` says. -/
def sum : Nat → Expr Float Unit
  | 0 => .var () "x"
  | n + 1 => .binary () .add (sum n) (.var () "x")

end CommandLine

end Fluxion
