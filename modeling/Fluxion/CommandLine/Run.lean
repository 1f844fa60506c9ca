import Fluxion.CommandLine.Options
import Fluxion.Definition
import Fluxion.Trace

/-!
# Running the program

The program prints the derivative of an expression, on request its outline, and
on request its value at a point. What goes wrong is told on the error stream,
below the trace if there is one; what was printed before stays printed.

Expressions of any depth are read, differentiated, simplified and evaluated. Only
their texts are written by recursion, and a text that nests deeper than calls may
nest is not written: there the program breaks off.
-/

namespace Fluxion.CommandLine

/-- What a run leaves behind. -/
structure Printout where
  status : Nat
  output : String
  errors : String
  deriving DecidableEq

/-- How deep calls may nest where a text is written. -/
structure Room where
  /-- The text of the derivative. -/
  printing : Nat
  /-- A text in the trace of the parser, which has more calls around it. -/
  tracing : Nat

/-- The room below a thousand calls. -/
def Room.standard : Room :=
  ⟨996, 994⟩

/-- How a run comes to its end. -/
inductive Ending where
  /-- The program ends by itself. -/
  | exits (printout : Printout)
  /-- A text has no room; by then nothing but a trace has been told. -/
  | overflows (trace : List String)
  deriving DecidableEq

/-- Lines as a text. -/
def lines (texts : List String) : String :=
  String.join (texts.map (· ++ "\n"))

/-- What an ending leaves behind. -/
def Ending.printout : Ending → Printout
  | exits printout => printout
  | overflows trace => ⟨1, "", lines trace⟩

/-- The trace, if it is wanted. -/
def Options.traced (options : Options) (trace : List String) : List String :=
  if options.verbose then trace else []

/-- The end of a run that a fault stopped, when `printed` has been printed. The
diagnostic shows the text that the fault was found in. -/
def failed (printed trace : List String) (fault : Fault) (source : String) : Printout :=
  let told := (fault.report?.map (·.diagnostic source)).toList
  ⟨1, lines printed, lines (trace ++ told)⟩

/-- The value of a derivative at a point, as a line. All of its variables must be
the one that the point is for; if it has none, it takes no argument. -/
def valueLine (options : Options) (derivative : Definition Float) (point : Float) :
    Except Fault String :=
  let place := Numeral.canonical point
  let names := derivative.body.variableNames
  match names.filter (· != options.variableName) with
  | [] => do
      let arguments := if names.contains options.variableName then [.scalar point] else []
      let value ← derivative.body.evaluateAt arguments
      .ok (derivative.name ++ "(" ++ place ++ ") = " ++ value.render)
  | others => .error (.otherVariables options.variableName place others)

/-- Prints a derivative as the options ask for it. The outline takes no more room
than the text that is printed before it. -/
def present (room : Room) (options : Options) (trace : List String)
    (derivative : Definition Float) : Ending :=
  if room.printing < derivative.body.nesting then .overflows trace
  else
    let printed :=
      derivative.render :: (if options.tree then [Expr.outline derivative.body] else [])
    match options.point.map (valueLine options derivative) with
    | none => .exits ⟨0, lines printed, lines trace⟩
    | some (.ok line) => .exits ⟨0, lines (printed ++ [line]), lines trace⟩
    | some (.error fault) => .exits (failed printed trace fault options.source)

/-- Runs the program. The name of the variable is looked at before the expression
is, and the parser traces a reduction before it goes on. -/
def runWithin (room : Room) (options : Options) : Ending :=
  if !Token.isVariable options.variableName then
    .exits (failed [] [] (.invalidVariable options.variableName) options.variableName)
  else
    let parsing : Parsing Float := Parsing.ofSource options.source
    let (writable, others) :=
      parsing.reductions.span fun reduction => reduction.result.nesting ≤ room.tracing
    let reductions := options.traced (writable.map Reduction.trace)
    if options.verbose && !others.isEmpty then .overflows reductions
    else
      match parsing.outcome with
      | .error fault => .exits (failed [] reductions fault options.source)
      | .ok expr =>
          match (Definition.ofExpr "f" expr).derivative options.variableName with
          | .error fault => .exits (failed [] reductions fault options.variableName)
          | .ok (derivative, remarks) =>
              let trace := reductions ++ options.traced (remarks.map PowerRemark.trace)
              present room options trace
                (if options.simplified then derivative.simplify options.identities
                  else derivative)

/-- What a run leaves behind where calls may nest as deep as they usually may. -/
def run (options : Options) : Printout :=
  (runWithin .standard options).printout

end Fluxion.CommandLine
