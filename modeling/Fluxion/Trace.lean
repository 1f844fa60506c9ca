import Fluxion.Derivative.Dag
import Fluxion.Parsing

/-!
# The trace

What the program tells about its work on request: a line for every reduction of
the parser, and a line for every power that was differentiated.
-/

namespace Fluxion

/-- A line of the trace. -/
def traceLine (channel text : String) : String :=
  "DEBUG:" ++ channel ++ ": " ++ text

/-- The line of a reduction. -/
def Reduction.trace {ν : Type} [Numeral ν] (reduction : Reduction ν) : String :=
  traceLine "expr_parser" <|
    "reduced " ++ Text.quoted reduction.token.text ++ " (priority "
      ++ toString reduction.token.priority ++ ") to " ++ reduction.result.render

/-- The line of a power. -/
def PowerRemark.trace (remark : PowerRemark) : String :=
  traceLine "derivative" <|
    (if remark.constantExponent then "constant" else "variable") ++ " exponent at column "
      ++ (match remark.column with
        | some column => toString column
        | none => "None")

end Fluxion
