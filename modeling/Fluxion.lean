import Fluxion.Derivative.Tree
import Fluxion.Main
import Fluxion.Proofs.Grammar.Depth
import Fluxion.Proofs.Parsing.Settling
import Fluxion.Workspace
import Fluxion.Proofs.Parsing.Completeness
import Fluxion.Proofs.Parsing.Soundness
import Fluxion.Proofs.Token.Number
import Fluxion.Proofs.Decimal.Reading
import Fluxion.Proofs.Token.Cut
import Fluxion.Proofs.Parsing.Grammar
import Fluxion.Proofs.Decimal.Binary64
import Fluxion.Proofs.Decimal.Writing
import Fluxion.Proofs.Token.Spelling
import Fluxion.Proofs.Expr.Names
import Fluxion.Proofs.Expr.Spelling
import Fluxion.Proofs.Expr.RoundTrip
import Fluxion.Proofs.Dag.Heap
import Fluxion.Proofs.Dag.Listing
import Fluxion.Proofs.Dag.Growth
import Fluxion.Proofs.Dag.Sweep
import Fluxion.Proofs.Simplify.Sharing
import Fluxion.Proofs.Evaluation.Sharing
import Fluxion.Proofs.Evaluation.Assignment
import Fluxion.Proofs.Simplify.Value
import Fluxion.Proofs.Derivative.Sharing
import Fluxion.Proofs.Evaluation.Real
import Fluxion.Proofs.Derivative.Real
import Fluxion.Proofs.Sharing
import Fluxion.Proofs.Simplify.Normal
import Fluxion.Proofs.Derivative.Constant
import Fluxion.Proofs.Derivative.Count
import Fluxion.Proofs.Parsing.Loop
import Fluxion.Proofs.Expr.Subterms
import Fluxion.Proofs.Parsing.Moved
import Fluxion.Proofs.Parsing.InOrder
import Fluxion.Proofs.Token.Stray
import Fluxion.Proofs.Parsing.Blame
import Fluxion.Proofs.Derivative.Names
import Fluxion.Proofs.CommandLine.Run
import Fluxion.Proofs.Decimal.Packing
import Fluxion.Proofs.Decimal.Rounding
import Fluxion.Proofs.Decimal.Nearest
import Fluxion.Proofs.Decimal.Shortest
import Fluxion.Proofs.Decimal.ReadingBack
import Fluxion.Proofs.Expr.Meaning
import Fluxion.Proofs.Parsing.Brackets
import Fluxion.Proofs.Parsing.Priority
import Fluxion.Proofs.Parsing.Diagnosis
import Fluxion.Proofs.Simplify.Early
import Fluxion.Proofs.Token.Lossless
import Fluxion.Proofs.Token.Layout
import Fluxion.Proofs.Evaluation.Broadcast
import Fluxion.Proofs.Expr.Parentheses
import Fluxion.Proofs.Parsing.Columns
import Fluxion.Proofs.Simplify.Size
import Fluxion.Proofs.Provenance
import Fluxion.Proofs.Expr.Outline
import Fluxion.Proofs.Diagnostic
import Fluxion.Proofs.Rewriting
import Fluxion.Proofs.Dag.Traversal
import Fluxion.Proofs.Expr.Variables
import Fluxion.Proofs.Pending.History
