import Descent.Node.Render
import Descent.Node.Visit
import Descent.Expr.Eval
import Descent.Grammar
import Descent.Proofs.Extension
import Descent.Proofs.Rollback
import Descent.Proofs.Nesting
import Descent.Proofs.Termination
import Descent.Proofs.Placement
import Descent.Proofs.Peg
import Descent.Proofs.PegRefinement
import Descent.Proofs.Account
import Descent.Proofs.GivenUp
import Descent.Proofs.Tracing
import Descent.Proofs.Limit
import Descent.Proofs.Log
import Descent.Proofs.FurthestFailure
import Descent.Proofs.Consumption
import Descent.Proofs.Translation
import Descent.Proofs.Decoding
import Descent.Proofs.Reading
import Descent.Proofs.RuleNames
import Descent.Proofs.NameIdentity
import Descent.Proofs.Registry
import Descent.Proofs.TerminalNotation
import Descent.Proofs.RepeatNotation
import Descent.Proofs.TerminalRoundTrip
import Descent.Proofs.Denotation
import Descent.Proofs.ByteMatching
import Descent.Proofs.OrderedChoice
import Descent.Proofs.Repetition
import Descent.Proofs.Location
import Descent.Proofs.TreeWalk
import Descent.Proofs.Visiting
import Descent.Proofs.Quotation
import Descent.Proofs.PrintedTree
