import Formula.Expr.Walk
import Formula.Main
import Formula.Token.Scanner
import Formula.Proofs.Evaluation.Unlimited
import Formula.Proofs.Steps
import Formula.Proofs.Typing.Unlimited
import Formula.Proofs.Typing.Exactness
import Formula.Proofs.Parser.Climbing
import Formula.Proofs.Token.Stream
import Formula.Proofs.Parser.Reading
import Formula.Proofs.Parser.Correctness
import Formula.Proofs.Number.Bits
import Formula.Proofs.Number.Rounding
import Formula.Proofs.Number.ReadBack
import Formula.Proofs.Token.Scanning
import Formula.Proofs.Printing.Canonical
import Formula.Proofs.Printing.RoundTrip
import Formula.Proofs.Token.Places
import Formula.Proofs.Token.LongestMatch
import Formula.Proofs.Parser.Prediction
import Formula.Proofs.Parser.Outcome
import Formula.Proofs.Parser.Failure
import Formula.Proofs.Parser.Limit
import Formula.Proofs.Parser.Reuse
import Formula.Proofs.Parser.Canonicity
import Formula.Proofs.Engine.Session
import Formula.Proofs.Engine.Cache
import Formula.Proofs.Printing.Reprinting
import Formula.Proofs.Passes.Limit
import Formula.Proofs.Passes.History
import Formula.Proofs.Engine.DepthLimit
import Formula.Proofs.Typing.Agreement
import Formula.Proofs.Evaluation.Exact
import Formula.Proofs.Evaluation.Overflow
import Formula.Proofs.Number.Negation
import Formula.Proofs.Printing.Regrouping
import Formula.Proofs.Printing.Meaning
import Formula.Proofs.Token.Boundary
import Formula.Proofs.Token.Bytes
import Formula.Proofs.Token.Refinement
import Formula.Proofs.Token.Calls
import Formula.Proofs.Token.Follow
import Formula.Proofs.Token.Truncation
import Formula.Proofs.Token.Spacing
import Formula.Proofs.Parser.Lockstep
import Formula.Proofs.Parser.Spacing
import Formula.Proofs.Parser.Positions
import Formula.Proofs.Number.Order
import Formula.Proofs.Evaluation.Coherence
import Formula.Proofs.Expr.Variables
import Formula.Proofs.Passes.Rules
import Formula.Proofs.Passes.Signs
import Formula.Proofs.Passes.Bindings
import Formula.Proofs.Typing.Promotion
import Formula.Proofs.Expr.Subtrees
import Formula.Proofs.Typing.Coverage
import Formula.Proofs.Expr.Walk
import Formula.Proofs.Value.Reading
import Formula.Proofs.Value.ReadBack
import Formula.Proofs.Token.Initial
import Formula.Proofs.Value.Agreement
import Formula.Proofs.Printing.Parentheses
import Formula.Proofs.Parser.Trace
import Formula.Proofs.Parser.Progress
