import Reckon.Text.Blank
import Reckon.Text.Column
import Reckon.Text.Extender
import Reckon.Text.Quoted
import Reckon.Text.Terminal
import Reckon.Text.Unassigned
import Reckon.Text.Visible
import Reckon.Number.Parts
import Reckon.Number.Shortest
import Reckon.Number.Text
import Reckon.Number.Reading
import Reckon.Number.Arith
import Reckon.Token
import Reckon.Token.Cursor
import Reckon.Formula
import Reckon.Formula.Text
import Reckon.Formula.Identity
import Reckon.Formula.Parse
import Reckon.Lookup
import Reckon.Formula.Eval
import Reckon.Scope
import Reckon.Scope.Builtins
import Reckon.CompileError
import Reckon.Machine
import Reckon.Chunk.Pool
import Reckon.Chunk
import Reckon.Chunk.Listing
import Reckon.Chunk.Emit
import Reckon.Chunk.Assemble
import Reckon.Core
import Reckon.Core.Identity
import Reckon.Core.Text
import Reckon.Core.Assemble
import Reckon.Closure
import Reckon.Evaluator
import Reckon.CommandLine.Request
import Reckon.CommandLine.Report
import Reckon.Main
import Reckon.Proofs.Formula
import Reckon.Proofs.Formula.Order
import Reckon.Proofs.Operands
import Reckon.Proofs.Machine
import Reckon.Proofs.Chunk.Bytes
import Reckon.Proofs.Chunk.Emission
import Reckon.Proofs.Closure
import Reckon.Proofs.Core
import Reckon.Proofs.Dialogue
import Reckon.Proofs.Chunk.WellFormed
import Reckon.Proofs.Chunk.Limits
import Reckon.Proofs.Agreement
import Reckon.Proofs.Token
import Reckon.Proofs.Grammar
import Reckon.Proofs.Grammar.Kinds
import Reckon.Proofs.Grammar.Soundness
import Reckon.Proofs.Grammar.Completeness
import Reckon.Proofs.Token.Partition
import Reckon.Proofs.Token.Ahead
import Reckon.Proofs.Number
import Reckon.Proofs.Number.Shape
import Reckon.Proofs.Number.Shortest
import Reckon.Proofs.Number.Text
import Reckon.Proofs.Lookahead
import Reckon.Proofs.Token.Spaced
import Reckon.Proofs.Grammar.Viable
import Reckon.Proofs.Blanks
import Reckon.Proofs.Scope
import Reckon.Proofs.Growth
import Reckon.Proofs.Recovery
import Reckon.Proofs.Safety
import Reckon.Proofs.Accepted
import Reckon.Proofs.Pull
import Reckon.Proofs.Script
import Reckon.Proofs.Closure.Flat
import Reckon.Proofs.Misplaced
import Reckon.Proofs.Core.Calls
import Reckon.Proofs.Grammar.Trail
import Reckon.Proofs.Chunk.Canonical
import Reckon.Proofs.Formula.Identity
import Reckon.Proofs.Core.Identity
import Reckon.Proofs.Text
import Reckon.Proofs.Core.Text
import Reckon.Proofs.Formula.Text
import Reckon.Proofs.Composition
import Reckon.Proofs.Conversation
