import Secd.Assembly.Layout
import Secd.Assembly.Statement
import Secd.Bytecode
import Secd.Capacities
import Secd.Capacities.Toml
import Secd.Cli.Arguments
import Secd.Cli.Directory
import Secd.Cli.Invocation
import Secd.Cli.Response
import Secd.Code
import Secd.Effect
import Secd.Effect.Outcome
import Secd.Fault
import Secd.Heap
import Secd.Heap.Chain
import Secd.Input
import Secd.Instruction
import Secd.Listing
import Secd.Log.Directive
import Secd.Log.Event
import Secd.Log.Filter
import Secd.Log.Pattern
import Secd.Log.Pattern.Class
import Secd.Log.Pattern.Settings
import Secd.Log.Pattern.Symbol
import Secd.Machine
import Secd.Machine.Execution
import Secd.Machine.Parts
import Secd.Machine.Potential
import Secd.Machine.Run
import Secd.Machine.Step
import Secd.Main
import Secd.Opcode
import Secd.Proofs.Alignment
import Secd.Proofs.Allocation
import Secd.Proofs.Answers
import Secd.Proofs.Arithmetic
import Secd.Proofs.Assembling
import Secd.Proofs.Boundaries
import Secd.Proofs.Brackets
import Secd.Proofs.Calls
import Secd.Proofs.Composition
import Secd.Proofs.Control
import Secd.Proofs.Cost
import Secd.Proofs.Decoding
import Secd.Proofs.Denotation
import Secd.Proofs.Disassembling
import Secd.Proofs.Encoding
import Secd.Proofs.Entries
import Secd.Proofs.Evaluation
import Secd.Proofs.Expression
import Secd.Proofs.Extension
import Secd.Proofs.Factorial
import Secd.Proofs.Files
import Secd.Proofs.Grammar
import Secd.Proofs.Handles
import Secd.Proofs.Ideal
import Secd.Proofs.Jumps
import Secd.Proofs.Lexical
import Secd.Proofs.Listings
import Secd.Proofs.Loading
import Secd.Proofs.Mistakes
import Secd.Proofs.Noninterference
import Secd.Proofs.Permanence
import Secd.Proofs.Pipeline
import Secd.Proofs.Printing
import Secd.Proofs.Refinement
import Secd.Proofs.Replay
import Secd.Proofs.Requests
import Secd.Proofs.Room
import Secd.Proofs.Sharing
import Secd.Proofs.Stacks
import Secd.Proofs.Statements
import Secd.Proofs.Statistics
import Secd.Proofs.Steps
import Secd.Proofs.Termination
import Secd.Proofs.Tokens
import Secd.Proofs.Walks
import Secd.Stack
import Secd.Text.Alphanumeric
import Secd.Text.Blank
import Secd.Text.Lines
import Secd.Text.Numeral
import Secd.Value
import Secd.Word
