import StackPipeline.Bytecode.Basic
import StackPipeline.Bytecode.OfListing
import StackPipeline.Bytecode.Printer
import StackPipeline.Bytecode.Reader
import StackPipeline.CommandLine.Arguments
import StackPipeline.CommandLine.Run
import StackPipeline.Host.Basic
import StackPipeline.Host.Commands
import StackPipeline.Host.Drive
import StackPipeline.Host.Memory
import StackPipeline.Json.Basic
import StackPipeline.Json.Literal
import StackPipeline.Json.Numeral
import StackPipeline.Json.Printer
import StackPipeline.Json.Problem
import StackPipeline.Json.Reader
import StackPipeline.Listing.Basic
import StackPipeline.Listing.Printer
import StackPipeline.Listing.Reader
import StackPipeline.Log.Basic
import StackPipeline.Lowering
import StackPipeline.Machine.Channel
import StackPipeline.Machine.Fault
import StackPipeline.Machine.Journal
import StackPipeline.Machine.Load
import StackPipeline.Machine.Run
import StackPipeline.Machine.Stack
import StackPipeline.Machine.Step
import StackPipeline.Machine.Value
import StackPipeline.Main
import StackPipeline.Number.Layout
import StackPipeline.Number.Reader
import StackPipeline.Number.Shortest
import StackPipeline.Operator
import StackPipeline.Optimizer.ConstantFolding
import StackPipeline.Optimizer.DeadCode
import StackPipeline.Optimizer.Liveness
import StackPipeline.Optimizer.Passes
import StackPipeline.Pipeline.Compilation
import StackPipeline.Pipeline.Execution
import StackPipeline.Pipeline.Failure
import StackPipeline.Pipeline.Journal
import StackPipeline.Proofs.Bytecode.Blocks
import StackPipeline.Proofs.Listing.Interpreter
import StackPipeline.Proofs.Machine.Loading
import StackPipeline.Proofs.Placement
import StackPipeline.Proofs.Stepping
import StackPipeline.Proofs.World
import StackPipeline.Settings.Basic
import StackPipeline.Settings.Printer
import StackPipeline.Settings.Reader
import StackPipeline.Store
import StackPipeline.SystemError
import StackPipeline.Text.Blank
import StackPipeline.Text.Escaped
import StackPipeline.Text.Extending
import StackPipeline.Text.Invisible
import StackPipeline.Text.Quoted
import StackPipeline.Text.Utf8
import StackPipeline.Toml.Basic
import StackPipeline.Toml.Literal
import StackPipeline.Toml.Reader
import StackPipeline.Toml.Scalar
import StackPipeline.Tree.Basic
import StackPipeline.Tree.Decoder
import StackPipeline.Tree.Document
import StackPipeline.Tree.Encoder
import StackPipeline.Tree.Schema
import StackPipeline.Proofs.Machine.Execution
import StackPipeline.Proofs.Bytecode.Refinement
import StackPipeline.Proofs.Optimizer.FoldedRuns
import StackPipeline.Proofs.Listing.Output
import StackPipeline.Proofs.Lowering.Arrivals
import StackPipeline.Proofs.Lowering.Correctness
import StackPipeline.Proofs.Optimizer.EliminatedRuns
import StackPipeline.Proofs.Optimizer.Idempotence
import StackPipeline.Proofs.Optimizer.LeastLiveness
import StackPipeline.Proofs.Bytecode.StackDiscipline
import StackPipeline.Proofs.Lowering.Hygiene
import StackPipeline.Proofs.Pipeline.Compilation
import StackPipeline.Proofs.Text.Blanks
import StackPipeline.Proofs.Text.Quotes
import StackPipeline.Proofs.Number.ReadBack
import StackPipeline.Proofs.Bytecode.WrittenForm
import StackPipeline.Proofs.Listing.Forms
import StackPipeline.Proofs.Listing.Rereading
import StackPipeline.Proofs.Pipeline.Reports
import StackPipeline.Proofs.Pipeline.Blame
import StackPipeline.Proofs.Machine.Jumps
import StackPipeline.Proofs.Machine.LimitedRuns
import StackPipeline.Proofs.Lowering.Allotment
import StackPipeline.Proofs.Lowering.Freshness
import StackPipeline.Proofs.Listing.Rows
import StackPipeline.Proofs.Lowering.Vocabulary
import StackPipeline.Proofs.Pipeline.Artifacts
import StackPipeline.Proofs.Json.Tokens
import StackPipeline.Proofs.Json.Values
import StackPipeline.Proofs.Machine.Faults
import StackPipeline.Proofs.Machine.InputLines
import StackPipeline.Proofs.Machine.ReadLines
import StackPipeline.Proofs.Machine.TextValues
import StackPipeline.Proofs.Optimizer.LivenessEquations
import StackPipeline.Proofs.Tree.Variants
import StackPipeline.Proofs.Tree.Documents
import StackPipeline.Proofs.Machine.Channels
import StackPipeline.Proofs.Machine.LimitedOutput
import StackPipeline.Proofs.Machine.Executed
import StackPipeline.Proofs.Lowering.Transfers
import StackPipeline.Proofs.Optimizer.StraightLine
