import HybridCompile.Calibration.Calibrator
import HybridCompile.Calibration.Mode
import HybridCompile.Compile.Config
import HybridCompile.Compile.Error
import HybridCompile.Compile.Executable
import HybridCompile.Compile.Metrics
import HybridCompile.Compile.Session
import HybridCompile.Console.Arguments
import HybridCompile.Console.Invocation
import HybridCompile.Console.Run
import HybridCompile.Device
import HybridCompile.Engine.Artifact
import HybridCompile.Engine.Backend
import HybridCompile.Engine.Budget
import HybridCompile.Engine.Build
import HybridCompile.Engine.Context
import HybridCompile.Engine.Network
import HybridCompile.Engine.Options
import HybridCompile.Engine.Work
import HybridCompile.Fallback
import HybridCompile.Fault
import HybridCompile.Files.Fault
import HybridCompile.Files.Tree
import HybridCompile.Graph.Basic
import HybridCompile.Graph.Dataflow
import HybridCompile.Graph.Manifest
import HybridCompile.Graph.Operator
import HybridCompile.Json.Basic
import HybridCompile.Json.Parser
import HybridCompile.Json.Printer
import HybridCompile.Json.Token
import HybridCompile.Main
import HybridCompile.Memory.Arena
import HybridCompile.Memory.Budget
import HybridCompile.Memory.Ledger
import HybridCompile.Number.Binary64
import HybridCompile.Number.Decimal
import HybridCompile.Number.Duration
import HybridCompile.Number.Rounding
import HybridCompile.Number.Sample
import HybridCompile.Plan.Basic
import HybridCompile.Plan.Partition
import HybridCompile.Plan.Support
import HybridCompile.Proofs.Dataflow.Boundary
import HybridCompile.Proofs.Dataflow.Table
import HybridCompile.Proofs.Dataflow.Uses
import HybridCompile.Proofs.Engine.Lowering
import HybridCompile.Proofs.Execution.Meaning
import HybridCompile.Proofs.Outcome
import HybridCompile.Proofs.Partition.Placement
import HybridCompile.Proofs.Partition.Regions
import HybridCompile.Proofs.Partition.Runs
import HybridCompile.Request.Basic
import HybridCompile.Request.Format
import HybridCompile.Settings.Basic
import HybridCompile.Settings.Outline
import HybridCompile.Tensor.ElementType
import HybridCompile.Tensor.Layout
import HybridCompile.Tensor.Spec
import HybridCompile.Text.Blank
import HybridCompile.Text.Column
import HybridCompile.Text.Inert
import HybridCompile.Text.NameSet
import HybridCompile.Text.Quoted
import HybridCompile.Text.Shown
import HybridCompile.Text.Utf8
import HybridCompile.Toml.Basic
import HybridCompile.Toml.Lexeme
import HybridCompile.Toml.Parser
import HybridCompile.Toml.Printer
import HybridCompile.Toml.Quoting
import HybridCompile.Toml.Scalar
import HybridCompile.Toml.Tree
import HybridCompile.Proofs.Execution.Preservation
import HybridCompile.Proofs.Compile.Wiring
import HybridCompile.Proofs.Engine.Builds
import HybridCompile.Proofs.Engine.Hoarding
import HybridCompile.Proofs.Compile.Assembly
import HybridCompile.Proofs.Compile.Internal
import HybridCompile.Proofs.Compile.Alone
import HybridCompile.Proofs.Partition.Exchange
import HybridCompile.Proofs.Dataflow.WellFormed
import HybridCompile.Proofs.Memory.History
import HybridCompile.Proofs.Memory.Accounting
import HybridCompile.Proofs.Engine.Steps
import HybridCompile.Proofs.Engine.Restoration
import HybridCompile.Proofs.Engine.Settled
import HybridCompile.Proofs.Concurrency.Compilation
import HybridCompile.Proofs.Concurrency.Sequential
import HybridCompile.Proofs.Concurrency.RootCause
import HybridCompile.Proofs.Concurrency.Cancellation
import HybridCompile.Proofs.Text.Lossy
import HybridCompile.Proofs.Calibration.Agreement
import HybridCompile.Proofs.Calibration.Repeatability
import HybridCompile.Proofs.Settings.Construction
import HybridCompile.Proofs.Concurrency.Workload
import HybridCompile.Proofs.Concurrency.Locks
import HybridCompile.Proofs.Concurrency.Orderly
import HybridCompile.Proofs.Concurrency.Admission
import HybridCompile.Proofs.Files.Paths
import HybridCompile.Proofs.Files.Writing
import HybridCompile.Proofs.Console.Reading
import HybridCompile.Proofs.Compile.Segments
import HybridCompile.Proofs.Partition.Lowering
import HybridCompile.Proofs.Console.Results
import HybridCompile.Proofs.Console.Preview
import HybridCompile.Proofs.Calibration.Reuse
import HybridCompile.Proofs.Console.Again
import HybridCompile.Proofs.Console.Effects
import HybridCompile.Proofs.Partition.Strictness
import HybridCompile.Proofs.Partition.Reasons
import HybridCompile.Proofs.Partition.AllOrNothing
import HybridCompile.Proofs.Dataflow.Facts
import HybridCompile.Proofs.Memory.Refusal
import HybridCompile.Proofs.Memory.Counters
import HybridCompile.Proofs.Engine.Obstacles
import HybridCompile.Proofs.Engine.Requests
import HybridCompile.Proofs.Engine.Reports
import HybridCompile.Proofs.Partition.Validity
import HybridCompile.Proofs.Compile.Runnability
import HybridCompile.Proofs.Tensor.Bounds
import HybridCompile.Proofs.Engine.Binding
import HybridCompile.Proofs.Engine.Profiles
import HybridCompile.Proofs.Request.Parts
import HybridCompile.Proofs.Request.Description
import HybridCompile.Proofs.Request.Order
import HybridCompile.Proofs.Text.Delimited
import HybridCompile.Proofs.Settings.Outline
import HybridCompile.Proofs.Text.Numerals
import HybridCompile.Proofs.Json.Printed
import HybridCompile.Proofs.Json.Values
import HybridCompile.Proofs.Engine.Image
import HybridCompile.Proofs.Engine.Identity
import HybridCompile.Proofs.Json.Numbers
import HybridCompile.Proofs.Json.Tokens
import HybridCompile.Proofs.Json.Reading
import HybridCompile.Proofs.Graph.Written
import HybridCompile.Proofs.Toml.Strings
import HybridCompile.Proofs.Toml.Words
import HybridCompile.Proofs.Toml.Values
import HybridCompile.Proofs.Toml.Lines
import HybridCompile.Proofs.Toml.Documents
import HybridCompile.Proofs.Toml.Fields
import HybridCompile.Proofs.Request.Written
import HybridCompile.Proofs.Compile.Written
