import FlowRecovery.Command.Flag
import FlowRecovery.Command.Invocation
import FlowRecovery.Command.Job
import FlowRecovery.Command.Literal
import FlowRecovery.Command.Run
import FlowRecovery.Decimal.Binary64
import FlowRecovery.Decimal.Layout
import FlowRecovery.Decimal.Reader
import FlowRecovery.Decimal.Shortest
import FlowRecovery.Disk
import FlowRecovery.Display.Block
import FlowRecovery.Display.Grid
import FlowRecovery.Display.Report
import FlowRecovery.Duration
import FlowRecovery.Fault
import FlowRecovery.Flow.Build
import FlowRecovery.Flow.Successor
import FlowRecovery.Flow.Tail
import FlowRecovery.Graph.Basic
import FlowRecovery.Graph.Reach
import FlowRecovery.Input
import FlowRecovery.Json.Basic
import FlowRecovery.Json.Reader
import FlowRecovery.Json.Writer
import FlowRecovery.Listing.Document
import FlowRecovery.Listing.Export
import FlowRecovery.Listing.File
import FlowRecovery.Listing.Read
import FlowRecovery.Main
import FlowRecovery.Observer
import FlowRecovery.Picker
import FlowRecovery.Pipeline.Event
import FlowRecovery.Pipeline.Options
import FlowRecovery.Pipeline.Pool
import FlowRecovery.Pipeline.Result
import FlowRecovery.Proofs.Command.ExitStatus
import FlowRecovery.Proofs.Command.Faults
import FlowRecovery.Proofs.Flow.Build
import FlowRecovery.Proofs.Flow.Cycle
import FlowRecovery.Proofs.Flow.Entry
import FlowRecovery.Proofs.Flow.Extent
import FlowRecovery.Proofs.Flow.Faults
import FlowRecovery.Proofs.Flow.Labels
import FlowRecovery.Proofs.Flow.Levels
import FlowRecovery.Proofs.Flow.Outcome
import FlowRecovery.Proofs.Flow.Prolonged
import FlowRecovery.Proofs.Flow.Script
import FlowRecovery.Proofs.Flow.Spine
import FlowRecovery.Proofs.Flow.Successor
import FlowRecovery.Proofs.Flow.Tail
import FlowRecovery.Proofs.Flow.TailCycle
import FlowRecovery.Proofs.Flow.Trailing
import FlowRecovery.Proofs.Flow.Walk
import FlowRecovery.Proofs.Graph.Calls
import FlowRecovery.Proofs.Graph.Operations
import FlowRecovery.Proofs.Graph.Reachable
import FlowRecovery.Proofs.Graph.Restriction
import FlowRecovery.Proofs.Graph.Sealed
import FlowRecovery.Proofs.Graph.Tables
import FlowRecovery.Proofs.Graph.Traversal
import FlowRecovery.Proofs.Graph.WellFormed
import FlowRecovery.Proofs.Json.ReadBack
import FlowRecovery.Proofs.Listing.Complaints
import FlowRecovery.Proofs.Listing.Format
import FlowRecovery.Proofs.Listing.Lossless
import FlowRecovery.Proofs.Listing.Operands
import FlowRecovery.Proofs.Picker.Indexing
import FlowRecovery.Proofs.Picker.Window
import FlowRecovery.Proofs.Pipeline.Account
import FlowRecovery.Proofs.Pipeline.Counts
import FlowRecovery.Proofs.Pipeline.DeadBranches
import FlowRecovery.Proofs.Pipeline.Entry
import FlowRecovery.Proofs.Pipeline.History
import FlowRecovery.Proofs.Pipeline.Jumps
import FlowRecovery.Proofs.Pipeline.Moves
import FlowRecovery.Proofs.Pipeline.Recover
import FlowRecovery.Proofs.Pipeline.Schedule
import FlowRecovery.Proofs.Pipeline.Trace
import FlowRecovery.Proofs.Pipeline.Trailing
import FlowRecovery.Proofs.Reduce.Arms
import FlowRecovery.Proofs.Reduce.Branches
import FlowRecovery.Proofs.Reduce.Collapse
import FlowRecovery.Proofs.Reduce.Contraction
import FlowRecovery.Proofs.Reduce.Converge
import FlowRecovery.Proofs.Reduce.Core
import FlowRecovery.Proofs.Reduce.ElseArms
import FlowRecovery.Proofs.Reduce.FixedPoint
import FlowRecovery.Proofs.Reduce.Inside
import FlowRecovery.Proofs.Reduce.Insulation
import FlowRecovery.Proofs.Reduce.Loops
import FlowRecovery.Proofs.Reduce.Markers
import FlowRecovery.Proofs.Reduce.Meeting
import FlowRecovery.Proofs.Reduce.Merge
import FlowRecovery.Proofs.Reduce.Minimize
import FlowRecovery.Proofs.Reduce.Moving
import FlowRecovery.Proofs.Reduce.Nearest
import FlowRecovery.Proofs.Reduce.Operations
import FlowRecovery.Proofs.Reduce.Paths
import FlowRecovery.Proofs.Reduce.Search
import FlowRecovery.Proofs.Reduce.Shape
import FlowRecovery.Proofs.Reduce.Verdicts
import FlowRecovery.Proofs.Script.TableText
import FlowRecovery.Proofs.Text.Escape
import FlowRecovery.Reduce.Branches
import FlowRecovery.Reduce.Collapse
import FlowRecovery.Reduce.Converge
import FlowRecovery.Reduce.Minimize
import FlowRecovery.Script.Operation
import FlowRecovery.Script.Routine
import FlowRecovery.Script.Table
import FlowRecovery.Script.TableText
import FlowRecovery.Text.Digit
import FlowRecovery.Text.Distance
import FlowRecovery.Text.Letter
import FlowRecovery.Text.Lowercase
import FlowRecovery.Text.Piece
import FlowRecovery.Text.Printable
import FlowRecovery.Text.Quoted
import FlowRecovery.Text.Range
import FlowRecovery.Text.Utf16
import FlowRecovery.Timestamp
import FlowRecovery.Toml.Atom
import FlowRecovery.Toml.Document
import FlowRecovery.Toml.Quoted
import FlowRecovery.Toml.Store
import FlowRecovery.Value
import FlowRecovery.Word
import FlowRecovery.Yaml.Aliasing
import FlowRecovery.Yaml.Cursor
import FlowRecovery.Yaml.Merge
import FlowRecovery.Yaml.Node
import FlowRecovery.Yaml.Resolve
import FlowRecovery.Yaml.Text
import FlowRecovery.Yaml.Token
