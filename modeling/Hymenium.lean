import Hymenium.Dispatch.Evidence
import Hymenium.Workflow.Shape
import Hymenium.Dag.Executor
import Hymenium.Dag.Sort
import Hymenium.Dag.Waves
import Hymenium.Dag.Results
import Hymenium.Dag.Skips
import Hymenium.Foundations.Keyed
import Hymenium.Store.Outcome
import Hymenium.Store.Schema
import Hymenium.Commands.Commands
import Hymenium.Store.Statements
import Hymenium.Store.Ledger
import Hymenium.Store.Sweeps
import Hymenium.Commands.Effects
import Hymenium.Commands.Coherence
import Hymenium.Commands.Terminal
import Hymenium.Commands.Outcomes
import Hymenium.Dag.Visits
import Hymenium.Commands.Redispatch
import Hymenium.Store.SweepSteps
import Hymenium.Store.SweepRaces
import Hymenium.Commands.Interleaved
import Hymenium.Foundations.Text
import Hymenium.Parser.Markdown
import Hymenium.Parser.Slices
import Hymenium.Decompose.Algorithm
import Hymenium.Decompose.Decompose
import Hymenium.Decompose.Partition
import Hymenium.Decompose.Order
import Hymenium.Decompose.Render
import Hymenium.Parser.Reading
import Hymenium.Decompose.RoundTrip
import Hymenium.Dispatch.Pauses
import Hymenium.Monitor.Handler
import Hymenium.Monitor.Recovery
import Hymenium.Monitor.Delivery
import Hymenium.Commands.TransitionLog
import Hymenium.Store.RoundTrip
import Hymenium.Foundations.Calendar
import Hymenium.Foundations.Timestamp
import Hymenium.Foundations.Batches
import Hymenium.Store.Listing
import Hymenium.Store.SweepPost
import Hymenium.Foundations.FileSystem
import Hymenium.Workflow.Lock
import Hymenium.Workflow.Blocked
import Hymenium.Workflow.Finality
import Hymenium.Workflow.Stamps
import Hymenium.Dispatch.Frame
import Hymenium.Dispatch.Signals
import Hymenium.Commands.Persist
import Hymenium.Context.Compress
import Hymenium.Foundations.Pairing
import Hymenium.Monitor.Progress
import Hymenium.Context.Pairs
import Hymenium.Foundations.Greedy
import Hymenium.Context.Budget
import Hymenium.Workflow.Ceilings
import Hymenium.Workflow.Resume
import Hymenium.Monitor.Climb
import Hymenium.Monitor.Typed
import Hymenium.Decompose.Graph
import Hymenium.Decompose.Components
import Hymenium.Decompose.Packing
import Hymenium.Parser.Outline
import Hymenium.Parser.Headings
import Hymenium.Parser.Paste
import Hymenium.Dag.Launch
import Hymenium.Dag.Starvation
import Hymenium.Foundations.Connection
import Hymenium.Store.Transaction
import Hymenium.Store.Attempts
import Hymenium.Context.Accounting
import Hymenium.Dispatch.Slug
import Hymenium.Monitor.Stalls
import Hymenium.Dispatch.Mapping
import Hymenium.Store.Timeouts
import Hymenium.Foundations.Progress
import Hymenium.Dispatch.Rounds
import Hymenium.Commands.History
import Hymenium.Dag.Nodes
import Hymenium.Foundations.Json
import Hymenium.Workflow.TemplateJson
import Hymenium.Dispatch.Wire
import Hymenium.Dispatch.Brief
import Hymenium.Commands.Dispatchers
import Hymenium.Decompose.Determinism
import Hymenium.Commands.Decompose
import Hymenium.Foundations.Migration
import Hymenium.Store.Migrate
import Hymenium.Dispatch.Client
import Hymenium.Dispatch.Packet
import Hymenium.Workflow.Compaction
import Hymenium.Commands.Status
