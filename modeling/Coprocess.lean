import Coprocess.Bytes
import Coprocess.Failure
import Coprocess.Text.Decimal
import Coprocess.Field
import Coprocess.Wrap
import Coprocess.Source
import Coprocess.Sink
import Coprocess.Queue
import Coprocess.Pipe.Writer
import Coprocess.Pipe.Reader
import Coprocess.Pipeline.Feeder
import Coprocess.Pipeline.Collector
import Coprocess.Pipeline.Supervision
import Coprocess.Child
import Coprocess.Gzip.Member
import Coprocess.Record
import Coprocess.Log.Filter
import Coprocess.Options.Invocation
import Coprocess.Options.Report
import Coprocess.Program.Arguments
import Coprocess.Program.Regex
import Coprocess.Program.ByteClass
import Coprocess.Program.Filter
import Coprocess.Program.Transliteration
import Coprocess.Program.Selection
import Coprocess.Program.Arrangement
import Coprocess.Program.Copying
import Coprocess.Program.Editor
import Coprocess.Program.Format
import Coprocess.Program.Process
import Coprocess.Program.Shell.Inline
import Coprocess.Program.Shell.Syntax
import Coprocess.Program.Shell.Glob
import Coprocess.Program.Shell.Arithmetic
import Coprocess.Program.Shell.Expansion
import Coprocess.FileTree
import Coprocess.Coloring
import Coprocess.Program.Shell.Builtin
import Coprocess.Program.Shell.State
import Coprocess.Program.Shell.Command
import Coprocess.Program.Shell.Machine
import Coprocess.Program
import Coprocess.Launch
import Coprocess.Flow
import Coprocess.Pipeline.Schedule
import Coprocess.Pipeline.Run
import Coprocess.Child.Handle
import Coprocess.Child.Session
import Coprocess.Pool.Run
import Coprocess.Execution
import Coprocess.Main
import Coprocess.Proofs.Text.Lines
import Coprocess.Proofs.Pipe.Transfer
import Coprocess.Proofs.Collector.Assembly
import Coprocess.Proofs.Text.Characters
import Coprocess.Proofs.Wrap.Text
import Coprocess.Proofs.Text.Base64
import Coprocess.Proofs.Source.Parcels
import Coprocess.Proofs.Source.Fairness
import Coprocess.Proofs.Feeder.Feeding
import Coprocess.Proofs.Collector.Collecting
import Coprocess.Proofs.Collector.Progress
import Coprocess.Proofs.Collector.Verdict
import Coprocess.Proofs.Collector.Echo
import Coprocess.Proofs.Record.Reading
import Coprocess.Proofs.Pipeline.Interleaving
import Coprocess.Proofs.Pipeline.Delivery
import Coprocess.Proofs.Pipeline.Conformity
import Coprocess.Proofs.Pipeline.Deadlock
import Coprocess.Proofs.Pipeline.StreamingChild
import Coprocess.Proofs.Pipeline.Backpressure
import Coprocess.Proofs.Pipeline.Standstill
import Coprocess.Proofs.Feeder.Moves
import Coprocess.Proofs.Pipeline.Unfailed
import Coprocess.Proofs.Pipeline.Effort
import Coprocess.Proofs.Supervision.Reports
import Coprocess.Proofs.Pipeline.Diagnosis
import Coprocess.Proofs.Source.Recall
import Coprocess.Proofs.Pipeline.Caching
import Coprocess.Proofs.Pipeline.Alignment
import Coprocess.Proofs.Feeder.Draining
import Coprocess.Queue.Call
import Coprocess.Proofs.Queue
import Coprocess.Proofs.Record.Division
import Coprocess.Proofs.Record.Lengths
import Coprocess.Proofs.Gzip.Members
import Coprocess.Proofs.Gzip.Transparency
import Coprocess.Proofs.KeyedLists
import Coprocess.Proofs.Pool.Emission
import Coprocess.Proofs.Pool.Forwarding
import Coprocess.Proofs.Pool.Reaping
import Coprocess.Proofs.Pool.Sharing
import Coprocess.Proofs.Pool.Records
import Coprocess.Proofs.Pool.Outcomes
import Coprocess.Proofs.Pipe.Ends
import Coprocess.Proofs.Wrap.Greedy
import Coprocess.Proofs.Wrap.Pieces
import Coprocess.Proofs.Field.Selecting
import Coprocess.Proofs.Field.Covering
import Coprocess.Proofs.Field.Keys
import Coprocess.Proofs.Gzip.Arrival
import Coprocess.Proofs.Wrap.Width
import Coprocess.Proofs.Wrap.Runs
import Coprocess.Proofs.Feeder.Lag
import Coprocess.Proofs.Pool.Dispatching
import Coprocess.Proofs.Supervision.Precedence
import Coprocess.Proofs.Pool.Passes
import Coprocess.Proofs.Collector.Chaining
import Coprocess.Proofs.Slots
import Coprocess.Proofs.Pipe.Listening
import Coprocess.Proofs.Child.Handle
import Coprocess.Proofs.Child.Session
import Coprocess.Proofs.Child.Reaped
import Coprocess.Proofs.Source.Malformed
import Coprocess.Proofs.Options.Verbatim
import Coprocess.Proofs.Wrap.Cursor
import Coprocess.Proofs.Field.Spans
