import ScriptHost.Channel
import ScriptHost.Console
import ScriptHost.Environment
import ScriptHost.Gauge
import ScriptHost.GlobalScope
import ScriptHost.Guard
import ScriptHost.Heap.Basic
import ScriptHost.Heap.Clone
import ScriptHost.Heap.Collect
import ScriptHost.Heap.Display
import ScriptHost.Heap.Object
import ScriptHost.Heap.Property
import ScriptHost.Host
import ScriptHost.Json.Decimal
import ScriptHost.Json.Fault
import ScriptHost.Json.Read
import ScriptHost.Json.Tree
import ScriptHost.Json.Write
import ScriptHost.Limits
import ScriptHost.Number.Binary
import ScriptHost.Number.Print
import ScriptHost.Number.Reading
import ScriptHost.Number.Shortest
import ScriptHost.Run.Builtin
import ScriptHost.Run.Complaint
import ScriptHost.Run.Evaluator
import ScriptHost.Run.Machine
import ScriptHost.Run.Operator
import ScriptHost.Run.Program
import ScriptHost.Scope
import ScriptHost.Source.Expression
import ScriptHost.Source.Fault
import ScriptHost.Source.Lexer
import ScriptHost.Source.Program
import ScriptHost.Source.Stream
import ScriptHost.Source.Token
import ScriptHost.Source.Tree
import ScriptHost.Source.Unit
import ScriptHost.Table
import ScriptHost.Termination
import ScriptHost.Text.Blank
import ScriptHost.Text.Utf8
import ScriptHost.Value
import ScriptHost.Watch
import ScriptHost.Worker
import ScriptHost.Proofs.Coupling.Matching
import ScriptHost.Proofs.Coupling.Reading
import ScriptHost.Proofs.Coupling.Basic
import ScriptHost.Proofs.Coupling.Building
import ScriptHost.Proofs.Coupling.Lockstep
import ScriptHost.Proofs.Coupling.Law
import ScriptHost.Proofs.Coupling.Muting
import ScriptHost.Proofs.Heap.Ageing
import ScriptHost.Proofs.Heap.Tombstone
import ScriptHost.Proofs.Session.Bond
import ScriptHost.Proofs.Session.Budget
import ScriptHost.Proofs.Session.Dangling
import ScriptHost.Proofs.Session.Lending
import ScriptHost.Proofs.Termination.Finality
import ScriptHost.Proofs.Termination.Horizon
import ScriptHost.Proofs.Termination.Depth
import ScriptHost.Proofs.Guard.Interleaving
import ScriptHost.Proofs.Source.Rendering
import ScriptHost.Proofs.Source.Reading
import ScriptHost.Proofs.Source.Levels
import ScriptHost.Proofs.Source.RoundTrip
import ScriptHost.Proofs.Heap.Estate
import ScriptHost.Proofs.Heap.Ledger
import ScriptHost.Proofs.Session.Lines
import ScriptHost.Proofs.Session.Memory
import ScriptHost.Proofs.Heap.Accounts
import ScriptHost.Proofs.Session.Stages
import ScriptHost.Proofs.Session.Muting
import ScriptHost.Proofs.Session.Delivery
import ScriptHost.Proofs.Run.Hoisting
import ScriptHost.Proofs.Run.Pending
import ScriptHost.Proofs.Run.Complaining
import ScriptHost.Proofs.Run.Posting
import ScriptHost.Proofs.Session.Orderly
import ScriptHost.Proofs.Session.Injection
import ScriptHost.Proofs.Session.Constants
import ScriptHost.Proofs.Heap.Lengths
import ScriptHost.Proofs.Run.Checking
import ScriptHost.Proofs.Run.Strings
import ScriptHost.Proofs.Json.Lengths
import ScriptHost.Proofs.Run.Keeping
import ScriptHost.Proofs.Run.Limit
import ScriptHost.Proofs.Heap.Reachability
import ScriptHost.Proofs.Heap.Unfolding
import ScriptHost.Proofs.Heap.Widths
import ScriptHost.Proofs.Heap.Cloning
import ScriptHost.Proofs.Heap.Texts
import ScriptHost.Proofs.Run.Rules
import ScriptHost.Proofs.Run.Constants
import ScriptHost.Proofs.Run.Lines
import ScriptHost.Proofs.Run.Targets
import ScriptHost.Proofs.Run.Texts
import ScriptHost.Proofs.Number.Integers
import ScriptHost.Proofs.Number.Widths
import ScriptHost.Proofs.Json.Documents
import ScriptHost.Proofs.Heap.Bridge
import ScriptHost.Proofs.Run.Properties
import ScriptHost.Proofs.Session.Enclosure
import ScriptHost.Proofs.Source.Bounds
import ScriptHost.Proofs.Source.Lines
import ScriptHost.Proofs.Session.Identity
import ScriptHost.Proofs.Number.Positions
import ScriptHost.Proofs.Run.Indexes
import ScriptHost.Proofs.Heap.Growth
import ScriptHost.Proofs.Heap.Refusal
import ScriptHost.Proofs.Termination.Balance
import ScriptHost.Proofs.Termination.Polling
import ScriptHost.Proofs.Source.Literals
import ScriptHost.Proofs.Heap.Upholding
import ScriptHost.Proofs.Heap.Keys
import ScriptHost.Proofs.Heap.Serialization
import ScriptHost.Proofs.Run.Upholding
import ScriptHost.Proofs.Session.Upholding
import ScriptHost.Proofs.Session.Keys
