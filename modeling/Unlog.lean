import Unlog.Pattern.Program
import Unlog.Pattern.Compile
import Unlog.Pattern.Requirements
import Unlog.Render.Line
import Unlog.Config
import Unlog.Render.Correctness
import Unlog.Emit.Slot
import Unlog.Emit.RecordSlot
import Unlog.Emit.Specialised
import Unlog.Emit.Capture
import Unlog.Emit.CallSite
import Unlog.Emit.Uncaptured
import Unlog.Handoff.State
import Unlog.Library.FreeList
import Unlog.Library.Handshake
import Unlog.Library.LowestBit
import Unlog.Library.Transition
import Unlog.Library.Countdown
import Unlog.Handoff.Step
import Unlog.Handoff.Cases
import Unlog.Handoff.Ownership
import Unlog.Handoff.Recycle
import Unlog.Handoff.Exclusive
import Unlog.Handoff.Cursor
import Unlog.Handoff.Made
import Unlog.Handoff.Drained
import Unlog.Handoff.Pass
import Unlog.Handoff.Alert
import Unlog.Handoff.Ready
import Unlog.Handoff.Cells
import Unlog.Handoff.Blocked
import Unlog.Handoff.Coverage
import Unlog.Handoff.Ledger
import Unlog.Handoff.Flush
import Unlog.Handoff.Shutdown
import Unlog.Handoff.Reclaim
import Unlog.Handoff.Churn
import Unlog.Handoff.Balance
import Unlog.Handoff.Stats
import Unlog.Handoff.Accounting
import Unlog.Runtime.Registration
import Unlog.Control.State
import Unlog.Control.Step
import Unlog.Control.Cases
import Unlog.Control.Lifecycle
import Unlog.Control.Admission
import Unlog.Control.Binding
import Unlog.Control.Levels
import Unlog.Control.Gate
import Unlog.Control.Start
import Unlog.Runtime.Target
import Unlog.Control.Registry
import Unlog.Control.Sharing
import Unlog.Control.Inert
import Unlog.Emit.LogMessage
import Unlog.Emit.AllOrNothing
import Unlog.Render.Elapsed
import Unlog.Emit.Timestamp
import Unlog.Emit.History
import Unlog.Emit.Layout
import Unlog.Control.Direct
import Unlog.Handoff.Scan
import Unlog.Handoff.Budget
import Unlog.Handoff.Idle
import Unlog.Handoff.Exit
import Unlog.Library.Views
import Unlog.Orders.State
import Unlog.Orders.Registry
import Unlog.Orders.Flush
import Unlog.Library.Stream
import Unlog.Sink.Fd
import Unlog.Orders.Wake
import Unlog.Handoff.Flushers
import Unlog.Library.Fair
import Unlog.Handoff.Service
import Unlog.Handoff.Returns
import Unlog.Handoff.Delivery
import Unlog.Handoff.Termination
import Unlog.Handoff.Wait
import Unlog.Handoff.Liveness
import Unlog.Handoff.Refinement
import Unlog.Whole.State
import Unlog.Whole.Lines
import Unlog.Whole.Delivery
import Unlog.Handoff.Recovery
import Unlog.Handoff.Latency
import Unlog.Library.Mutex
import Unlog.Handoff.Mutexes
import Unlog.Whole.Call
