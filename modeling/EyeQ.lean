import EyeQ.Machine.Run
import EyeQ.Machine.Fallible
import EyeQ.Word.Basic
import EyeQ.Klist.Cursor
import EyeQ.Sum.Basic
import EyeQ.TokenPool.Basic
import EyeQ.Fifo.Expand
import EyeQ.Slab.Basic
import EyeQ.Rcp.Basic
import EyeQ.Platform
import EyeQ.Params
import EyeQ.Skb
import EyeQ.Rl.Basic
import EyeQ.Rl.Limiter
import EyeQ.Rl.Run
import EyeQ.Rl.Equiv.Enqueue
import EyeQ.Rl.Equiv.Small
import EyeQ.Rl.Equiv.Wakeup
import EyeQ.Rl.Equiv.Move
import EyeQ.Rl.Equiv.Accounting
import EyeQ.Rl.Equiv.Conformance
import EyeQ.Rl.Equiv.Order
import EyeQ.Tx.Class
import EyeQ.Tx.Context
import EyeQ.Tx.Equiv.Class
import EyeQ.Tx.Equiv.Context
import EyeQ.Tx.Equiv.Share
import EyeQ.Vq.Basic
import EyeQ.Vq.Drain
import EyeQ.Vq.Equiv.Drain
import EyeQ.Vq.Equiv.Control
import EyeQ.Rx.Context
import EyeQ.Rx.Equiv.Context
import EyeQ.Host.Rx
import EyeQ.Host.Net
import EyeQ.Slab.Reuse
import EyeQ.Dev.Basic
import EyeQ.Dev.Equiv.Registry
import EyeQ.Dev.Equiv.Refcnt
import EyeQ.Dev.Equiv.Guarantee
import EyeQ.Host.Equiv.Rx
import EyeQ.Host.Equiv.Feedback
import EyeQ.Ledger.Basic
import EyeQ.Qdisc.Basic
import EyeQ.Qdisc.Equiv.Ledger
import EyeQ.Qdisc.Equiv.Teardown
import EyeQ.Tx.Equiv.Pool
import EyeQ.Scanf.Basic
import EyeQ.Sysfs.Basic
import EyeQ.Sysfs.Equiv.Mutex
import EyeQ.DoubleCheck.Basic
import EyeQ.Tx.Equiv.Band
import EyeQ.Host.Equiv.Spacing
import EyeQ.Vq.Equiv.Tally
import EyeQ.Host.Equiv.Fraction
import EyeQ.Rl.Equiv.Verdict
import EyeQ.Rl.Equiv.Report
import EyeQ.Klist.Rotation
import EyeQ.Rl.Equiv.Round
import EyeQ.Rcp.ClosedLoop
import EyeQ.Vq.Equiv.ClosedLoop
import EyeQ.Tx.Equiv.Steer
import EyeQ.Rx.Equiv.Steer
import EyeQ.Dev.Equiv.Effect
import EyeQ.Scanf.Exact
import EyeQ.Sysfs.Equiv.Truth
import EyeQ.Stats.Show
import EyeQ.Text.Lines
import EyeQ.Perfiso.Equiv.Lines
import EyeQ.Perfiso.Equiv.Exact
import EyeQ.Dev.Setup
import EyeQ.Machine.Simulation
import EyeQ.Dev.Equiv.Setup
import EyeQ.Perfiso.Config
import EyeQ.Scanf.Print
import EyeQ.Perfiso.Equiv.Command
import EyeQ.Perfiso.Equiv.Load
import EyeQ.Perfiso.Equiv.Config
import EyeQ.Rl.Equiv.Append
import EyeQ.Rl.Equiv.Journey
import EyeQ.Rl.Equiv.Bound
import EyeQ.Dev.Equiv.VqShare
import EyeQ.Perfiso.Equiv.Tenant
import EyeQ.Dev.Build
import EyeQ.Dev.Equiv.Build
import EyeQ.Qdisc.Equiv.Setup
import EyeQ.Rx.Equiv.Aggregate
import EyeQ.Machine.Progress
import EyeQ.Rc.Basic
import EyeQ.Rc.Equiv.Recovery
import EyeQ.Rl.Equiv.Drain
import EyeQ.Node.Basic
import EyeQ.Node.Equiv.Order
import EyeQ.Fabric.Basic
import EyeQ.Host.Equiv.Answer
import EyeQ.Node.Equiv.Pool
import EyeQ.Qdisc.Equiv.Content
import EyeQ.Fabric.Equiv.Govern
