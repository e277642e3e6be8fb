import Qeminga.Lib.Machine
import Qeminga.Lib.Pool
import Qeminga.Lib.History
import Qeminga.Kernel
import Qeminga.State
import Qeminga.Plan
import Qeminga.Drain
import Qeminga.Context
import Qeminga.Operation
import Qeminga.Thaw
import Qeminga.Agent
import Qeminga.Moves
import Qeminga.Environment
import Qeminga.Invariant.WellFormed
import Qeminga.Invariant.Tokens
import Qeminga.Invariant.Registry
import Qeminga.Invariant.Drains
import Qeminga.Invariant.Cover
import Qeminga.Invariant.Handles
import Qeminga.Invariant.Devices
import Qeminga.Invariant.Watchdogs
import Qeminga.Contract.AbortOrCommit
import Qeminga.Contract.CrashSafety
import Qeminga.Contract.ThawCompleteness
import Qeminga.Contract.FreezeReply
import Qeminga.Contract.Ownership
import Qeminga.Contract.TokenDiscipline
import Qeminga.Contract.RunningWatchdog
import Qeminga.Contract.WatchdogCycle
import Qeminga.Contract.ThawRefusal
import Qeminga.Contract.SessionEnding
import Qeminga.Contract.AuditQuiet
import Qeminga.Contract.Settlement
import Qeminga.Daemon
import Qeminga.Invariant.Serving
import Qeminga.Contract.ThawedOnly
import Qeminga.Framing
import Qeminga.Contract.FrameDecoding
import Qeminga.Contract.NestedDrain
import Qeminga.Blocking
import Qeminga.Contract.ThawReport
import Qeminga.RouterMoves
import Qeminga.Contract.QueueBound
import Qeminga.Contract.LossLedger
import Qeminga.Lib.Accounts
import Qeminga.Contract.AuditOrder
import Qeminga.Lib.Descent
import Qeminga.Contract.PathResolution
import Qeminga.Contract.FreezeListCoverage
import Qeminga.Invariant.Publication
import Qeminga.Contract.DrainOrder
import Qeminga.Lib.Renewal
import Qeminga.Contract.WatchdogExpiry
import Qeminga.Contract.PlanConstruction
import Qeminga.Lib.Text
import Qeminga.Lib.Utf8
import Qeminga.Mountinfo
import Qeminga.Contract.MountTable
import Qeminga.Lib.Scanner
import Qeminga.Lib.JsonGrammar
import Qeminga.Bounds
import Qeminga.Contract.BoundsScan
import Qeminga.Proto
import Qeminga.Dispatcher
import Qeminga.Contract.DispatchAccounting
import Qeminga.Contract.RequestSchema
import Qeminga.Lib.Window
import Qeminga.Contract.RingContent
import Qeminga.Lib.Fallible
import Qeminga.Privileges
import Qeminga.Contract.PrivilegeDrop
import Qeminga.Lib.IpText
import Qeminga.Interfaces
import Qeminga.Contract.InterfaceReport
import Qeminga.OsInfo
import Qeminga.Contract.OsRelease
import Qeminga.Lib.Calendar
import Qeminga.Timestamp
import Qeminga.Contract.CivilDates
import Qeminga.Contract.MarkerKept
import Qeminga.Contract.StaleHandles
import Qeminga.Configuration
import Qeminga.Contract.FsinfoWalks
import Qeminga.Contract.HardenedStart
import Qeminga.Contract.LeastAuthority
import Qeminga.Contract.Recoverable
import Qeminga.Contract.ReopenPacing
import Qeminga.Contract.SnapshotInterval
import Qeminga.Contract.QuotaIsolation
import Qeminga.Contract.TrimReport
import Qeminga.Contract.Correlation
