import Qeminga.Agent
import Qeminga.Session

/-!
# The audit router

`audit.rs`: records go to the delivery queue of the writer thread or, in `Ring` mode, to a bounded ring.  The writer
thread takes an item under the lock, writes it to the sink outside the lock and comes back with the result.

`Logging` is the agent beside its router.  A step of the agent that runs the hook `on_freezing` enters the ring, and one
that runs the hook `on_thawed` flushes it; both hooks leave a router alone that is in their mode already
(`enterRing_ring`, `flushToNormal_normal`), so the mode of the agent's context tells which one ran.
-/

namespace Qeminga

/-! ### The ring -/

/-- A byte-bounded FIFO of whole lines. -/
structure LineRing where
  capacity : Nat
  used : Nat
  lines : List Bytes
  lost : Nat
  deriving DecidableEq, Repr

namespace LineRing

def withCapacity (capacity : Nat) : LineRing := ⟨capacity, 0, [], 0⟩

/-- The `while` loop of `push`: the oldest lines are evicted until `n` bytes fit. -/
def evict (n capacity : Nat) : (lines : List Bytes) → (used lost : Nat) → Nat × List Bytes × Nat
  | [], used, lost => (used, [], lost)
  | old :: lines, used, lost =>
    if capacity < saturatingAdd used n then evict n capacity lines (used - old.length) (saturatingAdd lost 1)
    else (used, old :: lines, lost)

def push (r : LineRing) (line : Bytes) : LineRing :=
  if r.capacity < line.length then { r with lost := saturatingAdd r.lost 1 }
  else
    let x := evict line.length r.capacity r.lines r.used r.lost
    { r with used := x.1 + line.length, lines := x.2.1 ++ [line], lost := x.2.2 }

/-- The ring after a drain; what it held is `lost` and `lines`. -/
def drain (r : LineRing) : LineRing := { r with used := 0, lines := [], lost := 0 }

end LineRing

/-! ### The delivery queue -/

inductive Mode
  | normal | ring
  deriving DecidableEq, Repr

inductive LossReason
  | ringOverflow | sinkBackpressure | sinkError
  deriving DecidableEq, Repr

/-- Where records were lost, counted by reason. -/
structure LossGap where
  ringOverflow : Nat
  sinkBackpressure : Nat
  sinkError : Nat
  deriving DecidableEq, Repr

namespace LossGap

def add (gap : LossGap) (count : Nat) : LossReason → LossGap
  | .ringOverflow => { gap with ringOverflow := saturatingAdd gap.ringOverflow count }
  | .sinkBackpressure => { gap with sinkBackpressure := saturatingAdd gap.sinkBackpressure count }
  | .sinkError => { gap with sinkError := saturatingAdd gap.sinkError count }

def of (count : Nat) (reason : LossReason) : LossGap := add ⟨0, 0, 0⟩ count reason

def merge (gap other : LossGap) : LossGap :=
  ((gap.add other.ringOverflow .ringOverflow).add other.sinkBackpressure .sinkBackpressure).add other.sinkError .sinkError

def total (gap : LossGap) : Nat := saturatingAdd (saturatingAdd gap.ringOverflow gap.sinkBackpressure) gap.sinkError

end LossGap

inductive Item
  | line (bytes : Bytes)
  | lost (gap : LossGap)
  deriving DecidableEq, Repr

/-- The losses of a gap, none for a line. -/
def Item.losses : Item → Nat
  | .line _ => 0
  | .lost gap => gap.total

/-- The router behind its lock, with what the writer thread keeps for itself: `failedAt`, and `inFlight`, the item it
took out of the queue and is writing.  `begun` lists the items whose writes have begun, the latest first; it is history. -/
structure Router where
  mode : Mode
  ring : LineRing
  queue : List Item
  queued : Nat
  capacity : Nat
  shutdown : Bool
  exited : Bool
  started : Bool
  pushes : Nat
  failedAt : Option Nat
  inFlight : Option Item
  begun : List Item

def ringCapacity : Nat := 64 * 1024

def sinkQueueCapacity : Nat := 256 * 1024

namespace Router

/-- A router whose writer is not started. -/
def build (ring queue : Nat) : Router where
  mode := .normal
  ring := .withCapacity ring
  queue := []
  queued := 0
  capacity := queue
  shutdown := false
  exited := false
  started := false
  pushes := 0
  failedAt := none
  inFlight := none
  begun := []

/-- A new push, which lets a writer retry that is parked after a failure of the sink. -/
def pushed (r : Router) : Router := { r with pushes := (r.pushes + 1) % 2 ^ 64 }

/-- Records lost lines at the tail of the queue, in the gap there if the tail is one. -/
def lose (r : Router) (count : Nat) (reason : LossReason) : Router :=
  match r.queue.getLast? with
  | some (.lost gap) => pushed { r with queue := r.queue.dropLast ++ [.lost (gap.add count reason)] }
  | _ => pushed { r with queue := r.queue ++ [.lost (.of count reason)] }

/-- Queues a line for delivery, or drops and counts it when the queue is full. -/
def enqueue (r : Router) (line : Bytes) : Router :=
  if r.capacity < saturatingAdd r.queued line.length && decide (0 < r.queued) then r.lose 1 .sinkBackpressure
  else pushed { r with queued := saturatingAdd r.queued line.length, queue := r.queue ++ [.line line] }

/-- Puts a loss back at the head of the queue, into the gap there if the head is one. -/
def loseAtFront (r : Router) (lost : LossGap) : Router :=
  match r.queue with
  | .lost gap :: rest => { r with queue := .lost (gap.merge lost) :: rest }
  | _ => { r with queue := .lost lost :: r.queue }

def writeRecord (r : Router) (line : Bytes) : Router :=
  match r.mode with
  | .ring => { r with ring := r.ring.push line }
  | .normal => if r.exited && !r.shutdown then r.lose 1 .sinkError else r.enqueue line

def enterRing (r : Router) : Router := { r with mode := .ring }

/-- Moves the ring's lines to the queue and switches to `normal`. -/
def flushToNormal (r : Router) : Router :=
  let lost := r.ring.lost
  let lines := r.ring.lines
  let r := { r with ring := r.ring.drain }
  let r := if 0 < lost then r.lose lost .ringOverflow else r
  { lines.foldl enqueue r with mode := .normal }

/-- The losses not yet reported by a loss record; the sum of the source wraps. -/
def unreportedLosses (r : Router) : Nat :=
  ((r.queue.map Item.losses).sum + (r.inFlight.map Item.losses).getD 0) % 2 ^ 64

/-- Starts the writer thread unless it was started before; `spawned` says whether the thread could be created. -/
def startWriter (r : Router) (spawned : Bool) : Router :=
  if r.started then r else if spawned then { r with started := true } else { r with started := true, exited := true }

/-! ### The writer thread -/

/-- The next look of the writer thread at the queue: it takes an item, leaves, or waits (`none`). -/
def take (r : Router) : Option Router :=
  if r.started && !r.exited && r.inFlight.isNone then
    match r.mode, r.queue with
    | .normal, item :: queue =>
      if r.failedAt ≠ some r.pushes then some { r with queue := queue, inFlight := some item, begun := item :: r.begun }
      else none
    | .normal, [] => if r.shutdown then some { r with exited := true } else none
    | .ring, _ => if r.shutdown then some { r with exited := true } else none
  else none

/-- The end of the sink write in flight. -/
def delivered (r : Router) (ok : Bool) : Option Router :=
  match r.inFlight with
  | none => none
  | some item =>
    let r := { r with inFlight := none }
    let r := match item with | .line bytes => { r with queued := r.queued - bytes.length } | .lost _ => r
    if ok then some { r with failedAt := none }
    else
      let r := { r with failedAt := some r.pushes }
      match item with
      | .lost gap => some (r.loseAtFront gap)
      | .line _ => some (r.loseAtFront (.of 1 .sinkError))

/-! ### All steps -/

/-- A record from any thread, the two hooks, the start and the steps of the writer thread, the end of the last handle. -/
inductive Action
  | record (line : Bytes)
  | enterRing
  | flushToNormal
  | startWriter (spawned : Bool)
  | take
  | delivered (ok : Bool)
  | shutdown
  deriving DecidableEq, Repr

def step (r : Router) : Action → Option Router
  | .record line => some (r.writeRecord line)
  | .enterRing => some r.enterRing
  | .flushToNormal => some r.flushToNormal
  | .startWriter spawned => some (r.startWriter spawned)
  | .take => r.take
  | .delivered ok => r.delivered ok
  | .shutdown => some { r with shutdown := true }

/-- A router before its first step. -/
def Initial (r : Router) : Prop := ∃ ring queue, r = build ring queue

end Router

/-! ### The agent and its router -/

structure Logging where
  agent : Agent
  router : Router

/-- A step of the agent, a record from any of its threads, a step of the writer thread, its start, or the end of the last
handle of the router. -/
inductive LogAction
  | agent (act : Action)
  | record (line : Bytes)
  | startWriter (spawned : Bool)
  | take
  | delivered (ok : Bool)
  | shutdown

namespace Logging

/-- The router of a start of the agent: in recovery mode it begins in the ring. -/
def bootRouter (recovery : Bool) : Router :=
  let r := Router.build ringCapacity sinkQueueCapacity
  if recovery then r.enterRing else r

/-- What a step of the agent does to the router. -/
def hooks (r : Router) (act : Action) (c c' : Ctx) : Router :=
  match act with
  | .crash => { bootRouter c.marker with begun := r.begun }
  | _ =>
    match c.ring, c'.ring with
    | false, true => r.enterRing
    | true, false => r.flushToNormal
    | _, _ => r

def step (cfg : Config) (s : Logging) : LogAction → Option Logging
  | .agent act => (Agent.step cfg s.agent act).map fun a => ⟨a, hooks s.router act s.agent.ctx a.ctx⟩
  | .record line => some { s with router := s.router.writeRecord line }
  | .startWriter spawned => some { s with router := s.router.startWriter spawned }
  | .take => s.router.take.map fun r => { s with router := r }
  | .delivered ok => (s.router.delivered ok).map fun r => { s with router := r }
  | .shutdown => some { s with router := { s.router with shutdown := true } }

/-- The agent at its first start, with its router. -/
structure Initial (s : Logging) : Prop where
  agent : Agent.Initial s.agent
  router : s.router = bootRouter s.agent.ctx.marker

end Logging

end Qeminga
