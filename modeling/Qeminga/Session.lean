import Qeminga.Framing
import Qeminga.Kernel
import Qeminga.Lib.Machine

/-!
# A session of the channel

`run_session_until` (`channel.rs`): the queue of decoded commands, their admission to the lanes, the outbox of replies
and the loop around them.  The loop is cut where it asks its surroundings: the handler whether a stop may take effect
(`may_stop`), the stop channel, the running commands whether they have finished, the writer and the reader.  These
answers come with each step, so a run covers every order of completions, every split of the writes, every error and
every change of the handler's mind between two questions.

`ε` is the type of decoder events and `classify` the handler's choice of a lane.  Requests are numbered in the order
of decoding.  `History` is history: no step reads it.
-/

namespace Qeminga

/-! ### The queue and its lanes -/

/-- The lane a command runs in. -/
inductive Kind
  | control | thaw | freeze | ordinary
  deriving DecidableEq, Repr

/-- The lanes whose commands start in request order among themselves. -/
def Kind.isSerial : Kind → Bool
  | .freeze => true
  | .ordinary => true
  | _ => false

def maxControls : Nat := 3

def maxQueued : Nat := 8

def maxReplyBytes : Nat := 64 * 1024

/-- A command the session holds; the future of a running one is the handler's at its event. -/
inductive Slot (ε : Type)
  | waiting (kind : Kind) (event : ε)
  | pending (kind : Kind) (event : ε)
  | done (reply : Option Bytes)
  deriving DecidableEq

namespace Slot

variable {ε : Type}

def isWaiting : Slot ε → Bool
  | .waiting _ _ => true
  | _ => false

def isPending : Slot ε → Bool
  | .pending _ _ => true
  | _ => false

/-- A waiting command that holds the serial lane back. -/
def blocksSerial : Slot ε → Bool
  | .waiting kind _ => kind ≠ .control
  | _ => false

/-- The bytes of a finished reply that waits for the ones before it. -/
def finishedBytes : Slot ε → Nat
  | .done (some reply) => reply.length
  | _ => 0

end Slot

/-- What is running, by lane. -/
structure Lanes where
  controls : Nat
  freeze : Bool
  thawOrOrdinary : Bool
  deriving DecidableEq, Repr

namespace Lanes

variable {ε : Type}

def take (lanes : Lanes) : Kind → Lanes
  | .control => { lanes with controls := lanes.controls + 1 }
  | .freeze => { lanes with freeze := true }
  | .thaw => { lanes with thawOrOrdinary := true }
  | .ordinary => { lanes with thawOrOrdinary := true }

def takeSlot (lanes : Lanes) : Slot ε → Lanes
  | .pending kind _ => lanes.take kind
  | _ => lanes

def of (slots : List (Slot ε)) : Lanes := slots.foldl takeSlot ⟨0, false, false⟩

def exclusive (lanes : Lanes) : Bool := lanes.freeze || lanes.thawOrOrdinary

/-- The lane of `kind` is free, where `serialWaiting` says that an earlier command waits for the serial lane. -/
def free (lanes : Lanes) (serialWaiting : Bool) : Kind → Bool
  | .control => decide (lanes.controls < maxControls)
  | .thaw => !lanes.thawOrOrdinary
  | .freeze => !lanes.exclusive && !serialWaiting
  | .ordinary => !lanes.exclusive && !serialWaiting

end Lanes

section Admit

variable {ε : Type}

/-- The loop of `admit` over the next `window` slots. -/
def admitFrom (lanes : Lanes) (serialWaiting : Bool) : (window : Nat) → List (Slot ε) → List (Slot ε)
  | 0, slots => slots
  | _ + 1, [] => []
  | window + 1, .waiting kind event :: slots =>
    if lanes.free serialWaiting kind then
      .pending kind event :: admitFrom (lanes.take kind) serialWaiting window slots
    else .waiting kind event :: admitFrom lanes (serialWaiting || decide (kind ≠ .control)) window slots
  | window + 1, slot :: slots => slot :: admitFrom lanes serialWaiting window slots

/-- Starts the waiting commands among the oldest `window` whose lane is free. -/
def admitWaiting (slots : List (Slot ε)) (window : Nat) : List (Slot ε) := admitFrom (.of slots) false window slots

end Admit

/-! ### The outbox -/

/-- Why an operation on the channel failed; `writeZero` is a writer that accepts nothing. -/
inductive IoError
  | os (e : Errno)
  | writeZero
  deriving DecidableEq, Repr

/-- The writer's answer to a `poll_write` that is ready. -/
inductive WriteAnswer
  | accepted (n : Nat)
  | failed (e : Errno)
  deriving DecidableEq, Repr

/-- What the writer answers to one poll of `drain`: the writes that are ready, and then the flush, if it is reached.
After the last of them the writer is not ready. -/
structure WriterAnswers where
  writes : List WriteAnswer
  flush : Option (Except Errno Unit)

/-- The replies the host has not accepted yet. -/
structure Outbox where
  replies : List Bytes
  written : Nat
  pending : Nat
  deriving DecidableEq, Repr

/-- How a poll of `drain` ends; `panicked` is an index or a counter out of range. -/
inductive DrainPoll
  | ready (r : Except IoError Unit)
  | pending
  | panicked

namespace Outbox

def new : Outbox := ⟨[], 0, 0⟩

def isEmpty (o : Outbox) : Bool := o.replies.isEmpty

def count (o : Outbox) : Nat := o.replies.length

def push (o : Outbox) (reply : Bytes) : Outbox :=
  { o with replies := o.replies ++ [reply], pending := o.pending + reply.length }

def abandon (_ : Outbox) : Outbox := ⟨[], 0, 0⟩

/-- The bytes of the outbox that the host has not accepted. -/
def unsent (o : Outbox) : Bytes := o.replies.flatten.drop o.written

/-- The host takes `n` bytes more of the reply `front`, which is released once all of it is taken. -/
def accept (o : Outbox) (front : Bytes) (rest : List Bytes) (n : Nat) : Outbox :=
  if o.written + n = front.length then ⟨rest, 0, o.pending - n⟩ else ⟨o.replies, o.written + n, o.pending - n⟩

def flushed : Option (Except Errno Unit) → DrainPoll
  | some (.ok _) => .ready (.ok ())
  | some (.error e) => .ready (.error (.os e))
  | none => .pending

/-- One poll of `drain`, with the bytes that the host accepted in it.  A writer accepts no more than it is offered;
`none` stands for one that does not. -/
def drain (flush : Option (Except Errno Unit)) : List WriteAnswer → Outbox → Option (Outbox × Bytes × DrainPoll)
  | [], o =>
    match o.replies with
    | [] => some (o, [], flushed flush)
    | front :: _ => if front.length < o.written then some (o, [], .panicked) else some (o, [], .pending)
  | ans :: writes, o =>
    match o.replies with
    | [] => some (o, [], flushed flush)
    | front :: rest =>
      if front.length < o.written then some (o, [], .panicked)
      else
        match ans with
        | .failed e => some (o, [], .ready (.error (.os e)))
        | .accepted n =>
          if (front.drop o.written).length < n then none
          else if n = 0 then some (o, [], .ready (.error .writeZero))
          else if o.pending < n then some (o, [], .panicked)
          else
            (drain flush writes (o.accept front rest n)).map fun x =>
              (x.1, (front.drop o.written).take n ++ x.2.1, x.2.2)

end Outbox

/-! ### The session -/

/-- Why a session ended. -/
inductive SessionEnd
  | cancelled
  | eof
  | readError (e : Errno)
  | writeError (e : IoError)
  deriving DecidableEq, Repr

/-- Where the loop stands: at its top, at the check of an accepted stop, at the admission, in the `select!` with the
conditions of its branches, or past its end. -/
inductive SessionPc
  | top
  | stop
  | admission
  | select (running canWrite canRead : Bool)
  | ended (reason : SessionEnd)
  | panicked
  deriving DecidableEq, Repr

/-- The start of a command: its request number, and the session at that moment (how many commands had left the queue,
the queue and the outbox). -/
structure Start (ε : Type) where
  request : Nat
  departed : Nat
  queue : List (Slot ε)
  outbox : Outbox

/-- `decoded` lists the commands in request order, `lastRead` counts those of the latest read, `departed` lists the
replies of the commands that left the queue, `starts` the starts (the latest first), and `accepted` the bytes that the
host took. -/
structure History (ε : Type) where
  decoded : List (Kind × ε)
  lastRead : Nat
  departed : List (Option Bytes)
  starts : List (Start ε)
  accepted : Bytes

structure Session (ε : Type) where
  slots : List (Slot ε)
  outbox : Outbox
  inputEnd : Option SessionEnd
  writeFailed : Bool
  draining : Bool
  cancelLive : Bool
  received : Nat
  pc : SessionPc
  history : History ε

/-- What a read that is ready brings; `n` bytes complete the frames of `events`. -/
inductive ReadAnswer (ε : Type)
  | eof
  | bytes (n : Nat) (events : List ε)
  | failed (e : Errno)

/-- `cancel.changed()` is ready: whether the sender is alive, and the answers to `stop_now` after it. -/
structure Changed where
  live : Bool
  cancel : Bool
  mayStop : Bool

/-- The answers to one poll of the `select!`: `replies` gives the running commands that finish, by request number. -/
structure Poll (ε : Type) where
  changed : Option Changed
  replies : Nat → Option (Option Bytes)
  writer : WriterAnswers
  read : Option (ReadAnswer ε)

/-- The next step of the loop with the answers it asks for. -/
inductive Turn (ε : Type)
  | top (cancel mayStop : Bool)
  | stop (mayStop : Bool) (writer : WriterAnswers)
  | admission
  | select (p : Poll ε)

namespace Session

variable {ε : Type}

def start : Session ε where
  slots := []
  outbox := .new
  inputEnd := none
  writeFailed := false
  draining := false
  cancelLive := true
  received := 0
  pc := .top
  history := ⟨[], 0, [], [], []⟩

/-- A command is running. -/
def running (s : Session ε) : Bool := s.slots.any Slot.isPending

/-- A finished command leaves the front of the queue; its reply goes to the outbox unless the writer failed. -/
def depart (s : Session ε) (reply : Option Bytes) (slots : List (Slot ε)) : Session ε :=
  { s with slots := slots
           outbox := match reply with
             | some bytes => if s.writeFailed then s.outbox else s.outbox.push bytes
             | none => s.outbox
           history := { s.history with departed := s.history.departed ++ [reply] } }

/-- The `while` loop at the top, over the queue `slots`. -/
def collect (s : Session ε) : List (Slot ε) → Session ε
  | .done reply :: slots => (s.depart reply slots).collect slots
  | _ => s

/-- The top of the loop, up to the first check for a stop. -/
def top (s : Session ε) (cancel mayStop : Bool) : Session ε :=
  let s := s.collect s.slots
  { s with draining := s.draining || (!s.running && cancel && mayStop), pc := .stop }

/-- Polls `drain` and records what the host accepts. -/
def drain (s : Session ε) (w : WriterAnswers) : Option (Session ε × DrainPoll) :=
  (s.outbox.drain w.flush w.writes).map fun x =>
    ({ s with outbox := x.1, history := { s.history with accepted := s.history.accepted ++ x.2.1 } }, x.2.2)

/-- An accepted stop: the session ends once nothing is running and the stop may take effect, with one last poll of the
writer; a stop that may not take effect any more is withdrawn. -/
def stop (s : Session ε) (mayStop : Bool) (w : WriterAnswers) : Option (Session ε) :=
  if s.draining && !s.running then
    if mayStop then
      if !s.outbox.isEmpty && !s.writeFailed then
        (s.drain w).map fun x =>
          match x.2 with
          | .panicked => { x.1 with pc := .panicked }
          | _ => { x.1 with pc := .ended .cancelled }
      else some { s with pc := .ended .cancelled }
    else some { s with draining := false, pc := .admission }
  else some { s with pc := .admission }

/-- The starts of an admission, the latest first.  Those before the slot `i` have happened when the scan reaches it. -/
def startsOf (s : Session ε) (window : Nat) : List (Start ε) :=
  ((List.range window).filter fun i =>
    s.slots[i]?.any Slot.isWaiting && (admitWaiting s.slots window)[i]?.any Slot.isPending).reverse.map fun i =>
      ⟨s.history.departed.length + i, s.history.departed.length, admitWaiting s.slots i, s.outbox⟩

/-- `admit`, unless the session is draining or the outbox is full. -/
def admits (s : Session ε) : Session ε :=
  let window := maxQueued - s.outbox.count
  if !s.draining && decide (s.outbox.pending < maxReplyBytes) then
    { s with slots := admitWaiting s.slots window
             history := { s.history with starts := s.startsOf window ++ s.history.starts } }
  else s

def canRead (s : Session ε) : Bool :=
  s.inputEnd.isNone && !s.draining && decide (s.slots.length + s.outbox.count < maxQueued) &&
    decide (s.outbox.pending + (s.slots.map Slot.finishedBytes).sum < maxReplyBytes)

def canWrite (s : Session ε) : Bool := !s.outbox.isEmpty && !s.writeFailed

/-- The input has ended and everything received is finished and delivered, or cannot be delivered. -/
def finished (s : Session ε) : Bool :=
  !s.running && s.slots.isEmpty && (s.outbox.isEmpty || s.writeFailed)

/-- The admission, the check for the end of the session, and the conditions of the branches of the `select!`. -/
def admission (s : Session ε) : Session ε :=
  let s := s.admits
  match s.finished, s.inputEnd with
  | true, some reason => { s with inputEnd := none, pc := .ended reason }
  | _, _ => { s with pc := .select s.running s.canWrite s.canRead }

/-- The branch of `cancel.changed()`. -/
def changed (s : Session ε) (ch : Changed) : Session ε :=
  { s with cancelLive := ch.live, draining := s.draining || (ch.cancel && ch.mayStop), pc := .top }

/-- A poll of the running commands, the first of which has the request number `first`. -/
def driveFrom (replies : Nat → Option (Option Bytes)) (first : Nat) : List (Slot ε) → List (Slot ε)
  | [] => []
  | .pending kind event :: slots =>
    (match replies first with | some reply => .done reply | none => .pending kind event) ::
      driveFrom replies (first + 1) slots
  | slot :: slots => slot :: driveFrom replies (first + 1) slots

/-- `drive_any`: every running command is polled. -/
def driveAny (s : Session ε) (replies : Nat → Option (Option Bytes)) : Session ε :=
  { s with slots := driveFrom replies s.history.departed.length s.slots }

/-- A running command finishes in this poll. -/
def finishesFrom (replies : Nat → Option (Option Bytes)) (first : Nat) : List (Slot ε) → Bool
  | [] => false
  | slot :: slots => (slot.isPending && (replies first).isSome) || finishesFrom replies (first + 1) slots

/-- The branch of a drain that ended with `r`. -/
def drained (s : Session ε) : Except IoError Unit → Session ε
  | .ok _ => { s with pc := .top }
  | .error err =>
    { s with writeFailed := true, outbox := s.outbox.abandon, inputEnd := s.inputEnd <|> some (.writeError err), pc := .top }

/-- The branch of the reader. -/
def read (classify : ε → Kind) (s : Session ε) : ReadAnswer ε → Session ε
  | .eof => { s with inputEnd := some .eof, pc := .top }
  | .bytes n events =>
    let commands := events.map fun event => (classify event, event)
    { s with received := s.received + n
             slots := s.slots ++ commands.map fun x => .waiting x.1 x.2
             history := { s.history with decoded := s.history.decoded ++ commands, lastRead := commands.length }
             pc := .top }
  | .failed e => { s with inputEnd := some (.readError e), pc := .top }

/-- The last branch, and the `else` branch when every branch is disabled. -/
def selectRead (classify : ε → Kind) (s : Session ε) (canRead disabled : Bool) (r : Option (ReadAnswer ε)) : Session ε :=
  match canRead, r with
  | true, some ans => s.read classify ans
  | _, _ => if disabled then { s with inputEnd := none, pc := .ended (s.inputEnd.getD .eof) } else s

/-- One poll of the `select!`, whose branches are tried in order. -/
def select (classify : ε → Kind) (s : Session ε) (running canWrite canRead : Bool) (p : Poll ε) : Option (Session ε) :=
  match s.cancelLive, p.changed with
  | true, some ch => some (s.changed ch)
  | _, _ =>
    if running && finishesFrom p.replies s.history.departed.length s.slots then
      some { s.driveAny p.replies with pc := .top }
    else if canWrite then
      (s.drain p.writer).map fun x =>
        match x.2 with
        | .panicked => { x.1 with pc := .panicked }
        | .ready r => x.1.drained r
        | .pending => x.1.selectRead classify canRead false p.read
    else some (s.selectRead classify canRead (!s.cancelLive && !running && !canRead) p.read)

/-- One step of `run_session_until`. -/
def step (classify : ε → Kind) (s : Session ε) (turn : Turn ε) : Option (Session ε) :=
  match s.pc, turn with
  | .top, .top cancel mayStop => some (s.top cancel mayStop)
  | .stop, .stop mayStop w => s.stop mayStop w
  | .admission, .admission => some s.admission
  | .select running canWrite canRead, .select p => s.select classify running canWrite canRead p
  | _, _ => none

end Session

end Qeminga
