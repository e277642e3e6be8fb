import Qeminga.Agent
import Qeminga.Dispatch

/-!
# The daemon

`serve_until_signal` (`daemon.rs`) with the loop of `serve_inner` (`channel.rs`): one session after another, the
handlers of the commands that a session runs, and the stopper, beside the tasks of the agent.  The freeze, the thaw and
the status command reach the agent only through their handlers; everything else of the agent (the driver of a freeze,
the drain of a thaw, the watchdog, the start-up) goes on whatever the session does.  The handler of any other command
reads and changes nothing of the agent past its gates, so that only its return is a step.
-/

namespace Qeminga

/-! ### Handlers -/

/-- Where `Dispatcher::handle` stands; `passed` is history as far as it says how long the log was at the gates. -/
inductive Handler
  | fresh
  | passed (since : Nat)
  | freezing (op : TaskId)
  | thawing (task : TaskId)
  | status (task : TaskId)
  | finished (reply : Option Bytes)
  deriving DecidableEq, Repr

/-- The handler has passed the gates and has not returned. -/
def Handler.active : Handler → Bool
  | .fresh => false
  | .finished _ => false
  | _ => true

/-- The next step of a handler: the gates, with the answer of the rate limiter; the command; the return of a handler that
waits for its task.  `reply` is what the handler returns with, if it does. -/
inductive HandlerStep
  | gates (limited : Bool) (reply : Option Bytes)
  | run (reply : Option Bytes)
  | finish (reply : Option Bytes)

/-! ### The loop around the sessions -/

/-- Where `serve_inner` stands, and past its return the last wait of `serve_until_signal`; `lost` says that the channel
could not be opened for good. -/
inductive ServePc
  | top
  | pause
  | opening
  | refused
  | sleeping
  | session (s : Session DecodeEvent)
  | returned (lost : Bool)
  | exited (lost : Bool)

/-- The answers the loop asks for. -/
inductive ServeAnswer
  | check
  | slept
  | changed (live : Bool)
  | registered (ok : Bool)
  | opened
  | terminal
  | cancelled (gone : Bool)
  | closed

/-- The answers to the next step of the session, without those that the daemon gives itself. -/
inductive SessionAnswer
  | top
  | stop (writer : WriterAnswers)
  | admission
  | select (changed : Option Bool) (writer : WriterAnswers) (read : Option (ReadAnswer DecodeEvent))

/-- Where the stopper stands: before the signal, in `wait_until_thawed`, at its request, in its sleep. -/
inductive StopperPc
  | signal | waiting | sending | sleeping
  deriving DecidableEq, Repr

structure Daemon where
  agent : Agent
  pc : ServePc
  handlers : Nat → Handler
  cancel : Bool
  stopper : StopperPc
  initial : Bool
  reopened : Bool
  cancelLive : Bool

inductive DaemonAction
  | background (act : Action)
  | handler (n : Nat) (st : HandlerStep)
  | session (ans : SessionAnswer)
  | serve (ans : ServeAnswer)
  | signal
  | stopper
  | crash (initial : Bool)

/-- The steps of the agent that need no request. -/
def Action.isBackground : Action → Bool
  | .task _ _ => true
  | .tick _ => true
  | .foreignFreeze _ => true
  | .foreignThaw _ => true
  | _ => false

/-- The command in the slot of the request `n`. -/
def Session.slotOf {ε : Type} (s : Session ε) (n : Nat) : Option (Slot ε) :=
  if n < s.history.departed.length then none else s.slots[n - s.history.departed.length]?

namespace Daemon

/-- A start of the process, with the descriptor that `main` opened or without one. -/
def start (a : Agent) (initial : Bool) : Daemon where
  agent := a
  pc := .top
  handlers := fun _ => .fresh
  cancel := false
  stopper := .signal
  initial := initial
  reopened := false
  cancelLive := true

/-- `may_stop` of the dispatcher. -/
def mayStop (d : Daemon) : Bool := decide (d.agent.ctx.state = .thawed)

def withHandler (d : Daemon) (n : Nat) (h : Handler) : Daemon := { d with handlers := Function.update d.handlers n h }

/-! ### The handlers -/

/-- `run_freeze` up to its wait for the reply. -/
def runFreeze (cfg : Config) (d : Daemon) (n : Nat) (restrict : Option (List Path)) (reply : Option Bytes) : Daemon :=
  match d.agent.ctx.state.beginFreeze with
  | .error _ => d.withHandler n (.finished reply)
  | .ok _ => { d with agent := d.agent.freeze cfg restrict }.withHandler n (.freezing d.agent.next)

/-- `run_handler`; the commands that are not modelled return here. -/
def runHandler (cfg : Config) (d : Daemon) (n : Nat) (req : Request) (reply : Option Bytes) : Daemon :=
  if req.method = "guest-fsfreeze-freeze" then
    if req.arguments.noArgs then d.runFreeze cfg n none reply else d.withHandler n (.finished reply)
  else if req.method = "guest-fsfreeze-freeze-list" then
    match req.arguments.freezeList with
    | some names => d.runFreeze cfg n names reply
    | none => d.withHandler n (.finished reply)
  else if req.method = "guest-fsfreeze-thaw" then
    if req.arguments.noArgs then
      { d with agent := d.agent.spawn d.agent.ctx (.thaw false .claim) }.withHandler n (.thawing d.agent.next)
    else d.withHandler n (.finished reply)
  else if req.method = "guest-fsfreeze-status" then
    if req.arguments.noArgs then
      { d with agent := d.agent.spawn d.agent.ctx (.status .read) }.withHandler n (.status d.agent.next)
    else d.withHandler n (.finished reply)
  else d.withHandler n (.finished reply)

/-- What the handler waits for has ended. -/
def awaited (a : Agent) : Handler → Bool
  | .freezing op => a.ctx.log.any fun e => match e with | .replied i _ => i = op | _ => false
  | .thawing i => match a.tasks i with | some (.thaw _ .finished) => true | _ => false
  | .status i => match a.tasks i with | some (.status .answered) => true | _ => false
  | _ => false

/-- One step of `Dispatcher::handle` on `event`, the request `n`. -/
def handle (cfg : Config) (f : Features) (d : Daemon) (n : Nat) (event : DecodeEvent) : HandlerStep → Option Daemon
  | .gates limited reply =>
    match d.handlers n, event with
    | .fresh, .frame (some req) =>
      match gates f d.agent.ctx.state limited req with
      | .ok _ => some (d.withHandler n (.passed d.agent.ctx.log.length))
      | .error _ => some (d.withHandler n (.finished reply))
    | .fresh, _ => some (d.withHandler n (.finished reply))
    | _, _ => none
  | .run reply =>
    match d.handlers n, event with
    | .passed _, .frame (some req) => some (d.runHandler cfg n req reply)
    | _, _ => none
  | .finish reply => if awaited d.agent (d.handlers n) then some (d.withHandler n (.finished reply)) else none

/-! ### The session -/

/-- The replies of the handlers that have returned. -/
def replies (d : Daemon) (n : Nat) : Option (Option Bytes) :=
  match d.handlers n with
  | .finished reply => some reply
  | _ => none

/-- The step of the session, with the answers of the dispatcher and of the stop channel. -/
def turn (d : Daemon) : SessionAnswer → Turn DecodeEvent
  | .top => .top d.cancel d.mayStop
  | .stop w => .stop d.mayStop w
  | .admission => .admission
  | .select changed w r => .select ⟨changed.map fun live => ⟨live, d.cancel, d.mayStop⟩, d.replies, w, r⟩

/-! ### The loop -/

/-- A new session, with a fresh handler for every request. -/
def opens (d : Daemon) : Daemon :=
  { d with initial := false, handlers := fun _ => .fresh, pc := .session .start }

/-- `stop_now`, with where the loop goes on. -/
def stopNow (d : Daemon) (pc : ServePc) : Daemon := if d.cancel && d.mayStop then { d with pc := .returned false } else { d with pc := pc }

def serve (d : Daemon) (ans : ServeAnswer) : Option Daemon :=
  match d.pc, ans with
  | .top, .check => some (d.stopNow (if d.reopened then .pause else .opening))
  | .pause, .slept => some { d with pc := .opening }
  | .pause, .changed live => if d.cancelLive then some ({ d with cancelLive := live }.stopNow .opening) else none
  | .opening, .registered ok =>
    if d.initial then some (if ok then d.opens else { d with initial := false, pc := .top }) else none
  | .opening, .opened => if d.initial then none else some d.opens
  | .opening, .terminal => if d.initial then none else some { d with pc := .returned true }
  -- `open_with_retry` gives up on a stop, or when the stopper is gone
  | .opening, .cancelled gone => if !d.initial && (gone || d.cancel) then some { d with pc := .refused } else none
  | .refused, .check => some (if d.mayStop then { d with pc := .returned false } else { d with pc := .sleeping })
  | .sleeping, .slept => some { d with pc := .top }
  | .session s, .closed =>
    match s.pc with
    | .ended .cancelled => some { d with pc := .returned false }
    | .ended _ => some { d with reopened := true, pc := .top }
    | _ => none
  | .returned lost, .check => if d.mayStop then some { d with pc := .exited lost } else none
  | _, _ => none

/-- The loop has not returned, so that the stopper is still polled. -/
def serving (d : Daemon) : Bool :=
  match d.pc with
  | .returned _ => false
  | .exited _ => false
  | _ => true

def stop (d : Daemon) : Option Daemon :=
  match d.stopper with
  | .signal => none
  | .waiting => if d.mayStop then some { d with stopper := .sending } else none
  | .sending => some { d with cancel := true, stopper := .sleeping }
  | .sleeping => some { d with stopper := .waiting }

def step (cfg : Config) (f : Features) (d : Daemon) : DaemonAction → Option Daemon
  | .background act =>
    if act.isBackground then (Agent.step cfg d.agent act).map fun a => { d with agent := a } else none
  | .handler n st =>
    match d.pc with
    | .session s =>
      match s.slotOf n with
      | some (.pending _ event) => d.handle cfg f n event st
      | _ => none
    | _ => none
  | .session ans =>
    match d.pc with
    | .session s => (s.step classify (d.turn ans)).map fun s => { d with pc := .session s }
    | _ => none
  | .serve ans => d.serve ans
  | .signal => if d.serving && d.stopper = .signal then some { d with stopper := .waiting } else none
  | .stopper => if d.serving then d.stop else none
  | .crash initial => some (start (Agent.boot d.agent.ctx d.agent.next) initial)

/-- The first start of the process. -/
def Initial (d : Daemon) : Prop := ∃ a initial, Agent.Initial a ∧ d = start a initial

end Daemon

namespace Script

/-- One turn of a session that nobody writes to, with the answers of the stop channel and of the reader. -/
def polls (changed : Option Bool) (read : Option (ReadAnswer DecodeEvent)) : List DaemonAction :=
  [.session .top, .session (.stop ⟨[], none⟩), .session .admission, .session (.select changed ⟨[], none⟩ read)]

/-- A session on the descriptor that `main` opened, up to the start of the commands `events`. -/
def receives (events : List DecodeEvent) : List DaemonAction :=
  [.serve .check, .serve (.registered true)] ++ polls none (some (.bytes 1 events)) ++ polls none none

end Script

end Qeminga
