import Qeminga.Daemon
import Qeminga.Lib.Backoff

/-!
# The pauses of the channel loop

`serve_inner` and `open_with_retry` (`channel.rs`) with their sleeps, on the clock of the agent in seconds, over the loop of
the daemon.  The stop channel is a `watch`: the value stays, and only a value that has not been seen ends a pause.
`paused`, `attempts`, `sends`, `quiet`, `since`, `slept` and `tries` are history.
-/

namespace Qeminga

/-- `INITIAL_BACKOFF` and `MAX_BACKOFF`. -/
def channelBackoff : Backoff := ⟨1, 30⟩

/-- Where `open_with_retry` stands: at its next call of `open`, or asleep after one that failed.  The call began at `since`,
`slept` of its sleeps have ended, and it called `open` at the times `tries`. -/
structure Retry where
  delay : Nat
  wake : Option Nat
  since : Nat
  slept : Nat
  tries : List Nat
  deriving DecidableEq, Repr

/-- The loop with its clock.  `wake` ends the sleep of the loop itself; its last pause began at `paused`.  `quiet` is none
before the end of the first session, 0 after it and after any session that carried data, and one more after any other. -/
structure Reconnect where
  daemon : Daemon
  reopenDelay : Nat
  wake : Nat
  paused : Nat
  retry : Retry
  unseen : Bool
  attempts : List Nat
  sends : Nat
  quiet : Option Nat

/-- A step of the daemon, without those of the loop; a step of the loop; an attempt of `open_with_retry` that fails; the end
of its sleep. -/
inductive ReconnectAction
  | daemon (act : DaemonAction)
  | serve (ans : ServeAnswer)
  | failed
  | again

namespace Reconnect

def now (p : Reconnect) : Nat := p.daemon.agent.ctx.now

def start (d : Daemon) : Reconnect where
  daemon := d
  reopenDelay := 0
  wake := 0
  paused := 0
  retry := ⟨channelBackoff.initial, none, d.agent.ctx.now, 0, []⟩
  unseen := false
  attempts := []
  sends := 0
  quiet := none

/-- The loop goes on at `d`, where a sleep or a call of `open_with_retry` may begin. -/
def enter (p : Reconnect) (d : Daemon) : Reconnect :=
  match d.pc with
  | .pause => { p with daemon := d, wake := p.now + p.reopenDelay, paused := p.now }
  | .opening => { p with daemon := d, retry := ⟨channelBackoff.initial, none, p.now, 0, []⟩ }
  | .sleeping => { p with daemon := d, wake := p.now + channelBackoff.initial }
  | _ => { p with daemon := d }

/-- The last call of `open`. -/
def tried (p : Reconnect) : Reconnect :=
  { p with attempts := p.attempts ++ [p.now], retry := { p.retry with tries := p.retry.tries ++ [p.now] } }

/-- The pause after a session that received `received` bytes. -/
def closed (p : Reconnect) (received : Nat) : Reconnect :=
  if 0 < received then { p with reopenDelay := channelBackoff.initial, quiet := some 0 }
  else
    { p with
      reopenDelay := max channelBackoff.initial (min (p.reopenDelay * 2) channelBackoff.max)
      quiet := some (p.quiet.elim 0 (· + 1)) }

/-- The step `ans` of the loop to `d`, with the answers of the clock and of the stop channel. -/
def serveTo (p : Reconnect) (d : Daemon) (ans : ServeAnswer) : Option Reconnect :=
  match p.daemon.pc, ans with
  | .top, _ => some ({ p with unseen := false }.enter d)
  | .pause, .changed live => if live && !p.unseen then none else some ({ p with unseen := false }.enter d)
  | .pause, _ => if p.wake ≤ p.now then some (p.enter d) else none
  | .opening, .registered _ => some (p.enter d)
  -- the change of the stop channel, or the look at its value after the sleep
  | .opening, .cancelled gone =>
    match p.retry.wake with
    | some wake =>
      if gone || p.unseen then some ({ p with unseen := false }.enter d) else if wake ≤ p.now then some (p.enter d) else none
    | none => none
  | .opening, _ => if p.retry.wake = none then some (p.tried.enter d) else none
  | .sleeping, _ => if p.wake ≤ p.now then some (p.enter d) else none
  | .session s, _ => some ((if s.pc = .ended .cancelled then p else p.closed s.received).enter d)
  | _, _ => some (p.enter d)

def serve (p : Reconnect) (ans : ServeAnswer) : Option Reconnect := (p.daemon.serve ans).bind fun d => p.serveTo d ans

/-- `open_with_retry` is what the loop does: there is no descriptor left that `main` opened. -/
def retries (p : Reconnect) : Bool :=
  match p.daemon.pc with
  | .opening => !p.daemon.initial
  | _ => false

def failed (p : Reconnect) : Option Reconnect :=
  if p.retries && decide (p.retry.wake = none) then
    some { p with
      attempts := p.attempts ++ [p.now]
      retry := { p.retry with wake := some (p.now + p.retry.delay), tries := p.retry.tries ++ [p.now] } }
  else none

def again (p : Reconnect) : Option Reconnect :=
  match p.retry.wake with
  | some wake =>
    if p.retries && decide (wake ≤ p.now) && !p.daemon.cancel then
      some { p with retry := { p.retry with
        delay := min (p.retry.delay * 2) channelBackoff.max
        wake := none
        slept := p.retry.slept + 1 } }
    else none
  | none => none

/-- The answer of the session's `select!` that the stop channel has changed needs a value that was not seen. -/
def hears (p : Reconnect) : SessionAnswer → Bool
  | .select (some true) _ _ => p.unseen
  | _ => true

/-- The session looks at the value of the stop channel. -/
def looks (s : Session DecodeEvent) : SessionAnswer → Bool
  | .top => !s.draining && !s.running
  | .select (some _) _ _ => s.cancelLive
  | _ => false

/-- What a step of the daemon to `d` does to the stop channel. -/
def daemonTo (p : Reconnect) (d : Daemon) : DaemonAction → Option Reconnect
  | .serve _ => none
  | .crash _ => some (start d)
  | .session ans =>
    match p.daemon.pc with
    | .session s => if p.hears ans then some { p with daemon := d, unseen := p.unseen && !looks s ans } else none
    | _ => none
  | .stopper =>
    if p.daemon.stopper = .sending then some { p with daemon := d, unseen := true, sends := p.sends + 1 }
    else some { p with daemon := d }
  | _ => some { p with daemon := d }

def step (cfg : Config) (f : Features) (p : Reconnect) : ReconnectAction → Option Reconnect
  | .daemon act => (Daemon.step cfg f p.daemon act).bind fun d => p.daemonTo d act
  | .serve ans => p.serve ans
  | .failed => p.failed
  | .again => p.again

/-- The first start of the process. -/
def Initial (p : Reconnect) : Prop := ∃ d, Daemon.Initial d ∧ p = start d

end Reconnect

end Qeminga
