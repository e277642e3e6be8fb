import Qeminga.Configuration
import Qeminga.Dispatcher

/-!
# The rate limiter

`RateLimiter` (`dispatch/ratelimit.rs`) over any token bucket, and the dispatcher with its limiter over a stream of events.
No step of the gates suspends, so that the limiter answers the events one after another.
-/

namespace Qeminga

namespace Dispatcher

open Configuration (RateLimits)

/-- A direct limiter: a new one for a quota per minute, and its check at an instant. -/
structure Bucket (σ : Type) where
  perMinute : Nat → σ
  check : σ → Nat → Bool × σ

def CommandClass.quota (limits : RateLimits) : CommandClass → Option Nat
  | .pingSync => some limits.pingSyncPerMin
  | .get => some limits.getCommandsPerMin
  | .fsfreezeFreeze => some limits.fsfreezeFreezePerMin
  | .unlimited => none
  | .fstrim => some limits.fstrimPerMin
  | .shutdown => some limits.shutdownPerMin

structure RateLimiter (σ : Type) where
  pingSync : σ
  get : σ
  fsfreezeFreeze : σ
  fstrim : σ
  shutdown : σ

namespace RateLimiter

variable {σ : Type} (b : Bucket σ)

/-- A quota of zero is one of one. -/
def withClock (limits : RateLimits) : RateLimiter σ where
  pingSync := b.perMinute (max limits.pingSyncPerMin 1)
  get := b.perMinute (max limits.getCommandsPerMin 1)
  fsfreezeFreeze := b.perMinute (max limits.fsfreezeFreezePerMin 1)
  fstrim := b.perMinute (max limits.fstrimPerMin 1)
  shutdown := b.perMinute (max limits.shutdownPerMin 1)

def check (r : RateLimiter σ) (now : Nat) : CommandClass → Bool × RateLimiter σ
  | .pingSync => ((b.check r.pingSync now).1, { r with pingSync := (b.check r.pingSync now).2 })
  | .get => ((b.check r.get now).1, { r with get := (b.check r.get now).2 })
  | .fsfreezeFreeze => ((b.check r.fsfreezeFreeze now).1, { r with fsfreezeFreeze := (b.check r.fsfreezeFreeze now).2 })
  | .fstrim => ((b.check r.fstrim now).1, { r with fstrim := (b.check r.fstrim now).2 })
  | .shutdown => ((b.check r.shutdown now).1, { r with shutdown := (b.check r.shutdown now).2 })
  | .unlimited => (true, r)

end RateLimiter

namespace Call

variable {σ : Type} (b : Bucket σ) (call : Call)

/-- `gates` with the limiter, which the first two gates do not reach. -/
def gatesWith (r : RateLimiter σ) (now : Nat) (req : Proto.Request) : Except (Denial × Proto.Error) Unit × RateLimiter σ :=
  if !isAllowlisted req.method then (.error (.commandNotFound, .commandNotFound req.method), r)
  else
    match call.runtimeFeatureGate req.method with
    | .error err => (.error (.disabled, err), r)
    | .ok () =>
      let commandClass := (CommandClass.of req.method).getD .shutdown
      let x := r.check b now commandClass
      if !x.1 then (.error (.rateLimited, .rateLimited commandClass.name), x.2)
      else if call.stateAtGate.isFrozenForGate && !isFrozenSafe req.method then (.error (.frozen, .frozen), x.2)
      else (.ok (), x.2)

/-- What the limiter is after an event. -/
def after (r : RateLimiter σ) (now : Nat) : Framing.DecodeEvent → RateLimiter σ
  | .oversized _ => r
  | .frame bytes _ =>
    match Proto.parseRequest call.serde bytes with
    | .error _ => r
    | .ok req => (call.gatesWith b r now req).2

/-- The call with the answers that the limiter has for it. -/
def limitedBy (r : RateLimiter σ) (now : Nat) : Call := { call with admits := fun c => (r.check b now c).1 }

end Call

/-- An event with its instant, and what its call finds beside the limiter. -/
structure Arrival where
  now : Nat
  call : Call
  event : Framing.DecodeEvent

/-- The dispatcher over a stream of events. -/
def dispatchAll {σ : Type} (b : Bucket σ) : List Arrival → RateLimiter σ → Log → RateLimiter σ × Log
  | [], r, log => (r, log)
  | x :: xs, r, log => dispatchAll b xs (x.call.after b r x.now x.event) ((x.call.limitedBy b r x.now).handle x.event log).2

end Dispatcher

end Qeminga
