import Qeminga.State
import Qeminga.Plan
import Qeminga.Session

/-!
# The dispatcher

The gates of `dispatch.rs` in their order, and the lane in which a session runs a command.  A frame is represented by
what `parse_request` reads in it: `classify` and `handle` parse the same bytes.
-/

namespace Qeminga

/-- The arguments of a request, as far as the freeze commands decode them: none, those of
`guest-fsfreeze-freeze-list`, or ones that neither accepts. -/
inductive Arguments
  | none
  | mountpoints (names : Option (List Path))
  | invalid
  deriving DecidableEq, Repr

structure Request where
  method : String
  arguments : Arguments
  id : Option Int
  deriving DecidableEq, Repr

/-- A decoder event; a frame comes with its request, or without one if it cannot be parsed. -/
inductive DecodeEvent
  | frame (request : Option Request)
  | oversized (discarded : Nat)
  deriving DecidableEq, Repr

/-- `NoArgs`. -/
def Arguments.noArgs : Arguments → Bool
  | .none => true
  | _ => false

/-- `FreezeListArgs`. -/
def Arguments.freezeList : Arguments → Option (Option (List Path))
  | .none => some Option.none
  | .mountpoints names => some names
  | .invalid => Option.none

/-! ### The allowlist and the lanes -/

def isAllowlisted (method : String) : Bool :=
  method ∈ ["guest-ping", "guest-info", "guest-sync", "guest-sync-delimited", "guest-get-osinfo",
    "guest-network-get-interfaces", "guest-get-fsinfo", "guest-fsfreeze-status", "guest-fsfreeze-freeze",
    "guest-fsfreeze-freeze-list", "guest-fsfreeze-thaw", "guest-fstrim", "guest-shutdown", "guest-suspend-ram"]

def isFrozenSafe (method : String) : Bool :=
  method ∈ ["guest-fsfreeze-status", "guest-fsfreeze-thaw", "guest-ping", "guest-sync", "guest-sync-delimited", "guest-info"]

def lane (method : String) : Kind :=
  if method = "guest-fsfreeze-thaw" then .thaw
  else if method = "guest-fsfreeze-freeze" ∨ method = "guest-fsfreeze-freeze-list" then .freeze
  else if isFrozenSafe method then .control
  else .ordinary

/-- `Dispatcher::classify`: what is answered without running anything counts as a control. -/
def classify : DecodeEvent → Kind
  | .oversized _ => .control
  | .frame (some req) => lane req.method
  | .frame none => .control

/-! ### The gates -/

/-- The runtime switches of the optional commands. -/
structure Features where
  fstrim : Bool
  suspendRam : Bool
  shutdown : Bool
  information : Bool
  deriving DecidableEq, Repr

def Features.enabled (f : Features) (method : String) : Bool :=
  if method = "guest-fstrim" then f.fstrim
  else if method = "guest-suspend-ram" then f.suspendRam
  else if method = "guest-shutdown" then f.shutdown
  else if method ∈ ["guest-get-osinfo", "guest-network-get-interfaces", "guest-get-fsinfo"] then f.information
  else true

/-- Why the gates deny a command. -/
inductive Denial
  | commandNotFound | disabled | rateLimited | frozen
  deriving DecidableEq, Repr

/-- `Dispatcher::gates`; `limited` is the answer of the rate limiter and `state` what the last gate reads. -/
def gates (f : Features) (state : FreezeState) (limited : Bool) (req : Request) : Except Denial Unit :=
  if !isAllowlisted req.method then .error .commandNotFound
  else if !f.enabled req.method then .error .disabled
  else if limited then .error .rateLimited
  else if state.isFrozenForGate && !isFrozenSafe req.method then .error .frozen
  else .ok ()

/-- A command that is not frozen-safe passes the gates only while the state is `Thawed`. -/
theorem thawed_of_gates {f : Features} {state : FreezeState} {limited : Bool} {req : Request}
    (h : gates f state limited req = .ok ()) (hs : isFrozenSafe req.method = false) : state = .thawed := by
  unfold gates at h
  split at h
  · cases h
  split at h
  · cases h
  split at h
  · cases h
  split at h
  · cases h
  · next hg =>
    cases state <;> simp [hs, FreezeState.isFrozenForGate] at hg ⊢

/-- The ordinary commands are not frozen-safe. -/
theorem not_isFrozenSafe_of_ordinary {method : String} (h : lane method = .ordinary) : isFrozenSafe method = false := by
  unfold lane at h
  split at h
  · cases h
  split at h
  · cases h
  split at h
  · cases h
  · next hs => simpa using hs

end Qeminga
