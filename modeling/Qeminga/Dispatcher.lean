import Qeminga.Dispatch
import Qeminga.Proto

/-!
# A frame at the dispatcher

`Dispatcher::handle` on one decoder event, from its bytes to those of the reply, with the audit records it emits and the
handlers it runs.  What the handlers return, what the buckets of the rate limiter answer and the digest of a long method
name are parameters; so are the two readings of the freeze state, since other tasks may change it between them.
-/

namespace Qeminga

namespace Dispatcher

open Proto (Json Response Serde)

/-! ### Commands -/

inductive CommandClass
  | pingSync | get | fsfreezeFreeze | unlimited | fstrim | shutdown
  deriving DecidableEq, Repr

def CommandClass.of (method : String) : Option CommandClass :=
  if method ∈ ["guest-ping", "guest-sync", "guest-sync-delimited", "guest-info"] then some .pingSync
  else if method ∈ ["guest-get-osinfo", "guest-get-fsinfo", "guest-network-get-interfaces"] then some .get
  else if method ∈ ["guest-fsfreeze-freeze", "guest-fsfreeze-freeze-list"] then some .fsfreezeFreeze
  else if method ∈ ["guest-fsfreeze-status", "guest-fsfreeze-thaw"] then some .unlimited
  else if method = "guest-fstrim" then some .fstrim
  else if method ∈ ["guest-shutdown", "guest-suspend-ram"] then some .shutdown
  else none

def CommandClass.name : CommandClass → String
  | .pingSync => "ping_sync"
  | .get => "get_commands"
  | .fsfreezeFreeze => "fsfreeze_freeze"
  | .unlimited => "unlimited"
  | .fstrim => "fstrim"
  | .shutdown => "shutdown"

structure CommandSpec where
  name : String
  successResponse : Bool
  deriving DecidableEq, Repr

def supportedCommands : List CommandSpec :=
  [⟨"guest-ping", true⟩, ⟨"guest-info", true⟩, ⟨"guest-sync", true⟩, ⟨"guest-sync-delimited", true⟩,
    ⟨"guest-get-osinfo", true⟩, ⟨"guest-network-get-interfaces", true⟩, ⟨"guest-get-fsinfo", true⟩,
    ⟨"guest-fsfreeze-status", true⟩, ⟨"guest-fsfreeze-freeze", true⟩, ⟨"guest-fsfreeze-freeze-list", true⟩,
    ⟨"guest-fsfreeze-thaw", true⟩, ⟨"guest-fstrim", true⟩, ⟨"guest-shutdown", false⟩, ⟨"guest-suspend-ram", false⟩]

def spec (name : String) : Option CommandSpec := supportedCommands.find? fun spec => spec.name = name

/-- The handlers of `run_handler`. -/
inductive Handler
  | ping | info | sync | syncDelimited | osinfo | interfaces | fsinfo | fsfreezeStatus | fsfreezeFreeze
  | fsfreezeFreezeList | fsfreezeThaw | fstrim | shutdown | suspend
  deriving DecidableEq, Repr

/-! ### Audit records -/

def maxMethodBytes : Nat := 64

inductive MethodField
  | full (method : String)
  | projected (methodPrefix : String) (methodLenBytes : Nat) (methodDigest : String)
  deriving DecidableEq, Repr

/-- The longest beginning of at most `n` bytes that ends at a character boundary. -/
def boundedPrefix : Nat → List Char → List Char
  | _, [] => []
  | n, c :: cs => if c.utf8Size ≤ n then c :: boundedPrefix (n - c.utf8Size) cs else []

/-- `digest` is the hexadecimal SHA-256 of the method. -/
def projectMethod (digest : String → String) (method : String) : MethodField :=
  if method.utf8ByteSize ≤ maxMethodBytes then .full method
  else .projected (String.ofList (boundedPrefix maxMethodBytes method.toList)) method.utf8ByteSize (digest method)

inductive Disposition
  | allowed | denied
  deriving DecidableEq, Repr

/-- `reason`. -/
inductive Reason
  | oversizedFrame | parseError
  | gate (denial : Denial)
  deriving DecidableEq, Repr

structure AuditRecord where
  method : MethodField
  id : Option Int
  disposition : Disposition
  reason : Option Reason
  freezeStateBefore : FreezeState
  deriving DecidableEq, Repr

/-! ### The dispatcher -/

/-- What one call of `handle` finds: the configuration, the build, the rate limiter, the freeze state when the event
arrives and when its gate reads it, and what the handlers return. -/
structure Call where
  serde : Serde
  digest : String → String
  features : Features
  suspendCompiled : Bool
  admits : CommandClass → Bool
  stateBefore : FreezeState
  stateAtGate : FreezeState
  handlers : Handler → Proto.Request → Except Proto.Error Json

/-- What a call has done so far. -/
structure Log where
  records : List AuditRecord
  ran : List Handler
  handlerCalls : Nat

def Log.empty : Log := ⟨[], [], 0⟩

abbrev DispatchM := StateM Log

namespace Call

variable (call : Call)

def emit (record : AuditRecord) : DispatchM Unit := modify fun log => { log with records := log.records ++ [record] }

/-- Runs a handler. -/
def runs (handler : Handler) (req : Proto.Request) : DispatchM (Except Proto.Error Json) := do
  modify fun log => { log with ran := log.ran ++ [handler] }
  return call.handlers handler req

/-- `Config::suspend_ram_enabled` needs the command compiled in as well. -/
def enabled : Features := { call.features with suspendRam := call.suspendCompiled && call.features.suspendRam }

def runtimeFeatureGate (method : String) : Except Proto.Error Unit :=
  if call.enabled.enabled method then .ok () else .error (.disabled method)

/-- `RateLimiter::check`; the unlimited class has no bucket. -/
def check (commandClass : CommandClass) : Except Proto.Error Unit :=
  if commandClass = .unlimited then .ok ()
  else if call.admits commandClass then .ok ()
  else .error (.rateLimited commandClass.name)

def gates (req : Proto.Request) : Except (Denial × Proto.Error) Unit := do
  if !isAllowlisted req.method then throw (.commandNotFound, .commandNotFound req.method)
  (call.runtimeFeatureGate req.method).mapError fun err => (.disabled, err)
  let commandClass := (CommandClass.of req.method).getD .shutdown
  (call.check commandClass).mapError fun err => (.rateLimited, err)
  if call.stateAtGate.isFrozenForGate && !isFrozenSafe req.method then throw (.frozen, .frozen)

def runHandler (req : Proto.Request) : DispatchM (Except Proto.Error Json) := do
  modify fun log => { log with handlerCalls := log.handlerCalls + 1 }
  if req.method = "guest-ping" then call.runs .ping req
  else if req.method = "guest-info" then call.runs .info req
  else if req.method = "guest-sync" then call.runs .sync req
  else if req.method = "guest-sync-delimited" then call.runs .syncDelimited req
  else if req.method = "guest-get-osinfo" then call.runs .osinfo req
  else if req.method = "guest-network-get-interfaces" then call.runs .interfaces req
  else if req.method = "guest-get-fsinfo" then call.runs .fsinfo req
  else if req.method = "guest-fsfreeze-status" then call.runs .fsfreezeStatus req
  else if req.method = "guest-fsfreeze-freeze" then call.runs .fsfreezeFreeze req
  else if req.method = "guest-fsfreeze-freeze-list" then call.runs .fsfreezeFreezeList req
  else if req.method = "guest-fsfreeze-thaw" then call.runs .fsfreezeThaw req
  else if req.method = "guest-fstrim" then call.runs .fstrim req
  else if req.method = "guest-shutdown" then call.runs .shutdown req
  else if req.method = "guest-suspend-ram" then
    if call.suspendCompiled then call.runs .suspend req else return .error (.disabled req.method)
  else return .error (.commandNotFound req.method)

/-- The record of this call. -/
def record (method : String) (id : Option Int) (disposition : Disposition) (reason : Option Reason) : AuditRecord :=
  ⟨projectMethod call.digest method, id, disposition, reason, call.stateBefore⟩

/-- The gates and, if they let the request pass, its handler, with the record of the decision. -/
def result (req : Proto.Request) : DispatchM (Except Proto.Error Json) :=
  match call.gates req with
  | .ok () => do
    emit (call.record req.method req.id .allowed none)
    call.runHandler req
  | .error (denial, err) => do
    emit (call.record req.method req.id .denied (some (.gate denial)))
    return .error err

def handle : Framing.DecodeEvent → DispatchM (Option Bytes)
  | .oversized _ => do
    emit (call.record "" none .denied (some .oversizedFrame))
    return none
  | .frame bytes _ =>
    match Proto.parseRequest call.serde bytes with
    | .error err => do
      emit (call.record "" none .denied (some .parseError))
      return some (Framing.encode (call.serde.toJson (.error (.of err) none)) false)
    | .ok req => do
      let result ← call.result req
      let suppressSuccess := (spec req.method).any fun s => !s.successResponse
      if result.isOk && suppressSuccess then return none
      let sentinel := req.method = "guest-sync-delimited"
      return some (Framing.encode (call.serde.toJson (.fromResult req.id result)) sentinel)

def classify : Framing.DecodeEvent → Kind
  | .oversized _ => .control
  | .frame bytes _ =>
    match Proto.parseRequest call.serde bytes with
    | .ok req => lane req.method
    | .error _ => .control

end Call

end Dispatcher

end Qeminga
