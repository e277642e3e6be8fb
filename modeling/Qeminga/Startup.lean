import Qeminga.Audit
import Qeminga.Plan
import Qeminga.Seccomp

/-!
# The startup sequence

`run_with` of `daemon.rs` with the steps of `SystemStartup`, from the configuration file to `serve`.  The files, the
kernel and the libraries answer as `System` says.  The state is that of the process: its credentials, its router, the
credentials under which the audit writer was created, its filter, and the steps it has taken, which are history.
-/

namespace Qeminga

namespace Startup

open Configuration (Build ConfigError LogLevel)
open Seccomp (Rule)

/-! ### Errors -/

/-- `Marker::open`. -/
inductive MarkerError
  | invalidPath (path : Path)
  | directory (path : Path) (errno : Errno)
  deriving DecidableEq, Repr

inductive OpenError
  | alreadyOpen (path : Path)
  | notFound (path : Path)
  | io (path : Path) (errno : Errno)
  deriving DecidableEq, Repr

/-- `OpenError::from_io`. -/
def OpenError.of (path : Path) : Errno → OpenError
  | .EBUSY => .alreadyOpen path
  | .ENOENT => .notFound path
  | errno => .io path errno

def OpenError.isTerminal : OpenError → Bool
  | .alreadyOpen _ => true
  | _ => false

inductive PrivilegeError
  | unknownUser (user : String)
  | step (err : Qeminga.PrivilegeError)
  deriving DecidableEq, Repr

inductive RunError
  | config (err : ConfigError)
  | marker (err : MarkerError)
  | statePath (path mount : Path) (dev : Dev)
  | mountTable (reason : String)
  | channel (err : OpenError)
  | privileges (err : PrivilegeError)
  | seccomp (reason : String)
  | hardening (reason : String)
  | runtime (reason : String)
  deriving DecidableEq, Repr

def exUnavailable : Nat := 69

def exOserr : Nat := 71

def exNoperm : Nat := 77

def exConfig : Nat := 78

def RunError.exitCode : RunError → Nat
  | .config _ | .marker _ | .statePath .. | .mountTable _ | .hardening _ => exConfig
  | .channel _ => exUnavailable
  | .privileges _ => exNoperm
  | .seccomp _ | .runtime _ => exOserr

/-- Why `serve` fails: the runtime could not be set up, or the channel is lost for good. -/
inductive ServeError
  | runtime (reason : String)
  | channel (err : OpenError)
  deriving DecidableEq, Repr

def ServeError.toRunError : ServeError → RunError
  | .runtime reason => .runtime reason
  | .channel err => .channel err

/-! ### What the build can enforce -/

structure BuildProfile where
  seccompCompiled : Bool
  seccompMode : String
  fakeKernelRequested : Bool
  deriving DecidableEq, Repr

def seccompMode (build : Build) : String := if build.seccomp then Seccomp.mode build else "unavailable"

def fakeKernelEnv : String := "QEMINGA_TEST_FAKE_KERNEL"

def checkHardening (config : Configuration.Config) (build : BuildProfile) : Except RunError Unit :=
  if !config.agent.hardening.isEnforced then .ok ()
  else if !config.features.seccomp then
    .error (.hardening "the seccomp filter is disabled ([features] seccomp = false)")
  else if !build.seccompCompiled then
    .error (.hardening "this binary was built without the \x60seccomp\x60 Cargo feature")
  else if build.seccompMode ≠ "enforce" then
    .error (.hardening ("this binary's seccomp filter would only " ++ build.seccompMode ++
      " (a \x60seccomp-log\x60 debug build)"))
  else if build.fakeKernelRequested then
    .error (.hardening (fakeKernelEnv ++
      " is set: a test-kernel substitution is never honoured under enforced hardening"))
  else .ok ()

/-! ### The process -/

/-- An opened marker, and what `exists` answers. -/
structure Marker where
  path : Path
  dev : Dev
  present : Bool
  deriving DecidableEq, Repr

/-- A record of the log, with its fields. -/
inductive Record
  | featureWarning (warning : String)
  | startup (config : Path) (recovery : Bool)
  | channelOpenFailed (err : OpenError)
  | channelOpenDeferred (path : Path)
  | authority (authority : Configuration.Authority)
  | privilegeDropSkipped
  | privilegesDropped (user : String)
  | seccompUnavailable (reason : String)
  | seccomp (installed : Bool) (mode : String)
  | seccompLogMode
  | startupFailed (err : RunError)
  deriving DecidableEq, Repr

def Record.level : Record → LogLevel
  | .startup .. | .authority _ | .privilegesDropped _ | .seccomp .. => .info
  | .startupFailed _ => .error
  | _ => .warn

/-- The filter of the subscriber: a record at `level` is written under the configured one. -/
def admits (configured level : LogLevel) : Bool :=
  match configured, level with
  | .trace, _ => true
  | .debug, .trace => false
  | .debug, _ => true
  | .info, .trace | .info, .debug => false
  | .info, _ => true
  | .warn, .warn | .warn, .error => true
  | .warn, _ => false
  | .error, .error => true
  | .error, _ => false

/-- The steps of the sequence in their order, and those of the settlement. -/
inductive Phase
  | loadConfig | buildProfile | openMarker | initLogging | mountTable | openChannel | dropPrivileges | startAuditWriter
  | installSeccomp | serve | flushToNormal | startWriter | settle
  deriving DecidableEq, Repr

/-- What `serve` gets, and the process as it is then. -/
structure Service where
  config : Configuration.Config
  recovery : Bool
  channel : Option Nat
  marker : Marker
  creds : Creds
  router : Option Router
  writer : Option Creds
  filter : Option (List Rule)

inductive Step
  | phase (phase : Phase)
  | record (record : Record)
  | service (service : Service)

structure Process where
  caps : Proc
  level : LogLevel
  router : Option Router
  writer : Option Creds
  filter : Option (List Rule)
  steps : List Step

def Process.start (creds : Creds) : Process := ⟨⟨creds, []⟩, .info, none, none, none, []⟩

def Step.phase? : Step → Option Phase
  | .phase ph => some ph
  | _ => none

/-- The phases of a process, the latest first. -/
def Process.phases (p : Process) : List Phase := p.steps.filterMap Step.phase?

abbrev StartM := ExceptT RunError (StateM Process)

/-- A move of the writer thread. -/
inductive WriterMove
  | take
  | delivered (ok : Bool)
  deriving DecidableEq, Repr

def WriterMove.action : WriterMove → Router.Action
  | .take => .take
  | .delivered ok => .delivered ok

/-- What the process finds.  `writer n` and `spawn n` are the moves of the writer thread before the `n`th step, and why no
thread can be created then; `serving` is what the router goes through while the daemon serves. -/
structure System where
  file : Path → Except String String
  toml : String → Except String Configuration.Config
  build : Build
  target : Seccomp.Target
  fakeKernel : Bool
  openMarker : Path → Except MarkerError Marker
  subscriber : Option String
  mounts : Except String (List MountEntry)
  openDevice : Path → Except Errno Nat
  lookup : String → Except String (Option Account)
  fault : Nat → Option String
  spawn : Nat → Option String
  compile : List Rule → Option String
  install : Creds → Option String
  serve : Option ServeError
  serving : List Router.Action
  writer : Nat → List WriterMove
  render : Nat → Record → Bytes

/-! ### Steps -/

section

variable (sys : System)

def note (step : Step) : StartM Unit := modify fun p => { p with steps := step :: p.steps }

/-- Actions on the router, those that cannot be taken left out. -/
def perform (actions : List Router.Action) (r : Router) : Router := actions.foldl (fun r act => (r.step act).getD r) r

/-- The router when the startup gets its lock. -/
def writerRuns (n : Nat) (r : Router) : Router := perform ((sys.writer n).map WriterMove.action) r

/-- An action of the startup on the router, after the moves of the writer thread. -/
def onRouter (f : Router → Router) : StartM Unit :=
  modify fun p => { p with router := p.router.map fun r => f (writerRuns sys p.steps.length r) }

def log (record : Record) : StartM Unit := do
  note (.record record)
  let p ← get
  onRouter sys fun r => if admits p.level record.level then r.writeRecord (sys.render p.steps.length record) else r

def logIf (c : Bool) (record : Record) : StartM Unit := if c then log sys record else pure ()

/-- `Router::start_writer`, with the error if no thread could be created.  A new thread has the credentials of the one
that creates it. -/
def startWriter : StartM (Option String) := do
  let p ← get
  match p.router with
  | none => return none
  | some r =>
    if r.started then return none
    else
      match sys.spawn p.steps.length with
      | some reason =>
        onRouter sys fun r => r.startWriter false
        return some reason
      | none =>
        onRouter sys fun r => r.startWriter true
        modify fun p => { p with writer := some p.caps.creds }
        return none

def loadConfig (path : Path) : StartM Configuration.Config := do
  note (.phase .loadConfig)
  match sys.file path with
  | .error source => throw (.config (.io path source))
  | .ok text =>
    match Configuration.Config.parse sys.toml text with
    | .error err => throw (.config (err.withPath path))
    | .ok config => return config

def buildProfile : StartM BuildProfile := do
  note (.phase .buildProfile)
  return ⟨sys.build.seccomp, seccompMode sys.build, sys.fakeKernel⟩

def openMarker (path : Path) : StartM Marker := do
  note (.phase .openMarker)
  match sys.openMarker path with
  | .error err => throw (.marker err)
  | .ok marker => return marker

def initLogging (level : LogLevel) (ring : Bool) : StartM Unit := do
  note (.phase .initLogging)
  match sys.subscriber with
  | some reason => throw (.runtime reason)
  | none => modify fun p => { p with router := some (Logging.bootRouter ring), level := level }

def mountTable : StartM (List MountEntry) := do
  note (.phase .mountTable)
  match sys.mounts with
  | .error reason => throw (.mountTable reason)
  | .ok mounts => return mounts

/-- One attempt: an open device ends the startup, any other failure is left to the loop of the runtime. -/
def openChannel (path : Path) : StartM (Option Nat) := do
  note (.phase .openChannel)
  match sys.openDevice path with
  | .ok fd => return some fd
  | .error errno =>
    if (OpenError.of path errno).isTerminal then throw (.channel (.of path errno))
    else
      log sys (.channelOpenFailed (.of path errno))
      return none

inductive Outcome
  | dropped | skippedUnprivileged
  deriving DecidableEq, Repr

def serviceUser : String := "qeminga"

/-- `drop_privileges_to` on the credentials of the process. -/
def dropPrivilegesTo (account : Account) (authority : Authority) : StartM Unit := fun p =>
  match (Caps.dropPrivilegesTo sys.fault account authority).run p.caps with
  | (.ok (), caps) => (.ok (), { p with caps := caps })
  | (.error err, caps) => (.error (.privileges (.step err)), { p with caps := caps })

def dropPrivileges (authority : Authority) : StartM Outcome := do
  note (.phase .dropPrivileges)
  let p ← get
  if p.caps.creds.euid ≠ 0 then
    log sys .privilegeDropSkipped
    return .skippedUnprivileged
  else
    match sys.lookup serviceUser with
    | .error reason => throw (.privileges (.step ⟨"user lookup", some reason⟩))
    | .ok none => throw (.privileges (.unknownUser serviceUser))
    | .ok (some account) =>
      dropPrivilegesTo sys account authority
      return .dropped

def startAuditWriter : StartM Unit := do
  note (.phase .startAuditWriter)
  match ← startWriter sys with
  | some err => throw (.runtime ("cannot start the audit writer: " ++ err))
  | none => return ()

def installSeccomp (config : Configuration.Config) : StartM Bool := do
  note (.phase .installSeccomp)
  if !config.seccompEnabled sys.build then return false
  else
    let rules := Seccomp.rules sys.target (config.authority sys.build)
    match sys.compile rules with
    | some reason => throw (.seccomp reason)
    | none =>
      let p ← get
      match sys.install p.caps.creds with
      | some reason => throw (.seccomp reason)
      | none =>
        modify fun p => { p with filter := some rules }
        return true

def serve (config : Configuration.Config) (recovery : Bool) (channel : Option Nat) (marker : Marker) : StartM Unit := do
  note (.phase .serve)
  let p ← get
  note (.service ⟨config, recovery, channel, marker, p.caps.creds, p.router, p.writer, p.filter⟩)
  modify fun p => { p with router := p.router.map (perform sys.serving) }
  match sys.serve with
  | some err => throw err.toRunError
  | none => return ()

/-! ### The sequence -/

def coversDevice (plan : FreezePlan) (dev : Dev) : Bool := plan.targets.any fun t => t.dev = dev

/-- The drop of `serve_after_logging`: one that did not run is a refusal under enforced hardening. -/
def drop (config : Configuration.Config) (authority : Authority) : StartM Unit := do
  match ← dropPrivileges sys authority with
  | .dropped => log sys (.privilegesDropped serviceUser)
  | .skippedUnprivileged =>
    if config.agent.hardening.isEnforced then
      throw (.hardening "not started as root, so the capability drop did not run")
    else return ()

/-- The seccomp step of `serve_after_logging`: an installer that fails is a refusal under enforced hardening, and a
warning otherwise. -/
def sandbox (config : Configuration.Config) : StartM Bool :=
  tryCatch (installSeccomp sys config) fun
    | .seccomp reason =>
      if config.agent.hardening.isEnforced then
        throw (.hardening ("the seccomp filter could not be installed: " ++ reason))
      else do
        log sys (.seccompUnavailable reason)
        return false
    | other => throw other

def serveAfterLogging (configPath : Path) (config : Configuration.Config) (marker : Marker) (recovery : Bool) :
    StartM Unit := do
  (config.warnings sys.build).forM fun warning => log sys (.featureWarning warning)
  log sys (.startup configPath recovery)
  let mounts ← mountTable sys
  if coversDevice (.build mounts) marker.dev then
    throw (.statePath config.agent.statePath
      (((mounts.find? fun entry => entry.dev = marker.dev).map MountEntry.mountPoint).getD []) marker.dev)
  else
    let channel ← openChannel sys config.agent.channelPath
    logIf sys channel.isNone (.channelOpenDeferred config.agent.channelPath)
    let authority := config.authority sys.build
    log sys (.authority authority)
    drop sys config authority.toAuthority
    startAuditWriter sys
    let seccomp ← sandbox sys config
    if !seccomp && config.agent.hardening.isEnforced then
      throw (.hardening "the seccomp filter was not installed")
    else
      let mode := seccompMode sys.build
      log sys (.seccomp seccomp mode)
      logIf sys (seccomp && mode = "log") .seccompLogMode
      serve sys config recovery channel marker

/-- The end of every run whose logging came up. -/
def settlement : StartM Unit := do
  note (.phase .flushToNormal)
  onRouter sys Router.flushToNormal
  note (.phase .startWriter)
  let _ ← startWriter sys
  note (.phase .settle)
  onRouter sys id

def runWith (configPath : Path) : StartM Unit := do
  let config ← loadConfig sys configPath
  let profile ← buildProfile sys
  match checkHardening config profile with
  | .error err => throw err
  | .ok () =>
    let marker ← openMarker sys config.agent.statePath
    let recovery := marker.present
    initLogging sys config.agent.logLevel recovery
    let result ← ExceptT.lift (serveAfterLogging sys configPath config marker recovery).run
    match result with
    | .error err =>
      log sys (.startupFailed err)
      settlement sys
      throw err
    | .ok () => settlement sys

end

end Startup

end Qeminga
