import Qeminga.Blocking
import Qeminga.Configuration
import Qeminga.Dispatcher

/-!
# The other handlers

`guest-info`, which advertises the commands (`handlers/info.rs`), `guest-fstrim`, which trims the targets of the plan one
after another (`handlers/fstrim.rs`), and `guest-get-fsinfo` (`handlers/fsinfo.rs`), whose walks over the mount table may
block and outlive their requests.
-/

namespace Qeminga

namespace Handlers

open Configuration (Build)
open Proto (Error Json)

/-! ### `guest-info` -/

structure CommandInfo where
  name : String
  enabled : Bool
  successResponse : Bool
  deriving DecidableEq, Repr

/-- The switches, as the dispatcher's gate has them. -/
def isEnabled (config : Configuration.Config) (build : Build) (name : String) : Bool :=
  if name = "guest-fstrim" then config.fstrimEnabled
  else if name = "guest-suspend-ram" then config.suspendRamEnabled build
  else if name = "guest-shutdown" then config.shutdownEnabled
  else if name ∈ ["guest-get-osinfo", "guest-network-get-interfaces", "guest-get-fsinfo"] then config.informationEnabled
  else true

/-- The `supported_commands` of `agent_info`. -/
def agentInfo (config : Configuration.Config) (build : Build) : List CommandInfo :=
  Dispatcher.supportedCommands.map fun spec => ⟨spec.name, isEnabled config build spec.name, spec.successResponse⟩

/-! ### `guest-fstrim` -/

/-- The arguments object of a request. -/
def argumentsObject (req : Proto.Request) : Except Error (List (String × Json)) :=
  match req.arguments with
  | some (.object entries) => .ok entries
  | some _ => .error (.invalidArguments "arguments must be an object")
  | none => .ok []

/-- `arguments` at `NoArgs`: any key is one too many. -/
def noArguments (req : Proto.Request) : Except Error Unit :=
  match argumentsObject req with
  | .error err => .error err
  | .ok [] => .ok ()
  | .ok (_ :: _) => .error (.invalidArguments ("arguments do not match the schema of " ++ req.method))

/-- `FstrimArgs`: no field but `minimum`, which is absent, null or a number without a sign. -/
def fstrimArgs (entries : List (String × Json)) : Option (Option Nat) :=
  if entries.all fun entry => entry.1 = "minimum" then
    match entries.lookup "minimum" with
    | none => some none
    | some .null => some none
    | some (.number (.posInt n)) => some (some n.toNat)
    | some _ => none
  else none

/-- `arguments` at the type of the arguments of a trim. -/
def fstrimArguments (req : Proto.Request) : Except Error (Option Nat) :=
  match argumentsObject req with
  | .error err => .error err
  | .ok entries =>
    match fstrimArgs entries with
    | some minimum => .ok minimum
    | none => .error (.invalidArguments ("arguments do not match the schema of " ++ req.method))

structure Trimmed where
  bytes : Nat
  minimum : Nat
  deriving DecidableEq, Repr

/-- Why a target was not trimmed: none of its mount points opens, or the `ioctl` failed. -/
inductive TrimFailure
  | unreachable (attempts : Attempts)
  | ioctl (err : KernelError)
  deriving DecidableEq, Repr

structure TrimResult where
  path : String
  outcome : Except TrimFailure Trimmed

/-- The kernel shim with `FITRIM`. -/
structure TrimOps (σ : Type) extends KernelOps σ where
  fitrim : Mount → Nat → σ → Except KernelError Trimmed × σ

section

variable {σ : Type} (ops : TrimOps σ)

/-- One target of `trim_plan`. -/
def trimTarget (minimum : Nat) (t : Target) (s : σ) : TrimResult × σ :=
  match openTarget ops.toKernelOps t s with
  | (.error attempts, s) => (⟨Utf8.lossy t.mountpoint, .error (.unreachable attempts)⟩, s)
  | (.ok m, s) =>
    match ops.fitrim m minimum s with
    | (.ok trimmed, s) => (⟨Utf8.lossy t.mountpoint, .ok trimmed⟩, s)
    | (.error err, s) => (⟨Utf8.lossy t.mountpoint, .error (.ioctl err)⟩, s)

def trimTargets (minimum : Nat) : List Target → σ → List TrimResult × σ
  | [], s => ([], s)
  | t :: ts, s =>
    let x := trimTarget ops minimum t s
    let y := trimTargets minimum ts x.2
    (x.1 :: y.1, y.2)

/-- `trim_plan`: the targets in the order of a thaw. -/
def trimPlan (plan : FreezePlan) (minimum : Nat) (s : σ) : List TrimResult × σ := trimTargets ops minimum plan.thawOrder s

/-- The handler of `guest-fstrim`; `mounts` is the answer of the mount table.  The error of a lost task is left out: a panic
in the task aborts the process, and nothing else ends it early. -/
def fstrim (mounts : Except Error (List MountEntry)) (req : Proto.Request) (s : σ) : Except Error (List TrimResult) × σ :=
  match fstrimArguments req, mounts with
  | .error err, _ => (.error err, s)
  | .ok _, .error err => (.error err, s)
  | .ok minimum, .ok entries =>
    let x := trimPlan ops (buildPlan entries none) (minimum.getD 0) s
    (.ok x.1, x.2)

end

/-! ### `guest-get-fsinfo` -/

def saturatingMul (m n : Nat) : Nat := min (m * n) maxCount

structure Statfs where
  blocks : Nat
  bfree : Nat
  bsize : Nat
  deriving DecidableEq, Repr

def Statfs.totalBytes (st : Statfs) : Nat := saturatingMul st.blocks st.bsize

def Statfs.usedBytes (st : Statfs) : Nat := saturatingMul (st.blocks - st.bfree) st.bsize

/-- An entry of the reply; its `disk` is always empty. -/
structure FilesystemInfo where
  name : String
  mountpoint : String
  fsType : String
  usedBytes : Option Nat
  totalBytes : Option Nat
  deriving DecidableEq, Repr

def sizesAreQueried (fsType : String) : Bool :=
  !(fsType ∈ ["nfs", "nfs4", "cifs", "smb3", "smbfs", "ncpfs", "afs", "ceph", "glusterfs", "9p", "coda", "lustre",
    "autofs", "fuseblk"] || "fuse".toList.isPrefixOf fsType.toList)

/-- The entry of a mount, with its sizes if `statfs` gave them. -/
def filesystemInfo (m : MountEntry) (sizes : Option Statfs) : FilesystemInfo where
  name := m.source
  mountpoint := Utf8.lossy m.mountPoint
  fsType := m.fsType
  usedBytes := sizes.map Statfs.usedBytes
  totalBytes := sizes.map Statfs.totalBytes

/-- `fs_info`, over a `statfs` that answers the same whenever it is asked. -/
def fsInfo (mounts : List MountEntry) (statfs : Path → Option Statfs) : List FilesystemInfo :=
  mounts.map fun m => filesystemInfo m (if sizesAreQueried m.fsType then statfs m.mountPoint else none)

/-- The encoding of a reply by `serde_json`: its length, and its tree. -/
structure Encoder (α : Type) where
  length : α → Except String Nat
  value : α → Except String Json

/-- The bytes around a value on the wire. -/
def maxResponseEnvelopeBytes : Nat :=
  "\x7b\"return\":".length + ",\"id\":-9223372036854775808\x7d\n".length

def boundedReply {α : Type} (enc : Encoder α) (what : String) (value : α) (bound : Nat) : Except Error Json :=
  match enc.length value with
  | .error err => .error (.internal (what ++ ": cannot encode: " ++ err))
  | .ok length =>
    let line := length + maxResponseEnvelopeBytes
    if bound < line then
      .error (.internal (what ++ ": the reply would be " ++ toString line ++ " bytes on the wire (" ++ toString length ++
        " of value), over the " ++ toString bound ++ " byte bound; not truncated"))
    else
      match enc.value value with
      | .error err => .error (.internal (what ++ ": cannot encode: " ++ err))
      | .ok value => .ok value

def fsinfoTimeoutSecs : Nat := 10

def maxFsinfoWalks : Nat := 2

def maxFsinfoReplyBytes : Nat := 1024 * 1024

end Handlers

/-! ### The walks of `guest-get-fsinfo` -/

/-- Where a walk stands: before the mount table, with the mounts that are left, or past its return. -/
inductive FsinfoPc
  | reading
  | sizing (todo : List MountEntry) (info : List Handlers.FilesystemInfo)
  | returned (result : Except Proto.Error Proto.Json)
  | panicked

/-- A walk on the blocking pool.  `table`, `sizes` and `asked` are history: the mount table, the mounts done with their
sizes, and the `statfs` calls. -/
structure FsinfoWalk where
  pc : FsinfoPc
  table : Option (List MountEntry)
  sizes : List (MountEntry × Option Handlers.Statfs)
  asked : List Path

/-- The walk holds its slot: its closure has not returned. -/
def FsinfoWalk.alive (w : FsinfoWalk) : Bool :=
  match w.pc with
  | .reading => true
  | .sizing _ _ => true
  | _ => false

/-- Where a request stands: it waits for its walk until the deadline, or was answered.  The walk of an answered request
is history; one that was refused has none. -/
inductive FsinfoRequest
  | waiting (walk deadline : Nat)
  | answered (walk : Option Nat) (reply : Except Proto.Error Proto.Json)

/-- The walk of a request, if it has one. -/
def FsinfoRequest.walk? : FsinfoRequest → Option Nat
  | .waiting w _ => some w
  | .answered w _ => w

/-- The free slots, the walks and the requests in the order of their start, and the time. -/
structure Fsinfo where
  permits : Nat
  walks : List FsinfoWalk
  requests : List FsinfoRequest
  now : Nat

/-- A new request, a system call of a walk with its answer, the return or the panic of a walk, time, or the runtime's look
at a request. -/
inductive FsinfoAction
  | request (req : Proto.Request)
  | mounts (w : Nat) (answer : Except Proto.Error (List MountEntry))
  | size (w : Nat) (answer : Option Handlers.Statfs)
  | finish (w : Nat)
  | panic (w : Nat)
  | tick (secs : Nat)
  | poll (r : Nat)

namespace Fsinfo

open Handlers

variable (enc : Encoder (List FilesystemInfo)) (joinError : Nat → String)

def start : Fsinfo := ⟨maxFsinfoWalks, [], [], 0⟩

def refusal : Proto.Error :=
  .internal ("fsinfo: " ++ toString maxFsinfoWalks ++ " earlier walks are still running; retry later")

def timeout : Proto.Error := .internal ("fsinfo did not complete within " ++ toString fsinfoTimeoutSecs ++ " s")

/-- A request that is answered without a walk. -/
def turnAway (s : Fsinfo) (err : Proto.Error) : Fsinfo := { s with requests := s.requests ++ [.answered none (.error err)] }

/-- The slot is taken before the walk is spawned, and belongs to the walk afterwards. -/
def request (s : Fsinfo) (req : Proto.Request) : Fsinfo :=
  match noArguments req with
  | .error err => s.turnAway err
  | .ok () =>
    if s.permits = 0 then s.turnAway refusal
    else
      { s with
        permits := s.permits - 1
        walks := s.walks ++ [⟨.reading, none, [], []⟩]
        requests := s.requests ++ [.waiting s.walks.length (s.now + fsinfoTimeoutSecs)] }

/-- The walk `w` goes on. -/
def goOn (s : Fsinfo) (w : Nat) (walk : FsinfoWalk) : Fsinfo := { s with walks := s.walks.set w walk }

/-- The closure of the walk `w` ends and gives its slot back. -/
def ends (s : Fsinfo) (w : Nat) (walk : FsinfoWalk) : Fsinfo :=
  { s with walks := s.walks.set w walk, permits := s.permits + 1 }

def mounts (s : Fsinfo) (w : Nat) (answer : Except Proto.Error (List MountEntry)) (walk : FsinfoWalk) : Option Fsinfo :=
  match walk.pc, answer with
  | .reading, .error err => some (s.ends w { walk with pc := .returned (.error err) })
  | .reading, .ok entries => some (s.goOn w { walk with pc := .sizing entries [], table := some entries })
  | _, _ => none

/-- The next mount of `fs_info`; `answer` is that of its `statfs`, if one is made. -/
def size (s : Fsinfo) (w : Nat) (answer : Option Statfs) (walk : FsinfoWalk) : Option Fsinfo :=
  match walk.pc with
  | .sizing (m :: todo) info =>
    if sizesAreQueried m.fsType then
      some (s.goOn w { walk with
        pc := .sizing todo (info ++ [filesystemInfo m answer])
        sizes := walk.sizes ++ [(m, answer)]
        asked := walk.asked ++ [m.mountPoint] })
    else
      some (s.goOn w { walk with
        pc := .sizing todo (info ++ [filesystemInfo m none])
        sizes := walk.sizes ++ [(m, none)] })
  | _ => none

def finish (s : Fsinfo) (w : Nat) (walk : FsinfoWalk) : Option Fsinfo :=
  match walk.pc with
  | .sizing [] info => some (s.ends w { walk with pc := .returned (boundedReply enc "fsinfo" info maxFsinfoReplyBytes) })
  | _ => none

/-- The end of the request's wait: the timer is looked at after the walk. -/
def reply (s : Fsinfo) (w deadline : Nat) : Option (Except Proto.Error Proto.Json) :=
  match s.walks[w]?.map FsinfoWalk.pc with
  | some (.returned result) => some result
  | some .panicked => some (.error (.internal ("fsinfo task failed: " ++ joinError w)))
  | _ => if deadline ≤ s.now then some (.error timeout) else none

def step (s : Fsinfo) : FsinfoAction → Option Fsinfo
  | .request req => some (s.request req)
  | .mounts w answer => s.walks[w]?.bind (s.mounts w answer)
  | .size w answer => s.walks[w]?.bind (s.size w answer)
  | .finish w => s.walks[w]?.bind (s.finish enc w)
  | .panic w => s.walks[w]?.bind fun walk => if walk.alive then some (s.ends w { walk with pc := .panicked }) else none
  | .tick secs => some { s with now := s.now + secs }
  | .poll r =>
    match s.requests[r]? with
    | some (.waiting w deadline) =>
      (s.reply joinError w deadline).map fun reply => { s with requests := s.requests.set r (.answered (some w) reply) }
    | _ => none

end Fsinfo

end Qeminga
