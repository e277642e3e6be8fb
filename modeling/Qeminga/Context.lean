import Qeminga.State
import Qeminga.Drain
import Mathlib.Logic.Function.Basic

/-!
# The shared context

What the tasks of the agent share (`dispatch.rs`, `freeze_op.rs`, `watchdog.rs`): the state machine, the held
handles, the thaw scope, the slots of the freeze operation and of the watchdog, the atomics and the progress of the
operations, the marker file and the kernel's freeze depths.  Every step of a task touches this context once, so the
tasks interleave as the threads of the runtime do.

`own`, `owner` and `log` are history: no step reads them.  `own d` says that the superblock `d` was frozen by a
successful `FIFREEZE` of the agent (this instance or one before it) and has been frozen ever since; `owner` is the
task that holds the token of the state machine; `log` lists what happened, the latest first.
-/

namespace Qeminga

abbrev TaskId := Nat

structure Config where
  operationTimeout : Nat
  idle : Nat
  max : Nat
  deriving DecidableEq, Repr

inductive ThawScope
  | tracked | discovery
  deriving DecidableEq, Repr

/-! ### A freeze operation as its observers see it -/

inductive Phase
  | freezing | recovering | settled
  deriving DecidableEq, Repr

/-- A drain that did not complete, or a task whose targets are uncertain. -/
inductive Unrecoverable
  | drain (mountpoint : Path) (reason : Reason)
  | workerLost (mountpoint : Path)
  | drainLost
  deriving DecidableEq, Repr

structure Progress where
  phase : Phase
  frozen : Nat
  inFlight : Option InFlight
  recoveryPassDone : Bool
  recovered : Nat
  unrecoverable : Option Unrecoverable
  settled : Option FreezeState
  deriving DecidableEq, Repr

def Progress.initial : Progress := ⟨.freezing, 0, some .preparing, false, 0, none, none⟩

/-- The transition abort and completion compete on. -/
inductive Outcome
  | open | aborting | committed
  deriving DecidableEq, Repr

inductive AbortRequest
  | accepted | committed
  deriving DecidableEq, Repr

structure FreezeOp where
  deadline : Nat
  notified : Bool
  outcome : Outcome
  aborted : Bool
  progress : Progress
  deriving DecidableEq, Repr

namespace FreezeOp

def start (deadline : Nat) : FreezeOp := ⟨deadline, false, .open, false, .initial⟩

/-- The answer of `request_abort`; an accepted request also leaves a notification. -/
def abortAnswer (op : FreezeOp) : AbortRequest :=
  match op.outcome with
  | .open => .accepted
  | .aborting => .accepted
  | .committed => .committed

/-- `OPEN → ABORTING`, by a request or by the driver (`mark_aborting`). -/
def markAborting (op : FreezeOp) : FreezeOp :=
  match op.outcome with
  | .open => { op with outcome := .aborting }
  | _ => op

/-- `OPEN → COMMITTED`. -/
def tryCommit (op : FreezeOp) : FreezeOp :=
  match op.outcome with
  | .open => { op with outcome := .committed }
  | _ => op

section Fields

variable (op : FreezeOp)

@[simp] theorem markAborting_progress : op.markAborting.progress = op.progress := by unfold markAborting; split <;> rfl
@[simp] theorem markAborting_deadline : op.markAborting.deadline = op.deadline := by unfold markAborting; split <;> rfl
@[simp] theorem markAborting_aborted : op.markAborting.aborted = op.aborted := by unfold markAborting; split <;> rfl
@[simp] theorem tryCommit_progress : op.tryCommit.progress = op.progress := by unfold tryCommit; split <;> rfl
@[simp] theorem tryCommit_deadline : op.tryCommit.deadline = op.deadline := by unfold tryCommit; split <;> rfl
@[simp] theorem tryCommit_aborted : op.tryCommit.aborted = op.aborted := by unfold tryCommit; split <;> rfl

end Fields

end FreezeOp

/-! ### What is recorded -/

/-- What one target's worker found. -/
inductive TargetOutcome
  | frozen (m : Mount)
  | busy (m : Mount)
  | skipped
  | notAuthorized
  | failed (stop : FreezeStop)
  deriving DecidableEq, Repr

/-- The blocking tasks of a freeze operation. -/
inductive JobKind
  | prep
  | worker (t : Target)
  | drain
  | rollback
  | removal
  deriving DecidableEq, Repr

/-- How a preparation ended; a lost one with whether it had created the marker. -/
inductive PrepEnd
  | planFailed
  | alreadyPresent
  | openFailed
  | fsyncFailed
  | prepared (plan : FreezePlan)
  | lost (created : Bool)
  deriving DecidableEq, Repr

inductive ThawError
  | cannotThaw (err : TransitionError)
  | failed (failure : ThawFailure)
  | joinedFrozen (state : FreezeState) (recovered : Nat) (unrecoverable : Option Unrecoverable)
  | pending (recovered : Nat) (inFlight : Option InFlight)
  deriving DecidableEq, Repr

/-- What the history keeps of the context at an instant. -/
structure Snapshot where
  depth : Dev → Nat
  own : Dev → Bool
  marker : Bool
  held : List Mount

/-- `fifreeze` carries what the worker's last check read, the aborted flag and the clock; `removal` whether the task
that removes the marker called `unlinkat` and whether it was lost; `began` is the begin of a thaw's drain. -/
inductive Event
  | started (op : TaskId) (restrict : Option (List Path)) (now : Snapshot)
  | spawned (op : TaskId) (job : JobKind)
  | joined (op : TaskId) (job : JobKind)
  | prepared (op : TaskId) (how : PrepEnd)
  | removal (op : TaskId) (unlinked lost : Bool)
  | fifreeze (op : TaskId) (d : Dev) (aborted : Bool) (clock : Nat) (r : Except KernelError Unit)
  | attempted (op : TaskId) (t : Target) (outcome : Option TargetOutcome)
  | fithaw (task : TaskId) (d : Dev) (r : Except KernelError Unit)
  | discovered (task : TaskId) (entries : List MountEntry)
  | requested (op : TaskId) (answer : AbortRequest)
  | replied (op : TaskId) (r : Except FreezeFailure Nat)
  | claimed (task : TaskId) (token : ThawToken)
  | began (task : TaskId) (now : Snapshot)
  | published (task : TaskId) (state : FreezeState) (now : Snapshot)
  | answered (task : TaskId) (r : Except ThawError Nat) (joined : Option TaskId)

/-! ### The context -/

/-- What the token of the state machine guards. -/
structure Guarded where
  depth : Dev → Nat
  own : Dev → Bool
  marker : Bool
  state : FreezeState
  owner : Option TaskId
  held : List Mount
  scope : ThawScope
  slot : Option TaskId

structure Ctx extends Guarded where
  now : Nat
  watchdog : Option TaskId
  cancelled : TaskId → Bool
  refreshed : TaskId → Bool
  ring : Bool
  ops : TaskId → FreezeOp
  fd : Nat
  log : List Event

namespace Ctx

def note (c : Ctx) (e : Event) : Ctx := { c with log := e :: c.log }

def snapshot (c : Ctx) : Snapshot := ⟨c.depth, c.own, c.marker, c.held⟩

def modOp (c : Ctx) (i : TaskId) (f : FreezeOp → FreezeOp) : Ctx :=
  { c with ops := Function.update c.ops i (f (c.ops i)) }

/-- Publishes a change of the operation's progress. -/
def publish (c : Ctx) (i : TaskId) (f : Progress → Progress) : Ctx :=
  c.modOp i fun op => { op with progress := f op.progress }

/-- `take_frozen_mounts`. -/
def takeFrozenMounts (c : Ctx) : Ctx := { c with held := [] }

/-- `hold_frozen_mounts`. -/
def holdFrozenMounts (c : Ctx) (ms : List Mount) : Ctx := { c with held := c.held ++ ms }

/-- `retire_freeze_op`: clears the slot only if it holds this operation. -/
def retire (c : Ctx) (i : TaskId) : Ctx := if c.slot = some i then { c with slot := none } else c

/-- Cancels the watchdog whose handle was in the slot, if any. -/
def cancelPrevious (c : Ctx) : Ctx :=
  match c.watchdog with
  | some w => { c with cancelled := Function.update c.cancelled w true }
  | none => c

/-- The hook `on_thaw_claimed`. -/
def onThawClaimed (c : Ctx) : Ctx := { c.cancelPrevious with watchdog := none }

/-- The first half of the hook `on_frozen`: a new watchdog `w` with its notifications. -/
def arm (c : Ctx) (w : TaskId) : Ctx :=
  { c with cancelled := Function.update c.cancelled w false, refreshed := Function.update c.refreshed w false }

/-- The second half of the hook `on_frozen`: the slot takes the handle of `w` and the one it held is cancelled. -/
def install (c : Ctx) (w : TaskId) : Ctx := { c.cancelPrevious with watchdog := some w }

/-- The hook `on_thawed`: the audit output goes back to the sink. -/
def onThawed (c : Ctx) : Ctx := { c with ring := false }

/-- The hook `on_freezing`: the audit output goes to the ring. -/
def onFreezing (c : Ctx) : Ctx := { c with ring := true }

/-- `FIFREEZE` by the operation `i`, whose worker's check read `aborted` and `clock`. -/
def fifreeze (c : Ctx) (i : TaskId) (d : Dev) (aborted : Bool) (clock : Nat) (r : Except KernelError Unit) : Ctx :=
  match r with
  | .ok _ =>
    { c with depth := Function.update c.depth d (c.depth d + 1)
             own := Function.update c.own d true
             log := .fifreeze i d aborted clock r :: c.log }
  | .error _ => c.note (.fifreeze i d aborted clock r)

/-- `FITHAW` by the task `i`; it can only succeed on a frozen superblock. -/
def fithaw (c : Ctx) (i : TaskId) (d : Dev) (r : Except KernelError Unit) : Option Ctx :=
  match r with
  | .ok _ =>
    if 0 < c.depth d then
      some { c with depth := Function.update c.depth d (c.depth d - 1)
                    own := Function.update c.own d (c.own d && decide (1 < c.depth d))
                    log := .fithaw i d r :: c.log }
    else none
  | .error _ => some (c.note (.fithaw i d r))

end Ctx

/-- The answer to `unlinkat` of the marker. -/
inductive UnlinkAnswer
  | ok
  | failed (e : Errno)
  deriving DecidableEq, Repr

/-- `Marker::remove`: the marker can only be unlinked, or absent, as it is. -/
def Ctx.unlink (c : Ctx) : UnlinkAnswer → Option (Ctx × Except MarkerError Unit)
  | .ok => if c.marker then some ({ c with marker := false }, .ok ()) else none
  | .failed .ENOENT => if c.marker then none else some (c, .error .absent)
  | .failed e => some (c, .error (.io .unlink e))

/-! ### What the functions of the context change -/

namespace Ctx

section Fields

variable (c : Ctx) (i w : TaskId) (e : Event) (f : FreezeOp → FreezeOp) (g : Progress → Progress) (ms : List Mount)

@[simp] theorem note_guarded : (c.note e).toGuarded = c.toGuarded := rfl
@[simp] theorem note_log : (c.note e).log = e :: c.log := rfl
@[simp] theorem note_ops : (c.note e).ops = c.ops := rfl
@[simp] theorem note_now : (c.note e).now = c.now := rfl
@[simp] theorem note_fd : (c.note e).fd = c.fd := rfl

@[simp] theorem modOp_guarded : (c.modOp i f).toGuarded = c.toGuarded := rfl
@[simp] theorem modOp_log : (c.modOp i f).log = c.log := rfl
@[simp] theorem modOp_ops : (c.modOp i f).ops = Function.update c.ops i (f (c.ops i)) := rfl
@[simp] theorem modOp_now : (c.modOp i f).now = c.now := rfl
@[simp] theorem modOp_fd : (c.modOp i f).fd = c.fd := rfl

@[simp] theorem publish_eq : c.publish i g = c.modOp i fun op => { op with progress := g op.progress } := rfl

@[simp] theorem takeFrozenMounts_guarded : c.takeFrozenMounts.toGuarded = { c.toGuarded with held := [] } := rfl
@[simp] theorem takeFrozenMounts_log : c.takeFrozenMounts.log = c.log := rfl
@[simp] theorem takeFrozenMounts_ops : c.takeFrozenMounts.ops = c.ops := rfl
@[simp] theorem takeFrozenMounts_now : c.takeFrozenMounts.now = c.now := rfl
@[simp] theorem takeFrozenMounts_fd : c.takeFrozenMounts.fd = c.fd := rfl

@[simp] theorem holdFrozenMounts_guarded :
    (c.holdFrozenMounts ms).toGuarded = { c.toGuarded with held := c.held ++ ms } := rfl
@[simp] theorem holdFrozenMounts_log : (c.holdFrozenMounts ms).log = c.log := rfl
@[simp] theorem holdFrozenMounts_ops : (c.holdFrozenMounts ms).ops = c.ops := rfl
@[simp] theorem holdFrozenMounts_now : (c.holdFrozenMounts ms).now = c.now := rfl
@[simp] theorem holdFrozenMounts_fd : (c.holdFrozenMounts ms).fd = c.fd := rfl

@[simp] theorem retire_eq : c.retire i = { c with slot := if c.slot = some i then none else c.slot } := by
  unfold retire; split <;> rfl

@[simp] theorem arm_guarded : (c.arm w).toGuarded = c.toGuarded := rfl
@[simp] theorem arm_log : (c.arm w).log = c.log := rfl
@[simp] theorem arm_ops : (c.arm w).ops = c.ops := rfl
@[simp] theorem arm_now : (c.arm w).now = c.now := rfl
@[simp] theorem arm_fd : (c.arm w).fd = c.fd := rfl

theorem cancelPrevious_eq : ∃ cancelled, c.cancelPrevious = { c with cancelled := cancelled } := by
  unfold cancelPrevious
  split
  · exact ⟨_, rfl⟩
  · exact ⟨c.cancelled, rfl⟩

theorem onThawClaimed_eq : ∃ cancelled, c.onThawClaimed = { c with cancelled := cancelled, watchdog := none } := by
  obtain ⟨cancelled, h⟩ := c.cancelPrevious_eq
  exact ⟨cancelled, by rw [onThawClaimed, h]⟩

theorem install_eq : ∃ cancelled, c.install w = { c with cancelled := cancelled, watchdog := some w } := by
  obtain ⟨cancelled, h⟩ := c.cancelPrevious_eq
  exact ⟨cancelled, by rw [install, h]⟩

@[simp] theorem onThawClaimed_guarded : c.onThawClaimed.toGuarded = c.toGuarded := by
  obtain ⟨x, h⟩ := c.onThawClaimed_eq; rw [h]
@[simp] theorem onThawClaimed_log : c.onThawClaimed.log = c.log := by obtain ⟨x, h⟩ := c.onThawClaimed_eq; rw [h]
@[simp] theorem onThawClaimed_ops : c.onThawClaimed.ops = c.ops := by obtain ⟨x, h⟩ := c.onThawClaimed_eq; rw [h]
@[simp] theorem onThawClaimed_now : c.onThawClaimed.now = c.now := by obtain ⟨x, h⟩ := c.onThawClaimed_eq; rw [h]
@[simp] theorem onThawClaimed_fd : c.onThawClaimed.fd = c.fd := by obtain ⟨x, h⟩ := c.onThawClaimed_eq; rw [h]

@[simp] theorem install_guarded : (c.install w).toGuarded = c.toGuarded := by
  obtain ⟨x, h⟩ := c.install_eq w; rw [h]
@[simp] theorem install_log : (c.install w).log = c.log := by obtain ⟨x, h⟩ := c.install_eq w; rw [h]
@[simp] theorem install_ops : (c.install w).ops = c.ops := by obtain ⟨x, h⟩ := c.install_eq w; rw [h]
@[simp] theorem install_now : (c.install w).now = c.now := by obtain ⟨x, h⟩ := c.install_eq w; rw [h]
@[simp] theorem install_fd : (c.install w).fd = c.fd := by obtain ⟨x, h⟩ := c.install_eq w; rw [h]

theorem cancelPrevious_cancelled (h : c.watchdog ≠ some w) : c.cancelPrevious.cancelled w = c.cancelled w := by
  unfold cancelPrevious
  split
  · rename_i w' hw
    exact Function.update_of_ne (fun he : w = w' => h (by rw [hw, he])) ..
  · rfl

@[simp] theorem onThawed_eq : c.onThawed = { c with ring := false } := rfl
@[simp] theorem onFreezing_eq : c.onFreezing = { c with ring := true } := rfl

end Fields

end Ctx

theorem Ctx.fithaw_cases {c c' : Ctx} {i : TaskId} {d : Dev} {r : Except KernelError Unit}
    (h : c.fithaw i d r = some c') :
    (r = .ok () ∧ 0 < c.depth d ∧
        c' = { c with depth := Function.update c.depth d (c.depth d - 1)
                      own := Function.update c.own d (c.own d && decide (1 < c.depth d))
                      log := .fithaw i d r :: c.log }) ∨
      ∃ err, r = .error err ∧ c' = c.note (.fithaw i d r) := by
  cases r with
  | ok _ =>
    simp only [Ctx.fithaw] at h
    split at h <;> cases h
    rename_i hd
    exact .inl ⟨rfl, hd, rfl⟩
  | error err =>
    cases h
    exact .inr ⟨err, rfl, rfl⟩

theorem Ctx.unlink_cases {c c' : Ctx} {ans : UnlinkAnswer} {r : Except MarkerError Unit}
    (h : c.unlink ans = some (c', r)) :
    (c.marker = true ∧ r = .ok () ∧ c' = { c with marker := false }) ∨
      (c.marker = false ∧ r = .error .absent ∧ c' = c) ∨ ∃ e, r = .error (.io .unlink e) ∧ c' = c := by
  unfold Ctx.unlink at h
  split at h <;> (try split at h) <;> cases h
  · rename_i hm
    exact .inl ⟨hm, rfl, rfl⟩
  · rename_i hm
    exact .inr (.inl ⟨by simpa using hm, rfl, rfl⟩)
  · exact .inr (.inr ⟨_, rfl, rfl⟩)

/-! ### Blocking tasks and their answers -/

/-- A blocking task: its state, and whether it was lost (it panicked) there. -/
structure Job (α : Type) where
  val : α
  lost : Bool
  deriving Repr

def Job.start {α : Type} (a : α) : Job α := ⟨a, false⟩

/-- The answer to the next system call of a blocking task. -/
inductive Answer
  | table (r : Except String (List MountEntry))
  | opened (r : OpenAnswer)
  | create (r : Except Errno Unit)
  | fsync (r : Except Errno Unit)
  | unlink (r : UnlinkAnswer)
  | fifreeze (r : Except KernelError Unit)
  | fithaw (r : Except KernelError Unit)
  | check

/-! ### The watchdog's timer loop -/

inductive DogStage
  | waiting | polled | expiring | ended
  deriving DecidableEq, Repr

/-- `watchdog::run`: the two deadlines and where the loop stands.  A poll looks at the cancellation first and at
the deadlines after it, so a cancellation that comes between the two no longer stops the expiry. -/
structure Dog where
  hardDeadline : Nat
  idleDeadline : Nat
  stage : DogStage
  deriving DecidableEq, Repr

def Dog.arm (cfg : Config) (now : Nat) : Dog := ⟨now + cfg.max, now + cfg.idle, .waiting⟩

/-- The result of a task's step: the context, the task, and a watchdog it spawned. -/
structure Out (τ : Type) where
  ctx : Ctx
  task : τ
  spawned : Option Dog

end Qeminga
