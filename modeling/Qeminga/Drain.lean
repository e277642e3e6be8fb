import Qeminga.Plan

/-!
# Drains

The blocking code of `handlers/fsfreeze.rs` that issues `FITHAW`: `drain` on one handle, `drain_held` (a recovery
pass), `rollback` and `thaw_blocking`.  Each runs on a blocking thread, one system call at a time, so each is
written as a machine whose state is what is left to do and which is fed the answer to its next call; the effect
of the calls on the kernel and on the marker is added where the machines are run.
-/

namespace Qeminga

/-! ### Failures -/

inductive MarkerOp
  | open | fsync | unlink
  deriving DecidableEq, Repr

inductive MarkerError
  | alreadyPresent
  | absent
  | io (op : MarkerOp) (e : Errno)
  deriving DecidableEq, Repr

/-- The failed opens of a target, in order. -/
abbrev Attempts := List (Path × KernelError)

/-- Which task a `Task` failure reports as lost; `aborted` is the value an aborted operation settles with. -/
inductive LostTask
  | preparation | markerRemoval | rollback | thaw | aborted
  deriving DecidableEq, Repr

/-- What stopped a freeze at a target; `preparation` is the cause reported when the marker of a lost preparation
cannot be removed. -/
inductive FreezeStop
  | ioctl (err : KernelError)
  | unreachable (attempts : Attempts)
  | preparation (lost : LostTask)
  deriving DecidableEq, Repr

/-- Why a target may still be frozen after its drain. -/
inductive Reason
  | capped
  | notIssued (err : KernelError)
  | firstDenied (err : KernelError)
  | denied (successes : Nat) (err : KernelError)
  | failed (err : KernelError)
  | unreachable (dev : Dev) (attempts : Attempts)
  deriving DecidableEq, Repr

inductive AbortCause
  | deadline | thawRequested | workerLost
  deriving DecidableEq, Repr

/-- The target whose `FIFREEZE` is outstanding, or the preparation. -/
inductive InFlight
  | preparing
  | target (mountpoint : Path)
  deriving DecidableEq, Repr

/-- `failed` is the mount point that stopped the freeze, `none` for the preparation. -/
inductive FreezeFailure
  | plan (message : String)
  | marker (err : MarkerError)
  | hard (failed : Path) (cause : FreezeStop)
  | rollbackIncomplete (failed : Path) (cause : FreezeStop) (mountpoint : Path) (reason : Reason)
  | markerRetained (failed : Option Path) (cause : FreezeStop) (err : MarkerError)
  | task (lost : LostTask)
  | nothingFrozenMarkerRetained (err : MarkerError)
  | aborted (cause : AbortCause) (timeoutSecs frozen : Nat) (inFlight : Option InFlight)
  deriving DecidableEq, Repr

def FreezeFailure.retainsFrozenState : FreezeFailure → Bool
  | .rollbackIncomplete .. => true
  | .markerRetained .. => true
  | .nothingFrozenMarkerRetained _ => true
  | _ => false

def FreezeFailure.isTask : FreezeFailure → Bool
  | .task _ => true
  | _ => false

inductive ThawFailure
  | plan (message : String)
  | incomplete (mountpoint : Path) (reason : Reason)
  | marker (err : MarkerError)
  | task (lost : LostTask)
  deriving DecidableEq, Repr

/-! ### Draining one handle -/

def maxThawIterations : Nat := 1024

structure Drained where
  successes : Nat
  firstError : Option KernelError
  capped : Bool
  deriving DecidableEq, Repr

/-- Why the target may still be frozen, if it may. -/
def Drained.incomplete (r : Drained) : Option Reason :=
  if r.capped then some .capped
  else
    match r.firstError with
    | none => none
    | some err =>
      if !err.isIoctlAnswer then some (.notIssued err)
      else if err.isInvalid || err.isNotSupported then none
      else if err.isPermission && r.successes = 0 then some (.firstDenied err)
      else if err.isPermission then some (.denied r.successes err)
      else some (.failed err)

/-- A target counts once when at least one `FITHAW` succeeded. -/
def Drained.counted (r : Drained) : Nat := if 0 < r.successes then 1 else 0

/-- Where a drain stands after one more `FITHAW`. -/
inductive Draining
  | going (successes : Nat)
  | ended (result : Drained)
  deriving DecidableEq, Repr

/-- One iteration of `drain`, after `successes` successful calls. -/
def drainCall (successes : Nat) : Except KernelError Unit → Draining
  | .ok _ => if successes + 1 < maxThawIterations then .going (successes + 1) else .ended ⟨successes + 1, none, true⟩
  | .error err => .ended ⟨successes, some err, false⟩

/-- The loop of `drain` over a kernel with the state `σ`, with the iterations left. -/
def drainLoop {σ : Type} (fithaw : σ → Except KernelError Unit × σ) : (iterations successes : Nat) → σ → Drained × σ
  | 0, successes, s => (⟨successes, none, true⟩, s)
  | iterations + 1, successes, s =>
    match fithaw s with
    | (.ok _, s) => drainLoop fithaw iterations (successes + 1) s
    | (.error err, s) => (⟨successes, some err, false⟩, s)

/-- `drain` as a whole. -/
def drain {σ : Type} (fithaw : σ → Except KernelError Unit × σ) (s : σ) : Drained × σ :=
  drainLoop fithaw maxThawIterations 0 s

/-- `drainCall` is the step of the loop. -/
theorem drainLoop_eq {σ : Type} (fithaw : σ → Except KernelError Unit × σ) {n : Nat} (hn : n < maxThawIterations) (s : σ) :
    drainLoop fithaw (maxThawIterations - n) n s =
      match drainCall n (fithaw s).1 with
      | .going n => drainLoop fithaw (maxThawIterations - n) n (fithaw s).2
      | .ended r => (r, (fithaw s).2) := by
  obtain ⟨k, hk⟩ : ∃ k, maxThawIterations - n = k + 1 := ⟨maxThawIterations - n - 1, by omega⟩
  rw [hk]
  rcases hs : fithaw s with ⟨ans, s'⟩
  cases ans with
  | error err => simp [drainLoop, hs, drainCall]
  | ok u =>
    simp only [drainLoop, hs, drainCall]
    by_cases hlast : n + 1 < maxThawIterations
    · rw [if_pos hlast]
      congr 1
      omega
    · obtain rfl : k = 0 := by omega
      rw [if_neg hlast]
      rfl

/-- A drain is complete only on the ioctl's own "not frozen" or "not supported". -/
theorem incomplete_drainCall_eq_none {n : Nat} {ans : Except KernelError Unit} {r : Drained}
    (h : drainCall n ans = .ended r) (hr : r.incomplete = none) :
    ∃ err, ans = .error err ∧ err.endsDrain = true ∧ r.successes = n := by
  cases ans with
  | ok _ =>
    simp only [drainCall] at h
    split at h
    · cases h
    · obtain rfl := Draining.ended.inj h
      simp [Drained.incomplete] at hr
  | error err =>
    obtain rfl := Draining.ended.inj h
    refine ⟨err, rfl, ?_, rfl⟩
    by_contra hne
    simp only [KernelError.endsDrain, Bool.or_eq_true, not_or, Bool.not_eq_true] at hne
    simp only [Drained.incomplete, hne, Bool.or_self, Bool.false_eq_true, ↓reduceIte] at hr
    split at hr
    · cases hr
    · split at hr
      · cases hr
      · split at hr <;> cases hr

/-! ### A pass over held handles -/

/-- `drain_held`: `todo` are the handles left, the first one being drained after `successes` successful calls;
`released` are the handles whose drain completed, which the source drops. -/
structure DrainHeld where
  todo : List Mount
  successes : Nat
  recovered : Nat
  keep : List Mount
  incomplete : Option (Path × Reason)
  released : List Mount
  deriving DecidableEq, Repr

namespace DrainHeld

/-- The handles were pushed deepest first and are drained in forward order. -/
def start (held : List Mount) : DrainHeld := ⟨held.reverse, 0, 0, [], none, []⟩

/-- The drain of the first handle ended with `r`. -/
def settle (j : DrainHeld) (m : Mount) (rest : List Mount) (r : Drained) : DrainHeld :=
  match r.incomplete with
  | some reason =>
    { j with todo := rest, successes := 0, recovered := j.recovered + r.counted, keep := j.keep ++ [m]
             incomplete := j.incomplete.or (some (m.mountpoint, reason)) }
  | none =>
    { j with todo := rest, successes := 0, recovered := j.recovered + r.counted, released := j.released ++ [m] }

/-- The answer to the next `FITHAW`. -/
def fithaw (j : DrainHeld) (ans : Except KernelError Unit) : DrainHeld :=
  match j.todo with
  | [] => j
  | m :: rest =>
    match drainCall j.successes ans with
    | .going n => { j with successes := n }
    | .ended r => j.settle m rest r

/-- The handles of the pass that have not been released. -/
def mounts (j : DrainHeld) : List Mount := j.todo ++ j.keep

end DrainHeld

/-! ### Rollback -/

/-- `rollback`: a pass over the published handles, then the removal of the marker if every drain completed. -/
structure Rollback where
  drain : DrainHeld
  failed : Path
  cause : FreezeStop
  removed : Option (Except MarkerError Unit)
  deriving Repr

namespace Rollback

def start (held : List Mount) (failed : Path) (cause : FreezeStop) : Rollback :=
  ⟨DrainHeld.start held, failed, cause, none⟩

/-- The next call is the `unlinkat` of the marker. -/
def unlinks (j : Rollback) : Bool :=
  j.drain.todo.isEmpty && j.drain.incomplete.isNone && j.removed.isNone

def finished (j : Rollback) : Bool :=
  j.drain.todo.isEmpty && (j.drain.incomplete.isSome || j.removed.isSome)

/-- The failure a finished rollback reports. -/
def failure (j : Rollback) : FreezeFailure :=
  match j.drain.incomplete, j.removed with
  | some (mountpoint, reason), _ => .rollbackIncomplete j.failed j.cause mountpoint reason
  | none, some (.error .absent) => .hard j.failed j.cause
  | none, some (.error err) => .markerRetained (some j.failed) j.cause err
  | none, _ => .hard j.failed j.cause

end Rollback

/-! ### Opening a target -/

/-- The pathnames `open_target` tries, the first one apart: the requested one only, or every mount point. -/
def Target.openPaths (t : Target) : Path × List Path :=
  match t.requested with
  | some name => (name, [])
  | none => (t.mountpoint, t.aliases)

/-- The answer to `open` and `fstat`: the device the opened directory is on, or the errno. -/
inductive OpenAnswer
  | found (dev : Dev)
  | failed (e : Errno)
  deriving DecidableEq, Repr

def openMount (path : Path) (dev : Dev) (fd : Nat) : OpenAnswer → Except KernelError Mount
  | .found d => if d = dev then .ok ⟨path, dev, fd⟩ else .error (.wrongFilesystem dev d)
  | .failed e => .error (.open e)

theorem openMount_ok {path : Path} {dev : Dev} {fd : Nat} {ans : OpenAnswer} {m : Mount}
    (h : openMount path dev fd ans = .ok m) : m = ⟨path, dev, fd⟩ := by
  cases ans with
  | found d =>
    simp only [openMount] at h
    split at h
    · exact (Except.ok.inj h).symm
    · cases h
  | failed e => cases h

/-! ### The thaw of every target -/

/-- The next system call of `thaw_blocking`. -/
inductive ThawStage
  | table
  | open (t : Target) (path : Path) (paths : List Path) (attempts : Attempts)
  | drain (m : Mount) (successes : Nat)
  | unlink
  | done (r : Except ThawFailure Nat)
  deriving Repr

/-- `thaw_blocking` with its `ThawState`: `rest` are the planned targets left, `retained` the held handles not yet
matched with one. -/
structure ThawBlocking where
  stage : ThawStage
  rest : List Target
  retained : List Mount
  thawed : Nat
  unrecoverable : Option ThawFailure
  keep : List Mount
  discovery : Option ThawFailure
  deriving Repr

namespace ThawBlocking

/-- Removes the first handle on `dev` from a list of handles. -/
def takeDev (dev : Dev) (ms : List Mount) : Option (Mount × List Mount) :=
  (ms.find? fun m => m.dev = dev).map fun m => (m, ms.eraseP fun m => m.dev = dev)

/-- What comes after a target: the next planned target, through the handle held for its device or through its
pathnames; then the handles left, last first; then the marker, unless something failed. -/
def advance (j : ThawBlocking) : ThawBlocking :=
  match j.rest with
  | t :: ts =>
    match takeDev t.dev j.retained with
    | some (m, retained) => { j with stage := .drain m 0, rest := ts, retained := retained }
    | none => { j with stage := .open t t.openPaths.1 t.openPaths.2 [], rest := ts }
  | [] =>
    match j.retained.getLast? with
    | some m => { j with stage := .drain m 0, retained := j.retained.dropLast }
    | none =>
      match j.unrecoverable, j.discovery with
      | some failure, _ => { j with stage := .done (.error failure) }
      | none, some failure => { j with stage := .done (.error failure) }
      | none, none => { j with stage := .unlink }

/-- A tracked thaw has no plan; a discovery drain reads the mount table first. -/
def start (discover : Bool) (held : List Mount) : ThawBlocking :=
  let j : ThawBlocking := ⟨.table, [], held, 0, none, [], none⟩
  if discover then j else j.advance

/-- The mount table was read, or could not be. -/
def plan (j : ThawBlocking) : Except String (List MountEntry) → ThawBlocking
  | .ok entries => advance { j with rest := (buildPlan entries none).thawOrder }
  | .error message => advance { j with discovery := some (.plan message) }

/-- The answer to the open of one of the target's pathnames. -/
def opened (j : ThawBlocking) (t : Target) (path : Path) (paths : List Path) (attempts : Attempts) :
    Except KernelError Mount → ThawBlocking
  | .ok m => { j with stage := .drain m 0 }
  | .error err =>
    match paths with
    | next :: paths => { j with stage := .open t next paths (attempts ++ [(path, err)]) }
    | [] =>
      let failure := .incomplete t.mountpoint (.unreachable t.dev (attempts ++ [(path, err)]))
      advance { j with unrecoverable := j.unrecoverable.or (some failure) }

/-- `ThawState::drain` ended with `r` on `m`. -/
def settle (j : ThawBlocking) (m : Mount) (r : Drained) : ThawBlocking :=
  match r.incomplete with
  | some reason =>
    { j with thawed := j.thawed + r.counted, keep := j.keep ++ [m]
             unrecoverable := j.unrecoverable.or (some (.incomplete m.mountpoint reason)) }
  | none => { j with thawed := j.thawed + r.counted }

/-- The answer to a `FITHAW` on `m`, after `successes` successful calls. -/
def fithaw (j : ThawBlocking) (m : Mount) (successes : Nat) (ans : Except KernelError Unit) : ThawBlocking :=
  match drainCall successes ans with
  | .going n => { j with stage := .drain m n }
  | .ended r => (j.settle m r).advance

/-- The answer to the removal of the marker. -/
def removed (j : ThawBlocking) : Except MarkerError Unit → ThawBlocking
  | .ok _ => { j with stage := .done (.ok j.thawed) }
  | .error .absent => { j with stage := .done (.ok j.thawed) }
  | .error err => { j with stage := .done (.error (.marker err)) }

end ThawBlocking

end Qeminga
