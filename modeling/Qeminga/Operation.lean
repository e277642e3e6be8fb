import Qeminga.Context

/-!
# The freeze operation

The driver of `freeze_op.rs` with its blocking tasks.  `Driver` has the fields of the source's struct; `Pc` says
where `drive`, `await_tracked`, `commit_abort`, the settle functions or `conclude` stand, between two accesses to
the shared context.  A blocking task is part of the driver that waits for it: it takes its own steps (`jobCall` and
`drainCall`) and may be lost at any of them.
-/

namespace Qeminga

/-! ### The blocking tasks -/

/-- The preparation: the mount table, then the marker (`openat` and `fsync`). -/
inductive Prep
  | table (restrict : Option (List Path))
  | create (plan : FreezePlan)
  | fsync (plan : FreezePlan)
  | done (r : Except FreezeFailure FreezePlan)
  deriving Repr

/-- The marker was created by this preparation. -/
def Prep.created : Prep → Bool
  | .fsync _ => true
  | .done (.ok _) => true
  | .done (.error (.marker (.io .fsync _))) => true
  | _ => false

def Prep.ending (j : Job Prep) : PrepEnd :=
  if j.lost then .lost j.val.created
  else
    match j.val with
    | .done (.ok plan) => .prepared plan
    | .done (.error (.marker .alreadyPresent)) => .alreadyPresent
    | .done (.error (.marker (.io .fsync _))) => .fsyncFailed
    | .done (.error (.marker _)) => .openFailed
    | _ => .planFailed

/-- The worker of one target: open it, take the last check (two reads), then `FIFREEZE`. -/
inductive Worker
  | opening (path : Path) (paths : List Path) (attempts : Attempts)
  | checkAborted (m : Mount)
  | checkClock (m : Mount) (aborted : Bool)
  | ioctl (m : Mount) (aborted : Bool) (clock : Nat)
  | done (o : TargetOutcome)
  deriving Repr

def Worker.start (t : Target) : Worker := .opening t.openPaths.1 t.openPaths.2 []

/-- The classification of the answer to `FIFREEZE`. -/
def Worker.answered (m : Mount) : Except KernelError Unit → TargetOutcome
  | .ok _ => .frozen m
  | .error err =>
    if err.isNotSupported then .skipped
    else if err.isBusy then .busy m
    else .failed (.ioctl err)

/-- The handle comes back only from a `FIFREEZE` that succeeded or answered `EBUSY`. -/
theorem Worker.answered_cases (m : Mount) (r : Except KernelError Unit) :
    (Worker.answered m r = .frozen m ∧ r = .ok ()) ∨
      ∃ err, r = .error err ∧ (Worker.answered m r = .skipped ∨ Worker.answered m r = .busy m ∨
        Worker.answered m r = .failed (.ioctl err)) := by
  cases r with
  | ok _ => exact .inl ⟨rfl, rfl⟩
  | error err =>
    refine .inr ⟨err, rfl, ?_⟩
    simp only [Worker.answered]
    split
    · exact .inl rfl
    · split
      · exact .inr (.inl rfl)
      · exact .inr (.inr rfl)

/-- On behalf of which settlement the marker is removed. -/
inductive RemovalFor
  | nothingFrozen
  | beforeIoctl (failure : FreezeFailure)
  | aborted
  deriving DecidableEq, Repr

/-- The result of a `marker.remove()` task, `none` until its `unlinkat` was answered. -/
abbrev Removal := Option (Except MarkerError Unit)

/-! ### The driver -/

/-- What `await_tracked` waits for. -/
inductive Tracked
  | prep (j : Job Prep)
  | worker (t : Target) (rest : List Target) (j : Job Worker)
  | removal (k : RemovalFor) (j : Job Removal)
  | rollback (j : Job Rollback)

def Tracked.abortable : Tracked → Bool
  | .prep _ => true
  | .worker _ _ _ => true
  | _ => false

/-- The decision boundaries: before a target is authorised, after a worker that was not authorised, and before the
commit. -/
inductive Boundary
  | spawn (t : Target) (rest : List Target)
  | next (rest : List Target)
  | commit

/-- Where `commit_abort` returns to. -/
inductive Resume
  | boundary (b : Boundary)
  | await (tr : Tracked)

/-- The accesses of `commit_abort`, in order. -/
inductive AbortStage
  | mark | store | state | watchdog | reply | recover | publish
  deriving DecidableEq, Repr

inductive Terminal
  | frozen | thawed
  deriving DecidableEq, Repr

def Terminal.state : Terminal → FreezeState
  | .frozen => .frozen
  | .thawed => .thawed

/-- The state a finished rollback settles in. -/
def Rollback.terminal (j : Rollback) : Terminal :=
  if j.failure.retainsFrozenState || j.failure.isTask then .frozen else .thawed

/-- The accesses of `conclude`, in order; `arm` and `install` are the hook `on_frozen`. -/
inductive ConcludeStage
  | commit | finalise | retire | scope | state | arm | install (w : TaskId) | settled | reply
  deriving DecidableEq, Repr

/-- The hook `on_thawed` runs before the retirement, the hook `on_frozen` after the publication. -/
def ConcludeStage.afterCommit : Terminal → ConcludeStage
  | .thawed => .finalise
  | .frozen => .retire

def ConcludeStage.afterState : Terminal → ConcludeStage
  | .thawed => .settled
  | .frozen => .arm

inductive Pc
  | head (rest : List Target)
  | decide (b : Boundary)
  | decideClock (b : Boundary)
  | aborting (stage : AbortStage) (k : Resume)
  | await (tr : Tracked)
  | tryCommit
  | settling
  | conclude (stage : ConcludeStage) (terminal : Terminal) (reply : Except FreezeFailure Nat)
  | finished

/-- Where an aborted operation goes on: it settles, unless a task is still awaited or the loop is at its head. -/
def Resume.pc : Resume → Pc
  | .boundary (.next rest) => .head rest
  | .boundary _ => .settling
  | .await tr => .await tr

/-- The driver.  `found`, `stale`, `returned`, `released` and `lost` are history: the marker and the handles found
at the start, the handles the workers returned, those released after a complete drain and those lost with a task. -/
structure Driver where
  token : Option FreezeToken
  thawToken : Option ThawToken
  reply : Bool
  frozen : Nat
  recovered : Nat
  recovery : Option (Job DrainHeld)
  kept : List Mount
  unrecoverable : Option Unrecoverable
  uncertain : Bool
  abort : Option AbortCause
  pc : Pc
  found : Bool
  stale : List Mount
  returned : List Mount
  released : List Mount
  lost : List Mount

namespace Driver

def start (token : FreezeToken) (restrict : Option (List Path)) (c : Ctx) : Driver where
  token := some token
  thawToken := none
  reply := true
  frozen := 0
  recovered := 0
  recovery := none
  kept := []
  unrecoverable := none
  uncertain := false
  abort := none
  pc := .await (.prep (.start (.table restrict)))
  found := c.marker
  stale := c.held
  returned := []
  released := []
  lost := []

/-- `commit_abort` begins: from here on the operation is aborted. -/
def commitAbort (d : Driver) (cause : AbortCause) (k : Resume) : Driver :=
  { d with abort := some cause, pc := .aborting .mark k }

def concludes (d : Driver) (terminal : Terminal) (reply : Except FreezeFailure Nat) : Driver :=
  { d with pc := .conclude .commit terminal reply }

/-- Spawns the task that removes the marker. -/
def removes (c : Ctx) (i : TaskId) (d : Driver) (k : RemovalFor) : Ctx × Driver :=
  (c.note (.spawned i .removal), { d with pc := .await (.removal k (.start none)) })

def startRecoveryIfNeeded (c : Ctx) (i : TaskId) (d : Driver) : Ctx × Driver :=
  if d.recovery.isSome then (c, d)
  else if c.held.isEmpty then (c, d)
  else
    (c.takeFrozenMounts.note (.spawned i .drain), { d with recovery := some (.start (.start c.held)) })

def refreshPassDone (c : Ctx) (i : TaskId) (d : Driver) : Ctx :=
  c.publish i fun p =>
    { p with recoveryPassDone := d.abort.isSome && d.recovery.isNone && c.held.isEmpty }

/-- What the driver keeps of the recovery drain that was just joined; the handles of a lost one are lost with it. -/
def recorded (d : Driver) (j : Job DrainHeld) : Driver :=
  { d with
    recovery := none
    recovered := if j.lost then d.recovered else d.recovered + j.val.recovered
    kept := if j.lost then d.kept else d.kept ++ j.val.keep
    unrecoverable := d.unrecoverable.or
      (if j.lost then some .drainLost else j.val.incomplete.map fun x => .drain x.1 x.2)
    uncertain := d.uncertain || j.lost
    lost := if j.lost then d.lost ++ j.val.mounts else d.lost
    released := d.released ++ j.val.released }

/-- `record_recovery`. -/
def recordRecovery (c : Ctx) (i : TaskId) (d : Driver) (j : Job DrainHeld) : Ctx × Driver :=
  let d := d.recorded j
  let c := c.publish i fun p => { p with recovered := d.recovered, unrecoverable := d.unrecoverable }
  (c.note (.joined i .drain), d)

/-- A drain task has ended: it was lost, or nothing is left to do. -/
def drainEnded (j : Job DrainHeld) : Bool := j.lost || j.val.todo.isEmpty

/-- The recovery drain is joined, and followed by another if more handles were published. -/
def joinRecovery (c : Ctx) (i : TaskId) (d : Driver) (j : Job DrainHeld) : Ctx × Driver :=
  let (c, d) := recordRecovery c i d j
  let (c, d) := startRecoveryIfNeeded c i d
  (refreshPassDone c i d, d)

@[simp] theorem refreshPassDone_eq (c : Ctx) (i : TaskId) (d : Driver) :
    refreshPassDone c i d = c.publish i fun p =>
      { p with recoveryPassDone := d.abort.isSome && d.recovery.isNone && c.held.isEmpty } := rfl

@[simp] theorem recordRecovery_eq (c : Ctx) (i : TaskId) (d : Driver) (j : Job DrainHeld) :
    recordRecovery c i d j =
      ((c.publish i fun p => { p with recovered := (d.recorded j).recovered
                                      unrecoverable := (d.recorded j).unrecoverable }).note (.joined i .drain),
        d.recorded j) := rfl

/-! ### Straight-line steps -/

/-- A boundary at which no abort was due. -/
def passes (c : Ctx) (i : TaskId) (d : Driver) : Boundary → Ctx × Driver
  | .spawn t rest =>
    ((c.publish i fun p => { p with inFlight := some (.target t.mountpoint) }).note (.spawned i (.worker t)),
      { d with pc := .await (.worker t rest (.start (.start t))) })
  | .next rest => (c, { d with pc := .head rest })
  | .commit => (c, { d with pc := .tryCommit })

/-- Sends the request's single reply; later calls are no-ops. -/
def sends (c : Ctx) (i : TaskId) (d : Driver) (r : Except FreezeFailure Nat) : Ctx × Driver :=
  if d.reply then (c.note (.replied i r), { d with reply := false }) else (c, d)

/-- The steps of `commit_abort`. -/
def aborts (cfg : Config) (c : Ctx) (i : TaskId) (d : Driver) (k : Resume) : AbortStage → Ctx × Driver
  | .mark => (c.modOp i .markAborting, { d with pc := .aborting .store k })
  | .store => (c.modOp i fun op => { op with aborted := true }, { d with pc := .aborting .state k })
  | .state =>
    match d.token with
    | some token =>
      ({ c with state := (FreezeState.abortFreeze token).1 },
        { d with token := none, thawToken := some (FreezeState.abortFreeze token).2, pc := .aborting .watchdog k })
    | none => (c, { d with pc := .aborting .watchdog k })
  | .watchdog => (c.onThawClaimed, { d with pc := .aborting .reply k })
  | .reply =>
    sends c i { d with pc := .aborting .recover k } (.error (.aborted (d.abort.getD .deadline) cfg.operationTimeout
      d.frozen (c.ops i).progress.inFlight))
  | .recover => startRecoveryIfNeeded c i { d with pc := .aborting .publish k }
  | .publish => (refreshPassDone (c.publish i fun p => { p with phase := .recovering }) i d, { d with pc := k.pc })

/-- The state a terminal publishes, through whichever token the driver holds; the token is consumed. -/
def publishes (c : Ctx) (i : TaskId) (d : Driver) (terminal : Terminal) : Ctx × Driver :=
  let settled : Ctx × Driver :=
    match terminal, d.token, d.thawToken with
    | .thawed, some token, _ => ({ c with state := .freezeFailed token, owner := none }, { d with token := none })
    | .thawed, none, some thaw => ({ c with state := .thawSucceeded thaw, owner := none }, { d with thawToken := none })
    | .frozen, some token, _ => ({ c with state := .freezeSucceeded token, owner := none }, { d with token := none })
    | .frozen, none, some thaw => ({ c with state := .thawFailed thaw, owner := none }, { d with thawToken := none })
    | _, none, none => (c, d)
  (settled.1.note (.published i settled.1.state settled.1.snapshot), settled.2)

/-- The thaw scope of what the operation leaves. -/
def scopeLeft (d : Driver) : Terminal → ThawScope
  | .frozen => if d.uncertain then .discovery else .tracked
  | .thawed => .discovery

/-- The steps of `conclude`; `fresh` is the identity of the watchdog that the hook arms. -/
def concludeStep (cfg : Config) (c : Ctx) (i fresh : TaskId) (d : Driver) (terminal : Terminal)
    (reply : Except FreezeFailure Nat) : ConcludeStage → Out Driver
  | .commit => ⟨c.modOp i .tryCommit, { d with pc := .conclude (.afterCommit terminal) terminal reply }, none⟩
  | .finalise => ⟨c.onThawed, { d with pc := .conclude .retire terminal reply }, none⟩
  | .retire => ⟨c.retire i, { d with pc := .conclude .scope terminal reply }, none⟩
  | .scope => ⟨{ c with scope := d.scopeLeft terminal }, { d with pc := .conclude .state terminal reply }, none⟩
  | .state =>
    let (c, d) := publishes c i d terminal
    ⟨c, { d with pc := .conclude (.afterState terminal) terminal reply }, none⟩
  | .arm => ⟨c.arm fresh, { d with pc := .conclude (.install fresh) terminal reply }, some (.arm cfg c.now)⟩
  | .install w => ⟨c.install w, { d with pc := .conclude .settled terminal reply }, none⟩
  | .settled =>
    let settle (p : Progress) : Progress :=
      { p with phase := .settled, inFlight := none, settled := some terminal.state }
    ⟨c.publish i settle, { d with pc := .conclude .reply terminal reply }, none⟩
  | .reply =>
    let (c, d) := sends c i d reply
    ⟨c, { d with pc := .finished }, none⟩

/-- `settle_aborted` once no drain is running and nothing is held: `Frozen` with the kept handles if a drain did not
complete, else the marker is removed. -/
def settleAborted (c : Ctx) (i : TaskId) (d : Driver) : Ctx × Driver :=
  if d.unrecoverable.isSome then
    (c.holdFrozenMounts d.kept,
      { d with unrecoverable := none, kept := [] }.concludes .frozen (.error (.task .aborted)))
  else removes c i d .aborted

/-- The commit: it competes with a thaw request, and zero work settles `Thawed`. -/
def commits (c : Ctx) (i : TaskId) (d : Driver) : Ctx × Driver :=
  if (c.ops i).outcome = .open then
    let c := c.modOp i .tryCommit
    if d.frozen = 0 && c.held.isEmpty && d.unrecoverable.isNone then removes c i d .nothingFrozen
    else (c, d.concludes .frozen (.ok d.frozen))
  else (c, d.commitAbort .thawRequested (.boundary .commit))

/-- The next step of the driver itself, where it does not wait for a task. -/
def go (cfg : Config) (c : Ctx) (i fresh : TaskId) (d : Driver) : Option (Out Driver) :=
  let out (x : Ctx × Driver) : Option (Out Driver) := some ⟨x.1, x.2, none⟩
  match d.pc with
  | .head rest =>
    if d.abort.isSome then out (c, { d with pc := .settling })
    else
      match rest with
      | [] => out (c, { d with pc := .decide .commit })
      | t :: ts => out (c, { d with pc := .decide (.spawn t ts) })
  | .decide b =>
    if (c.ops i).outcome = .aborting then out (c, d.commitAbort .thawRequested (.boundary b))
    else out (c, { d with pc := .decideClock b })
  | .decideClock b =>
    if (c.ops i).deadline ≤ c.now then out (c, d.commitAbort .deadline (.boundary b)) else out (passes c i d b)
  | .aborting stage k => out (aborts cfg c i d k stage)
  | .tryCommit => out (commits c i d)
  | .settling =>
    match d.recovery with
    | some j => if drainEnded j then out (joinRecovery c i d j) else none
    | none =>
      let (c', d') := startRecoveryIfNeeded c i d
      if d'.recovery.isSome then out (refreshPassDone c' i d', d')
      else out (settleAborted (refreshPassDone c' i d') i d')
  | .conclude stage terminal reply => some (concludeStep cfg c i fresh d terminal reply stage)
  | .await _ => none
  | .finished => none

/-! ### The awaited task has ended -/

/-- `settle_before_ioctl`. -/
def settleBeforeIoctl (c : Ctx) (i : TaskId) (d : Driver) (failure : FreezeFailure) : Ctx × Driver :=
  if d.abort.isSome then (c, { d with pc := .settling })
  else if failure.isTask then removes c i d (.beforeIoctl failure)
  else (c, d.concludes .thawed (.error failure))

def joinPrep (c : Ctx) (i : TaskId) (d : Driver) (j : Job Prep) : Option (Ctx × Driver) :=
  let c := (c.note (.joined i .prep)).note (.prepared i (Prep.ending j))
  if j.lost then some (settleBeforeIoctl c i d (.task .preparation))
  else
    match j.val with
    | .done (.ok plan) =>
      some (c.publish i fun p => { p with inFlight := none }, { d with pc := .head plan.freezeOrder })
    | .done (.error failure) => some (settleBeforeIoctl c i d failure)
    | _ => none

/-- `settle_hard_error`: the published handles go to the rollback. -/
def settleHardError (c : Ctx) (i : TaskId) (d : Driver) (failed : Path) (stop : FreezeStop) : Ctx × Driver :=
  (c.takeFrozenMounts.note (.spawned i .rollback),
    { d with pc := .await (.rollback (.start (.start c.held failed stop))) })

/-- The outcome of a worker that returned. -/
def worked (c : Ctx) (i : TaskId) (d : Driver) (t : Target) (rest : List Target) : TargetOutcome → Ctx × Driver
  | .frozen m =>
    let d : Driver := { d with frozen := d.frozen + 1, returned := d.returned ++ [m], pc := .head rest }
    let c := (c.holdFrozenMounts [m]).publish i fun p => { p with frozen := d.frozen }
    (refreshPassDone c i d, d)
  | .busy m =>
    let d : Driver := { d with returned := d.returned ++ [m], pc := .head rest }
    (refreshPassDone (c.holdFrozenMounts [m]) i d, d)
  | .skipped => (c, { d with pc := .head rest })
  | .notAuthorized =>
    if d.abort.isSome then (c, { d with pc := .head rest }) else (c, { d with pc := .decide (.next rest) })
  | .failed stop =>
    if d.abort.isSome then (c, { d with pc := .head rest }) else settleHardError c i d t.mountpoint stop

/-- The context once the worker on `t` has been collected, with what it found if it was not lost. -/
def collected (c : Ctx) (i : TaskId) (t : Target) (o : Option TargetOutcome) : Ctx :=
  ((c.publish i fun p => { p with inFlight := none }).note (.joined i (.worker t))).note (.attempted i t o)

@[simp] theorem collected_eq (c : Ctx) (i : TaskId) (t : Target) (o : Option TargetOutcome) :
    collected c i t o =
      ((c.publish i fun p => { p with inFlight := none }).note (.joined i (.worker t))).note (.attempted i t o) := rfl

def joinWorker (c : Ctx) (i : TaskId) (d : Driver) (t : Target) (rest : List Target) (j : Job Worker) :
    Option (Ctx × Driver) :=
  if j.lost then
    let d : Driver :=
      { d with uncertain := true, unrecoverable := d.unrecoverable.or (some (.workerLost t.mountpoint)) }
    if d.abort.isSome then some (collected c i t none, { d with pc := .settling })
    else some (collected c i t none, d.commitAbort .workerLost (.boundary .commit))
  else
    match j.val with
    | .done o => some (worked (collected c i t (some o)) i d t rest o)
    | _ => none

/-- How an operation settles once its removal of the marker has ended, by the settlement that asked for it. -/
def removedFor (k : RemovalFor) (lost : Bool) (result : Removal) : Option (Terminal × Except FreezeFailure Nat) :=
  match k, lost, result with
  | .nothingFrozen, true, _ => some (.frozen, .error (.task .markerRemoval))
  | .nothingFrozen, false, some (.ok _) => some (.thawed, .ok 0)
  | .nothingFrozen, false, some (.error .absent) => some (.thawed, .ok 0)
  | .nothingFrozen, false, some (.error err) => some (.frozen, .error (.nothingFrozenMarkerRetained err))
  | .beforeIoctl failure, true, _ => some (.thawed, .error failure)
  | .beforeIoctl failure, false, some (.ok _) => some (.thawed, .error failure)
  | .beforeIoctl failure, false, some (.error .absent) => some (.thawed, .error failure)
  | .beforeIoctl _, false, some (.error err) =>
    some (.frozen, .error (.markerRetained none (.preparation .preparation) err))
  | .aborted, true, _ => some (.frozen, .error (.task .aborted))
  | .aborted, false, some (.ok _) => some (.thawed, .error (.task .aborted))
  | .aborted, false, some (.error .absent) => some (.thawed, .error (.task .aborted))
  | .aborted, false, some (.error _) => some (.frozen, .error (.task .aborted))
  | _, false, none => none

/-- Only the settlement of nothing frozen replies a success. -/
theorem removedFor_ok {k : RemovalFor} {lost : Bool} {result : Removal} {terminal : Terminal} {n : Nat}
    (h : removedFor k lost result = some (terminal, .ok n)) : k = .nothingFrozen ∧ terminal = .thawed ∧ n = 0 := by
  unfold removedFor at h
  split at h <;> cases h <;> exact ⟨rfl, rfl, rfl⟩

def joinRemoval (c : Ctx) (i : TaskId) (d : Driver) (k : RemovalFor) (j : Job Removal) : Option (Ctx × Driver) :=
  let c := (c.note (.joined i .removal)).note (.removal i j.val.isSome j.lost)
  (removedFor k j.lost j.val).map fun x => (c, d.concludes x.1 x.2)

def joinRollback (c : Ctx) (i : TaskId) (d : Driver) (j : Job Rollback) : Option (Ctx × Driver) :=
  let c := c.note (.joined i .rollback)
  if j.lost then
    let d : Driver := { d with uncertain := true, lost := d.lost ++ j.val.drain.mounts
                               released := d.released ++ j.val.drain.released }
    some (c, d.concludes .frozen (.error (.task .rollback)))
  else if j.val.finished then
    let d : Driver := { d with released := d.released ++ j.val.drain.released }
    some (c.holdFrozenMounts j.val.drain.keep, d.concludes j.val.terminal (.error j.val.failure))
  else none

def join (c : Ctx) (i : TaskId) (d : Driver) : Tracked → Option (Ctx × Driver)
  | .prep j => joinPrep c i d j
  | .worker t rest j => joinWorker c i d t rest j
  | .removal k j => joinRemoval c i d k j
  | .rollback j => joinRollback c i d j

/-! ### The calls of the blocking tasks -/

/-- One call of the preparation. -/
def prepCall (c : Ctx) : Prep → Answer → Option (Ctx × Prep)
  | .table restrict, .table (.ok entries) => some (c, .create (buildPlan entries restrict))
  | .table _, .table (.error message) => some (c, .done (.error (.plan message)))
  | .create plan, .create (.ok _) => if c.marker then none else some ({ c with marker := true }, .fsync plan)
  | .create _, .create (.error .EEXIST) =>
    if c.marker then some (c, .done (.error (.marker .alreadyPresent))) else none
  | .create _, .create (.error e) => some (c, .done (.error (.marker (.io .open e))))
  | .fsync plan, .fsync (.ok _) => some (c, .done (.ok plan))
  | .fsync _, .fsync (.error e) => some (c, .done (.error (.marker (.io .fsync e))))
  | _, _ => none

/-- One call, or one read, of a worker of the operation `i` on `t`. -/
def workerCall (c : Ctx) (i : TaskId) (t : Target) : Worker → Answer → Option (Ctx × Worker)
  | .opening path paths attempts, .opened ans =>
    match openMount path t.dev c.fd ans with
    | .ok m => some ({ c with fd := c.fd + 1 }, .checkAborted m)
    | .error err =>
      match paths with
      | next :: paths => some (c, .opening next paths (attempts ++ [(path, err)]))
      | [] => some (c, .done (.failed (.unreachable (attempts ++ [(path, err)]))))
  | .checkAborted m, .check =>
    if (c.ops i).aborted then some (c, .done .notAuthorized) else some (c, .checkClock m (c.ops i).aborted)
  | .checkClock m aborted, .check =>
    if c.now < (c.ops i).deadline then some (c, .ioctl m aborted c.now) else some (c, .done .notAuthorized)
  | .ioctl m aborted clock, .fifreeze ans => some (c.fifreeze i m.dev aborted clock ans, .done (Worker.answered m ans))
  | _, _ => none

def removalCall (c : Ctx) : Removal → Answer → Option (Ctx × Removal)
  | none, .unlink ans => (c.unlink ans).map fun x => (x.1, some x.2)
  | _, _ => none

def rollbackCall (c : Ctx) (i : TaskId) (j : Rollback) : Answer → Option (Ctx × Rollback)
  | .fithaw ans =>
    match j.drain.todo with
    | m :: _ => (c.fithaw i m.dev ans).map fun c => (c, { j with drain := j.drain.fithaw ans })
    | [] => none
  | .unlink ans => if j.unlinks then (c.unlink ans).map fun x => (x.1, { j with removed := some x.2 }) else none
  | _ => none

/-- One call of the awaited task. -/
def jobCall (c : Ctx) (i : TaskId) (ans : Answer) : Tracked → Option (Ctx × Tracked)
  | .prep j => if j.lost then none else (prepCall c j.val ans).map fun x => (x.1, .prep ⟨x.2, false⟩)
  | .worker t rest j =>
    if j.lost then none else (workerCall c i t j.val ans).map fun x => (x.1, .worker t rest ⟨x.2, false⟩)
  | .removal k j => if j.lost then none else (removalCall c j.val ans).map fun x => (x.1, .removal k ⟨x.2, false⟩)
  | .rollback j => if j.lost then none else (rollbackCall c i j.val ans).map fun x => (x.1, .rollback ⟨x.2, false⟩)

/-- The awaited task is lost where it stands. -/
def loseJob : Tracked → Tracked
  | .prep j => .prep ⟨j.val, true⟩
  | .worker t rest j => .worker t rest ⟨j.val, true⟩
  | .removal k j => .removal k ⟨j.val, true⟩
  | .rollback j => .rollback ⟨j.val, true⟩

/-- One `FITHAW` of the recovery drain. -/
def drainCall (c : Ctx) (i : TaskId) (j : Job DrainHeld) : Answer → Option (Ctx × Job DrainHeld)
  | .fithaw ans =>
    if j.lost then none
    else
      match j.val.todo with
      | m :: _ => (c.fithaw i m.dev ans).map fun c => (c, ⟨j.val.fithaw ans, false⟩)
      | [] => none
  | _ => none

/-! ### All steps -/

/-- What happens next in a freeze operation: `go` is a step of the driver that waits for nothing, the next four are
the branches of `await_tracked`, the last four are steps and losses of its blocking tasks. -/
inductive Choice
  | go
  | abortRequested | deadline | recovered | done
  | job (ans : Answer) | loseJob
  | drain (ans : Answer) | loseDrain

/-- The abort branch of `await_tracked` is polled. -/
def armed (d : Driver) (tr : Tracked) : Bool := tr.abortable && d.abort.isNone

/-- The awaited task, with the abort in progress if there is one. -/
def tracked (d : Driver) : Option Tracked :=
  match d.pc with
  | .await tr => some tr
  | .aborting _ (.await tr) => some tr
  | _ => none

/-- Puts back the awaited task after one of its own steps. -/
def withTracked (d : Driver) (tr : Tracked) : Driver :=
  { d with
    pc := match d.pc with
      | .await _ => .await tr
      | .aborting stage (.await _) => .aborting stage (.await tr)
      | pc => pc }

def step (cfg : Config) (c : Ctx) (i fresh : TaskId) (d : Driver) : Choice → Option (Out Driver)
  | .go => d.go cfg c i fresh
  | .abortRequested =>
    match d.pc with
    | .await tr =>
      if d.armed tr && (c.ops i).notified then
        some ⟨c.modOp i fun op => { op with notified := false }, d.commitAbort .thawRequested (.await tr), none⟩
      else none
    | _ => none
  | .deadline =>
    match d.pc with
    | .await tr =>
      if d.armed tr && decide ((c.ops i).deadline ≤ c.now) then some ⟨c, d.commitAbort .deadline (.await tr), none⟩
      else none
    | _ => none
  | .recovered =>
    match d.pc, d.recovery with
    | .await _, some j => if drainEnded j then some ⟨(joinRecovery c i d j).1, (joinRecovery c i d j).2, none⟩ else none
    | _, _ => none
  | .done =>
    match d.pc with
    | .await tr => (join c i d tr).map fun x => ⟨x.1, x.2, none⟩
    | _ => none
  | .job ans =>
    match d.tracked with
    | some tr => (jobCall c i ans tr).map fun x => ⟨x.1, d.withTracked x.2, none⟩
    | none => none
  | .loseJob =>
    match d.tracked with
    | some tr => some ⟨c, d.withTracked (loseJob tr), none⟩
    | none => none
  | .drain ans =>
    match d.recovery with
    | some j => (drainCall c i j ans).map fun x => ⟨x.1, { d with recovery := some x.2 }, none⟩
    | none => none
  | .loseDrain =>
    match d.recovery with
    | some j => some ⟨c, { d with recovery := some ⟨j.val, true⟩ }, none⟩
    | none => none

end Driver

end Qeminga
