import Qeminga.Agent

/-!
# The steps of the tasks, one by one

`Driver.step` and `Thaw.step` are functions of nested matches; the relations `Driver.Move` and `Thaw.Move` list what
their steps can be, guards included, so that an invariant is proved by one case analysis.  `Tracked.Call` and
`ThawBlocking.Call` do the same for the calls of the blocking tasks.  The inversions `Driver.step_move`,
`Thaw.step_move` and `Task.step_move` say that every step is one of these.
-/

namespace Qeminga

/-! ### Calls of the awaited task -/

/-- A call of the awaited task of the operation `i` in the context `c`. -/
inductive Tracked.Call (c : Ctx) (i : TaskId) : Tracked → Ctx → Tracked → Prop
  | planned (restrict : Option (List Path)) (entries : List MountEntry) :
      Call c i (.prep ⟨.table restrict, false⟩) c (.prep ⟨.create (buildPlan entries restrict), false⟩)
  | planFailed (restrict : Option (List Path)) (message : String) :
      Call c i (.prep ⟨.table restrict, false⟩) c (.prep ⟨.done (.error (.plan message)), false⟩)
  | created (plan : FreezePlan) (hm : c.marker = false) :
      Call c i (.prep ⟨.create plan, false⟩) { c with marker := true } (.prep ⟨.fsync plan, false⟩)
  | alreadyPresent (plan : FreezePlan) (hm : c.marker = true) :
      Call c i (.prep ⟨.create plan, false⟩) c (.prep ⟨.done (.error (.marker .alreadyPresent)), false⟩)
  | openFailed (plan : FreezePlan) (e : Errno) :
      Call c i (.prep ⟨.create plan, false⟩) c (.prep ⟨.done (.error (.marker (.io .open e))), false⟩)
  | synced (plan : FreezePlan) : Call c i (.prep ⟨.fsync plan, false⟩) c (.prep ⟨.done (.ok plan), false⟩)
  | syncFailed (plan : FreezePlan) (e : Errno) :
      Call c i (.prep ⟨.fsync plan, false⟩) c (.prep ⟨.done (.error (.marker (.io .fsync e))), false⟩)
  | opened (t : Target) (rest : List Target) (path : Path) (paths : List Path) (attempts : Attempts) :
      Call c i (.worker t rest ⟨.opening path paths attempts, false⟩) { c with fd := c.fd + 1 }
        (.worker t rest ⟨.checkAborted ⟨path, t.dev, c.fd⟩, false⟩)
  | openNext (t : Target) (rest : List Target) (path next : Path) (paths : List Path) (attempts more : Attempts) :
      Call c i (.worker t rest ⟨.opening path (next :: paths) attempts, false⟩) c
        (.worker t rest ⟨.opening next paths more, false⟩)
  | unreachable (t : Target) (rest : List Target) (path : Path) (attempts more : Attempts) :
      Call c i (.worker t rest ⟨.opening path [] attempts, false⟩) c
        (.worker t rest ⟨.done (.failed (.unreachable more)), false⟩)
  | sawAborted (t : Target) (rest : List Target) (m : Mount) (ha : (c.ops i).aborted = true) :
      Call c i (.worker t rest ⟨.checkAborted m, false⟩) c (.worker t rest ⟨.done .notAuthorized, false⟩)
  | notAborted (t : Target) (rest : List Target) (m : Mount) (ha : (c.ops i).aborted = false) :
      Call c i (.worker t rest ⟨.checkAborted m, false⟩) c (.worker t rest ⟨.checkClock m false, false⟩)
  | sawDeadline (t : Target) (rest : List Target) (m : Mount) (aborted : Bool) (hd : (c.ops i).deadline ≤ c.now) :
      Call c i (.worker t rest ⟨.checkClock m aborted, false⟩) c (.worker t rest ⟨.done .notAuthorized, false⟩)
  | authorised (t : Target) (rest : List Target) (m : Mount) (aborted : Bool) (hd : c.now < (c.ops i).deadline) :
      Call c i (.worker t rest ⟨.checkClock m aborted, false⟩) c (.worker t rest ⟨.ioctl m aborted c.now, false⟩)
  | fifreeze (t : Target) (rest : List Target) (m : Mount) (aborted : Bool) (clock : Nat)
      (r : Except KernelError Unit) :
      Call c i (.worker t rest ⟨.ioctl m aborted clock, false⟩) (c.fifreeze i m.dev aborted clock r)
        (.worker t rest ⟨.done (Worker.answered m r), false⟩)
  | removed (k : RemovalFor) {ans : UnlinkAnswer} {c' : Ctx} {r : Except MarkerError Unit}
      (h : c.unlink ans = some (c', r)) : Call c i (.removal k ⟨none, false⟩) c' (.removal k ⟨some r, false⟩)
  | rollbackDrains {j : Rollback} {m : Mount} {rest : List Mount} {r : Except KernelError Unit} {c' : Ctx}
      (htodo : j.drain.todo = m :: rest) (h : c.fithaw i m.dev r = some c') :
      Call c i (.rollback ⟨j, false⟩) c' (.rollback ⟨{ j with drain := j.drain.fithaw r }, false⟩)
  | rollbackUnlinks {j : Rollback} {ans : UnlinkAnswer} {c' : Ctx} {r : Except MarkerError Unit}
      (hj : j.unlinks = true) (h : c.unlink ans = some (c', r)) :
      Call c i (.rollback ⟨j, false⟩) c' (.rollback ⟨{ j with removed := some r }, false⟩)

namespace Driver

private theorem prepCall_call {c : Ctx} {i : TaskId} {v : Prep} {ans : Answer} {x : Ctx × Prep}
    (h : prepCall c v ans = some x) : Tracked.Call c i (.prep ⟨v, false⟩) x.1 (.prep ⟨x.2, false⟩) := by
  unfold prepCall at h
  split at h <;> (try split at h) <;> cases h
  case h_1 restrict entries => exact .planned restrict entries
  case h_2 restrict message => exact .planFailed restrict message
  case h_3.isFalse plan _ hm => exact .created plan (by simpa using hm)
  case h_4.isTrue plan hm => exact .alreadyPresent plan hm
  case h_5 plan e _ => exact .openFailed plan e
  case h_6 plan _ => exact .synced plan
  case h_7 plan e => exact .syncFailed plan e

private theorem workerCall_call {c : Ctx} {i : TaskId} {t : Target} {rest : List Target} {v : Worker} {ans : Answer}
    {x : Ctx × Worker} (h : workerCall c i t v ans = some x) :
    Tracked.Call c i (.worker t rest ⟨v, false⟩) x.1 (.worker t rest ⟨x.2, false⟩) := by
  unfold workerCall at h
  split at h
  case h_1 path paths attempts ans =>
    split at h
    · rename_i m hm
      obtain rfl := openMount_ok hm
      cases h
      exact .opened t rest path paths attempts
    · split at h <;> cases h
      · exact .openNext t rest ..
      · exact .unreachable t rest ..
  case h_2 m =>
    split at h <;> cases h
    · rename_i ha
      exact .sawAborted t rest m ha
    · rename_i ha
      rw [Bool.not_eq_true] at ha
      exact ha ▸ .notAborted t rest m ha
  case h_3 m aborted =>
    split at h <;> cases h
    · rename_i hd
      exact .authorised t rest m aborted hd
    · rename_i hd
      exact .sawDeadline t rest m aborted (Nat.le_of_not_lt hd)
  case h_4 m aborted clock r =>
    cases h
    exact .fifreeze t rest m aborted clock r
  case h_5 => cases h

private theorem removalCall_call {c : Ctx} {i : TaskId} {k : RemovalFor} {v : Removal} {ans : Answer}
    {x : Ctx × Removal} (h : removalCall c v ans = some x) :
    Tracked.Call c i (.removal k ⟨v, false⟩) x.1 (.removal k ⟨x.2, false⟩) := by
  unfold removalCall at h
  split at h
  · obtain ⟨y, hy, rfl⟩ := Option.map_eq_some_iff.1 h
    exact .removed k hy
  · cases h

private theorem rollbackCall_call {c : Ctx} {i : TaskId} {v : Rollback} {ans : Answer} {x : Ctx × Rollback}
    (h : rollbackCall c i v ans = some x) : Tracked.Call c i (.rollback ⟨v, false⟩) x.1 (.rollback ⟨x.2, false⟩) := by
  unfold rollbackCall at h
  split at h
  · split at h
    · rename_i m rest htodo
      obtain ⟨c', hc, rfl⟩ := Option.map_eq_some_iff.1 h
      exact .rollbackDrains htodo hc
    · cases h
  · split at h
    · rename_i hj
      obtain ⟨y, hy, rfl⟩ := Option.map_eq_some_iff.1 h
      exact .rollbackUnlinks hj hy
    · cases h
  · cases h

theorem jobCall_call {c : Ctx} {i : TaskId} {ans : Answer} {tr : Tracked} {x : Ctx × Tracked}
    (h : jobCall c i ans tr = some x) : Tracked.Call c i tr x.1 x.2 := by
  cases tr with
  | prep j =>
    obtain ⟨v, lost⟩ := j
    cases lost with
    | true => cases h
    | false =>
      obtain ⟨y, hy, rfl⟩ := Option.map_eq_some_iff.1 h
      exact prepCall_call hy
  | worker t rest j =>
    obtain ⟨v, lost⟩ := j
    cases lost with
    | true => cases h
    | false =>
      obtain ⟨y, hy, rfl⟩ := Option.map_eq_some_iff.1 h
      exact workerCall_call hy
  | removal k j =>
    obtain ⟨v, lost⟩ := j
    cases lost with
    | true => cases h
    | false =>
      obtain ⟨y, hy, rfl⟩ := Option.map_eq_some_iff.1 h
      exact removalCall_call hy
  | rollback j =>
    obtain ⟨v, lost⟩ := j
    cases lost with
    | true => cases h
    | false =>
      obtain ⟨y, hy, rfl⟩ := Option.map_eq_some_iff.1 h
      exact rollbackCall_call hy

/-! ### Steps of the driver -/

/-- A step of the freeze operation `i`, by its driver or by one of its blocking tasks, in the context `c`. -/
inductive Move (cfg : Config) (c : Ctx) (i fresh : TaskId) (d : Driver) : Ctx → Driver → Option Dog → Prop
  -- the walk over the targets
  | leave {rest : List Target} (hpc : d.pc = .head rest) (ha : d.abort.isSome) :
      Move cfg c i fresh d c { d with pc := .settling } none
  | exhaust (hpc : d.pc = .head []) (ha : d.abort = none) :
      Move cfg c i fresh d c { d with pc := .decide .commit } none
  | advance {t : Target} {rest : List Target} (hpc : d.pc = .head (t :: rest)) (ha : d.abort = none) :
      Move cfg c i fresh d c { d with pc := .decide (.spawn t rest) } none
  | decide {b : Boundary} (hpc : d.pc = .decide b) (ho : (c.ops i).outcome ≠ .aborting) :
      Move cfg c i fresh d c { d with pc := .decideClock b } none
  | spawn {t : Target} {rest : List Target} (hpc : d.pc = .decideClock (.spawn t rest))
      (hd : c.now < (c.ops i).deadline) :
      Move cfg c i fresh d
        ((c.publish i fun p => { p with inFlight := some (.target t.mountpoint) }).note (.spawned i (.worker t)))
        { d with pc := .await (.worker t rest (.start (.start t))) } none
  | resume {rest : List Target} (hpc : d.pc = .decideClock (.next rest)) (hd : c.now < (c.ops i).deadline) :
      Move cfg c i fresh d c { d with pc := .head rest } none
  | ready (hpc : d.pc = .decideClock .commit) (hd : c.now < (c.ops i).deadline) :
      Move cfg c i fresh d c { d with pc := .tryCommit } none
  -- the abort
  | abort {b : Boundary} {cause : AbortCause}
      (hpc : d.pc = .decide b ∨ d.pc = .decideClock b ∨ (d.pc = .tryCommit ∧ b = .commit)) :
      Move cfg c i fresh d c (d.commitAbort cause (.boundary b)) none
  | interrupt {tr : Tracked} {cause : AbortCause} {c' : Ctx} (hpc : d.pc = .await tr) (harm : d.armed tr = true)
      (hc : c' = c ∨ c' = c.modOp i fun op => { op with notified := false }) :
      Move cfg c i fresh d c' (d.commitAbort cause (.await tr)) none
  | mark {k : Resume} (hpc : d.pc = .aborting .mark k) :
      Move cfg c i fresh d (c.modOp i .markAborting) { d with pc := .aborting .store k } none
  | store {k : Resume} (hpc : d.pc = .aborting .store k) :
      Move cfg c i fresh d (c.modOp i fun op => { op with aborted := true }) { d with pc := .aborting .state k } none
  | swap {k : Resume} {token : FreezeToken} (hpc : d.pc = .aborting .state k) (ht : d.token = some token) :
      Move cfg c i fresh d { c with state := .thawing }
        { d with token := none, thawToken := some ⟨.freezing⟩, pc := .aborting .watchdog k } none
  | swapNone {k : Resume} (hpc : d.pc = .aborting .state k) (ht : d.token = none) :
      Move cfg c i fresh d c { d with pc := .aborting .watchdog k } none
  | cancel {k : Resume} (hpc : d.pc = .aborting .watchdog k) :
      Move cfg c i fresh d c.onThawClaimed { d with pc := .aborting .reply k } none
  | replyAborted {k : Resume} {failure : FreezeFailure}
      (hf : ∃ cause secs frozen inFlight, failure = .aborted cause secs frozen inFlight)
      (hpc : d.pc = .aborting .reply k) (hr : d.reply = true) :
      Move cfg c i fresh d (c.note (.replied i (.error failure)))
        { d with reply := false, pc := .aborting .recover k } none
  | replyAbortedNone {k : Resume} (hpc : d.pc = .aborting .reply k) (hr : d.reply = false) :
      Move cfg c i fresh d c { d with pc := .aborting .recover k } none
  | recover {k : Resume} (hpc : d.pc = .aborting .recover k) (hr : d.recovery = none) (hh : c.held ≠ []) :
      Move cfg c i fresh d (c.takeFrozenMounts.note (.spawned i .drain))
        { d with recovery := some (.start (.start c.held)), pc := .aborting .publish k } none
  | recoverNone {k : Resume} (hpc : d.pc = .aborting .recover k) (hh : d.recovery.isSome ∨ c.held = []) :
      Move cfg c i fresh d c { d with pc := .aborting .publish k } none
  | announce {k : Resume} (hpc : d.pc = .aborting .publish k) :
      Move cfg c i fresh d (refreshPassDone (c.publish i fun p => { p with phase := .recovering }) i d)
        { d with pc := k.pc } none
  -- the recovery
  | joinDrain {j : Job DrainHeld} (hpc : d.pc = .settling ∨ ∃ tr, d.pc = .await tr) (hr : d.recovery = some j)
      (he : drainEnded j = true) (hh : c.held = []) :
      Move cfg c i fresh d (refreshPassDone (recordRecovery c i d j).1 i (d.recorded j)) (d.recorded j) none
  | joinDrainRestart {j : Job DrainHeld} (hpc : d.pc = .settling ∨ ∃ tr, d.pc = .await tr)
      (hr : d.recovery = some j) (he : drainEnded j = true) (hh : c.held ≠ []) :
      Move cfg c i fresh d
        (refreshPassDone ((recordRecovery c i d j).1.takeFrozenMounts.note (.spawned i .drain)) i
          { d.recorded j with recovery := some (.start (.start c.held)) })
        { d.recorded j with recovery := some (.start (.start c.held)) } none
  | settleDrain (hpc : d.pc = .settling) (hr : d.recovery = none) (hh : c.held ≠ []) :
      Move cfg c i fresh d
        (refreshPassDone (c.takeFrozenMounts.note (.spawned i .drain)) i
          { d with recovery := some (.start (.start c.held)) })
        { d with recovery := some (.start (.start c.held)) } none
  | settleFrozen (hpc : d.pc = .settling) (hr : d.recovery = none) (hh : c.held = []) (hu : d.unrecoverable.isSome) :
      Move cfg c i fresh d ((refreshPassDone c i d).holdFrozenMounts d.kept)
        ({ d with unrecoverable := none, kept := [] }.concludes .frozen (.error (.task .aborted))) none
  | settleRemove (hpc : d.pc = .settling) (hr : d.recovery = none) (hh : c.held = []) (hu : d.unrecoverable = none) :
      Move cfg c i fresh d ((refreshPassDone c i d).note (.spawned i .removal))
        { d with pc := .await (.removal .aborted (.start none)) } none
  -- the commit
  | commitNothing (hpc : d.pc = .tryCommit) (ho : (c.ops i).outcome = .open) (hf : d.frozen = 0) (hh : c.held = [])
      (hu : d.unrecoverable = none) :
      Move cfg c i fresh d ((c.modOp i .tryCommit).note (.spawned i .removal))
        { d with pc := .await (.removal .nothingFrozen (.start none)) } none
  | commitFrozen (hpc : d.pc = .tryCommit) (ho : (c.ops i).outcome = .open)
      (hz : ¬ (d.frozen = 0 ∧ c.held = [] ∧ d.unrecoverable = none)) :
      Move cfg c i fresh d (c.modOp i .tryCommit) (d.concludes .frozen (.ok d.frozen)) none
  -- the awaited task has ended
  | prepared {plan : FreezePlan} (hpc : d.pc = .await (.prep ⟨.done (.ok plan), false⟩)) :
      Move cfg c i fresh d
        (((c.note (.joined i .prep)).note (.prepared i (.prepared plan))).publish i fun p => { p with inFlight := none })
        { d with pc := .head plan.freezeOrder } none
  | prepAborted {j : Job Prep} (hpc : d.pc = .await (.prep j))
      (hj : j.lost = true ∨ ∃ failure, j = ⟨.done (.error failure), false⟩) (ha : d.abort.isSome) :
      Move cfg c i fresh d ((c.note (.joined i .prep)).note (.prepared i (Prep.ending j))) { d with pc := .settling }
        none
  | prepLost {j : Job Prep} {failure : FreezeFailure} (hpc : d.pc = .await (.prep j))
      (hj : (j.lost = true ∧ failure = .task .preparation) ∨
        (j = ⟨.done (.error failure), false⟩ ∧ failure.isTask = true)) (ha : d.abort = none) :
      Move cfg c i fresh d
        (((c.note (.joined i .prep)).note (.prepared i (Prep.ending j))).note (.spawned i .removal))
        { d with pc := .await (.removal (.beforeIoctl failure) (.start none)) } none
  | prepFailed {failure : FreezeFailure} (hpc : d.pc = .await (.prep ⟨.done (.error failure), false⟩))
      (hf : failure.isTask = false) (ha : d.abort = none) :
      Move cfg c i fresh d
        ((c.note (.joined i .prep)).note (.prepared i (Prep.ending ⟨.done (.error failure), false⟩)))
        (d.concludes .thawed (.error failure)) none
  | workerLostAborted {t : Target} {rest : List Target} {v : Worker}
      (hpc : d.pc = .await (.worker t rest ⟨v, true⟩)) (ha : d.abort.isSome) :
      Move cfg c i fresh d (collected c i t none)
        { d with uncertain := true, unrecoverable := d.unrecoverable.or (some (.workerLost t.mountpoint))
                 pc := .settling } none
  | workerLost {t : Target} {rest : List Target} {v : Worker} (hpc : d.pc = .await (.worker t rest ⟨v, true⟩))
      (ha : d.abort = none) :
      Move cfg c i fresh d (collected c i t none)
        ({ d with uncertain := true
                  unrecoverable := d.unrecoverable.or (some (.workerLost t.mountpoint)) }.commitAbort .workerLost
          (.boundary .commit)) none
  | froze {t : Target} {rest : List Target} {m : Mount} {d' : Driver}
      (hpc : d.pc = .await (.worker t rest ⟨.done (.frozen m), false⟩))
      (hd : d' = { d with frozen := d.frozen + 1, returned := d.returned ++ [m], pc := .head rest }) :
      Move cfg c i fresh d
        (refreshPassDone (((collected c i t (some (.frozen m))).holdFrozenMounts [m]).publish i fun p =>
          { p with frozen := d.frozen + 1 }) i d') d' none
  | busy {t : Target} {rest : List Target} {m : Mount} {d' : Driver}
      (hpc : d.pc = .await (.worker t rest ⟨.done (.busy m), false⟩))
      (hd : d' = { d with returned := d.returned ++ [m], pc := .head rest }) :
      Move cfg c i fresh d (refreshPassDone ((collected c i t (some (.busy m))).holdFrozenMounts [m]) i d') d' none
  | skipped {t : Target} {rest : List Target} (hpc : d.pc = .await (.worker t rest ⟨.done .skipped, false⟩)) :
      Move cfg c i fresh d (collected c i t (some .skipped)) { d with pc := .head rest } none
  | notAuthorized {t : Target} {rest : List Target}
      (hpc : d.pc = .await (.worker t rest ⟨.done .notAuthorized, false⟩)) (ha : d.abort = none) :
      Move cfg c i fresh d (collected c i t (some .notAuthorized)) { d with pc := .decide (.next rest) } none
  | lateResult {t : Target} {rest : List Target} {o : TargetOutcome}
      (hpc : d.pc = .await (.worker t rest ⟨.done o, false⟩)) (ho : o = .notAuthorized ∨ ∃ stop, o = .failed stop)
      (ha : d.abort.isSome) :
      Move cfg c i fresh d (collected c i t (some o)) { d with pc := .head rest } none
  | hardError {t : Target} {rest : List Target} {stop : FreezeStop}
      (hpc : d.pc = .await (.worker t rest ⟨.done (.failed stop), false⟩)) (ha : d.abort = none) :
      Move cfg c i fresh d ((collected c i t (some (.failed stop))).takeFrozenMounts.note (.spawned i .rollback))
        { d with pc := .await (.rollback (.start (.start c.held t.mountpoint stop))) } none
  | removed {k : RemovalFor} {j : Job Removal} {terminal : Terminal} {reply : Except FreezeFailure Nat}
      (hpc : d.pc = .await (.removal k j)) (hk : removedFor k j.lost j.val = some (terminal, reply)) :
      Move cfg c i fresh d ((c.note (.joined i .removal)).note (.removal i j.val.isSome j.lost))
        (d.concludes terminal reply) none
  | rollbackLost {v : Rollback} (hpc : d.pc = .await (.rollback ⟨v, true⟩)) :
      Move cfg c i fresh d (c.note (.joined i .rollback))
        ({ d with uncertain := true, lost := d.lost ++ v.drain.mounts
                  released := d.released ++ v.drain.released }.concludes .frozen (.error (.task .rollback))) none
  | rolledBack {v : Rollback} (hpc : d.pc = .await (.rollback ⟨v, false⟩)) (hf : v.finished = true) :
      Move cfg c i fresh d ((c.note (.joined i .rollback)).holdFrozenMounts v.drain.keep)
        ({ d with released := d.released ++ v.drain.released }.concludes v.terminal (.error v.failure)) none
  -- the settlement
  | commit {terminal : Terminal} {reply : Except FreezeFailure Nat} (hpc : d.pc = .conclude .commit terminal reply) :
      Move cfg c i fresh d (c.modOp i .tryCommit) { d with pc := .conclude (.afterCommit terminal) terminal reply } none
  | finalise {terminal : Terminal} {reply : Except FreezeFailure Nat}
      (hpc : d.pc = .conclude .finalise terminal reply) :
      Move cfg c i fresh d c.onThawed { d with pc := .conclude .retire terminal reply } none
  | retire {terminal : Terminal} {reply : Except FreezeFailure Nat} (hpc : d.pc = .conclude .retire terminal reply) :
      Move cfg c i fresh d (c.retire i) { d with pc := .conclude .scope terminal reply } none
  | scope {terminal : Terminal} {reply : Except FreezeFailure Nat} (hpc : d.pc = .conclude .scope terminal reply) :
      Move cfg c i fresh d { c with scope := d.scopeLeft terminal } { d with pc := .conclude .state terminal reply } none
  | publish {terminal : Terminal} {reply : Except FreezeFailure Nat} (hpc : d.pc = .conclude .state terminal reply)
      (ht : d.token.isSome ∨ (d.token = none ∧ d.thawToken.isSome)) :
      Move cfg c i fresh d
        ({ c with state := terminal.state, owner := none }.note (.published i terminal.state c.snapshot))
        { d with token := none, thawToken := if d.token.isSome then d.thawToken else none
                 pc := .conclude (.afterState terminal) terminal reply } none
  | publishNone {terminal : Terminal} {reply : Except FreezeFailure Nat}
      (hpc : d.pc = .conclude .state terminal reply) (ht : d.token = none) (hth : d.thawToken = none) :
      Move cfg c i fresh d (c.note (.published i c.state c.snapshot))
        { d with pc := .conclude (.afterState terminal) terminal reply } none
  | arm {terminal : Terminal} {reply : Except FreezeFailure Nat} (hpc : d.pc = .conclude .arm terminal reply) :
      Move cfg c i fresh d (c.arm fresh) { d with pc := .conclude (.install fresh) terminal reply }
        (some (.arm cfg c.now))
  | install {terminal : Terminal} {reply : Except FreezeFailure Nat} {w : TaskId}
      (hpc : d.pc = .conclude (.install w) terminal reply) :
      Move cfg c i fresh d (c.install w) { d with pc := .conclude .settled terminal reply } none
  | settle {terminal : Terminal} {reply : Except FreezeFailure Nat} (hpc : d.pc = .conclude .settled terminal reply) :
      Move cfg c i fresh d
        (c.publish i fun p => { p with phase := .settled, inFlight := none, settled := some terminal.state })
        { d with pc := .conclude .reply terminal reply } none
  | reply {terminal : Terminal} {reply : Except FreezeFailure Nat} (hpc : d.pc = .conclude .reply terminal reply)
      (hr : d.reply = true) :
      Move cfg c i fresh d (c.note (.replied i reply)) { d with reply := false, pc := .finished } none
  | replied {terminal : Terminal} {reply : Except FreezeFailure Nat} (hpc : d.pc = .conclude .reply terminal reply)
      (hr : d.reply = false) :
      Move cfg c i fresh d c { d with pc := .finished } none
  -- the blocking tasks
  | call {tr tr' : Tracked} {c' : Ctx} (ht : d.tracked = some tr) (hc : tr.Call c i c' tr') :
      Move cfg c i fresh d c' (d.withTracked tr') none
  | lose {tr : Tracked} (ht : d.tracked = some tr) : Move cfg c i fresh d c (d.withTracked (loseJob tr)) none
  | drain {j : DrainHeld} {m : Mount} {rest : List Mount} {r : Except KernelError Unit} {c' : Ctx}
      (hr : d.recovery = some ⟨j, false⟩) (htodo : j.todo = m :: rest) (h : c.fithaw i m.dev r = some c') :
      Move cfg c i fresh d c' { d with recovery := some ⟨j.fithaw r, false⟩ } none
  | loseDrain {j : Job DrainHeld} (hr : d.recovery = some j) :
      Move cfg c i fresh d c { d with recovery := some ⟨j.val, true⟩ } none

section Inversion

variable {cfg : Config} {c : Ctx} {i fresh : TaskId} {d : Driver}

private theorem not_isSome {α : Type} {o : Option α} (h : ¬ o.isSome = true) : o = none := by
  cases o with
  | none => rfl
  | some _ => exact absurd rfl h

private theorem aborts_move {k : Resume} {stage : AbortStage} (hpc : d.pc = .aborting stage k) :
    Move cfg c i fresh d (aborts cfg c i d k stage).1 (aborts cfg c i d k stage).2 none := by
  cases stage with
  | mark => exact .mark hpc
  | store => exact .store hpc
  | state =>
    cases ht : d.token with
    | none =>
      have h : Move cfg c i fresh d c _ none := .swapNone hpc ht
      simpa only [aborts, ht] using h
    | some token =>
      have h : Move cfg c i fresh d _ _ none := .swap hpc ht
      simpa only [aborts, ht, FreezeState.abortFreeze] using h
  | watchdog => exact .cancel hpc
  | reply =>
    simp only [aborts, sends]
    split
    · rename_i hr
      exact .replyAborted ⟨_, _, _, _, rfl⟩ hpc hr
    · rename_i hr
      exact .replyAbortedNone hpc (by simpa using hr)
  | recover =>
    simp only [aborts, startRecoveryIfNeeded]
    split
    · rename_i hr
      exact .recoverNone hpc (.inl hr)
    · rename_i hr
      split
      · rename_i hh
        exact .recoverNone hpc (.inr (List.isEmpty_iff.1 hh))
      · rename_i hh
        exact .recover hpc (not_isSome hr) (fun h => hh (List.isEmpty_iff.2 h))
  | publish => exact .announce hpc

private theorem concludeStep_move {stage : ConcludeStage} {terminal : Terminal} {reply : Except FreezeFailure Nat}
    (hpc : d.pc = .conclude stage terminal reply) {o : Out Driver}
    (ho : concludeStep cfg c i fresh d terminal reply stage = o) : Move cfg c i fresh d o.ctx o.task o.spawned := by
  subst ho
  cases stage with
  | commit => exact .commit hpc
  | finalise => exact .finalise hpc
  | retire => exact .retire hpc
  | scope => exact .scope hpc
  | state =>
    cases ht : d.token with
    | some token =>
      have h : Move cfg c i fresh d _ _ none := .publish hpc (.inl (by simp [ht]))
      cases terminal <;>
        simpa [concludeStep, publishes, ht, Ctx.snapshot, Terminal.state, FreezeState.freezeSucceeded,
          FreezeState.freezeFailed] using h
    | none =>
      cases hth : d.thawToken with
      | some thaw =>
        have h : Move cfg c i fresh d _ _ none := .publish hpc (.inr ⟨ht, by simp [hth]⟩)
        cases terminal <;>
          simpa [concludeStep, publishes, ht, hth, Ctx.snapshot, Terminal.state, FreezeState.thawSucceeded,
            FreezeState.thawFailed] using h
      | none =>
        have h : Move cfg c i fresh d _ _ none := .publishNone hpc ht hth
        cases terminal <;> simpa [concludeStep, publishes, ht, hth, Ctx.note] using h
  | arm => exact .arm hpc
  | install w => exact .install hpc
  | settled => exact .settle hpc
  | reply =>
    cases hr : d.reply with
    | true =>
      have h : Move cfg c i fresh d _ _ none := .reply hpc hr
      simpa [concludeStep, sends, hr] using h
    | false =>
      have h : Move cfg c i fresh d c _ none := .replied hpc hr
      simpa [concludeStep, sends, hr] using h

private theorem startRecoveryIfNeeded_nil (hh : c.held = []) : startRecoveryIfNeeded c i d = (c, d) := by
  unfold startRecoveryIfNeeded
  split
  · rfl
  · rw [if_pos (List.isEmpty_iff.2 hh)]

private theorem startRecoveryIfNeeded_held (hr : d.recovery = none) (hh : c.held ≠ []) :
    startRecoveryIfNeeded c i d =
      (c.takeFrozenMounts.note (.spawned i .drain), { d with recovery := some (.start (.start c.held)) }) := by
  unfold startRecoveryIfNeeded
  rw [if_neg (by simp [hr]), if_neg (by simpa using hh)]

private theorem joinRecovery_move {j : Job DrainHeld} (hpc : d.pc = .settling ∨ ∃ tr, d.pc = .await tr)
    (hr : d.recovery = some j) (he : drainEnded j = true) :
    Move cfg c i fresh d (joinRecovery c i d j).1 (joinRecovery c i d j).2 none := by
  have hjoin : joinRecovery c i d j =
      (refreshPassDone (startRecoveryIfNeeded (recordRecovery c i d j).1 i (d.recorded j)).1 i
        (startRecoveryIfNeeded (recordRecovery c i d j).1 i (d.recorded j)).2,
       (startRecoveryIfNeeded (recordRecovery c i d j).1 i (d.recorded j)).2) := rfl
  by_cases hh : c.held = []
  · rw [hjoin, startRecoveryIfNeeded_nil (c := (recordRecovery c i d j).1) hh]
    exact .joinDrain hpc hr he hh
  · rw [hjoin, startRecoveryIfNeeded_held (c := (recordRecovery c i d j).1) rfl hh]
    exact .joinDrainRestart hpc hr he hh

private theorem settling_move (hpc : d.pc = .settling) {o : Out Driver} (h : d.go cfg c i fresh = some o) :
    Move cfg c i fresh d o.ctx o.task o.spawned := by
  simp only [go, hpc] at h
  split at h
  · rename_i j hr
    split at h
    · rename_i he
      cases h
      exact joinRecovery_move (.inl hpc) hr he
    · cases h
  · rename_i hr
    by_cases hh : c.held = []
    · rw [startRecoveryIfNeeded_nil hh] at h
      simp only [hr, Option.isSome_none, Bool.false_eq_true, ↓reduceIte] at h
      unfold settleAborted at h
      split at h
      · rename_i hu
        cases h
        exact .settleFrozen hpc hr hh hu
      · rename_i hu
        cases h
        exact .settleRemove hpc hr hh (not_isSome hu)
    · rw [startRecoveryIfNeeded_held hr hh] at h
      cases h
      exact .settleDrain hpc hr hh

private theorem commits_move (hpc : d.pc = .tryCommit) :
    Move cfg c i fresh d (commits c i d).1 (commits c i d).2 none := by
  unfold commits
  split
  · rename_i ho
    simp only
    split
    · rename_i hz
      simp only [Bool.and_eq_true, decide_eq_true_eq, List.isEmpty_iff, Option.isNone_iff_eq_none] at hz
      exact .commitNothing hpc ho hz.1.1 hz.1.2 hz.2
    · rename_i hz
      refine .commitFrozen hpc ho fun hz' => hz ?_
      simp [hz'.1, hz'.2.1, hz'.2.2]
  · exact .abort (.inr (.inr ⟨hpc, rfl⟩))

private theorem go_move {o : Out Driver} (h : d.go cfg c i fresh = some o) :
    Move cfg c i fresh d o.ctx o.task o.spawned := by
  cases hpc : d.pc with
  | head rest =>
    simp only [go, hpc] at h
    split at h
    · rename_i ha
      cases h
      exact .leave hpc ha
    · rename_i ha
      split at h <;> cases h
      · exact .exhaust hpc (not_isSome ha)
      · exact .advance hpc (not_isSome ha)
  | decide b =>
    simp only [go, hpc] at h
    split at h <;> cases h
    · exact .abort (.inl hpc)
    · rename_i ho
      exact .decide hpc ho
  | decideClock b =>
    simp only [go, hpc] at h
    split at h <;> cases h
    · exact .abort (.inr (.inl hpc))
    · rename_i hd
      have hd := Nat.lt_of_not_le hd
      cases b with
      | spawn t rest => exact .spawn hpc hd
      | next rest => exact .resume hpc hd
      | commit => exact .ready hpc hd
  | aborting stage k =>
    simp only [go, hpc] at h
    cases h
    exact aborts_move hpc
  | «await» tr => simp only [go, hpc] at h; cases h
  | tryCommit =>
    simp only [go, hpc] at h
    cases h
    exact commits_move hpc
  | settling => exact settling_move hpc h
  | conclude stage terminal reply =>
    simp only [go, hpc] at h
    exact concludeStep_move hpc (Option.some.inj h)
  | finished => simp only [go, hpc] at h; cases h

private theorem settleBeforeIoctl_move {j : Job Prep} {failure : FreezeFailure} (hpc : d.pc = .await (.prep j))
    (hj : (j.lost = true ∧ failure = .task .preparation) ∨ j = ⟨.done (.error failure), false⟩) :
    Move cfg c i fresh d
      (settleBeforeIoctl ((c.note (.joined i .prep)).note (.prepared i (Prep.ending j))) i d failure).1
      (settleBeforeIoctl ((c.note (.joined i .prep)).note (.prepared i (Prep.ending j))) i d failure).2 none := by
  unfold settleBeforeIoctl
  split
  · rename_i ha
    exact .prepAborted hpc (hj.imp And.left fun h => ⟨failure, h⟩) ha
  · rename_i ha
    split
    · rename_i hf
      exact .prepLost hpc (hj.imp id fun h => ⟨h, hf⟩) (not_isSome ha)
    · rename_i hf
      rcases hj with ⟨-, rfl⟩ | rfl
      · exact absurd rfl hf
      · exact .prepFailed hpc (by simpa using hf) (not_isSome ha)

private theorem worked_move {t : Target} {rest : List Target} {o : TargetOutcome}
    (hpc : d.pc = .await (.worker t rest ⟨.done o, false⟩)) :
    Move cfg c i fresh d (worked (collected c i t (some o)) i d t rest o).1
      (worked (collected c i t (some o)) i d t rest o).2 none := by
  cases o with
  | frozen m => exact .froze hpc rfl
  | busy m => exact .busy hpc rfl
  | skipped => exact .skipped hpc
  | notAuthorized =>
    simp only [worked]
    split
    · rename_i ha
      exact .lateResult hpc (.inl rfl) ha
    · rename_i ha
      exact .notAuthorized hpc (not_isSome ha)
  | failed stop =>
    simp only [worked]
    split
    · rename_i ha
      exact .lateResult hpc (.inr ⟨stop, rfl⟩) ha
    · rename_i ha
      exact .hardError hpc (not_isSome ha)

private theorem join_move {tr : Tracked} (hpc : d.pc = .await tr) {x : Ctx × Driver} (h : join c i d tr = some x) :
    Move cfg c i fresh d x.1 x.2 none := by
  cases tr with
  | prep j =>
    obtain ⟨v, lost⟩ := j
    cases lost with
    | true =>
      cases h
      exact settleBeforeIoctl_move hpc (.inl ⟨rfl, rfl⟩)
    | false =>
      simp only [join, joinPrep, Bool.false_eq_true, ↓reduceIte] at h
      split at h <;> cases h
      · exact .prepared hpc
      · exact settleBeforeIoctl_move hpc (.inr rfl)
  | worker t rest j =>
    obtain ⟨v, lost⟩ := j
    cases lost with
    | true =>
      simp only [join, joinWorker, ↓reduceIte] at h
      split at h <;> cases h
      · rename_i ha
        exact .workerLostAborted hpc ha
      · rename_i ha
        exact .workerLost hpc (not_isSome ha)
    | false =>
      simp only [join, joinWorker, Bool.false_eq_true, ↓reduceIte] at h
      split at h <;> cases h
      exact worked_move hpc
  | removal k j =>
    obtain ⟨y, hy, rfl⟩ := Option.map_eq_some_iff.1 h
    exact .removed hpc hy
  | rollback j =>
    obtain ⟨v, lost⟩ := j
    cases lost with
    | true =>
      cases h
      exact .rollbackLost hpc
    | false =>
      simp only [join, joinRollback, Bool.false_eq_true, ↓reduceIte] at h
      split at h
      · rename_i hf
        cases h
        exact .rolledBack hpc hf
      · cases h

/-- Every step of a freeze operation is one of the moves. -/
theorem step_move {ch : Choice} {o : Out Driver} (h : d.step cfg c i fresh ch = some o) :
    Move cfg c i fresh d o.ctx o.task o.spawned := by
  cases ch with
  | go => exact go_move h
  | abortRequested =>
    simp only [step] at h
    split at h
    · rename_i tr hpc
      split at h <;> cases h
      rename_i harm
      rw [Bool.and_eq_true] at harm
      exact .interrupt hpc harm.1 (.inr rfl)
    · cases h
  | deadline =>
    simp only [step] at h
    split at h
    · rename_i tr hpc
      split at h <;> cases h
      rename_i harm
      rw [Bool.and_eq_true] at harm
      exact .interrupt hpc harm.1 (.inl rfl)
    · cases h
  | recovered =>
    simp only [step] at h
    split at h
    · rename_i tr j hpc hr
      split at h <;> cases h
      rename_i he
      exact joinRecovery_move (.inr ⟨tr, hpc⟩) hr he
    · cases h
  | done =>
    simp only [step] at h
    split at h
    · rename_i tr hpc
      obtain ⟨x, hx, rfl⟩ := Option.map_eq_some_iff.1 h
      exact join_move hpc hx
    · cases h
  | job ans =>
    simp only [step] at h
    split at h
    · rename_i tr ht
      obtain ⟨x, hx, rfl⟩ := Option.map_eq_some_iff.1 h
      exact .call ht (jobCall_call hx)
    · cases h
  | loseJob =>
    simp only [step] at h
    split at h <;> cases h
    rename_i tr ht
    exact .lose ht
  | drain ans =>
    simp only [step] at h
    split at h
    · rename_i j hr
      obtain ⟨x, hx, rfl⟩ := Option.map_eq_some_iff.1 h
      obtain ⟨v, lost⟩ := j
      unfold drainCall at hx
      split at hx
      · split at hx
        · cases hx
        · rename_i hl
          obtain rfl : lost = false := by simpa using hl
          split at hx
          · rename_i m rest htodo
            obtain ⟨c', hc, rfl⟩ := Option.map_eq_some_iff.1 hx
            exact .drain hr htodo hc
          · cases hx
      · cases hx
    · cases h
  | loseDrain =>
    simp only [step] at h
    split at h <;> cases h
    rename_i j hr
    exact .loseDrain hr

end Inversion

end Driver

/-! ### Steps of a thaw -/

/-- A call of the blocking drain of the thaw `i`. -/
inductive ThawBlocking.Call (c : Ctx) (i : TaskId) (j : ThawBlocking) : Ctx → ThawBlocking → Prop
  | discovered (entries : List MountEntry) (hs : j.stage = .table) :
      Call c i j (c.note (.discovered i entries)) (j.plan (.ok entries))
  | undiscovered (message : String) (hs : j.stage = .table) : Call c i j c (j.plan (.error message))
  | opened {t : Target} {path : Path} {paths : List Path} {attempts : Attempts}
      (hs : j.stage = .open t path paths attempts) :
      Call c i j { c with fd := c.fd + 1 } { j with stage := .drain ⟨path, t.dev, c.fd⟩ 0 }
  | notOpened {t : Target} {path : Path} {paths : List Path} {attempts : Attempts} (err : KernelError)
      (hs : j.stage = .open t path paths attempts) : Call c i j c (j.opened t path paths attempts (.error err))
  | fithaw {m : Mount} {n : Nat} {r : Except KernelError Unit} {c' : Ctx} (hs : j.stage = .drain m n)
      (hc : c.fithaw i m.dev r = some c') : Call c i j c' (j.fithaw m n r)
  | unlinked {ans : UnlinkAnswer} {c' : Ctx} {r : Except MarkerError Unit} (hs : j.stage = .unlink)
      (hc : c.unlink ans = some (c', r)) : Call c i j c' (j.removed r)

namespace Thaw

/-- The program points at which a thaw claims the token. -/
def claiming : ThawPc → Bool
  | .claim => true
  | .reclaim _ => true
  | .joinClaim _ => true
  | _ => false

/-- A step of the thaw `i`, or of its blocking drain, in the context `c`. -/
inductive Move (cfg : Config) (c : Ctx) (i fresh : TaskId) : ThawPc → Ctx → ThawPc → Option Dog → Prop
  | win {pc : ThawPc} (hpc : claiming pc = true) (hs : c.state = .frozen ∨ c.state = .thawed) :
      Move cfg c i fresh pc ({ c with state := .thawing, owner := some i }.note (.claimed i ⟨c.state⟩))
        (.claimed ⟨c.state⟩) none
  | refused {err : TransitionError} (hs : c.state = .freezing ∨ c.state = .thawing) :
      Move cfg c i fresh .claim c (.lookup err) none
  | refusedAgain {err : TransitionError} (hs : c.state = .freezing ∨ c.state = .thawing) :
      Move cfg c i fresh (.reclaim err) c (.answer (.error (.cannotThaw err)) none) none
  | refusedJoin {op : TaskId} {err : TransitionError} (hs : c.state = .freezing ∨ c.state = .thawing) :
      Move cfg c i fresh (.joinClaim op) c (.answer (.error (.cannotThaw err)) none) none
  | found {err : TransitionError} {op : TaskId} (hs : c.slot = some op) :
      Move cfg c i fresh (.lookup err) c (.requestAbort op) none
  | notFound {err : TransitionError} (hs : c.slot = none) : Move cfg c i fresh (.lookup err) c (.reclaim err) none
  | accepted {op : TaskId} (ho : (c.ops op).outcome ≠ .committed) :
      Move cfg c i fresh (.requestAbort op) ((c.modOp op .markAborting).note (.requested op .accepted)) (.notify op) none
  | committed {op : TaskId} (ho : (c.ops op).outcome = .committed) :
      Move cfg c i fresh (.requestAbort op) (c.note (.requested op .committed)) (.waitSettled op) none
  | notify {op : TaskId} :
      Move cfg c i fresh (.notify op) (c.modOp op fun o => { o with notified := true }) (.readProgress op) none
  | settled {op : TaskId} (hs : (c.ops op).progress.settled.isSome) :
      Move cfg c i fresh (.waitSettled op) c (.joinClaim op) none
  | readProgress {op : TaskId} :
      Move cfg c i fresh (.readProgress op) c (.answer (joinAnswer (c.ops op).progress) (some op)) none
  | cancel {token : ThawToken} : Move cfg c i fresh (.claimed token) c.onThawClaimed (.take token) none
  | take {token : ThawToken} : Move cfg c i fresh (.take token) c.takeFrozenMounts (.scope token c.held) none
  | begin {token : ThawToken} {held : List Mount} {discover : Bool}
      (hd : discover = (token.isRecoveryDrain || decide (c.scope = .discovery))) :
      Move cfg c i fresh (.scope token held) (c.note (.began i c.snapshot))
        (.blocking token (.start (.start discover held))) none
  | lost {token : ThawToken} {v : ThawBlocking} : Move cfg c i fresh (.blocking token ⟨v, true⟩) c (.lost token) none
  | ended {token : ThawToken} {v : ThawBlocking} {r : Except ThawFailure Nat} (hs : v.stage = .done r) :
      Move cfg c i fresh (.blocking token ⟨v, false⟩) c (.hold token r v.keep) none
  | uncertain {token : ThawToken} :
      Move cfg c i fresh (.lost token) { c with scope := .discovery } (.hold token (.error (.task .thaw)) []) none
  | hold {token : ThawToken} {outcome : Except ThawFailure Nat} {held : List Mount} :
      Move cfg c i fresh (.hold token outcome held) (c.holdFrozenMounts held) (settles token outcome) none
  | finalise {token : ThawToken} {outcome : Except ThawFailure Nat} :
      Move cfg c i fresh (.finalise token outcome) c.onThawed (.rescope token outcome) none
  | rescope {token : ThawToken} {outcome : Except ThawFailure Nat} :
      Move cfg c i fresh (.rescope token outcome) { c with scope := .discovery } (.publish token outcome) none
  | publish {token : ThawToken} {outcome : Except ThawFailure Nat} :
      Move cfg c i fresh (.publish token outcome)
        ({ c with state := .thawed, owner := none }.note (.published i .thawed c.snapshot))
        (.answer (reply outcome) none) none
  | fail {token : ThawToken} {failure : ThawFailure} :
      Move cfg c i fresh (.fail token failure)
        ({ c with state := .frozen, owner := none }.note (.published i .frozen c.snapshot)) (.arm failure) none
  | arm {failure : ThawFailure} :
      Move cfg c i fresh (.arm failure) (c.arm fresh) (.install fresh failure) (some (.arm cfg c.now))
  | install {w : TaskId} {failure : ThawFailure} :
      Move cfg c i fresh (.install w failure) (c.install w) (.answer (.error (.failed failure)) none) none
  | answer {r : Except ThawError Nat} {joined : Option TaskId} :
      Move cfg c i fresh (.answer r joined) (c.note (.answered i r joined)) .finished none
  | call {token : ThawToken} {v v' : ThawBlocking} {c' : Ctx} (hc : v.Call c i c' v') :
      Move cfg c i fresh (.blocking token ⟨v, false⟩) c' (.blocking token ⟨v', false⟩) none
  | lose {token : ThawToken} {v : ThawBlocking} {b : Bool} :
      Move cfg c i fresh (.blocking token ⟨v, b⟩) c (.blocking token ⟨v, true⟩) none

section Inversion

variable {cfg : Config} {c : Ctx} {i fresh : TaskId}

private theorem claims_move {pc : ThawPc} {refused : TransitionError → ThawPc} (hpc : claiming pc = true)
    (hr : ∀ err, c.state = .freezing ∨ c.state = .thawing → Move cfg c i fresh pc c (refused err) none) :
    Move cfg c i fresh pc (claims c i c.state.claimThaw refused).1 (claims c i c.state.claimThaw refused).2 none := by
  cases hs : c.state with
  | thawed =>
    have h : Move cfg c i fresh pc _ _ none := .win hpc (.inr hs)
    simpa only [claims, hs, FreezeState.claimThaw] using h
  | frozen =>
    have h : Move cfg c i fresh pc _ _ none := .win hpc (.inl hs)
    simpa only [claims, hs, FreezeState.claimThaw] using h
  | freezing => exact hr _ (.inl hs)
  | thawing => exact hr _ (.inr hs)

private theorem call_call {v : ThawBlocking} {ans : Answer} {x : Ctx × ThawBlocking} (h : call c i v ans = some x) :
    v.Call c i x.1 x.2 := by
  unfold call at h
  split at h
  · split at h <;> cases h
    · rename_i entries hs
      exact .discovered entries hs
    · rename_i message hs
      exact .undiscovered message hs
  · split at h
    · rename_i t path paths attempts hs
      split at h <;> cases h
      · rename_i m hm
        obtain rfl := openMount_ok hm
        exact .opened hs
      · exact .notOpened _ hs
    · cases h
  · split at h
    · rename_i m n hs
      obtain ⟨c', hc, rfl⟩ := Option.map_eq_some_iff.1 h
      exact .fithaw hs hc
    · cases h
  · split at h
    · rename_i hs
      obtain ⟨y, hy, rfl⟩ := Option.map_eq_some_iff.1 h
      exact .unlinked hs hy
    · cases h
  · cases h

private theorem go_move {pc : ThawPc} {o : Out ThawPc} (h : go cfg c i fresh pc = some o) :
    Move cfg c i fresh pc o.ctx o.task o.spawned := by
  cases pc with
  | claim => cases h; exact claims_move rfl fun _ hs => .refused hs
  | reclaim err => cases h; exact claims_move rfl fun _ hs => .refusedAgain hs
  | joinClaim op => cases h; exact claims_move rfl fun _ hs => .refusedJoin hs
  | lookup err =>
    simp only [go] at h
    split at h <;> cases h
    · rename_i op hs
      exact .found hs
    · rename_i hs
      exact .notFound hs
  | requestAbort op =>
    cases h
    by_cases ho : (c.ops op).outcome = .committed
    · have ha : (c.ops op).abortAnswer = .committed := by simp [FreezeOp.abortAnswer, ho]
      have hm : c.modOp op .markAborting = c := by
        simp [Ctx.modOp, FreezeOp.markAborting, ho]
      simpa only [ha, hm] using Move.committed ho
    · have ha : (c.ops op).abortAnswer = .accepted := by
        unfold FreezeOp.abortAnswer
        split
        · rfl
        · rfl
        · rename_i hc
          exact absurd hc ho
      simpa only [ha] using Move.accepted ho
  | waitSettled op =>
    simp only [go] at h
    split at h <;> cases h
    rename_i hs
    exact .settled hs
  | blocking token j =>
    obtain ⟨v, lost⟩ := j
    cases lost with
    | true => cases h; exact .lost
    | false =>
      simp only [go, Bool.false_eq_true, ↓reduceIte] at h
      split at h <;> cases h
      rename_i r hs
      exact .ended hs
  | notify op => cases h; exact .notify
  | readProgress op => cases h; exact .readProgress
  | claimed token => cases h; exact .cancel
  | take token => cases h; exact .take
  | scope token held => cases h; exact .begin rfl
  | lost token => cases h; exact .uncertain
  | hold token outcome held => cases h; exact .hold
  | finalise token outcome => cases h; exact .finalise
  | rescope token outcome => cases h; exact .rescope
  | publish token outcome => cases h; exact .publish
  | fail token failure => cases h; exact .fail
  | arm failure => cases h; exact .arm
  | install w failure => cases h; exact .install
  | answer r joined => cases h; exact .answer
  | finished => cases h

/-- Every step of a thaw is one of the moves. -/
theorem step_move {pc : ThawPc} {ch : Choice} {o : Out ThawPc} (h : step cfg c i fresh pc ch = some o) :
    Move cfg c i fresh pc o.ctx o.task o.spawned := by
  cases ch with
  | go => exact go_move h
  | job ans =>
    simp only [step] at h
    split at h
    · rename_i token j
      obtain ⟨v, lost⟩ := j
      cases lost with
      | true => cases h
      | false =>
        obtain ⟨x, hx, rfl⟩ := Option.map_eq_some_iff.1 h
        exact .call (call_call hx)
    · cases h
  | lose =>
    simp only [step] at h
    split at h <;> cases h
    exact .lose

end Inversion

end Thaw

/-! ### Steps of any task -/

/-- A step of the task `i` in the context `c`. -/
inductive Task.Move (cfg : Config) (c : Ctx) (i fresh : TaskId) : Task → Ctx → Task → Option Dog → Prop
  | driver {d d' : Driver} {c' : Ctx} {new : Option Dog} (h : Driver.Move cfg c i fresh d c' d' new) :
      Move cfg c i fresh (.driver d) c' (.driver d') new
  | thaw {w : Bool} {pc pc' : ThawPc} {c' : Ctx} {new : Option Dog} (h : Thaw.Move cfg c i fresh pc c' pc' new) :
      Move cfg c i fresh (.thaw w pc) c' (.thaw w pc') new
  | dogPolls {g : Dog} (hs : g.stage = .waiting) (hc : c.cancelled i = false) :
      Move cfg c i fresh (.dog g) c (.dog { g with stage := .polled }) none
  | dogEnds {g : Dog} (hs : g.stage = .waiting) (hc : c.cancelled i = true) :
      Move cfg c i fresh (.dog g) c (.dog { g with stage := .ended }) none
  | dogFires {g : Dog} (hs : g.stage = .polled) (hd : g.hardDeadline ≤ c.now ∨ g.idleDeadline ≤ c.now) :
      Move cfg c i fresh (.dog g) c (.dog { g with stage := .expiring }) none
  | dogRefreshes {g : Dog} (hs : g.stage = .polled) (hr : c.refreshed i = true) :
      Move cfg c i fresh (.dog g) { c with refreshed := Function.update c.refreshed i false }
        (.dog { g with idleDeadline := c.now + cfg.idle, stage := .waiting }) none
  | dogPends {g : Dog} (hs : g.stage = .polled) :
      Move cfg c i fresh (.dog g) c (.dog { g with stage := .waiting }) none
  | dogClaims {g : Dog} (hs : g.stage = .expiring) (hc : c.state = .frozen) :
      Move cfg c i fresh (.dog g) ({ c with state := .thawing, owner := some i }.note (.claimed i ⟨.frozen⟩))
        (.thaw true (.claimed ⟨.frozen⟩)) none
  | dogRefused {g : Dog} (hs : g.stage = .expiring) (hc : c.state ≠ .frozen) :
      Move cfg c i fresh (.dog g) c (.dog { g with stage := .ended }) none
  | statusRead : Move cfg c i fresh (.status .read) c (.status (if c.state = .frozen then .heartbeat else .answered)) none
  | heartbeat {w : TaskId} (hw : c.watchdog = some w) :
      Move cfg c i fresh (.status .heartbeat) { c with refreshed := Function.update c.refreshed w true }
        (.status .answered) none
  | heartbeatNone (hw : c.watchdog = none) : Move cfg c i fresh (.status .heartbeat) c (.status .answered) none
  | startRing : Move cfg c i fresh (.startup .ring) c.onFreezing (.startup .arm) none
  | startArm : Move cfg c i fresh (.startup .arm) (c.arm fresh) (.startup (.install fresh)) (some (.arm cfg c.now))
  | startInstall {w : TaskId} : Move cfg c i fresh (.startup (.install w)) (c.install w) (.startup .finished) none

private theorem Dog.step_move {cfg : Config} {c : Ctx} {i fresh : TaskId} {g : Dog} {ch : Dog.Choice} {x : Ctx × Next}
    (h : g.step cfg c i ch = some x) :
    Task.Move cfg c i fresh (.dog g) x.1 (match x.2 with | .dog g => .dog g | .thaw token => .thaw true (.claimed token))
      none := by
  cases ch with
  | poll =>
    simp only [Dog.step] at h
    split at h <;> cases h
    rename_i hg
    simp only [Bool.and_eq_true, decide_eq_true_eq, Bool.not_eq_true'] at hg
    exact .dogPolls hg.1 hg.2
  | cancelled =>
    simp only [Dog.step] at h
    split at h <;> cases h
    rename_i hg
    simp only [Bool.and_eq_true, decide_eq_true_eq] at hg
    exact .dogEnds hg.1 hg.2
  | fire =>
    simp only [Dog.step] at h
    split at h <;> cases h
    rename_i hg
    simp only [Bool.and_eq_true, Bool.or_eq_true, decide_eq_true_eq] at hg
    exact .dogFires hg.1 hg.2
  | refresh =>
    simp only [Dog.step] at h
    split at h <;> cases h
    rename_i hg
    simp only [Bool.and_eq_true, decide_eq_true_eq] at hg
    exact .dogRefreshes hg.1 hg.2
  | pend =>
    simp only [Dog.step] at h
    split at h <;> cases h
    rename_i hg
    exact .dogPends (by simpa using hg)
  | claim =>
    simp only [Dog.step] at h
    split at h
    · rename_i hg
      cases hs : c.state with
      | frozen =>
        simp only [hs, FreezeState.claimThawFromFrozen] at h
        cases h
        exact .dogClaims hg hs
      | _ =>
        simp only [hs, FreezeState.claimThawFromFrozen] at h
        cases h
        exact .dogRefused hg (by rw [hs]; rintro ⟨⟩)
    · cases h

/-- Every step of a task is one of the moves. -/
theorem Task.step_move {cfg : Config} {c : Ctx} {i fresh : TaskId} {t : Task} {ch : Task.Choice} {o : Out Task}
    (h : t.step cfg c i fresh ch = some o) : Task.Move cfg c i fresh t o.ctx o.task o.spawned := by
  unfold Task.step at h
  split at h
  · obtain ⟨x, hx, rfl⟩ := Option.map_eq_some_iff.1 h
    exact .driver (Driver.step_move hx)
  · obtain ⟨x, hx, rfl⟩ := Option.map_eq_some_iff.1 h
    exact .thaw (Thaw.step_move hx)
  · obtain ⟨x, hx, rfl⟩ := Option.map_eq_some_iff.1 h
    have hm : Task.Move cfg c i fresh _ _ _ none := Dog.step_move hx
    obtain ⟨c', n⟩ := x
    cases n <;> exact hm
  · obtain ⟨x, hx, rfl⟩ := Option.map_eq_some_iff.1 h
    rename_i pc
    cases pc with
    | read => cases hx; exact .statusRead
    | heartbeat =>
      simp only [StatusPc.step] at hx
      split at hx <;> cases hx
      · rename_i w hw
        exact .heartbeat hw
      · rename_i hw
        exact .heartbeatNone hw
    | answered => cases hx
  · obtain ⟨x, hx, rfl⟩ := Option.map_eq_some_iff.1 h
    rename_i pc
    cases pc with
    | ring => cases hx; exact .startRing
    | arm => cases hx; exact .startArm
    | install w => cases hx; exact .startInstall
    | finished => cases hx
  · cases h

/-! ### Steps of the agent -/

/-- What happens to the context without the agent: time passes, or another freezer is at work. -/
inductive Ctx.Env (c : Ctx) : Ctx → Prop
  | tick (n : Nat) : Env c { c with now := c.now + n }
  | foreignFreeze (d : Dev) : Env c { c with depth := Function.update c.depth d (c.depth d + 1) }
  | foreignThaw (d : Dev) (hd : 0 < c.depth d) :
      Env c { c with depth := Function.update c.depth d (c.depth d - 1)
                     own := Function.update c.own d (c.own d && decide (1 < c.depth d)) }

/-- An invariant of a start of the agent. -/
theorem Agent.boot_holds {G : Ctx → TaskId → Prop} {L : Ctx → TaskId → Task → Prop} {c : Ctx} {next : TaskId}
    (hG : G (bootCtx c) (next + 1)) (hL : c.marker = true → L (bootCtx c) next (.startup .ring)) :
    (boot c next).Holds G L := by
  have htasks : ∀ {i t}, (boot c next).tasks i = some t → i = next ∧ c.marker = true ∧ t = .startup .ring := by
    intro i t ht
    by_cases hi : i = next
    · subst hi
      simp only [boot, Function.update_self] at ht
      split at ht <;> cases ht
      rename_i hm
      exact ⟨rfl, hm, rfl⟩
    · simp [boot, Function.update_of_ne hi] at ht
  refine ⟨hG, fun ht => ?_, fun ht => ?_⟩
  · obtain ⟨rfl, hm, rfl⟩ := htasks ht
    exact hL hm
  · obtain ⟨rfl, -, -⟩ := htasks ht
    exact Nat.lt_succ_self _

/-- A step of the agent. -/
inductive Agent.Move (cfg : Config) (a : Agent) : Action → Agent → Prop
  | task {i : TaskId} {ch : Task.Choice} {t t' : Task} {c' : Ctx} {new : Option Dog} (ht : a.tasks i = some t)
      (hm : Task.Move cfg a.ctx i a.next t c' t' new) :
      Move cfg a (.task i ch) (a.apply i c' t' (new.map .dog))
  | freeze (restrict : Option (List Path)) (hs : a.ctx.state = .thawed) :
      Move cfg a (.freeze restrict)
        (a.spawn (freezeCtx cfg a.ctx a.next restrict) (.driver (.start ⟨⟩ restrict a.ctx)))
  | refused (restrict : Option (List Path)) (hs : a.ctx.state ≠ .thawed) : Move cfg a (.freeze restrict) a
  | thaw : Move cfg a .thaw (a.spawn a.ctx (.thaw false .claim))
  | status : Move cfg a .status (a.spawn a.ctx (.status .read))
  | env {act : Action} {c' : Ctx} (he : a.ctx.Env c') (hact : (∀ i ch, act ≠ .task i ch) ∧ act ≠ .crash) :
      Move cfg a act { a with ctx := c' }
  | crash : Move cfg a .crash (boot a.ctx a.next)

/-- Every step of the agent is one of the moves. -/
theorem Agent.step_move {cfg : Config} {a a' : Agent} {act : Action} (hs : Agent.step cfg a act = some a') :
    Agent.Move cfg a act a' := by
  cases act with
  | task i ch =>
    simp only [Agent.step] at hs
    split at hs
    · rename_i t ht
      obtain ⟨o, ho, rfl⟩ := Option.map_eq_some_iff.1 hs
      exact .task ht (Task.step_move ho)
    · cases hs
  | freeze restrict =>
    obtain rfl := Option.some.inj hs
    cases hst : a.ctx.state with
    | thawed =>
      simp only [Agent.freeze, hst, FreezeState.beginFreeze]
      exact .freeze restrict hst
    | _ =>
      simp only [Agent.freeze, hst, FreezeState.beginFreeze]
      exact .refused restrict (by rw [hst]; rintro ⟨⟩)
  | thaw => obtain rfl := Option.some.inj hs; exact .thaw
  | status => obtain rfl := Option.some.inj hs; exact .status
  | tick n => obtain rfl := Option.some.inj hs; exact .env (.tick n) ⟨by rintro i ch ⟨⟩, by rintro ⟨⟩⟩
  | foreignFreeze d => obtain rfl := Option.some.inj hs; exact .env (.foreignFreeze d) ⟨by rintro i ch ⟨⟩, by rintro ⟨⟩⟩
  | foreignThaw d =>
    simp only [Agent.step] at hs
    split at hs <;> cases hs
    rename_i hd
    exact .env (.foreignThaw d hd) ⟨by rintro i ch ⟨⟩, by rintro ⟨⟩⟩
  | crash => obtain rfl := Option.some.inj hs; exact .crash

/-- The rule for an invariant of the agent that depends on a history: what each kind of step has to establish. -/
theorem Agent.holds_step_to {cfg : Config} {a a' : Agent} {act : Action} {G G' : Ctx → TaskId → Prop}
    {L L' : Ctx → TaskId → Task → Prop} (h : a.Holds G L) (hs : Agent.step cfg a act = some a')
    (htask : ∀ i t c' t' new, a.tasks i = some t → Task.Move cfg a.ctx i a.next t c' t' new →
      a'.ctx = c' ∧ a'.tasks i = some t' → G' c' a.next ∧ (∀ n, G' c' n → G' c' (n + 1)) ∧ L' c' i t' ∧
        (∀ g, new = some g → L' c' a.next (.dog g)) ∧
        ∀ j u, j ≠ i → a.tasks j = some u → L a.ctx j u → L' c' j u)
    (hfreeze : ∀ restrict, a.ctx.state = .thawed → a'.ctx = freezeCtx cfg a.ctx a.next restrict →
      G' (freezeCtx cfg a.ctx a.next restrict) (a.next + 1) ∧
        L' (freezeCtx cfg a.ctx a.next restrict) a.next (.driver (.start ⟨⟩ restrict a.ctx)) ∧
        ∀ j u, j < a.next → a.tasks j = some u → L a.ctx j u → L' (freezeCtx cfg a.ctx a.next restrict) j u)
    (hsame : a'.ctx = a.ctx → G' a.ctx a.next ∧ ∀ j u, a.tasks j = some u → L a.ctx j u → L' a.ctx j u)
    (hspawn : a'.ctx = a.ctx →
      G' a.ctx (a.next + 1) ∧ L' a.ctx a.next (.thaw false .claim) ∧ L' a.ctx a.next (.status .read))
    (henv : ∀ c', a.ctx.Env c' → a'.ctx = c' → G' c' a.next ∧ ∀ j u, a.tasks j = some u → L a.ctx j u → L' c' j u)
    (hboot : a'.ctx = bootCtx a.ctx →
      G' (bootCtx a.ctx) (a.next + 1) ∧ (a.ctx.marker = true → L' (bootCtx a.ctx) a.next (.startup .ring))) :
    a'.Holds G' L' := by
  cases Agent.step_move hs with
  | @task i ch t t' c' new ht hm =>
    have hself : (a.apply i c' t' (new.map .dog)).tasks i = some t' := Pool.apply_self (Nat.ne_of_lt (h.bound ht))
    obtain ⟨hG, hsucc, hL, hnew, hother⟩ := htask i t _ _ _ ht hm ⟨by simp, hself⟩
    refine h.apply ht ?_ hL ?_ hother
    · cases new with
      | none => exact hG
      | some g => exact hsucc _ hG
    · intro u hu
      obtain ⟨g, hg, rfl⟩ := Option.map_eq_some_iff.1 hu
      exact hnew g hg
  | freeze restrict hst =>
    obtain ⟨hG, hL, hother⟩ := hfreeze restrict hst rfl
    exact h.spawn hG hL hother
  | refused => exact ⟨(hsame rfl).1, fun ht => (hsame rfl).2 _ _ ht (h.loc ht), h.bound⟩
  | thaw => exact h.spawn (hspawn rfl).1 (hspawn rfl).2.1 fun j u _ => (hsame rfl).2 j u
  | status => exact h.spawn (hspawn rfl).1 (hspawn rfl).2.2 fun j u _ => (hsame rfl).2 j u
  | env he =>
    obtain ⟨hG, hother⟩ := henv _ he rfl
    exact h.withCtx hG hother
  | crash => exact boot_holds (hboot rfl).1 (hboot rfl).2

/-- The rule for an invariant of the agent: what each kind of step has to keep. -/
theorem Agent.holds_step {cfg : Config} {a a' : Agent} {act : Action} {G : Ctx → TaskId → Prop}
    {L : Ctx → TaskId → Task → Prop} (h : a.Holds G L) (hs : Agent.step cfg a act = some a')
    (htask : ∀ i t c' t' new, a.tasks i = some t → Task.Move cfg a.ctx i a.next t c' t' new →
      a'.ctx = c' ∧ a'.tasks i = some t' → G c' a.next ∧ (∀ n, G c' n → G c' (n + 1)) ∧ L c' i t' ∧
        (∀ g, new = some g → L c' a.next (.dog g)) ∧
        ∀ j u, j ≠ i → a.tasks j = some u → L a.ctx j u → L c' j u)
    (hfreeze : ∀ restrict, a.ctx.state = .thawed → a'.ctx = freezeCtx cfg a.ctx a.next restrict →
      G (freezeCtx cfg a.ctx a.next restrict) (a.next + 1) ∧
        L (freezeCtx cfg a.ctx a.next restrict) a.next (.driver (.start ⟨⟩ restrict a.ctx)) ∧
        ∀ j u, j < a.next → a.tasks j = some u → L a.ctx j u → L (freezeCtx cfg a.ctx a.next restrict) j u)
    (hspawn : G a.ctx (a.next + 1) ∧ L a.ctx a.next (.thaw false .claim) ∧ L a.ctx a.next (.status .read))
    (henv : ∀ c', a.ctx.Env c' → a'.ctx = c' → G c' a.next ∧ ∀ j u, a.tasks j = some u → L a.ctx j u → L c' j u)
    (hboot : a'.ctx = bootCtx a.ctx →
      G (bootCtx a.ctx) (a.next + 1) ∧ (a.ctx.marker = true → L (bootCtx a.ctx) a.next (.startup .ring))) :
    a'.Holds G L :=
  holds_step_to h hs htask hfreeze (fun _ => ⟨h.glob, fun _ _ _ hL => hL⟩) (fun _ => hspawn) henv hboot

end Qeminga
