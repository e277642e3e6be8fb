import Qeminga.Contract.FreezeReply
import Qeminga.Contract.ThawCompleteness

/-!
# The settlement of a freeze operation

An operation that is never aborted and loses no task walks over its targets in reverse mount order, up to the first
one that fails.  Without a failure it settles `Frozen` with the handles of its frozen and busy targets, or, if there are
none, removes the marker and settles `Thawed`.  After a failure every published handle is drained once, and only a
complete rollback settles `Thawed`.  The invariant `Driver.settles` follows the driver from point to point; what it
speaks of is collected in a `View`, which no other task can change before the settlement is published.
-/

namespace Qeminga

/-! ### What the history says of an operation -/

/-- The handle that the attempt handed over. -/
def TargetOutcome.handle? : TargetOutcome → Option Mount
  | .frozen m => some m
  | .busy m => some m
  | _ => none

/-- The handles of the targets that the attempts found frozen or busy, in order. -/
def handles (ps : List (Target × Option TargetOutcome)) : List Mount :=
  ps.filterMap fun p => p.2.bind TargetOutcome.handle?

/-- The attempt ended, with anything but a failure. -/
def Passed (p : Target × Option TargetOutcome) : Prop := ∃ o, p.2 = some o ∧ ∀ stop, o ≠ .failed stop

/-- The ends of the preparation of the operation `op`. -/
def prepEnds (log : List Event) (op : TaskId) : List PrepEnd :=
  log.filterMap fun e =>
    match e with
    | .prepared i how => if i = op then some how else none
    | _ => none

/-- The `FITHAW` calls of the task `op` with their answers, in order. -/
def thawCalls (log : List Event) (op : TaskId) : List (Dev × Except KernelError Unit) :=
  (log.filterMap fun e =>
    match e with
    | .fithaw i d r => if i = op then some (d, r) else none
    | _ => none).reverse

/-- The answers to the calls of a drain of one handle, from its first call on. -/
inductive Answers : List (Except KernelError Unit) → Draining → Prop
  | nil : Answers [] (.going 0)
  | snoc {rs : List (Except KernelError Unit)} {n : Nat} (r : Except KernelError Unit) :
      Answers rs (.going n) → Answers (rs ++ [r]) (drainCall n r)

/-- The calls are one drain of each of the handles, in order; `kept` are those whose drain did not complete. -/
inductive Drains : List Mount → List (Dev × Except KernelError Unit) → List Mount → Prop
  | nil : Drains [] [] []
  | complete {ms kept : List Mount} {calls : List (Dev × Except KernelError Unit)} {m : Mount}
      {rs : List (Except KernelError Unit)} {res : Drained} (h : Drains ms calls kept)
      (hrs : Answers rs (.ended res)) (hres : res.incomplete = none) :
      Drains (ms ++ [m]) (calls ++ rs.map fun r => (m.dev, r)) kept
  | incomplete {ms kept : List Mount} {calls : List (Dev × Except KernelError Unit)} {m : Mount}
      {rs : List (Except KernelError Unit)} {res : Drained} (h : Drains ms calls kept)
      (hrs : Answers rs (.ended res)) (hres : res.incomplete.isSome) :
      Drains (ms ++ [m]) (calls ++ rs.map fun r => (m.dev, r)) (kept ++ [m])

/-! ### A pass over the handles -/

/-- A pass over `ms` that stands at `j` after the calls: the handles before `j.todo` are drained, the first of `j.todo`
is being drained. -/
structure Pass (ms : List Mount) (calls : List (Dev × Except KernelError Unit)) (j : DrainHeld) : Prop where
  drains : ∃ done older rs, done ++ j.todo = ms ∧ Drains done older j.keep ∧ Answers rs (.going j.successes) ∧
    calls = older ++ j.todo.head?.toList.flatMap fun m => rs.map fun r => (m.dev, r)
  incomplete : j.keep = [] ↔ j.incomplete = none

theorem Pass.start (held : List Mount) : Pass held.reverse [] (.start held) :=
  ⟨⟨[], [], [], rfl, .nil, .nil, by simp⟩, by simp [DrainHeld.start]⟩

/-- One more `FITHAW` of the pass. -/
theorem Pass.fithaw {ms rest : List Mount} {calls : List (Dev × Except KernelError Unit)} {j : DrainHeld} {m : Mount}
    (h : Pass ms calls j) (htodo : j.todo = m :: rest) (r : Except KernelError Unit) :
    Pass ms (calls ++ [(m.dev, r)]) (j.fithaw r) := by
  obtain ⟨⟨done, older, rs, hms, hd, hrs, rfl⟩, hinc⟩ := h
  simp only [htodo, List.head?_cons, Option.toList_some, List.flatMap_singleton, List.append_assoc] at hms ⊢
  have hnext := hrs.snoc r
  have hcalls : (rs.map fun r => (m.dev, r)) ++ [(m.dev, r)] = (rs ++ [r]).map fun r => (m.dev, r) := by simp
  rw [hcalls]
  unfold DrainHeld.fithaw
  rw [htodo]
  cases hcall : drainCall j.successes r with
  | going n =>
    rw [hcall] at hnext
    exact ⟨⟨done, older, rs ++ [r], by simpa [htodo] using hms, hd, hnext, by simp⟩, hinc⟩
  | ended res =>
    rw [hcall] at hnext
    simp only [DrainHeld.settle]
    cases hres : res.incomplete with
    | some reason =>
      refine ⟨⟨done ++ [m], _, [], by simpa using hms, hd.incomplete hnext (by simp [hres]), .nil, by simp⟩, ?_⟩
      simp
    | none =>
      exact ⟨⟨done ++ [m], _, [], by simpa using hms, hd.complete hnext hres, .nil, by simp⟩, hinc⟩

/-- A pass with nothing left to do has drained every handle. -/
theorem Pass.finished {ms : List Mount} {calls : List (Dev × Except KernelError Unit)} {j : DrainHeld}
    (h : Pass ms calls j) (htodo : j.todo = []) : Drains ms calls j.keep := by
  obtain ⟨done, older, rs, hms, hd, -, rfl⟩ := h.drains
  simp only [htodo, List.append_nil, List.head?_nil, Option.toList_none, List.flatMap_nil] at hms ⊢
  exact hms ▸ hd

/-! ### What the operation and its token see -/

/-- What the operation `op` has done so far, and what its token guards. -/
structure View where
  prepared : List PrepEnd
  attempts : List (Target × Option TargetOutcome)
  calls : List (Dev × Except KernelError Unit)
  held : List Mount
  marker : Bool
  scope : ThawScope

def Ctx.view (c : Ctx) (op : TaskId) : View :=
  ⟨prepEnds c.log op, attempts c.log op, thawCalls c.log op, c.held, c.marker, c.scope⟩

/-- The walk has attempted targets of the plan, none of which failed, and has `rest` to attempt. -/
structure Going (v : View) (frozen : Nat) (rest : List Target) : Prop where
  plan : ∃ plan, v.prepared = [.prepared plan] ∧ v.attempts.map Prod.fst ++ rest = plan.freezeOrder
  passed : ∀ p ∈ v.attempts, Passed p
  held : v.held = handles v.attempts
  count : frozen = (frozenDevs v.attempts).length
  calls : v.calls = []

/-- The walk has ended at the target `t`, which failed. -/
structure Stopped (v : View) (before : List (Target × Option TargetOutcome)) (t : Target) (stop : FreezeStop) : Prop where
  plan : ∃ plan rest, v.prepared = [.prepared plan] ∧ v.attempts.map Prod.fst ++ rest = plan.freezeOrder
  attempts : v.attempts = before ++ [(t, some (.failed stop))]
  passed : ∀ p ∈ before, Passed p

/-- Whether the marker is there, where it was before the removal. -/
def markerLeft : Removal → Bool
  | none => true
  | some (.ok _) => false
  | some (.error .absent) => false
  | some (.error _) => true

/-- The rollback of a walk that has ended at a failed target. -/
structure Rolling (v : View) (j : Rollback) : Prop where
  walk : ∃ before t stop, Stopped v before t stop ∧ Pass (handles before).reverse v.calls j.drain ∧
    j.failed = t.mountpoint ∧ j.cause = stop
  held : v.held = []
  marker : v.marker = markerLeft j.removed

/-- The state that the operation settles in, and its reply. -/
inductive Settles (v : View) : FreezeState → Except FreezeFailure Nat → Prop
  | nothing {n : Nat} (hg : Going v n []) (hh : v.held = []) (hm : v.marker = false) : Settles v .thawed (.ok 0)
  | retained {n : Nat} {err : MarkerError} (hg : Going v n []) (hh : v.held = []) (he : err ≠ .absent)
      (hm : v.marker = true) : Settles v .frozen (.error (.nothingFrozenMarkerRetained err))
  | froze {n : Nat} (hg : Going v n []) (hh : v.held ≠ []) (hm : v.marker = true) : Settles v .frozen (.ok n)
  | rolledBack {before : List (Target × Option TargetOutcome)} {t : Target} {stop : FreezeStop}
      (hs : Stopped v before t stop) (hd : Drains (handles before).reverse v.calls v.held) (hh : v.held = [])
      (hm : v.marker = false) : Settles v .thawed (.error (.hard t.mountpoint stop))
  | unremoved {before : List (Target × Option TargetOutcome)} {t : Target} {stop : FreezeStop} {err : MarkerError}
      (hs : Stopped v before t stop) (hd : Drains (handles before).reverse v.calls v.held) (hh : v.held = [])
      (he : err ≠ .absent) (hm : v.marker = true) :
      Settles v .frozen (.error (.markerRetained (some t.mountpoint) stop err))
  | incomplete {before : List (Target × Option TargetOutcome)} {t : Target} {stop : FreezeStop} {m : Path}
      {reason : Reason} (hs : Stopped v before t stop) (hd : Drains (handles before).reverse v.calls v.held)
      (hh : v.held ≠ []) (hm : v.marker = true) :
      Settles v .frozen (.error (.rollbackIncomplete t.mountpoint stop m reason))

/-- The preparation did not succeed. -/
def Unprepared (v : View) : Prop := ∀ plan, .prepared plan ∉ v.prepared

/-- The targets that are left to attempt at a decision boundary. -/
def Boundary.rest : Boundary → List Target
  | .spawn t rest => t :: rest
  | .next rest => rest
  | .commit => []

/-- What the view of an operation that began without handles satisfies at the program point `pc` of its driver. -/
def Driver.settles (v : View) (d : Driver) : Pc → Prop
  | .head rest => Going v d.frozen rest ∧ v.marker = true
  | .decide b => Going v d.frozen b.rest ∧ v.marker = true
  | .decideClock b => Going v d.frozen b.rest ∧ v.marker = true
  | .tryCommit => Going v d.frozen [] ∧ v.marker = true
  | .await (.prep j) =>
    v.prepared = [] ∧ v.attempts = [] ∧ v.calls = [] ∧ v.held = [] ∧ d.frozen = 0 ∧ (j.val.created = true → v.marker = true)
  | .await (.worker t rest _) => Going v d.frozen (t :: rest) ∧ v.marker = true
  | .await (.removal .nothingFrozen j) => Going v d.frozen [] ∧ v.held = [] ∧ v.marker = markerLeft j.val
  | .await (.removal (.beforeIoctl _) _) => Unprepared v
  | .await (.rollback j) => Rolling v j.val
  | .conclude .arm _ _ => True
  | .conclude (.install _) _ _ => True
  | .conclude .settled _ _ => True
  | .conclude .reply _ _ => True
  | .conclude .state terminal reply => Unprepared v ∨ (Settles v terminal.state reply ∧ v.scope = d.scopeLeft terminal)
  | .conclude _ terminal reply => Unprepared v ∨ Settles v terminal.state reply
  | _ => True

/-! ### Undisturbed operations -/

def Tracked.lost : Tracked → Bool
  | .prep j => j.lost
  | .worker _ _ j => j.lost
  | .removal _ j => j.lost
  | .rollback j => j.lost

/-- The operation is not aborted, and the task it waits for is not lost. -/
structure Driver.Undisturbed (d : Driver) : Prop where
  abort : d.abort = none
  lost : ∀ tr, d.tracked = some tr → tr.lost = false

/-- The runs in which the operation `op` is never aborted and loses no task. -/
def Undisturbed (op : TaskId) (_ : Agent) (_ : Action) (a' : Agent) : Prop :=
  ∀ d, a'.tasks op = some (.driver d) → d.Undisturbed

namespace Settlement

variable {cfg : Config} {c c' : Ctx} {i j fresh : TaskId} {d d' : Driver} {new : Option Dog} {v : View}

/-- The walk goes on with the outcome of its next target. -/
private theorem Going.attempt {t : Target} {rest : List Target} {n : Nat} (h : Going v n (t :: rest)) {o : TargetOutcome}
    (ho : ∀ stop, o ≠ .failed stop) :
    Going { v with attempts := v.attempts ++ [(t, some o)], held := v.held ++ o.handle?.toList }
      (n + (frozenDevs [(t, some o)]).length) rest := by
  obtain ⟨plan, hprep, horder⟩ := h.plan
  refine ⟨⟨plan, hprep, by simpa using horder⟩, fun p hp => ?_, ?_, ?_, h.calls⟩
  · rcases List.mem_append.1 hp with hp | hp
    · exact h.passed p hp
    · obtain rfl := List.mem_singleton.1 hp
      exact ⟨o, rfl, ho⟩
  · simp only [handles, List.filterMap_append, h.held, List.filterMap_cons, List.filterMap_nil, Option.bind_some]
    cases o.handle? <;> rfl
  · simp [h.count]

/-- The next target of the walk has failed. -/
private theorem Going.stop {t : Target} {rest : List Target} {n : Nat} (h : Going v n (t :: rest)) (stop : FreezeStop) :
    Stopped { v with attempts := v.attempts ++ [(t, some (.failed stop))], held := [] } v.attempts t stop := by
  obtain ⟨plan, hprep, horder⟩ := h.plan
  exact ⟨⟨plan, rest, hprep, by simpa using horder⟩, rfl, h.passed⟩

/-- The views of a walk differ in nothing that it speaks of. -/
private theorem Going.congr {n : Nat} {rest : List Target} (h : Going v n rest) {v' : View} (hp : v'.prepared = v.prepared)
    (ha : v'.attempts = v.attempts) (hc : v'.calls = v.calls) (hh : v'.held = v.held) : Going v' n rest := by
  refine ⟨?_, ?_, ?_, ?_, ?_⟩
  · rw [hp, ha]; exact h.plan
  · rw [ha]; exact h.passed
  · rw [ha, hh]; exact h.held
  · rw [ha]; exact h.count
  · rw [hc]; exact h.calls

/-- An unlink of the marker that was there. -/
private theorem view_unlink {ans : UnlinkAnswer} {r : Except MarkerError Unit} (h : c.unlink ans = some (c', r))
    (hm : c.marker = true) : c'.view i = { c.view i with marker := markerLeft (some r) } := by
  rcases Ctx.unlink_cases h with ⟨-, rfl, rfl⟩ | ⟨hf, rfl, rfl⟩ | ⟨e, rfl, rfl⟩
  · rfl
  · rw [hm] at hf
    cases hf
  · simp [Ctx.view, markerLeft, hm]

@[simp] theorem prepEnds_prepared (log : List Event) (op : TaskId) (how : PrepEnd) :
    prepEnds (.prepared op how :: log) op = how :: prepEnds log op := by
  simp [prepEnds]

@[simp] theorem thawCalls_fithaw (log : List Event) (op : TaskId) (x : Dev) (r : Except KernelError Unit) :
    thawCalls (.fithaw op x r :: log) op = thawCalls log op ++ [(x, r)] := by
  simp [thawCalls]

private theorem view_fithaw {x : Dev} {r : Except KernelError Unit} (h : c.fithaw i x r = some c') :
    c'.view i = { c.view i with calls := (c.view i).calls ++ [(x, r)] } := by
  rcases Ctx.fithaw_cases h with ⟨-, -, rfl⟩ | ⟨err, -, rfl⟩ <;>
    simp [Ctx.view, Ctx.note, prepEnds, attempts]

/-- A call of the awaited task. -/
private theorem settles_call {tr tr' : Tracked} (hc : tr.Call c i c' tr') (h : d.settles (c.view i) (.await tr)) :
    d.settles (c'.view i) (.await tr') := by
  have hprep : ∀ {u u' : Prep}, (u'.created = true → u.created = true) → d.settles (c.view i) (.await (.prep ⟨u, false⟩)) →
      d.settles (c.view i) (.await (.prep ⟨u', false⟩)) := by
    rintro u u' hu ⟨h₁, h₂, h₃, h₄, h₅, h₆⟩
    exact ⟨h₁, h₂, h₃, h₄, h₅, fun h => h₆ (hu h)⟩
  cases hc with
  | planned restrict entries => exact hprep (fun h => by cases h) h
  | planFailed restrict message => exact hprep (fun h => by cases h) h
  | created plan hm =>
    obtain ⟨h₁, h₂, h₃, h₄, h₅, -⟩ := h
    exact ⟨h₁, h₂, h₃, h₄, h₅, fun _ => rfl⟩
  | alreadyPresent plan hm => exact hprep (fun h => by cases h) h
  | openFailed plan e => exact hprep (fun h => by cases h) h
  | synced plan => exact hprep (fun _ => rfl) h
  | syncFailed plan e => exact hprep (fun _ => rfl) h
  | fifreeze t rest m aborted clock r =>
    have hv : (c.fifreeze i m.dev aborted clock r).view i = c.view i := by
      rcases c.fifreeze_cases i m.dev aborted clock r with ⟨-, he⟩ | ⟨err, -, he⟩ <;> rw [he] <;> rfl
    show d.settles ((c.fifreeze i m.dev aborted clock r).view i) _
    rw [hv]
    exact h
  | removed k hu =>
    cases k with
    | nothingFrozen =>
      obtain ⟨hg, hh, hm⟩ := h
      show d.settles (c'.view i) _
      rw [view_unlink hu hm]
      exact ⟨Going.congr hg rfl rfl rfl rfl, hh, rfl⟩
    | beforeIoctl failure =>
      rcases Ctx.unlink_cases hu with ⟨-, -, rfl⟩ | ⟨-, -, rfl⟩ | ⟨e, -, rfl⟩ <;> exact h
    | aborted => trivial
  | @rollbackDrains j m rest r c' htodo hc =>
    obtain ⟨⟨before, t, stop, hs, hpass, hf, hcause⟩, hh, hm⟩ := h
    show d.settles (c'.view i) _
    rw [view_fithaw hc]
    exact ⟨⟨before, t, stop, ⟨hs.plan, hs.attempts, hs.passed⟩, hpass.fithaw htodo r, hf, hcause⟩, hh, hm⟩
  | @rollbackUnlinks j ans c' r hj hc =>
    obtain ⟨⟨before, t, stop, hs, hpass, hf, hcause⟩, hh, hm⟩ := h
    have hnone := (j.unlinks_iff.1 hj).2.2
    have hmark : c.marker = true := by
      have hm : c.marker = markerLeft j.removed := hm
      rw [hm, hnone]
      rfl
    show d.settles (c'.view i) _
    rw [view_unlink hc hmark]
    exact ⟨⟨before, t, stop, ⟨hs.plan, hs.attempts, hs.passed⟩, hpass, hf, hcause⟩, hh, rfl⟩
  | _ => exact h

/-- A removal that was answered settles the operation. -/
private theorem settles_removed {r : Removal} {terminal : Terminal} {reply : Except FreezeFailure Nat} {n : Nat}
    (hk : Driver.removedFor .nothingFrozen false r = some (terminal, reply)) (hg : Going v n []) (hh : v.held = [])
    (hm : v.marker = markerLeft r) : Settles v terminal.state reply := by
  cases r with
  | none => cases hk
  | some r =>
    cases r with
    | ok u =>
      cases hk
      exact .nothing hg hh hm
    | error err =>
      cases err with
      | absent =>
        cases hk
        exact .nothing hg hh hm
      | alreadyPresent =>
        cases hk
        exact .retained hg hh (fun h => by cases h) hm
      | io mop e =>
        cases hk
        exact .retained hg hh (fun h => by cases h) hm

/-- A rollback that has finished settles the operation. -/
private theorem settles_rolledBack {w : Rollback} (h : Rolling v w) (hw : w.WF) (hf : w.finished = true) :
    Settles { v with held := w.drain.keep } w.terminal.state (.error w.failure) := by
  obtain ⟨⟨before, t, stop, hs, hpass, hfail, hcause⟩, -, hm⟩ := h
  have hs : Stopped { v with held := w.drain.keep } before t stop := ⟨hs.plan, hs.attempts, hs.passed⟩
  simp only [Rollback.finished, Bool.and_eq_true, List.isEmpty_iff, Bool.or_eq_true] at hf
  have hd : Drains (handles before).reverse v.calls w.drain.keep := hpass.finished hf.1
  cases hinc : w.drain.incomplete with
  | some x =>
    -- a drain did not complete, so that the marker was not touched
    have hnone : w.removed = none := by
      by_contra hr
      have := (hw.removed (Option.isSome_iff_ne_none.2 hr)).2
      rw [hinc] at this
      cases this
    have hfailure : w.failure = .rollbackIncomplete t.mountpoint stop x.1 x.2 := by
      simp only [Rollback.failure, hinc, hfail, hcause]
    have hterm : w.terminal = .frozen := by
      simp [Rollback.terminal, hfailure, FreezeFailure.retainsFrozenState]
    have hkeep : w.drain.keep ≠ [] := fun h => by
      rw [hpass.incomplete.1 h] at hinc
      cases hinc
    rw [hfailure, hterm]
    exact .incomplete hs hd hkeep (by rw [hm, hnone]; rfl)
  | none =>
    have hkeep : w.drain.keep = [] := hpass.incomplete.2 hinc
    have hrem : w.removed.isSome = true := by simpa [hinc] using hf.2
    obtain ⟨r, hr⟩ := Option.isSome_iff_exists.1 hrem
    have hdone : markerLeft (some r) = false → w.failure = .hard t.mountpoint stop →
        Settles { v with held := w.drain.keep } w.terminal.state (.error w.failure) := by
      intro hleft hfailure
      have hterm : w.terminal = .thawed := by
        simp [Rollback.terminal, hfailure, FreezeFailure.retainsFrozenState, FreezeFailure.isTask]
      rw [hfailure, hterm]
      exact .rolledBack hs hd hkeep (by rw [hm, hr, hleft])
    have hfailed : ∀ err, r = .error err → err ≠ .absent →
        Settles { v with held := w.drain.keep } w.terminal.state (.error w.failure) := by
      rintro err rfl herr
      have hfailure : w.failure = .markerRetained (some t.mountpoint) stop err := by
        cases err with
        | absent => exact absurd rfl herr
        | _ => simp only [Rollback.failure, hinc, hr, hfail, hcause]
      have hterm : w.terminal = .frozen := by
        simp [Rollback.terminal, hfailure, FreezeFailure.retainsFrozenState]
      rw [hfailure, hterm]
      refine .unremoved hs hd hkeep herr ?_
      rw [hm, hr]
      cases err with
      | absent => exact absurd rfl herr
      | _ => rfl
    cases r with
    | ok u => exact hdone rfl (by simp only [Rollback.failure, hinc, hr, hfail, hcause])
    | error err =>
      by_cases herr : err = .absent
      · subst herr
        exact hdone rfl (by simp only [Rollback.failure, hinc, hr, hfail, hcause])
      · exact hfailed err rfl herr

/-- An operation that is not aborted runs no recovery drain. -/
theorem recovery_eq_none (hw : d.WF) (ha : d.abort = none) : d.recovery = none := by
  have hopen : Driver.Open d ∨ Driver.Recovering d → d.recovery = none := fun h =>
    (Driver.open_of_abort h ha).recovery
  have hp := hw.phase
  cases hpc : d.pc with
  | head rest => rw [hpc] at hp; exact hopen hp
  | decide b => rw [hpc] at hp; exact hopen (.inl hp)
  | decideClock b => rw [hpc] at hp; exact hopen (.inl hp)
  | tryCommit => rw [hpc] at hp; exact hopen (.inl hp)
  | aborting stage k =>
    rw [hpc] at hp
    cases stage with
    | publish => exact hopen (.inr hp.1)
    | _ => exact Driver.Aborting.recovery hp.1
  | «await» tr =>
    rw [hpc] at hp
    cases tr with
    | prep j => exact hopen hp
    | worker t rest j => exact hopen hp
    | removal k j =>
      cases k with
      | aborted => exact hp.2.1
      | _ => exact hopen (.inl hp)
    | rollback j => exact hopen (.inl hp)
  | settling => rw [hpc] at hp; exact hopen (.inr hp)
  | conclude stage terminal reply =>
    rw [hpc] at hp
    cases stage <;> first | exact Driver.Concluding.recovery hp | exact Driver.Concluded.recovery hp
  | finished => rw [hpc] at hp; exact hp.2.2.2

/-- What the walk found frozen has a handle. -/
private theorem frozenDevs_eq_nil {ps : List (Target × Option TargetOutcome)} (h : handles ps = []) : frozenDevs ps = [] := by
  simp only [handles, frozenDevs, List.filterMap_eq_nil_iff] at h ⊢
  intro p hp
  have := h p hp
  split
  · next m hm =>
    rw [hm] at this
    cases this
  · rfl

/-- The settlement does not depend on the scope that it leaves. -/
private theorem Settles.withScope {st : FreezeState} {reply : Except FreezeFailure Nat} (h : Settles v st reply)
    (scope : ThawScope) : Settles { v with scope := scope } st reply := by
  cases h with
  | nothing hg hh hm => exact .nothing (Going.congr hg rfl rfl rfl rfl) hh hm
  | retained hg hh he hm => exact .retained (Going.congr hg rfl rfl rfl rfl) hh he hm
  | froze hg hh hm => exact .froze (Going.congr hg rfl rfl rfl rfl) hh hm
  | rolledBack hs hd hh hm => exact .rolledBack ⟨hs.plan, hs.attempts, hs.passed⟩ hd hh hm
  | unremoved hs hd hh he hm => exact .unremoved ⟨hs.plan, hs.attempts, hs.passed⟩ hd hh he hm
  | incomplete hs hd hh hm => exact .incomplete ⟨hs.plan, hs.attempts, hs.passed⟩ hd hh hm

/-- A preparation that reports a failure has not succeeded. -/
theorem ending_error (failure : FreezeFailure) (plan : FreezePlan) :
    Prep.ending ⟨.done (.error failure), false⟩ ≠ .prepared plan := by
  intro h
  unfold Prep.ending at h
  simp only [Bool.false_eq_true, ↓reduceIte] at h
  split at h
  · next heq => cases heq
  all_goals cases h

/-- Every step of an undisturbed driver that leads to an undisturbed one keeps what it has settled so far. -/
private theorem settles_move (hm : Driver.Move cfg c i fresh d c' d' new) (hw : d.WF) (hq : d.Undisturbed)
    (hq' : d'.Undisturbed) (h : d.settles (c.view i) d.pc) : d'.settles (c'.view i) d'.pc := by
  have hat : ∀ {pc : Pc}, d.pc = pc → d.settles (c.view i) pc := fun hpc => hpc ▸ h
  have habort : ∀ {p : Prop}, d.abort.isSome → p := fun ha => by rw [hq.abort] at ha; cases ha
  have hlost : ∀ {p : Prop} {tr : Tracked}, d.pc = .await tr → tr.lost = true → p := fun {p tr} hpc hl => by
    rw [hq.lost tr (by simp [Driver.tracked, hpc])] at hl
    cases hl
  have hrec : ∀ {p : Prop} {j : Job DrainHeld}, d.recovery = some j → p := fun {p j} hr => by
    rw [recovery_eq_none hw hq.abort] at hr
    cases hr
  cases hm
  case leave ha => exact habort ha
  case exhaust hpc ha => exact hat hpc
  case advance hpc ha => exact hat hpc
  case decide hpc ho => exact hat hpc
  case spawn hpc hd => exact hat hpc
  case resume hpc hd => exact hat hpc
  case ready hpc hd => exact hat hpc
  case abort => cases hq'.abort
  case interrupt => cases hq'.abort
  case announce k hpc => exact habort (Driver.Recovering.abort (hw.at hpc).1)
  case joinDrain hr _ _ => exact hrec hr
  case joinDrainRestart hr _ _ => exact hrec hr
  case settleDrain hpc hr hh => exact habort (Driver.Recovering.abort (hw.at hpc))
  case settleFrozen hpc hr hh hu => exact habort (Driver.Recovering.abort (hw.at hpc))
  case settleRemove hpc hr hh hu => exact habort (Driver.Recovering.abort (hw.at hpc))
  case commitNothing hpc ho hz hh hu =>
    obtain ⟨hg, hmark⟩ := hat hpc
    exact ⟨hg, hh, hmark⟩
  case commitFrozen hpc ho hz =>
    obtain ⟨hg, hmark⟩ := hat hpc
    refine .inr (.froze hg (fun hh => hz ⟨?_, hh, Driver.Open.unrecoverable (hw.at hpc)⟩) hmark)
    rw [hg.count, frozenDevs_eq_nil (hg.held.symm.trans hh)]
    rfl
  case prepared plan hpc =>
    obtain ⟨hprep, hatt, hcalls, hheld, hz, hmark⟩ := hat hpc
    have hv : ((((c.note (.joined i .prep)).note (.prepared i (.prepared plan))).publish i fun p =>
        { p with inFlight := none }).view i).prepared = .prepared plan :: (c.view i).prepared := prepEnds_prepared _ _ _
    refine ⟨⟨⟨plan, by rw [hv, hprep], ?_⟩, ?_, ?_, ?_, hcalls⟩, hmark rfl⟩
    · show (c.view i).attempts.map Prod.fst ++ plan.freezeOrder = plan.freezeOrder
      rw [hatt]
      rfl
    · show ∀ p ∈ (c.view i).attempts, Passed p
      simp [hatt]
    · show (c.view i).held = handles (c.view i).attempts
      rw [hheld, hatt]
      rfl
    · show d.frozen = (frozenDevs (c.view i).attempts).length
      rw [hz, hatt]
      rfl
  case prepAborted hpc hj ha => exact habort ha
  case prepLost j failure hpc hj ha =>
    rcases hj with ⟨hl, -⟩ | ⟨rfl, htask⟩
    · exact hlost hpc hl
    · have hwf : failure.isTask = false := hw.trackedAt hpc
      rw [htask] at hwf
      cases hwf
  case prepFailed failure hpc hf ha =>
    obtain ⟨hprep, -⟩ := hat hpc
    refine .inl fun plan hmem => ?_
    have hv : (((c.note (.joined i .prep)).note (.prepared i (Prep.ending ⟨.done (.error failure), false⟩))).view i).prepared
        = Prep.ending ⟨.done (.error failure), false⟩ :: (c.view i).prepared := prepEnds_prepared _ _ _
    rw [hv, hprep, List.mem_singleton] at hmem
    exact ending_error failure plan hmem.symm
  case workerLostAborted hpc ha => exact habort ha
  case workerLost hpc ha => exact hlost hpc rfl
  case froze t rest m hpc hd =>
    subst hd
    obtain ⟨hg, hmark⟩ := hat hpc
    have hg := Going.attempt hg (o := .frozen m) (fun _ h => by cases h)
    refine ⟨Going.congr hg rfl ?_ rfl rfl, hmark⟩
    exact attempts_attempted t (some (.frozen m))
  case busy t rest m hpc hd =>
    subst hd
    obtain ⟨hg, hmark⟩ := hat hpc
    have hg := Going.attempt hg (o := .busy m) (fun _ h => by cases h)
    refine ⟨Going.congr hg rfl ?_ rfl rfl, hmark⟩
    exact attempts_attempted t (some (.busy m))
  case skipped t rest hpc =>
    obtain ⟨hg, hmark⟩ := hat hpc
    have hg := Going.attempt hg (o := .skipped) (fun _ h => by cases h)
    refine ⟨Going.congr hg rfl ?_ rfl ?_, hmark⟩
    · exact attempts_attempted t (some .skipped)
    · exact (List.append_nil _).symm
  case notAuthorized t rest hpc ha =>
    obtain ⟨hg, hmark⟩ := hat hpc
    have hg := Going.attempt hg (o := .notAuthorized) (fun _ h => by cases h)
    refine ⟨Going.congr hg rfl ?_ rfl ?_, hmark⟩
    · exact attempts_attempted t (some .notAuthorized)
    · exact (List.append_nil _).symm
  case lateResult hpc ho ha => exact habort ha
  case hardError t rest stop hpc ha =>
    obtain ⟨hg, hmark⟩ := hat hpc
    have hs := Going.stop hg stop
    have ha : attempts (.attempted i t (some (.failed stop)) :: .joined i (.worker t) :: c.log) i =
        (c.view i).attempts ++ [(t, some (.failed stop))] := attempts_attempted t (some (.failed stop))
    refine ⟨⟨(c.view i).attempts, t, stop, ⟨?_, ha, hs.passed⟩, ?_, rfl, rfl⟩, rfl, hmark⟩
    · obtain ⟨plan, rest, hp, ho⟩ := hs.plan
      exact ⟨plan, rest, hp, by rw [← ho]; exact congrArg (fun x => x.map Prod.fst ++ rest) ha⟩
    · have hheld : c.held = handles (c.view i).attempts := hg.held
      have hcalls : (c.view i).calls = [] := hg.calls
      show Pass (handles (c.view i).attempts).reverse (c.view i).calls (.start c.held)
      rw [hcalls, ← hheld]
      exact Pass.start c.held
  case removed k j terminal reply hpc hk =>
    have hl : j.lost = false := hq.lost (.removal k j) (by simp [Driver.tracked, hpc])
    rw [hl] at hk
    have h := hat hpc
    cases k with
    | nothingFrozen => exact .inr (settles_removed hk (Going.congr h.1 rfl rfl rfl rfl) h.2.1 h.2.2)
    | beforeIoctl failure => exact .inl h
    | aborted => exact habort (Driver.Recovering.abort (hw.at hpc).1)
  case rollbackLost hpc => exact hlost hpc rfl
  case rolledBack w hpc hf =>
    have hr : Rolling (c.view i) w := hat hpc
    have hheld : c.held = [] := hr.held
    have hv : ((c.note (.joined i .rollback)).holdFrozenMounts w.drain.keep).view i =
        { c.view i with held := w.drain.keep } := by
      have : c.held ++ w.drain.keep = w.drain.keep := by rw [hheld, List.nil_append]
      exact congrArg (fun held => { c.view i with held := held }) this
    refine .inr ?_
    rw [hv]
    exact settles_rolledBack hr (hw.trackedAt hpc) hf
  case commit terminal reply hpc =>
    have h := hat hpc
    cases terminal <;> exact h
  case finalise hpc => exact hat hpc
  case retire hpc =>
    have hv : (c.retire i).view i = c.view i := by simp [Ctx.view]
    show Unprepared ((c.retire i).view i) ∨ Settles ((c.retire i).view i) _ _
    rw [hv]
    exact hat hpc
  case scope terminal reply hpc =>
    rcases hat hpc with h | h
    · exact .inl h
    · exact .inr ⟨Settles.withScope h _, rfl⟩
  case publish terminal reply hpc ht => cases terminal <;> trivial
  case publishNone terminal reply hpc ht hth => cases terminal <;> trivial
  case call tr tr' ht hc =>
    rcases Driver.tracked_cases ht with ⟨hpc, he⟩ | ⟨stage, -, he⟩ <;> rw [he]
    · exact settles_call hc (hat hpc)
    · trivial
  case lose tr ht =>
    have hl : (d.withTracked (Driver.loseJob tr)).tracked = some (Driver.loseJob tr) := by
      rcases Driver.tracked_cases ht with ⟨hpc, he⟩ | ⟨stage, -, he⟩ <;> rw [he] <;> rfl
    have := hq'.lost _ hl
    cases tr <;> cases this
  case drain hr _ _ => exact hrec hr
  case loseDrain hr => exact hrec hr
  all_goals trivial

/-- Nothing but a task that is lost makes the scope of an operation that is not aborted uncertain. -/
private theorem certain_move (hm : Driver.Move cfg c i fresh d c' d' new) (hw : d.WF) (hq : d.Undisturbed) :
    d'.stale = d.stale ∧ (d.uncertain = false → d'.uncertain = false) := by
  have hlost : ∀ {p : Prop} {tr : Tracked}, d.pc = .await tr → tr.lost = true → p := fun {p tr} hpc hl => by
    rw [hq.lost tr (by simp [Driver.tracked, hpc])] at hl
    cases hl
  have hrec : ∀ {p : Prop} {j : Job DrainHeld}, d.recovery = some j → p := fun {p j} hr => by
    rw [recovery_eq_none hw hq.abort] at hr
    cases hr
  cases hm
  case joinDrain hr _ _ => exact hrec hr
  case joinDrainRestart hr _ _ => exact hrec hr
  case workerLostAborted hpc _ => exact hlost hpc rfl
  case workerLost hpc _ => exact hlost hpc rfl
  case rollbackLost hpc => exact hlost hpc rfl
  case froze hd => subst hd; exact ⟨rfl, id⟩
  case busy hd => subst hd; exact ⟨rfl, id⟩
  all_goals exact ⟨rfl, id⟩

structure DriverLoc (c : Ctx) (i : TaskId) (d : Driver) : Prop where
  settles : d.stale = [] → d.settles (c.view i) d.pc
  stale : ∀ restrict now, .started i restrict now ∈ c.log → now.held = d.stale
  quiet : d.Undisturbed
  certain : d.uncertain = false

def Loc (op : TaskId) (c : Ctx) (i : TaskId) : Task → Prop
  | .driver d => i = op → DriverLoc c i d
  | _ => True

/-- What the others record is not part of the view. -/
theorem prepEnds_append {log more : List Event} {op : TaskId} (hby : ∀ e ∈ more, e.author ≠ some op) :
    prepEnds (more ++ log) op = prepEnds log op := by
  unfold prepEnds
  rw [List.filterMap_append, List.filterMap_eq_nil_iff.2, List.nil_append]
  intro e he
  have := hby e he
  cases e with
  | prepared k how => exact if_neg fun hk => this (by rw [hk]; rfl)
  | _ => rfl

private theorem thawCalls_append {log more : List Event} {op : TaskId} (hby : ∀ e ∈ more, e.author ≠ some op) :
    thawCalls (more ++ log) op = thawCalls log op := by
  unfold thawCalls
  rw [List.filterMap_append, List.filterMap_eq_nil_iff.2, List.nil_append]
  intro e he
  have := hby e he
  cases e with
  | fithaw k x r => exact if_neg fun hk => this (by rw [hk]; rfl)
  | _ => rfl

private theorem view_eq {more : List Event} (hn : c'.log = more ++ c.log) (hby : ∀ e ∈ more, e.author ≠ some j)
    (hh : c'.held = c.held) (hm : c'.marker = c.marker) (hs : c'.scope = c.scope) : c'.view j = c.view j := by
  have ha : attempts (more ++ c.log) j = attempts c.log j :=
    attempts_append fun e he t o heq => hby e he (by rw [heq]; rfl)
  simp only [Ctx.view, hn, prepEnds_append hby, thawCalls_append hby, ha, hh, hm, hs]

/-- Once the settlement is published there is nothing left to say. -/
private theorem settles_published (h : d.pc.published = true) : d.settles v d.pc := by
  cases hpc : d.pc with
  | conclude stage terminal reply =>
    rw [hpc] at h
    cases stage <;> trivial
  | finished => trivial
  | _ =>
    rw [hpc] at h
    cases h

/-- The driver of another operation is not disturbed by a step of the task `i`. -/
private theorem DriverLoc.other {t t' : Task} (hm : Task.Move cfg c i fresh t c' t' new) {n : TaskId}
    (hg : Tokens.Glob c n) (ht : Tokens.Loc c i t) (hj : j ≠ i) (hu : Tokens.Loc c j (.driver d)) (h : DriverLoc c j d) :
    DriverLoc c' j d := by
  refine ⟨fun hst => ?_, fun restrict now he => h.stale restrict now (hm.of_started he), h.quiet, h.certain⟩
  cases hp : d.pc.published with
  | true => exact settles_published hp
  | false =>
    have hw : d.WF := hu.wf
    have hown : c.owner = some j := by
      have htok := hw.token_iff
      rw [hp] at htok
      exact hu.owner.1 htok
    have hf := hm.frame hg ht
    have hguard := hf.guarded j hj hown
    obtain ⟨more, hn, hby⟩ := hf.log
    have hv : c'.view j = c.view j :=
      view_eq hn (fun e he ha => hj (hby e he j ha)) (congrArg Guarded.held hguard) (congrArg Guarded.marker hguard)
        (congrArg Guarded.scope hguard)
    rw [hv]
    exact h.settles hst

/-- An undisturbed operation settles as it should, at every point of every run. -/
theorem reach {op : TaskId} {a : Agent} (h : Machine.Reach (Agent.step cfg) (Undisturbed op) Agent.Initial a) :
    a.Holds (fun _ _ => True) (Loc op) := by
  refine h.invariant (fun a h => ?_) (fun a act a' hr ih hs hok => ?_)
  · obtain ⟨c, n, rfl⟩ := h.booted
    exact Agent.boot_holds trivial fun _ => trivial
  · have htok := Tokens.reach hr
    have hreg := (Registry.reach hr).glob
    refine Agent.holds_step ih hs ?_ ?_ ⟨trivial, trivial, trivial⟩ ?_ fun _ => ⟨trivial, fun _ => trivial⟩
    · rintro i t c' t' new ht hm ⟨-, hself⟩
      refine ⟨trivial, fun _ => id, ?_, fun g _ => trivial, fun j u hj hu hl => ?_⟩
      · cases hm with
        | @driver d d' _ _ hd =>
          rintro rfl
          have hl : DriverLoc a.ctx i d := ih.loc ht rfl
          have hw : d.WF := (htok.loc ht).wf
          obtain ⟨hstale, hcertain⟩ := certain_move hd hw hl.quiet
          refine ⟨fun h0 => ?_, fun restrict now he => ?_, hok d' hself, hcertain hl.certain⟩
          · exact settles_move hd hw hl.quiet (hok d' hself) (hl.settles (hstale ▸ h0))
          · rw [hstale]
            exact hl.stale restrict now (Task.Move.of_started (.driver hd) he)
        | _ => trivial
      · cases u with
        | driver d => exact fun hop => DriverLoc.other hm htok.glob (htok.loc ht) hj (htok.loc hu) (hl hop)
        | _ => trivial
    · intro restrict hst _
      have hn : (Agent.freezeCtx cfg a.ctx a.next restrict).log =
          [.spawned a.next .prep, .started a.next restrict a.ctx.snapshot] ++ a.ctx.log := rfl
      have hunheard : ∀ e ∈ a.ctx.log, e.author ≠ some a.next := fun e he => hreg.unheard he
      refine ⟨trivial, fun _ => ⟨fun h0 => ?_, fun r now he => ?_, ⟨rfl, fun tr h => by cases h; rfl⟩, rfl⟩, fun j u hj hu hl => ?_⟩
      · have hv : a.ctx.view a.next = { a.ctx with log := [] }.view a.next :=
          view_eq (List.append_nil _).symm hunheard rfl rfl rfl
        exact ⟨congrArg View.prepared hv, congrArg View.attempts hv, congrArg View.calls hv, h0, rfl, fun h => by cases h⟩
      · rcases List.mem_append.1 (hn ▸ he) with he | he
        · have he : Event.started a.next r now = .started a.next restrict a.ctx.snapshot := by simpa using he
          cases he
          rfl
        · exact absurd rfl (hunheard _ he)
      · have hne : j ≠ a.next := Nat.ne_of_lt hj
        cases u with
        | driver d =>
          intro hop
          have hl : DriverLoc a.ctx j d := hl hop
          refine ⟨fun _ => ?_, fun r now he => hl.stale r now ?_, hl.quiet, hl.certain⟩
          · cases hp : d.pc.published with
            | true => exact settles_published hp
            | false => exact absurd hst ((htok.loc hu).not_thawed hp)
          · refine (List.mem_append.1 (hn ▸ he)).resolve_left fun he => ?_
            simp [hne] at he
        | _ => trivial
    · intro c' he _
      have hsame : c'.log = a.ctx.log ∧ c'.held = a.ctx.held ∧ c'.marker = a.ctx.marker ∧ c'.scope = a.ctx.scope := by
        cases he <;> simp
      obtain ⟨hlog, hheld, hmark, hscope⟩ := hsame
      refine ⟨trivial, fun j u hu hl => ?_⟩
      cases u with
      | driver d =>
        intro hop
        have hl : DriverLoc a.ctx j d := hl hop
        have hv : c'.view j = a.ctx.view j := by simp only [Ctx.view, hlog, hheld, hmark, hscope]
        exact ⟨fun h0 => hv ▸ hl.settles h0, fun r now he => hl.stale r now (hlog ▸ he), hl.quiet, hl.certain⟩
      | _ => trivial

/-! ### The reply -/

/-- The operation `op` has published its settlement, and replies `reply` or has done so. -/
structure Replies (op : TaskId) (reply : Except FreezeFailure Nat) (a : Agent) : Prop where
  old : op < a.next
  said : ∀ r, .replied op r ∈ a.ctx.log → r = reply
  driver : ∀ t, a.tasks op = some t → ∃ d, t = .driver d ∧
    ((d.pc = .finished ∧ .replied op reply ∈ a.ctx.log) ∨
      (d.reply = true ∧ d.pc.published = true ∧ ∃ stage terminal, d.pc = .conclude stage terminal reply))

/-- A step of the driver after its publication. -/
private theorem replies_driver {reply : Except FreezeFailure Nat} (hm : Driver.Move cfg c i fresh d c' d' new) (hw : d.WF)
    (hr : d.reply = true) (hp : d.pc.published = true) (hpc : ∃ stage terminal, d.pc = .conclude stage terminal reply) :
    (d'.pc = .finished ∧ c'.log = .replied i reply :: c.log) ∨
      (c'.log = c.log ∧ d'.reply = true ∧ d'.pc.published = true ∧ ∃ stage terminal, d'.pc = .conclude stage terminal reply) := by
  obtain ⟨stage, terminal, hpc⟩ := hpc
  have hnone : d.recovery = none := by
    cases hrec : d.recovery with
    | none => rfl
    | some j =>
      rw [hw.not_published_of_recovery hrec] at hp
      cases hp
  cases hm
  case arm hpc' =>
    rw [hpc'] at hpc
    cases hpc
    exact .inr ⟨rfl, hr, rfl, _, _, rfl⟩
  case install hpc' =>
    rw [hpc'] at hpc
    cases hpc
    exact .inr ⟨by simp, hr, rfl, _, _, rfl⟩
  case settle hpc' =>
    rw [hpc'] at hpc
    cases hpc
    exact .inr ⟨rfl, hr, rfl, _, _, rfl⟩
  case reply hpc' hr' =>
    rw [hpc'] at hpc
    cases hpc
    exact .inl ⟨rfl, rfl⟩
  case replied hr' => rw [hr] at hr'; cases hr'
  case abort hpc' => rcases hpc' with h | h | ⟨h, -⟩ <;> rw [h] at hpc <;> cases hpc
  case joinDrain hr' _ _ => rw [hnone] at hr'; cases hr'
  case joinDrainRestart hr' _ _ => rw [hnone] at hr'; cases hr'
  case drain hr' _ _ => rw [hnone] at hr'; cases hr'
  case loseDrain hr' => rw [hnone] at hr'; cases hr'
  case call ht _ => simp [Driver.tracked, hpc] at ht
  case lose ht => simp [Driver.tracked, hpc] at ht
  all_goals
    rw [‹d.pc = _›] at hp
    cases hp

/-- A reply that was not there is that of the task that recorded it. -/
private theorem replied_old {t t' : Task} (hm : Task.Move cfg c i fresh t c' t' new) {op : TaskId} (hi : op ≠ i)
    {r : Except FreezeFailure Nat} (he : .replied op r ∈ c'.log) : .replied op r ∈ c.log :=
  (hm.grows.log.mem_or he).resolve_right fun hby => hi (hby op rfl)

/-- The reply of a published settlement is kept by every step of the agent. -/
private theorem Replies.step {op : TaskId} {reply : Except FreezeFailure Nat} {a a' : Agent} {act : Action}
    (hs : Agent.step cfg a act = some a') (htok : a.Holds Tokens.Glob Tokens.Loc) (h : Replies op reply a) :
    Replies op reply a' := by
  have hkeep : ∀ {n : TaskId} {ctx : Ctx}, a.next ≤ n → (∀ r, .replied op r ∈ ctx.log ↔ .replied op r ∈ a.ctx.log) →
      ∀ tasks : Nat → Option Task, (∀ t, tasks op = some t → a.tasks op = some t) → Replies op reply ⟨ctx, tasks, n⟩ := by
    intro n ctx hn hlog tasks htasks
    refine ⟨Nat.lt_of_lt_of_le h.old hn, fun r he => h.said r ((hlog r).1 he), fun t ht => ?_⟩
    obtain ⟨d, rfl, hd⟩ := h.driver t (htasks t ht)
    exact ⟨d, rfl, hd.imp_left fun h => ⟨h.1, (hlog _).2 h.2⟩⟩
  have hspawn : ∀ {ctx : Ctx} {t : Task}, (∀ r, .replied op r ∈ ctx.log ↔ .replied op r ∈ a.ctx.log) →
      Replies op reply (a.spawn ctx t) := fun hlog =>
    hkeep (Nat.le_succ _) hlog _ fun u hu => by rwa [Function.update_of_ne (Nat.ne_of_lt h.old)] at hu
  cases Agent.step_move hs with
  | @task i ch t t' c' new ht hm =>
    by_cases hi : op = i
    · subst hi
      obtain ⟨d, rfl, hd⟩ := h.driver t ht
      cases hm with
      | @driver _ d' _ _ hm =>
        have hw : d.WF := (htok.loc ht).wf
        have hself : (a.apply op c' (.driver d') (new.map .dog)).tasks op = some (.driver d') :=
          Pool.apply_self (Nat.ne_of_lt h.old)
        have hold : op < (a.apply op c' (.driver d') (new.map .dog)).next :=
          Nat.lt_of_lt_of_le h.old (a.le_apply_next _ _ _ _)
        rcases hd with ⟨hfin, -⟩ | ⟨hr, hp, hpc⟩
        · exact absurd hfin (FreezeReply.not_finished hm hw)
        · rcases replies_driver hm hw hr hp hpc with ⟨hfin, hlog⟩ | ⟨hlog, hd'⟩
          · refine ⟨hold, fun r he => ?_, fun t ht' => ⟨d', ?_, .inl ⟨hfin, ?_⟩⟩⟩
            · rw [Pool.apply_ctx, hlog] at he
              rcases List.mem_cons.1 he with he | he
              · cases he
                rfl
              · exact h.said r he
            · rw [hself] at ht'
              exact (Option.some.inj ht').symm
            · rw [Pool.apply_ctx, hlog]
              exact List.mem_cons_self
          · refine ⟨hold, fun r he => h.said r ?_, fun t ht' => ⟨d', ?_, .inr hd'⟩⟩
            · rwa [Pool.apply_ctx, hlog] at he
            · rw [hself] at ht'
              exact (Option.some.inj ht').symm
    · have hlog : ∀ r, .replied op r ∈ c'.log ↔ .replied op r ∈ a.ctx.log := fun r =>
        ⟨replied_old hm hi, hm.grows.log.mem⟩
      have hp := hkeep (a.le_apply_next i c' t' (new.map .dog)) hlog (a.apply i c' t' (new.map .dog)).tasks fun u hu => by
        rwa [Pool.apply_of_ne hi (Nat.ne_of_lt h.old)] at hu
      have he : a.apply i c' t' (new.map .dog) = ⟨c', (a.apply i c' t' (new.map .dog)).tasks,
          (a.apply i c' t' (new.map .dog)).next⟩ := by
        cases new <;> rfl
      rw [he]
      exact hp
  | freeze restrict hst => exact hspawn fun r => by simp [Agent.freezeCtx]
  | refused => exact h
  | thaw => exact hspawn fun _ => Iff.rfl
  | status => exact hspawn fun _ => Iff.rfl
  | env he => exact hkeep (Nat.le_refl _) (fun r => by cases he <;> rfl) a.tasks fun _ => id
  | crash =>
    refine @hkeep _ (Agent.bootCtx a.ctx) (Nat.le_succ _) (fun r => Iff.rfl) _ fun t ht => ?_
    rw [Function.update_of_ne (Nat.ne_of_lt h.old)] at ht
    cases ht

/-- The one step that publishes the settlement of `op`. -/
theorem publishing {op : TaskId} {a a' : Agent} {act : Action} {ok : Agent → Action → Agent → Prop}
    (h : Machine.Reach (Agent.step cfg) ok Agent.Initial a) (hs : Agent.step cfg a act = some a') (hst : Started a.ctx op)
    {st : FreezeState} {now : Snapshot} (hpub : .published op st now ∈ news a.ctx a'.ctx) :
    ∃ d terminal reply, a.tasks op = some (.driver d) ∧ d.WF ∧ d.pc = .conclude .state terminal reply ∧ op < a'.next ∧
      a'.ctx = { a.ctx with state := terminal.state, owner := none }.note
        (.published op terminal.state a.ctx.snapshot) ∧
      a'.tasks op = some (.driver { d with token := none, thawToken := none
                                           pc := .conclude (.afterState terminal) terminal reply }) := by
  have htok := Tokens.reach h
  have hnone : ∀ {p : Prop} {more : List Event}, a'.ctx.log = more ++ a.ctx.log → (∀ e ∈ more, e.isVerdict = false) → p := by
    intro p more hn hv
    rw [news_eq hn] at hpub
    cases hv _ hpub
  cases Agent.step_move hs with
  | @task i ch t t' c' new ht hm =>
    rw [Pool.apply_ctx] at hpub hnone
    obtain ⟨more, hn, hby⟩ := hm.grows.log
    rw [news_eq hn] at hpub
    obtain rfl : op = i := hby _ hpub op rfl
    obtain ⟨d, rfl⟩ := Registry.driver_of_started h hst ht
    cases hm with
    | @driver _ d' _ _ hm =>
      have hw : d.WF := (htok.loc ht).wf
      rcases hm.verdict with ⟨hp, hp'⟩ | ⟨more', hn', hv⟩
      · obtain ⟨terminal, reply, hpc, hc', hd'⟩ := hm.publication hw hp hp'
        have hlt := htok.bound ht
        refine ⟨d, terminal, reply, ht, hw, hpc, Nat.lt_of_lt_of_le hlt (a.le_apply_next _ _ _ _), ?_, ?_⟩
        · rw [Pool.apply_ctx]
          exact hc'
        · rw [← hd']
          exact Pool.apply_self (Nat.ne_of_lt hlt)
      · exact hnone hn' hv
  | freeze restrict hst' =>
    have hn : (a.spawn (Agent.freezeCtx cfg a.ctx a.next restrict) (.driver (.start ⟨⟩ restrict a.ctx))).ctx.log =
        [.spawned a.next .prep, .started a.next restrict a.ctx.snapshot] ++ a.ctx.log := rfl
    exact hnone hn (by simp [Event.isVerdict])
  | refused => exact hnone (List.nil_append _).symm (by simp)
  | thaw => exact hnone (List.nil_append _).symm (by simp)
  | status => exact hnone (List.nil_append _).symm (by simp)
  | env he => cases he <;> exact hnone (List.nil_append _).symm (by simp)
  | crash => exact hnone (List.nil_append _).symm (by simp)

/-- The settlement has just been published, and the request has no reply yet. -/
theorem Replies.of_publication {op : TaskId} {a a' : Agent} {ok : Agent → Action → Agent → Prop}
    (h : Machine.Reach (Agent.step cfg) ok Agent.Initial a) {terminal : Terminal} {reply : Except FreezeFailure Nat}
    (ht : a.tasks op = some (.driver d)) (hw : d.WF) (hpc : d.pc = .conclude .state terminal reply) (ha : d.abort = none)
    (hold : op < a'.next) (hlog : a'.ctx.log = [.published op terminal.state a.ctx.snapshot] ++ a.ctx.log)
    (htask : a'.tasks op = some (.driver { d with token := none, thawToken := none
                                                  pc := .conclude (.afterState terminal) terminal reply })) :
    Replies op reply a' := by
  have hreply : d.reply = true := by
    rcases (hw.at hpc : Driver.Concluding d).tokens with ⟨-, -, -, hr⟩ | ⟨hab, -⟩
    · exact hr
    · rw [ha] at hab
      cases hab
  have hrep : Decided.DriverLoc a.ctx op d := (Decided.reach h).loc ht
  have hnone : ∀ r, .replied op r ∉ a.ctx.log := by
    intro r he
    have hz := hrep.replies
    rw [hreply, if_pos rfl, replies, List.countP_eq_zero] at hz
    exact hz _ he (by simp [Event.isReply])
  refine ⟨hold, fun r he => ?_, fun t ht => ?_⟩
  · rw [hlog] at he
    exact absurd ((List.mem_append.1 he).resolve_left (by simp)) (hnone r)
  · rw [htask] at ht
    cases ht
    exact ⟨_, rfl, .inr ⟨hreply, by cases terminal <;> rfl, _, _, rfl⟩⟩

/-- From its publication on, an operation has given no other reply, and has given it once its driver has finished. -/
theorem Replies.run {op : TaskId} {reply : Except FreezeFailure Nat} {a b : Agent} {ok : Agent → Action → Agent → Prop}
    (h : Machine.Reach (Agent.step cfg) ok Agent.Initial a) (hr : Replies op reply a)
    (hb : Machine.Steps (Agent.step cfg) ok a b) :
    (∀ r, .replied op r ∈ b.ctx.log → r = reply) ∧
      ∀ d, b.tasks op = some (.driver d) → d.pc = .finished → .replied op reply ∈ b.ctx.log := by
  have hb := h.invariant_from hb hr fun s act t hr ih hs _ => ih.step hs (Tokens.reach hr)
  refine ⟨hb.said, fun d ht hfin => ?_⟩
  obtain ⟨d', he, hd'⟩ := hb.driver _ ht
  cases he
  rcases hd' with ⟨-, hmem⟩ | ⟨-, -, stage, terminal, hpc⟩
  · exact hmem
  · rw [hfin] at hpc
    cases hpc

end Settlement

/-! ### The result -/

open Settlement in
/-- In every run in which the operation `op` is never aborted and loses no task, began with no handle held, and created
its marker for `plan`, at the step that publishes its settlement: it has attempted the targets in reverse mount order,
up to the first that failed; and (a) without a failed, frozen or busy target the marker is removed, the state is
`Thawed` and the reply `Ok(0)`, or the removal failed and the state is `Frozen`; (b) without a failed target but with a
frozen or busy one the state is `Frozen`, the marker is kept, the scope is `Tracked`, the held handles are those of
these targets, and the reply counts the frozen ones; (c) after a failed target every handle was drained once, those
whose drain did not complete are held, and the state is `Thawed` with the marker removed exactly if there are none and
the removal did not fail.  The reply `r` is the one that the request gets. -/
theorem settlement_classified {cfg : Config} {op : TaskId} {a a' : Agent} {act : Action}
    (h : Machine.Reach (Agent.step cfg) (Undisturbed op) Agent.Initial a) (hs : Agent.step cfg a act = some a')
    (hok : Undisturbed op a act a') {restrict : Option (List Path)} {s₀ : Snapshot}
    (hst : .started op restrict s₀ ∈ a.ctx.log) (h₀ : s₀.held = []) {plan : FreezePlan}
    (hprep : .prepared op (.prepared plan) ∈ a.ctx.log) {st : FreezeState} {now : Snapshot}
    (hpub : .published op st now ∈ news a.ctx a'.ctx) :
    a'.ctx.state = st ∧
    (∃ rest, (attempts a'.ctx.log op).map Prod.fst ++ rest = plan.targets.reverse ∧
      ((rest = [] ∧ ∀ p ∈ attempts a'.ctx.log op, Passed p) ∨
        ∃ before t stop, attempts a'.ctx.log op = before ++ [(t, some (.failed stop))] ∧ ∀ p ∈ before, Passed p)) ∧
    ∃ r,
      (((∀ p ∈ attempts a'.ctx.log op, Passed p) ∧ handles (attempts a'.ctx.log op) = [] ∧
          ((st = .thawed ∧ a'.ctx.marker = false ∧ r = .ok 0) ∨
            (st = .frozen ∧ a'.ctx.marker = true ∧
              ∃ err, err ≠ .absent ∧ r = .error (.nothingFrozenMarkerRetained err)))) ∨
        ((∀ p ∈ attempts a'.ctx.log op, Passed p) ∧ handles (attempts a'.ctx.log op) ≠ [] ∧ st = .frozen ∧
          a'.ctx.marker = true ∧ a'.ctx.scope = .tracked ∧ a'.ctx.held = handles (attempts a'.ctx.log op) ∧
          r = .ok (frozenDevs (attempts a'.ctx.log op)).length) ∨
        ∃ before t stop, attempts a'.ctx.log op = before ++ [(t, some (.failed stop))] ∧
          Drains (handles before).reverse (thawCalls a'.ctx.log op) a'.ctx.held ∧
          ((a'.ctx.held = [] ∧ a'.ctx.marker = false ∧ st = .thawed ∧ r = .error (.hard t.mountpoint stop)) ∨
            (a'.ctx.held = [] ∧ a'.ctx.marker = true ∧ st = .frozen ∧
              ∃ err, err ≠ .absent ∧ r = .error (.markerRetained (some t.mountpoint) stop err)) ∨
            (a'.ctx.held ≠ [] ∧ a'.ctx.marker = true ∧ st = .frozen ∧
              ∃ m reason, r = .error (.rollbackIncomplete t.mountpoint stop m reason)))) ∧
      ∀ b, Machine.Steps (Agent.step cfg) (Undisturbed op) a' b →
        (∀ r', .replied op r' ∈ b.ctx.log → r' = r) ∧
        ∀ d, b.tasks op = some (.driver d) → d.pc = .finished → .replied op r ∈ b.ctx.log := by
  obtain ⟨d, terminal, reply, ht, hw, hpc, hold, hctx, htask⟩ := publishing h hs ⟨restrict, s₀, hst⟩ hpub
  have hd : DriverLoc a.ctx op d := (reach h).loc ht rfl
  -- the view is that of the state before the publication
  have hlog : a'.ctx.log = [.published op terminal.state a.ctx.snapshot] ++ a.ctx.log := by rw [hctx]; rfl
  have hstate : terminal.state = st := by
    rw [news_eq hlog, List.mem_singleton] at hpub
    cases hpub
    rfl
  have hview : a'.ctx.view op = a.ctx.view op := by rw [hctx]; rfl
  have hstale : d.stale = [] := (hd.stale restrict s₀ hst).symm.trans h₀
  have hset : Unprepared (a.ctx.view op) ∨ (Settles (a.ctx.view op) terminal.state reply ∧
      (a.ctx.view op).scope = d.scopeLeft terminal) := by
    have := hd.settles hstale
    rwa [hpc] at this
  have hmem : ∀ {plan : FreezePlan}, .prepared op (.prepared plan) ∈ a.ctx.log →
      .prepared plan ∈ (a.ctx.view op).prepared := fun {plan} he =>
    List.mem_filterMap.2 ⟨_, he, by simp⟩
  obtain ⟨hset, hscope⟩ := hset.resolve_left fun hun => hun plan (hmem hprep)
  rw [← hview] at hset hscope
  rw [hstate] at hset
  have hplan : ∀ {plan' : FreezePlan} {rest : List Target}, (a'.ctx.view op).prepared = [.prepared plan'] →
      (a'.ctx.view op).attempts.map Prod.fst ++ rest = plan'.freezeOrder →
      (attempts a'.ctx.log op).map Prod.fst ++ rest = plan.targets.reverse := by
    intro plan' rest hp ho
    have := hmem hprep
    rw [← hview, hp, List.mem_singleton] at this
    cases this
    exact ho
  refine ⟨by rw [hctx, ← hstate]; rfl, ?_, reply, ?_, fun b hb => ?_⟩
  · cases hset with
    | nothing hg => obtain ⟨plan', hp, ho⟩ := hg.plan; exact ⟨[], hplan hp ho, .inl ⟨rfl, hg.passed⟩⟩
    | retained hg => obtain ⟨plan', hp, ho⟩ := hg.plan; exact ⟨[], hplan hp ho, .inl ⟨rfl, hg.passed⟩⟩
    | froze hg => obtain ⟨plan', hp, ho⟩ := hg.plan; exact ⟨[], hplan hp ho, .inl ⟨rfl, hg.passed⟩⟩
    | rolledBack hs =>
      obtain ⟨plan', rest, hp, ho⟩ := hs.plan
      exact ⟨rest, hplan hp ho, .inr ⟨_, _, _, hs.attempts, hs.passed⟩⟩
    | unremoved hs =>
      obtain ⟨plan', rest, hp, ho⟩ := hs.plan
      exact ⟨rest, hplan hp ho, .inr ⟨_, _, _, hs.attempts, hs.passed⟩⟩
    | incomplete hs =>
      obtain ⟨plan', rest, hp, ho⟩ := hs.plan
      exact ⟨rest, hplan hp ho, .inr ⟨_, _, _, hs.attempts, hs.passed⟩⟩
  · cases hset with
    | nothing hg hh hm => exact .inl ⟨hg.passed, hg.held.symm.trans hh, .inl ⟨rfl, hm, rfl⟩⟩
    | retained hg hh he hm => exact .inl ⟨hg.passed, hg.held.symm.trans hh, .inr ⟨rfl, hm, _, he, rfl⟩⟩
    | froze hg hh hm =>
      have hterm : terminal = .frozen := by
        cases terminal with
        | frozen => rfl
        | thawed => cases hstate
      refine .inr (.inl ⟨hg.passed, fun h => hh (hg.held.trans h), rfl, hm, ?_, hg.held, by rw [hg.count]; rfl⟩)
      exact hscope.trans (by simp [Driver.scopeLeft, hterm, hd.certain])
    | rolledBack hs hd hh hm => exact .inr (.inr ⟨_, _, _, hs.attempts, hd, .inl ⟨hh, hm, rfl, rfl⟩⟩)
    | unremoved hs hd hh he hm => exact .inr (.inr ⟨_, _, _, hs.attempts, hd, .inr (.inl ⟨hh, hm, rfl, _, he, rfl⟩)⟩)
    | incomplete hs hd hh hm => exact .inr (.inr ⟨_, _, _, hs.attempts, hd, .inr (.inr ⟨hh, hm, rfl, _, _, rfl⟩)⟩)
  · have hinit : Replies op reply a' := .of_publication h ht hw hpc hd.quiet.abort hold hlog htask
    exact hinit.run (h.tail hs hok) hb

/-- The check of a step for a fixed list of actions. -/
private def undisturbed (op : TaskId) (_ : Agent) (_ : Action) (a' : Agent) : Bool :=
  match a'.tasks op with
  | some (.driver d) => d.abort.isNone && d.tracked.all fun tr => !tr.lost
  | _ => true

private theorem Undisturbed.of_check {op : TaskId} (a : Agent) (act : Action) (a' : Agent)
    (h : undisturbed op a act a' = true) : Undisturbed op a act a' := by
  intro d hd
  simp only [undisturbed, hd, Bool.and_eq_true, Option.isNone_iff_eq_none] at h
  refine ⟨h.1, fun tr htr => ?_⟩
  simpa [htr] using h.2

/-- A freeze of two superblocks: the first target is frozen, the second fails, and the first is thawed again. -/
private def rollbackOne : List Action :=
  [.freeze none] ++ Script.prepare 1 [Script.row (8, 1) [slash], Script.row (8, 2) [slash, 97]] ++
    Script.attempt 1 (8, 2) (.ok ()) ++ Script.attempt 1 (8, 1) (.error (.errno .EPERM)) ++
    [Script.driver 1 (.job (.fithaw (.ok ()))), Script.driver 1 (.job (.fithaw (.error (.errno .EINVAL)))),
      Script.driver 1 (.job (.unlink .ok)), Script.driver 1 .done] ++ Script.drive 1 4

/-- The history says that the operation 1 began without handles and prepared its plan. -/
private def Event.begins : Event → Bool
  | .started i _ now => i = 1 && now.held.isEmpty
  | _ => false

private def Event.prepares : Event → Bool
  | .prepared i (.prepared _) => i = 1
  | _ => false

private def Event.publishes : Event → Bool
  | .published i .thawed _ => i = 1
  | _ => false

theorem settlement_classified_of_rollback :
    ∃ a a', Machine.Reach (Agent.step ⟨60, 30, 300⟩) (Undisturbed 1) Agent.Initial a ∧
      Agent.step ⟨60, 30, 300⟩ a (Script.driver 1 .go) = some a' ∧ a'.ctx.state = .thawed ∧ a'.ctx.marker = false := by
  obtain ⟨a, hr, hp⟩ : ∃ a, Machine.Reach (Agent.step ⟨60, 30, 300⟩) (Undisturbed 1) Agent.Initial a ∧
      (a.ctx.log.any Event.begins && a.ctx.log.any Event.prepares &&
        (Agent.step ⟨60, 30, 300⟩ a (Script.driver 1 .go)).any fun a' =>
          undisturbed 1 a (Script.driver 1 .go) a' && (news a.ctx a'.ctx).any Event.publishes) = true :=
    Machine.Reach.of_execute (undisturbed 1) Undisturbed.of_check rollbackOne
      (fun a => a.ctx.log.any Event.begins && a.ctx.log.any Event.prepares &&
        (Agent.step ⟨60, 30, 300⟩ a (Script.driver 1 .go)).any fun a' =>
          undisturbed 1 a (Script.driver 1 .go) a' && (news a.ctx a'.ctx).any Event.publishes)
      (Agent.cold_initial false) (by decide) (by decide)
  simp only [Bool.and_eq_true, List.any_eq_true] at hp
  obtain ⟨⟨⟨e, he, hbegins⟩, e', he', hprepares⟩, hstep⟩ := hp
  cases hs : Agent.step ⟨60, 30, 300⟩ a (Script.driver 1 .go) with
  | none => rw [hs] at hstep; cases hstep
  | some a' =>
    rw [hs] at hstep
    simp only [Option.any_some, Bool.and_eq_true, List.any_eq_true] at hstep
    obtain ⟨hok, e'', he'', hpublishes⟩ := hstep
    have hok := Undisturbed.of_check _ _ _ hok
    obtain ⟨restrict, now, rfl, hheld⟩ : ∃ restrict now, e = .started 1 restrict now ∧ now.held = [] := by
      cases e <;> simp only [Event.begins, Bool.false_eq_true, Bool.and_eq_true, decide_eq_true_eq, List.isEmpty_iff] at hbegins
      rw [hbegins.1]
      exact ⟨_, _, rfl, hbegins.2⟩
    obtain ⟨plan, rfl⟩ : ∃ plan, e' = .prepared 1 (.prepared plan) := by
      unfold Event.prepares at hprepares
      split at hprepares
      · rw [of_decide_eq_true hprepares]
        exact ⟨_, rfl⟩
      · cases hprepares
    obtain ⟨now', rfl⟩ : ∃ now', e'' = .published 1 .thawed now' := by
      unfold Event.publishes at hpublishes
      split at hpublishes
      · rw [of_decide_eq_true hpublishes]
        exact ⟨_, rfl⟩
      · cases hpublishes
    obtain ⟨hst, -, r, hcase, -⟩ := settlement_classified hr hs hok he hheld he' he''
    refine ⟨a, a', hr, hs, hst, ?_⟩
    rcases hcase with ⟨-, -, ⟨-, hm, -⟩ | ⟨h, -⟩⟩ | ⟨-, -, h, -⟩ | ⟨before, t, stop, -, -, ⟨-, hm, -⟩ | ⟨-, -, h, -⟩ | ⟨-, -, h, -⟩⟩
    · exact hm
    · cases h
    · cases h
    · exact hm
    · cases h
    · cases h

end Qeminga
