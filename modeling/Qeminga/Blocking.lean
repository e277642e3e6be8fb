import Qeminga.Drain

/-!
# `thaw_blocking` as a whole

The machine `ThawBlocking` makes one system call at a time, so that the calls of other tasks may come between two of
them.  Here `thaw_blocking` is the function of the source, over any kernel and marker: `KernelOps` is the kernel shim with
the state `σ` behind it.  `ThawBlocking.run` feeds the machine with the answers of such a kernel, and computes the same
(`ThawBlocking.run_begin`).
-/

namespace Qeminga

/-- The system calls of the blocking code.  The shim verifies the device that a pathname leads to. -/
structure KernelOps (σ : Type) where
  openMount : Path → Dev → σ → Except KernelError Mount × σ
  fithaw : Mount → σ → Except KernelError Unit × σ
  removeMarker : σ → Except MarkerError Unit × σ
  dev_of_openMount : ∀ {path dev s m}, (openMount path dev s).1 = .ok m → m.dev = dev

/-- What was done about a target: its handle was drained with the result `r`, or no pathname led to it.  History. -/
inductive Deed
  | drained (m : Mount) (r : Drained)
  | unreachable (t : Target)
  deriving DecidableEq, Repr

/-- `ThawState`, with its history. -/
structure ThawState where
  thawed : Nat
  unrecoverable : Option ThawFailure
  keep : List Mount
  deeds : List Deed
  deriving DecidableEq, Repr

/-- What `thaw_blocking` returns, leaves in `held` and has done; `removed` is the answer to the removal of the marker, if
that was tried. -/
structure ThawReport where
  result : Except ThawFailure Nat
  held : List Mount
  deeds : List Deed
  removed : Option (Except MarkerError Unit)

section

variable {σ : Type} (ops : KernelOps σ)

/-- The loop of `open_target` over the pathnames of a target on `dev`. -/
def openPaths (dev : Dev) : Path → List Path → Attempts → σ → Except Attempts Mount × σ
  | path, paths, attempts, s =>
    match ops.openMount path dev s with
    | (.ok m, s) => (.ok m, s)
    | (.error err, s) =>
      match paths with
      | [] => (.error (attempts ++ [(path, err)]), s)
      | next :: paths => openPaths dev next paths (attempts ++ [(path, err)]) s

def openTarget (t : Target) (s : σ) : Except Attempts Mount × σ := openPaths ops t.dev t.openPaths.1 t.openPaths.2 [] s

namespace ThawState

def default : ThawState := ⟨0, none, [], []⟩

/-- The drain of `m` ended with `r`. -/
def settle (st : ThawState) (m : Mount) (r : Drained) : ThawState :=
  match r.incomplete with
  | some reason =>
    { thawed := st.thawed + r.counted, unrecoverable := st.unrecoverable.or (some (.incomplete m.mountpoint reason))
      keep := st.keep ++ [m], deeds := st.deeds ++ [.drained m r] }
  | none => { st with thawed := st.thawed + r.counted, deeds := st.deeds ++ [.drained m r] }

/-- Drains one target, keeping its handle when the drain is incomplete. -/
def drain (st : ThawState) (m : Mount) (s : σ) : ThawState × σ :=
  let x := Qeminga.drain (ops.fithaw m) s
  (st.settle m x.1, x.2)

/-- The target cannot be reached. -/
def unreached (st : ThawState) (t : Target) (attempts : Attempts) : ThawState :=
  { st with unrecoverable := st.unrecoverable.or (some (.incomplete t.mountpoint (.unreachable t.dev attempts)))
            deeds := st.deeds ++ [.unreachable t] }

end ThawState

/-- The loop over the planned targets; returns the handles left. -/
def thawTargets : List Target → List Mount → ThawState → σ → List Mount × ThawState × σ
  | [], retained, st, s => (retained, st, s)
  | t :: ts, retained, st, s =>
    match ThawBlocking.takeDev t.dev retained with
    | some (m, retained) =>
      let x := st.drain ops m s
      thawTargets ts retained x.1 x.2
    | none =>
      match openTarget ops t s with
      | (.ok m, s) =>
        let x := st.drain ops m s
        thawTargets ts retained x.1 x.2
      | (.error attempts, s) => thawTargets ts retained (st.unreached t attempts) s

/-- The loop over the handles left, in the order in which they are drained. -/
def thawRetained : List Mount → ThawState → σ → ThawState × σ
  | [], st, s => (st, s)
  | m :: ms, st, s =>
    let x := st.drain ops m s
    thawRetained ms x.1 x.2

/-- The targets of the plan argument of `thaw_blocking`. -/
def plannedTargets : Option (Except ThawFailure FreezePlan) → List Target
  | some (.ok plan) => plan.thawOrder
  | _ => []

/-- The failure of the discovery, if the plan argument is one. -/
def discoveryFailure : Option (Except ThawFailure FreezePlan) → Option ThawFailure
  | some (.error failure) => some failure
  | _ => none

/-- The end of `thaw_blocking`: the marker is removed unless something failed. -/
def thawEnd (discovery : Option ThawFailure) (st : ThawState) (s : σ) : ThawReport × σ :=
  match st.unrecoverable, discovery with
  | some failure, _ => (⟨.error failure, st.keep, st.deeds, none⟩, s)
  | none, some failure => (⟨.error failure, st.keep, st.deeds, none⟩, s)
  | none, none =>
    match ops.removeMarker s with
    | (.ok _, s) => (⟨.ok st.thawed, st.keep, st.deeds, some (.ok ())⟩, s)
    | (.error .absent, s) => (⟨.ok st.thawed, st.keep, st.deeds, some (.error .absent)⟩, s)
    | (.error err, s) => (⟨.error (.marker err), st.keep, st.deeds, some (.error err)⟩, s)

def thawBlocking (plan : Option (Except ThawFailure FreezePlan)) (held : List Mount) (s : σ) : ThawReport × σ :=
  let x := thawTargets ops (plannedTargets plan) held .default s
  let y := thawRetained ops x.1.reverse x.2.1 x.2.2
  thawEnd ops (discoveryFailure plan) y.1 y.2

end

/-! ### The machine computes the same -/

namespace ThawBlocking

variable {σ : Type} (ops : KernelOps σ)

/-- The machine once its plan argument is known. -/
def begin (plan : Option (Except ThawFailure FreezePlan)) (held : List Mount) : ThawBlocking :=
  advance ⟨.table, plannedTargets plan, held, 0, none, [], discoveryFailure plan⟩

theorem start_false (held : List Mount) : start false held = begin none held := rfl

theorem plan_start (entries : List MountEntry) (held : List Mount) :
    (start true held).plan (.ok entries) = begin (some (.ok (buildPlan entries none))) held := rfl

/-- The next call of the machine is answered by `ops`. -/
def answered (x : ThawBlocking × σ) : ThawBlocking × σ :=
  match x.1.stage with
  | .table => x
  | .open t path paths attempts =>
    let r := ops.openMount path t.dev x.2
    (x.1.opened t path paths attempts r.1, r.2)
  | .drain m n =>
    let r := ops.fithaw m x.2
    (x.1.fithaw m n r.1, r.2)
  | .unlink =>
    let r := ops.removeMarker x.2
    (x.1.removed r.1, r.2)
  | .done _ => x

/-- So many calls of the machine. -/
def run : Nat → ThawBlocking × σ → ThawBlocking × σ
  | 0, x => x
  | n + 1, x => run n (answered ops x)

private def Runs (x y : ThawBlocking × σ) : Prop := ∃ n, run ops n x = y

variable {ops}

private theorem Runs.refl (x : ThawBlocking × σ) : Runs ops x x := ⟨0, rfl⟩

private theorem Runs.head {x y : ThawBlocking × σ} (h : Runs ops (answered ops x) y) : Runs ops x y := by
  obtain ⟨n, hn⟩ := h
  exact ⟨n + 1, hn⟩

private theorem run_add (m n : Nat) (x : ThawBlocking × σ) : run ops (m + n) x = run ops n (run ops m x) := by
  induction m generalizing x with
  | zero => rw [Nat.zero_add]; rfl
  | succ m ih => rw [Nat.succ_add]; exact ih _

private theorem Runs.trans {x y z : ThawBlocking × σ} (h : Runs ops x y) (h' : Runs ops y z) : Runs ops x z := by
  obtain ⟨m, rfl⟩ := h
  obtain ⟨n, rfl⟩ := h'
  exact ⟨m + n, run_add m n x⟩

/-- The machine at `stage`, with the running result `st` of the function. -/
private def machine (stage : ThawStage) (rest : List Target) (retained : List Mount) (st : ThawState)
    (discovery : Option ThawFailure) : ThawBlocking :=
  ⟨stage, rest, retained, st.thawed, st.unrecoverable, st.keep, discovery⟩

/-- The machine between two targets. -/
private def next (rest : List Target) (retained : List Mount) (st : ThawState) (discovery : Option ThawFailure) :
    ThawBlocking := (machine .table rest retained st discovery).advance

private theorem advance_settle (stage : ThawStage) (rest : List Target) (retained : List Mount) (st : ThawState)
    (discovery : Option ThawFailure) (m : Mount) (r : Drained) :
    ((machine stage rest retained st discovery).settle m r).advance = next rest retained (st.settle m r) discovery := by
  unfold settle ThawState.settle
  cases r.incomplete <;> rfl

section

variable (rest : List Target) (retained : List Mount) (st : ThawState) (discovery : Option ThawFailure)

/-- The drain of one handle. -/
private theorem runs_drainLoop (m : Mount) {n : Nat} (hn : n < maxThawIterations) (s : σ) :
    Runs ops (machine (.drain m n) rest retained st discovery, s)
      (next rest retained (st.settle m (drainLoop (ops.fithaw m) (maxThawIterations - n) n s).1) discovery,
        (drainLoop (ops.fithaw m) (maxThawIterations - n) n s).2) := by
  -- on the iterations left; a call either ends the drain or leaves one less of them
  induction hk : maxThawIterations - n generalizing n s with
  | zero => omega
  | succ k ih =>
    apply Runs.head
    rw [← hk, drainLoop_eq (ops.fithaw m) hn]
    simp only [answered, machine, fithaw]
    rcases hcall : drainCall n (ops.fithaw m s).1 with n' | r
    · have hn' : n' < maxThawIterations ∧ maxThawIterations - n' = k := by
        cases hans : (ops.fithaw m s).1 with
        | error err => rw [hans] at hcall; cases hcall
        | ok u =>
          rw [hans, drainCall] at hcall
          split at hcall
          · next hlt =>
            obtain rfl := Draining.going.inj hcall
            exact ⟨hlt, by omega⟩
          · cases hcall
      have h := ih hn'.1 (ops.fithaw m s).2 hn'.2
      rw [← hn'.2] at h
      exact h
    · have h := advance_settle (.drain m n) rest retained st discovery m r
      simp only [machine] at h
      simp only [h]
      exact .refl _

private theorem runs_drain (m : Mount) (s : σ) :
    Runs ops (machine (.drain m 0) rest retained st discovery, s)
      (next rest retained (st.drain ops m s).1 discovery, (st.drain ops m s).2) :=
  runs_drainLoop rest retained st discovery m (by decide) s

/-- The opens of one target, and its drain if one of them succeeds. -/
private theorem runs_openPaths (t : Target) (path : Path) (paths : List Path) (attempts : Attempts) (s : σ) :
    Runs ops (machine (.open t path paths attempts) rest retained st discovery, s)
      (match openPaths ops t.dev path paths attempts s with
        | (.ok m, s) => (next rest retained (st.drain ops m s).1 discovery, (st.drain ops m s).2)
        | (.error attempts, s) => (next rest retained (st.unreached t attempts) discovery, s)) := by
  induction paths generalizing path attempts s with
  | nil =>
    apply Runs.head
    rw [openPaths]
    simp only [answered, machine]
    rcases ops.openMount path t.dev s with ⟨ans, s'⟩
    cases ans with
    | ok m => exact runs_drain rest retained st discovery m s'
    | error err => exact .refl _
  | cons alt paths ih =>
    apply Runs.head
    rw [openPaths]
    simp only [answered, machine]
    rcases ops.openMount path t.dev s with ⟨ans, s'⟩
    cases ans with
    | ok m => exact runs_drain rest retained st discovery m s'
    | error err => exact ih alt (attempts ++ [(path, err)]) s'

end

private theorem runs_thawTargets (ts : List Target) (retained : List Mount) (st : ThawState)
    (discovery : Option ThawFailure) (s : σ) :
    Runs ops (next ts retained st discovery, s)
      (next [] (thawTargets ops ts retained st s).1 (thawTargets ops ts retained st s).2.1 discovery,
        (thawTargets ops ts retained st s).2.2) := by
  induction ts generalizing retained st s with
  | nil => exact .refl _
  | cons t ts ih =>
    rw [thawTargets]
    cases htake : takeDev t.dev retained with
    | some x =>
      obtain ⟨m, left⟩ := x
      have hnext : next (t :: ts) retained st discovery = machine (.drain m 0) ts left st discovery := by
        simp [next, machine, advance, htake]
      rw [hnext]
      exact (runs_drain ts left st discovery m s).trans (ih ..)
    | none =>
      have hnext : next (t :: ts) retained st discovery =
          machine (.open t t.openPaths.1 t.openPaths.2 []) ts retained st discovery := by
        simp [next, machine, advance, htake]
      rw [hnext]
      refine (runs_openPaths ts retained st discovery t _ _ [] s).trans ?_
      simp only [openTarget]
      rcases openPaths ops t.dev t.openPaths.1 t.openPaths.2 [] s with ⟨ans, s'⟩
      cases ans <;> exact ih ..

private theorem runs_thawRetained (ms : List Mount) (st : ThawState) (discovery : Option ThawFailure) (s : σ) :
    Runs ops (next [] ms.reverse st discovery, s)
      (next [] [] (thawRetained ops ms st s).1 discovery, (thawRetained ops ms st s).2) := by
  induction ms generalizing st s with
  | nil => exact .refl _
  | cons m ms ih =>
    have hnext : next [] (m :: ms).reverse st discovery = machine (.drain m 0) [] ms.reverse st discovery := by
      simp [next, machine, advance]
    rw [hnext, thawRetained]
    exact (runs_drain [] ms.reverse st discovery m s).trans (ih ..)

private theorem runs_thawEnd (discovery : Option ThawFailure) (st : ThawState) (s : σ) :
    ∃ j, Runs ops (next [] [] st discovery, s) (j, (thawEnd ops discovery st s).2) ∧
      j.stage = .done (thawEnd ops discovery st s).1.result ∧ j.keep = (thawEnd ops discovery st s).1.held := by
  unfold thawEnd
  cases hu : st.unrecoverable with
  | some failure =>
    exact ⟨_, .refl _, by simp [next, machine, advance, hu], by simp [next, machine, advance, hu]⟩
  | none =>
    cases discovery with
    | some failure => exact ⟨_, .refl _, by simp [next, machine, advance, hu], by simp [next, machine, advance, hu]⟩
    | none =>
      have hnext : next [] [] st none = machine .unlink [] [] st none := by simp [next, machine, advance, hu]
      rw [hnext]
      refine ⟨(answered ops (machine .unlink [] [] st none, s)).1, .head ?_, ?_⟩
      · simp only [answered, machine]
        rcases ops.removeMarker s with ⟨ans, s'⟩
        rcases ans with (_ | _ | _) | _ <;> exact .refl _
      · simp only [answered, machine]
        rcases ops.removeMarker s with ⟨ans, s'⟩
        rcases ans with (_ | _ | _) | _ <;> exact ⟨rfl, rfl⟩

/-- Fed with the answers of a kernel, the machine ends with the result of `thaw_blocking`, keeps the same handles and
leaves the kernel in the same state. -/
theorem run_begin (ops : KernelOps σ) (plan : Option (Except ThawFailure FreezePlan)) (held : List Mount) (s : σ) :
    ∃ n j, run ops n (begin plan held, s) = (j, (thawBlocking ops plan held s).2) ∧
      j.stage = .done (thawBlocking ops plan held s).1.result ∧ j.keep = (thawBlocking ops plan held s).1.held := by
  have htargets : Runs ops (begin plan held, s) _ :=
    runs_thawTargets (plannedTargets plan) held .default (discoveryFailure plan) s
  unfold thawBlocking
  generalize thawTargets ops (plannedTargets plan) held .default s = x at htargets ⊢
  have hretained : Runs ops (next [] x.1 x.2.1 (discoveryFailure plan), x.2.2) _ :=
    List.reverse_reverse x.1 ▸ runs_thawRetained x.1.reverse x.2.1 (discoveryFailure plan) x.2.2
  obtain ⟨j, hend, hj⟩ := runs_thawEnd (discoveryFailure plan) (thawRetained ops x.1.reverse x.2.1 x.2.2).1
    (thawRetained ops x.1.reverse x.2.1 x.2.2).2
  obtain ⟨n, hn⟩ := (htargets.trans hretained).trans hend
  exact ⟨n, j, hn, hj⟩

end ThawBlocking

end Qeminga
