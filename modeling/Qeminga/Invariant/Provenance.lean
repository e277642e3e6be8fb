import Qeminga.Invariant.Cover
import Qeminga.Invariant.Publication

/-!
# Where the held handles come from

A freeze begins without handles, so what it returns is what it has published, and the handles that are held, drained,
kept or lost are those of its published handles that no complete drain has released (`Driver.Move.provides`).  A thaw
hands back what it could not drain, and a tracked one opens no other target, so this remains true until the next
freeze.  The one way to get handles into the state `Thawed` is a recovery drain that was claimed there and comes back
with a handle: `RecoveryCompletes` excludes it.
-/

namespace Qeminga

/-! ### What the history says of the handles -/

/-- The answer to a `FITHAW` that ends a complete drain. -/
def completesDrain : Except KernelError Unit → Bool
  | .ok _ => false
  | .error err => err.endsDrain

/-- The superblock whose handle is released after the event. -/
def Event.released : Event → Option Dev
  | .fithaw _ d r => if completesDrain r then some d else none
  | _ => none

/-- The handles that the operation `op` has published and that no drain has released since. -/
def leftBy (op : TaskId) : List Event → List Mount
  | [] => []
  | e :: older => ((leftBy op older).filter fun m => e.released ≠ some m.dev) ++ (e.hands op).toList

/-- The operation that was started last. -/
def lastOperation (log : List Event) : Option TaskId :=
  log.findSome? fun e =>
    match e with
    | .started op _ _ => some op
    | _ => none

/-- The handles are those that the last operation has published and no drain has released. -/
def OwnHandles (log : List Event) (ms : List Mount) : Prop := ∃ op, lastOperation log = some op ∧ ms.Perm (leftBy op log)

/-- The event concerns no handle of the operation. -/
def Event.Still (op : TaskId) (e : Event) : Prop := e.released = none ∧ e.hands op = none

section History

variable {log new : List Event} {op : TaskId} {ms ns : List Mount} {m : Mount} {e : Event}

theorem leftBy_sublist (op : TaskId) (log : List Event) : (leftBy op log).Sublist (publishedBy log op) := by
  induction log with
  | nil => exact .slnil
  | cons e log ih =>
    have hpub : publishedBy (e :: log) op = publishedBy log op ++ (e.hands op).toList := by
      cases he : e.hands op <;> simp [publishedBy, he]
    rw [hpub]
    exact (List.filter_sublist.trans ih).append_right _

theorem leftBy_append (h : ∀ e ∈ new, e.Still op) : leftBy op (new ++ log) = leftBy op log := by
  induction new with
  | nil => rfl
  | cons e new ih =>
    obtain ⟨hr, hh⟩ := h e List.mem_cons_self
    have ih := ih fun e' he' => h e' (List.mem_cons_of_mem _ he')
    simp [leftBy, hr, hh, ih]

/-- The handle of a superblock is released: the others are on other superblocks. -/
theorem leftBy_released (hm : m ∈ leftBy op log) (hn : (devs (leftBy op log)).Nodup) (hr : e.released = some m.dev)
    (hh : e.hands op = none) : (leftBy op log).Perm (m :: leftBy op (e :: log)) := by
  have hne : ∀ x ∈ leftBy op log, (x != m) = decide (e.released ≠ some x.dev) := by
    intro x hx
    by_cases hxm : x = m
    · simp [hxm, hr]
    · have hdev : m.dev ≠ x.dev := fun he => hxm (List.inj_on_of_nodup_map hn hx hm he.symm)
      simp [hxm, hr, hdev]
  have herase : (leftBy op log).erase m = leftBy op (e :: log) := by
    rw [(List.Nodup.of_map _ hn).erase_eq_filter, List.filter_congr hne]
    simp [leftBy, hh]
  exact herase ▸ List.perm_cons_erase hm

theorem lastOperation_append (h : ∀ e ∈ new, ∀ op r s, e ≠ .started op r s) :
    lastOperation (new ++ log) = lastOperation log := by
  induction new with
  | nil => rfl
  | cons e new ih =>
    have ih := ih fun e' he' => h e' (List.mem_cons_of_mem _ he')
    cases e with
    | started op r s => exact absurd rfl (h _ List.mem_cons_self op r s)
    | _ => exact ih

/-- Nothing happens to the handles. -/
theorem OwnHandles.append (h : OwnHandles log ms) (hnew : ∀ e ∈ new, (∀ op, e.Still op) ∧ ∀ op r s, e ≠ .started op r s) :
    OwnHandles (new ++ log) ms := by
  obtain ⟨op, hop, hp⟩ := h
  refine ⟨op, ?_, ?_⟩
  · rw [lastOperation_append fun e he => (hnew e he).2]
    exact hop
  · rw [leftBy_append fun e he => (hnew e he).1 op]
    exact hp

theorem OwnHandles.perm (h : OwnHandles log ms) (hp : ns.Perm ms) : OwnHandles log ns := by
  obtain ⟨op, hop, hms⟩ := h
  exact ⟨op, hop, hp.trans hms⟩

/-- A drain of the handle `m` is complete. -/
theorem OwnHandles.release {i : TaskId} {r : Except KernelError Unit} (h : OwnHandles log (m :: ns))
    (hn : (devs (m :: ns)).Nodup) (hr : completesDrain r = true) : OwnHandles (.fithaw i m.dev r :: log) ns := by
  obtain ⟨op, hop, hp⟩ := h
  refine ⟨op, hop, ?_⟩
  have hm : m ∈ leftBy op log := hp.mem_iff.1 List.mem_cons_self
  have hrel := leftBy_released (e := .fithaw i m.dev r) hm ((hp.map Mount.dev).nodup_iff.1 hn) (by simp [Event.released, hr]) rfl
  exact (hp.trans hrel).cons_inv

end History

/-- No step of a task starts an operation. -/
theorem Task.Move.lastOperation {cfg : Config} {c c' : Ctx} {i fresh : TaskId} {t t' : Task} {new : Option Dog}
    (hm : Task.Move cfg c i fresh t c' t' new) : lastOperation c'.log = lastOperation c.log := by
  have of_calls : ∀ {c' : Ctx}, c.Calls i c' → Qeminga.lastOperation c'.log = Qeminga.lastOperation c.log := by
    intro c' hc
    obtain ⟨log', hlog, hcall⟩ := hc.calls
    rw [hlog]
    refine lastOperation_append fun e he op r s heq => ?_
    subst heq
    cases (hcall _ he).2
  cases hm with
  | driver h =>
    cases h
    case call hc => exact of_calls hc.calls
    case drain hc => exact of_calls (Ctx.fithaw_calls hc)
    case interrupt hc => rcases hc with rfl | rfl <;> rfl
    all_goals first
      | rfl
      | simp
  | thaw h =>
    cases h
    case call hc => exact of_calls hc.calls
    all_goals first
      | rfl
      | simp
  | startInstall => simp
  | _ => rfl

/-- A drain goes on after a success, and it is complete exactly if it ends with such an answer. -/
theorem completesDrain_of_drainCall {n : Nat} {r : Except KernelError Unit} :
    (∀ n', drainCall n r = .going n' → completesDrain r = false) ∧
      ∀ res, drainCall n r = .ended res → (completesDrain r = true ↔ res.incomplete = none) := by
  cases r with
  | ok u =>
    refine ⟨fun _ _ => rfl, fun res h => ?_⟩
    simp only [drainCall] at h
    split at h <;> cases h
    simp [completesDrain, Drained.incomplete]
  | error err =>
    refine ⟨fun n' h => by simp [drainCall] at h, fun res h => ⟨fun hc => ?_, fun hr => ?_⟩⟩
    · obtain rfl := Draining.ended.inj h
      have hends : err.endsDrain = true := hc
      have hissued := KernelError.isIoctlAnswer_of_endsDrain hends
      simp only [KernelError.endsDrain] at hends
      simp [Drained.incomplete, hissued, hends]
    · obtain ⟨err', he, hends, -⟩ := incomplete_drainCall_eq_none h hr
      cases he
      exact hends

/-- A `FITHAW` of a pass releases the handle that it drains, or none. -/
theorem DrainHeld.fithaw_releases {j : DrainHeld} {m : Mount} {rest : List Mount} (htodo : j.todo = m :: rest)
    (r : Except KernelError Unit) :
    (completesDrain r = false ∧ (j.fithaw r).released = j.released) ∨
      (completesDrain r = true ∧ (j.fithaw r).released = j.released ++ [m]) := by
  have hcall := completesDrain_of_drainCall (n := j.successes) (r := r)
  unfold fithaw
  rw [htodo]
  cases hd : drainCall j.successes r with
  | going n => exact .inl ⟨hcall.1 n hd, rfl⟩
  | ended res =>
    have hiff := hcall.2 res hd
    cases hres : res.incomplete with
    | none => exact .inr ⟨hiff.2 hres, by simp [settle, hres]⟩
    | some reason =>
      refine .inl ⟨Bool.eq_false_iff.2 fun h => ?_, by simp [settle, hres]⟩
      rw [hiff.1 h] at hres
      cases hres

/-! ### The handles of an operation -/

/-- The program points at which no handle is held: before the walk, while the marker is removed, in the settlement as
`Thawed`, and during a rollback. -/
def Pc.emptied (pc : Pc) : Bool := pc.clean || pc.rolling.isSome

private theorem Pc.emptied_aborting {stage stage' : AbortStage} {k : Resume}
    (h : (Pc.aborting stage k).emptied = true) : (Pc.aborting stage' k).emptied = true := by
  cases k <;> exact h

private theorem Pc.emptied_conclude {stage stage' : ConcludeStage} {terminal : Terminal}
    {reply : Except FreezeFailure Nat} (h : (Pc.conclude stage terminal reply).emptied = true) :
    (Pc.conclude stage' terminal reply).emptied = true := by
  cases terminal <;> exact h

namespace Driver

variable {cfg : Config} {c c' : Ctx} {i fresh : TaskId} {d d' : Driver} {new : Option Dog}

/-- What a step of an operation does to its handles: nothing; it publishes one; or a complete drain releases one. -/
inductive Provides (c : Ctx) (i : TaskId) (d : Driver) (c' : Ctx) (d' : Driver) : Prop
  | stays (hlog : leftBy i c'.log = leftBy i c.log) (hr : d'.returned = d.returned) (hd : d'.drained = d.drained)
  | publishes (m : Mount) (hlog : leftBy i c'.log = leftBy i c.log ++ [m]) (hr : d'.returned = d.returned ++ [m])
      (hd : d'.drained = d.drained)
  | releases (m : Mount) (r : Except KernelError Unit) (hlog : c'.log = .fithaw i m.dev r :: c.log)
      (hc : completesDrain r = true) (hm : m ∈ d.draining) (hr : d'.returned = d.returned)
      (hd : d'.drained.Perm (m :: d.drained))

private theorem drained_same (hl : d'.released = d.released) (hr : d'.recovery = d.recovery)
    (hp : d'.pc.rolling = d.pc.rolling) : d'.drained = d.drained := by
  simp only [drained, running, hl, hr, hp]

private theorem leftBy_attempted {t : Target} {m : Mount} {o : TargetOutcome} (ho : o = .frozen m ∨ o = .busy m)
    (hlog : c'.log = .attempted i t (some o) :: .joined i (.worker t) :: c.log) :
    leftBy i c'.log = leftBy i c.log ++ [m] := by
  rcases ho with rfl | rfl <;> simp [hlog, leftBy, Event.released, Event.hands]

/-- One `FITHAW` of a pass of the operation. -/
private theorem provides_fithaw (as bs : List Mount) {j : DrainHeld} {m : Mount} {rest : List Mount}
    {r : Except KernelError Unit} (htodo : j.todo = m :: rest) (hc : c.fithaw i m.dev r = some c') (hm : m ∈ d.draining)
    (hr : d'.returned = d.returned) (hd : d.drained = as ++ j.released ++ bs)
    (hd' : d'.drained = as ++ (j.fithaw r).released ++ bs) : Provides c i d c' d' := by
  have hlog : c'.log = .fithaw i m.dev r :: c.log := by
    rcases Ctx.fithaw_cases hc with ⟨-, -, rfl⟩ | ⟨err, -, rfl⟩ <;> rfl
  rcases DrainHeld.fithaw_releases htodo r with ⟨hcomp, he⟩ | ⟨hcomp, he⟩
  · exact .stays (by simp [hlog, leftBy, Event.released, hcomp, Event.hands]) hr (by rw [hd', hd, he])
  · refine .releases m r hlog hcomp hm hr ?_
    rw [hd', hd, he]
    simp only [List.append_assoc, List.cons_append, List.nil_append]
    have hmid : (as ++ j.released ++ m :: bs).Perm (m :: (as ++ j.released ++ bs)) := List.perm_middle
    simpa using hmid

private theorem unlink_log {ans : UnlinkAnswer} {r : Except MarkerError Unit} (h : c.unlink ans = some (c', r)) :
    c'.log = c.log := by
  rcases Ctx.unlink_cases h with ⟨-, -, rfl⟩ | ⟨-, -, rfl⟩ | ⟨e, -, rfl⟩ <;> rfl

private theorem mem_draining {j : DrainHeld} (hj : j ∈ d.running) {m : Mount} {rest : List Mount}
    (htodo : j.todo = m :: rest) : m ∈ d.draining :=
  List.mem_flatMap.2 ⟨j, hj, List.mem_append_left _ (by rw [htodo]; exact List.mem_cons_self)⟩

theorem Move.provides (hm : Move cfg c i fresh d c' d' new) (hw : d.WF) : Provides c i d c' d' := by
  cases hm
  case abort hpc =>
    rcases hpc with hpc | hpc | ⟨hpc, -⟩ <;> exact .stays rfl rfl (drained_same rfl rfl (by rw [hpc]; rfl))
  case interrupt tr cause hpc harm hc =>
    have hlog : c'.log = c.log := by rcases hc with rfl | rfl <;> rfl
    refine .stays (by rw [hlog]) rfl (drained_same rfl rfl ?_)
    cases tr <;> first | (rw [hpc]; rfl) | cases harm
  case announce k hpc =>
    have hk := (hw.at hpc).2
    refine .stays rfl rfl (drained_same rfl rfl ?_)
    cases k with
    | boundary b => cases b <;> (rw [hpc]; rfl)
    | «await» tr =>
      have := hk tr rfl
      cases tr <;> first | (rw [hpc]; rfl) | cases this
  case recover k hpc hr hh =>
    refine .stays (by simp [leftBy, Event.released, Event.hands]) rfl ?_
    simp [drained, running, hr, hpc, Pc.rolling, Job.start, DrainHeld.start]
  case joinDrain j hpc hr he hh =>
    refine .stays (by simp [leftBy, Event.released, Event.hands]) rfl ?_
    simp [drained, running, hr, recorded]
  case joinDrainRestart j hpc hr he hh =>
    refine .stays (by simp [leftBy, Event.released, Event.hands]) rfl ?_
    simp [drained, running, hr, recorded, Job.start, DrainHeld.start]
  case settleDrain hpc hr hh =>
    refine .stays (by simp [leftBy, Event.released, Event.hands]) rfl ?_
    simp [drained, running, hr, Job.start, DrainHeld.start]
  case froze t rest m hpc hd =>
    subst hd
    exact .publishes m (leftBy_attempted (.inl rfl) rfl) rfl (drained_same rfl rfl (by rw [hpc]; rfl))
  case busy t rest m hpc hd =>
    subst hd
    exact .publishes m (leftBy_attempted (.inr rfl) rfl) rfl (drained_same rfl rfl (by rw [hpc]; rfl))
  case lateResult t rest o hpc ho ha =>
    refine .stays ?_ rfl (drained_same rfl rfl (by rw [hpc]; rfl))
    rcases ho with rfl | ⟨stop, rfl⟩ <;> simp [leftBy, Event.released, Event.hands]
  case hardError t rest stop hpc ha =>
    refine .stays (by simp [leftBy, Event.released, Event.hands]) rfl ?_
    simp [drained, running, hpc, Pc.rolling, Job.start, Rollback.start, DrainHeld.start]
  case rollbackLost v hpc =>
    have hrec : d.recovery = none := recovery_of_rolling hw (j := v.drain) (by rw [hpc]; rfl)
    refine .stays (by simp [leftBy, Event.released, Event.hands]) rfl ?_
    simp [drained, running, hrec, hpc, Pc.rolling, concludes]
  case rolledBack v hpc hf =>
    have hrec : d.recovery = none := recovery_of_rolling hw (j := v.drain) (by rw [hpc]; rfl)
    refine .stays (by simp [leftBy, Event.released, Event.hands]) rfl ?_
    simp [drained, running, hrec, hpc, Pc.rolling, concludes]
  case call tr tr' ht hc =>
    cases hc with
    | @rollbackDrains v m rest r c' htodo hc =>
      rcases tracked_cases ht with ⟨hpc, hwith⟩ | ⟨stage, hpc, -⟩
      · have hrec : d.recovery = none := recovery_of_rolling hw (j := v.drain) (by rw [hpc]; rfl)
        have hrun : d.running = [v.drain] := by simp [running, hrec, hpc, Pc.rolling]
        refine provides_fithaw d.released [] htodo hc (mem_draining (by rw [hrun]; simp) htodo) rfl ?_ ?_
        · simp [drained, hrun]
        · simp [drained, running, hwith, hrec, Pc.rolling]
      · have hab := (hw.at hpc).2 _ rfl
        cases hab
    | fifreeze t rest m aborted clock r =>
      have hlog : (c.fifreeze i m.dev aborted clock r).log = .fifreeze i m.dev aborted clock r :: c.log := by
        rcases c.fifreeze_cases i m.dev aborted clock r with ⟨-, he⟩ | ⟨err, -, he⟩
        · rw [he]
        · rw [he]; rfl
      exact .stays (by simp [hlog, leftBy, Event.released, Event.hands]) rfl
        (drained_same rfl rfl (rolling_of_tracked ht rfl))
    | removed k hu =>
      exact .stays (by rw [unlink_log hu]) rfl (drained_same rfl rfl (rolling_of_tracked ht rfl))
    | rollbackUnlinks hj hu =>
      exact .stays (by rw [unlink_log hu]) rfl (drained_same rfl rfl (rolling_of_tracked ht rfl))
    | _ => exact .stays rfl rfl (drained_same rfl rfl (rolling_of_tracked ht rfl))
  case lose tr ht => exact .stays rfl rfl (drained_same rfl rfl (rolling_of_tracked ht (by cases tr <;> rfl)))
  case drain j m rest r hr htodo hc =>
    have hrun : j ∈ d.running := by simp [running, hr]
    refine provides_fithaw d.released (d.pc.rolling.toList.flatMap DrainHeld.released) htodo hc
      (mem_draining hrun htodo) rfl ?_ ?_
    · simp [drained, running, hr]
    · simp [drained, running]
  case loseDrain j hr => exact .stays rfl rfl (by simp [drained, running, hr])
  all_goals
    have hpc := ‹d.pc = _›
    refine .stays ?_ rfl (drained_same rfl rfl (by rw [hpc]; rfl))
    simp [leftBy, Event.released, Event.hands]

theorem Move.stale (hm : Move cfg c i fresh d c' d' new) : d'.stale = d.stale := by
  cases hm
  case froze hd => subst hd; rfl
  case busy hd => subst hd; rfl
  all_goals rfl

/-- Only a task that is lost takes handles with it. -/
theorem Move.lost (hm : Move cfg c i fresh d c' d' new) (h : d.uncertain = false → d.lost = []) :
    d'.uncertain = false → d'.lost = [] := by
  have recorded : ∀ j : Job DrainHeld, (d.recorded j).uncertain = false → (d.recorded j).lost = [] := by
    intro j hu
    simp only [Driver.recorded, Bool.or_eq_false_iff] at hu ⊢
    rw [hu.2]
    exact h hu.1
  cases hm
  case joinDrain j hpc hr he hh => exact recorded j
  case joinDrainRestart j hpc hr he hh => exact recorded j
  case froze hd => subst hd; exact h
  case busy hd => subst hd; exact h
  all_goals first
    | exact h
    | (intro hu; cases hu)

theorem Move.emptied (hm : Move cfg c i fresh d c' d' new) (hw : d.WF) (h : d.pc.emptied = true → c.held = [])
    : d'.pc.emptied = true → c'.held = [] := by
  have keep : (d'.pc.emptied = true → d.pc.emptied = true) → c'.held = c.held → d'.pc.emptied = true → c'.held = [] :=
    fun hp hh he => hh.trans (h (hp he))
  have tracks : ∀ {tr tr' : Tracked}, d.tracked = some tr → tr.Same tr' →
      (d.withTracked tr').pc.emptied = true → d.pc.emptied = true := by
    intro tr tr' ht hs he
    rcases tracked_cases ht with ⟨hpc, hwith⟩ | ⟨stage, hpc, hwith⟩ <;> rw [hwith] at he <;> rw [hpc] <;>
      cases tr <;> cases tr' <;> first | exact he | cases hs
  cases hm
  case recover => exact fun _ => rfl
  case joinDrain hpc hr he hh => exact fun _ => hh
  case joinDrainRestart => exact fun _ => rfl
  case settleDrain => exact fun _ => rfl
  case settleRemove hpc hr hh hu => exact fun _ => hh
  case commitNothing hpc ho hf hh hu => exact fun _ => hh
  case hardError => exact fun _ => rfl
  case abort hpc => rcases hpc with hpc | hpc | ⟨hpc, -⟩ <;> exact fun he => by cases he
  case interrupt tr cause hpc harm hc =>
    have hheld : c'.held = c.held := by rcases hc with rfl | rfl <;> rfl
    refine keep (fun he => ?_) hheld
    rw [hpc]
    cases tr <;> first | exact he | cases harm
  case announce k hpc =>
    have hk := (hw.at hpc).2
    refine keep (fun he => ?_) rfl
    rw [hpc]
    cases k with
    | boundary b => cases b <;> cases he
    | «await» tr =>
      have := hk tr rfl
      cases tr <;> first | exact he | cases this
  case prepLost hpc hj ha => exact fun _ => h (by rw [hpc]; rfl)
  case prepFailed hpc hf ha => exact fun _ => h (by rw [hpc]; rfl)
  case removed hpc hk => exact fun _ => h (by rw [hpc]; rfl)
  case froze hd => subst hd; exact fun he => by cases he
  case busy hd => subst hd; exact fun he => by cases he
  case rolledBack v hpc hf =>
    intro he
    have hterm : v.terminal = .thawed := by
      cases ht : v.terminal with
      | frozen => rw [ht] at he; cases he
      | thawed => rfl
    have hmounts := Rollback.mounts_of_thawed (hw.trackedAt hpc) hf hterm
    have hkeep : v.drain.keep = [] := (List.append_eq_nil_iff.1 hmounts).2
    have hheld : c.held = [] := h (by rw [hpc]; rfl)
    simp [hheld, hkeep]
  case call ht hc => exact keep (tracks ht hc.same) hc.calls.held
  case lose ht => exact keep (tracks ht (Tracked.loseJob_same _)) rfl
  case drain hr htodo hc => exact keep id (Ctx.fithaw_calls hc).held
  all_goals
    first
      | exact fun he => by cases he
      | exact keep id rfl
      | exact keep (fun he => by rw [‹d.pc = _›]; exact Pc.emptied_aborting he) (by simp)
      | exact keep (fun he => by rw [‹d.pc = _›]; exact Pc.emptied_conclude he) (by simp)

/-- The scope is set right before the publication. -/
theorem Move.scoped (hm : Move cfg c i fresh d c' d' new)
    (h : ∀ terminal reply, d.pc = .conclude .state terminal reply → c.scope = d.scopeLeft terminal) :
    ∀ terminal reply, d'.pc = .conclude .state terminal reply → c'.scope = d'.scopeLeft terminal := by
  intro terminal reply hj
  cases hm
  case scope hpc => cases hj; rfl
  case drain hr htodo hc =>
    rw [(Ctx.fithaw_calls hc).scope]
    exact h terminal reply hj
  case loseDrain hr => exact h terminal reply hj
  case joinDrain hpc hr he hh =>
    have hj : d.pc = .conclude .state terminal reply := hj
    rcases hpc with hpc | ⟨tr, hpc⟩ <;> rw [hpc] at hj <;> cases hj
  case joinDrainRestart hpc hr he hh =>
    have hj : d.pc = .conclude .state terminal reply := hj
    rcases hpc with hpc | ⟨tr, hpc⟩ <;> rw [hpc] at hj <;> cases hj
  case settleDrain hpc hr hh =>
    have hj : d.pc = .conclude .state terminal reply := hj
    rw [hpc] at hj
    cases hj
  case announce k hpc =>
    cases k with
    | boundary b => cases b <;> cases hj
    | «await» tr => cases hj
  case commit terminal' reply' hpc => cases terminal' <;> cases hj
  case publish terminal' reply' hpc ht => cases terminal' <;> cases hj
  case publishNone terminal' reply' hpc ht hth => cases terminal' <;> cases hj
  case froze hd => subst hd; cases hj
  case busy hd => subst hd; cases hj
  case call ht hc => rcases tracked_cases ht with ⟨hpc, he⟩ | ⟨stage, hpc, he⟩ <;> rw [he] at hj <;> cases hj
  case lose ht => rcases tracked_cases ht with ⟨hpc, he⟩ | ⟨stage, hpc, he⟩ <;> rw [he] at hj <;> cases hj
  all_goals cases hj

/-- What an operation that began without handles satisfies until it publishes its settlement. -/
structure Accounted (c : Ctx) (i : TaskId) (d : Driver) : Prop where
  last : lastOperation c.log = some i
  stale : d.stale = []
  apart : d.Apart
  released : d.returned.Perm (leftBy i c.log ++ d.drained)
  lost : d.uncertain = false → d.lost = []
  emptied : d.pc.emptied = true → c.held = []
  scope : ∀ terminal reply, d.pc = .conclude .state terminal reply → c.scope = d.scopeLeft terminal

/-- Every handle that the operation has published and that was not released is in one place. -/
theorem Accounted.perm (h : d.Accounted c i) (hb : d.Balanced c.held) :
    (c.held ++ d.draining ++ d.kept ++ d.lost).Perm (leftBy i c.log) := by
  rw [List.perm_iff_count]
  intro m
  have hcount := h.released.count_eq m
  have hplace := hb m
  rw [h.stale] at hplace
  simp only [List.nil_append, List.count_append] at hcount hplace ⊢
  omega

theorem Accounted.nodup (h : d.Accounted c i) : (devs (leftBy i c.log)).Nodup := by
  have hret : (devs d.returned).Nodup := h.apart.nodup.of_append_left
  have hall : (devs (leftBy i c.log ++ d.drained)).Nodup := (h.released.map Mount.dev).nodup_iff.1 hret
  rw [devs_append] at hall
  exact hall.of_append_left

/-- The held handles are on different superblocks. -/
theorem Accounted.held_nodup (h : d.Accounted c i) (hb : d.Balanced c.held) : (devs c.held).Nodup := by
  have hall := ((h.perm hb).map Mount.dev).nodup_iff.2 h.nodup
  simp only [List.append_assoc, List.map_append] at hall
  exact hall.of_append_left

theorem Move.accounted (hm : Move cfg c i fresh d c' d' new) (hw : d.WF) (hb : d.Balanced c.held) (h : d.Accounted c i) :
    d'.Accounted c' i where
  last := by
    have htask : Task.Move cfg c i fresh (.driver d) c' (.driver d') new := .driver hm
    rw [htask.lastOperation]
    exact h.last
  stale := hm.stale.trans h.stale
  apart := hm.apart hw h.apart
  released := by
    cases hm.provides hw with
    | stays hlog hr hd =>
      rw [hlog, hr, hd]
      exact h.released
    | publishes m hlog hr hd =>
      rw [hlog, hr, hd]
      have hmid : (leftBy i c.log ++ d.drained ++ [m]).Perm (leftBy i c.log ++ [m] ++ d.drained) := by
        rw [List.append_assoc, List.append_assoc]
        exact List.perm_append_comm.append_left _
      exact (h.released.append_right [m]).trans hmid
    | releases m r hlog hc hm' hr hd =>
      have hmem : m ∈ leftBy i c.log := (h.perm hb).mem_iff.1 (by simp [hm'])
      have hrel := leftBy_released (e := .fithaw i m.dev r) hmem h.nodup (by simp [Event.released, hc]) rfl
      rw [hlog, hr]
      have hmid : (m :: leftBy i (.fithaw i m.dev r :: c.log) ++ d.drained).Perm
          (leftBy i (.fithaw i m.dev r :: c.log) ++ d'.drained) :=
        (List.perm_middle.symm).trans (hd.symm.append_left _)
      exact h.released.trans ((hrel.append_right _).trans hmid)
  lost := hm.lost h.lost
  emptied := hm.emptied hw h.emptied
  scope := hm.scoped h.scope

/-- What a driver publishes: `Thawed` without handles, or `Frozen` with those that it has published and not released,
as long as the scope relies on them. -/
theorem Move.provides_published (hm : Move cfg c i fresh d c' d' new) (hw : d.WF) (hb : d.Balanced c.held)
    (h : d.Accounted c i) (hp : d.pc.published = false) (hp' : d'.pc.published = true) :
    c'.held = c.held ∧ ((c'.state = .thawed ∧ c'.held = []) ∨
      (c'.state = .frozen ∧ (c'.scope = .tracked → OwnHandles c'.log c'.held))) := by
  have htask : Task.Move cfg c i fresh (.driver d) c' (.driver d') new := .driver hm
  obtain ⟨terminal, reply, hpc, rfl, -⟩ := hm.publication hw hp hp'
  refine ⟨rfl, ?_⟩
  cases terminal with
  | thawed => exact .inl ⟨rfl, h.emptied (by rw [hpc]; rfl)⟩
  | frozen =>
    refine .inr ⟨rfl, fun hs => ⟨i, htask.lastOperation.trans h.last, ?_⟩⟩
    have hscope : d.scopeLeft .frozen = .tracked := (h.scope _ _ hpc).symm.trans hs
    have hcertain : d.uncertain = false := by
      by_contra hu
      simp [scopeLeft, hu] at hscope
    have hconcl : Concluding d := hw.at hpc
    have hdrain : d.draining = [] := by simp [draining, running, hconcl.recovery, hpc, Pc.rolling]
    have hperm := h.perm hb
    rw [hdrain, hconcl.kept, h.lost hcertain, List.append_nil, List.append_nil, List.append_nil] at hperm
    simpa [leftBy, Event.released, Event.hands] using hperm

end Driver

/-! ### The handles of a thaw -/

/-- The stages at which a thaw discovers a target. -/
def ThawStage.discovers : ThawStage → Bool
  | .table => true
  | .open _ _ _ _ => true
  | _ => false

namespace ThawBlocking

variable {c c' : Ctx} {i : TaskId} {j j' : ThawBlocking}

/-- The thaw is tracked: it discovers no target. -/
structure Narrow (j : ThawBlocking) : Prop where
  rest : j.rest = []
  stage : j.stage.discovers = false

theorem advance_narrow (h : j.rest = []) : j.advance.Narrow := by
  rcases j.advance_cases with ⟨t, ts, m, retained, hrest, -⟩ | ⟨t, ts, hrest, -⟩ | ⟨m, retained, -, -, he⟩ |
    ⟨failure, -, -, -, he⟩ | ⟨-, -, -, -, he⟩
  · rw [h] at hrest; cases hrest
  · rw [h] at hrest; cases hrest
  all_goals
    rw [he]
    exact ⟨h, rfl⟩

/-- A `FITHAW` of a thaw releases the handle that it drains, or none. -/
theorem fithaw_releases (j : ThawBlocking) (m : Mount) (n : Nat) (r : Except KernelError Unit) :
    (completesDrain r = false ∧ (m :: (j.retained ++ j.keep)).Perm (j.fithaw m n r).mounts) ∨
      (completesDrain r = true ∧ (j.retained ++ j.keep).Perm (j.fithaw m n r).mounts) := by
  have hcall := completesDrain_of_drainCall (n := n) (r := r)
  unfold fithaw
  cases hd : drainCall n r with
  | going n' => exact .inl ⟨hcall.1 n' hd, .refl _⟩
  | ended res =>
    have hiff := hcall.2 res hd
    cases hres : res.incomplete with
    | none =>
      refine .inr ⟨hiff.2 hres, ?_⟩
      simp only [settle, hres]
      exact mounts_advance { j with thawed := j.thawed + res.counted }
    | some reason =>
      refine .inl ⟨Bool.eq_false_iff.2 fun h => ?_, ?_⟩
      · rw [hiff.1 h] at hres
        cases hres
      · simp only [settle, hres]
        refine List.Perm.trans ?_ (mounts_advance _)
        rw [← List.append_assoc]
        exact @List.perm_append_comm _ [m] _

/-- A tracked thaw keeps to its handles. -/
theorem Call.narrow (h : j.Call c i c' j') (hj : j.Narrow) : j'.Narrow := by
  have hstage : ∀ {stage : ThawStage}, j.stage = stage → stage.discovers = false := fun hs => hs ▸ hj.stage
  cases h with
  | discovered entries hs => cases hstage hs
  | undiscovered message hs => cases hstage hs
  | opened hs => cases hstage hs
  | notOpened err hs => cases hstage hs
  | @fithaw m n r c' hs hc =>
    rcases j.fithaw_cases m n r with ⟨n', he⟩ | ⟨res, failure, -, -, he⟩ | ⟨res, -, -, he⟩ <;> rw [he]
    · exact ⟨hj.rest, rfl⟩
    · exact advance_narrow hj.rest
    · exact advance_narrow hj.rest
  | unlinked hs hc =>
    unfold removed
    split <;> exact ⟨hj.rest, rfl⟩

theorem Call.accounts (h : j.Call c i c' j') (hj : j.Narrow) (hn : j.Apart) (ha : OwnHandles c.log j.mounts) :
    OwnHandles c'.log j'.mounts := by
  have hstage : ∀ {stage : ThawStage}, j.stage = stage → stage.discovers = false := fun hs => hs ▸ hj.stage
  cases h with
  | discovered entries hs => cases hstage hs
  | undiscovered message hs => cases hstage hs
  | opened hs => cases hstage hs
  | notOpened err hs => cases hstage hs
  | @fithaw m n r c' hs hc =>
    have hlog : c'.log = .fithaw i m.dev r :: c.log := by
      rcases Ctx.fithaw_cases hc with ⟨-, -, rfl⟩ | ⟨err, -, rfl⟩ <;> rfl
    have hmounts : j.mounts = m :: (j.retained ++ j.keep) := by simp [mounts, hs, ThawStage.mounts]
    rw [hmounts] at ha
    rw [hlog]
    rcases j.fithaw_releases m n r with ⟨hr, hp⟩ | ⟨hr, hp⟩
    · have hnew : OwnHandles (.fithaw i m.dev r :: c.log) (m :: (j.retained ++ j.keep)) := by
        refine @OwnHandles.append _ [_] _ ha fun e he => ?_
        rw [List.mem_singleton.1 he]
        exact ⟨fun op => by simp [Event.Still, Event.released, hr, Event.hands], fun op r s he => by cases he⟩
      exact hnew.perm hp.symm
    · have hnodup : (devs (m :: (j.retained ++ j.keep))).Nodup := by
        have h := hn.nodup
        rw [hs] at h
        simpa [ThawStage.devs] using h
      exact (ha.release hnodup hr).perm hp.symm
  | @unlinked ans c' r hs hc =>
    have hlog : c'.log = c.log := by
      rcases Ctx.unlink_cases hc with ⟨-, -, rfl⟩ | ⟨-, -, rfl⟩ | ⟨e, -, rfl⟩ <;> rfl
    have hmounts : (j.removed r).mounts = j.mounts := by
      unfold removed
      split <;> simp [mounts, hs, ThawStage.mounts]
    rw [hlog, hmounts]
    exact ha

end ThawBlocking

/-- The step puts no handle of a recovery drain back: such a drain was claimed from `Thawed`, and the state will be
`Thawed` again with the handle held. -/
def RecoveryCompletes (a : Agent) (_ : Action) (a' : Agent) : Prop :=
  ∀ i w token outcome held, a.tasks i = some (.thaw w (.hold token outcome held)) →
    a'.tasks i = some (.thaw w (Thaw.settles token outcome)) → token.isRecoveryDrain = true → held = []

/-- What the others record of the handles. -/
theorem Event.still_of_unowned {e : Event} (h : e.ofOwner = false) (op : TaskId) : e.Still op := by
  refine ⟨?_, Event.hands_of_unowned h op⟩
  cases e with
  | fithaw => cases h
  | _ => rfl

theorem OwnHandles.unowned {log new : List Event} {ms : List Mount} (h : OwnHandles log ms)
    (hnew : ∀ e ∈ new, e.ofOwner = false) : OwnHandles (new ++ log) ms := by
  refine h.append fun e he => ⟨fun op => Event.still_of_unowned (hnew e he) op, fun op r s heq => ?_⟩
  have hno := hnew e he
  rw [heq] at hno
  cases hno

namespace Thaw

/-- The handles `ms` are those of the last operation, as far as the thaw relies on it. -/
def Relies (c : Ctx) (token : ThawToken) (ms : List Mount) : Prop :=
  token.isRecoveryDrain = false → c.scope = .tracked → OwnHandles c.log ms

/-- What a thaw satisfies of the handles that it found, has and leaves. -/
def Provided (c : Ctx) : ThawPc → Prop
  | .claimed token => Relies c token c.held
  | .take token => Relies c token c.held
  | .scope token held => c.held = [] ∧ (devs held).Nodup ∧ Relies c token held
  | .blocking token j =>
    c.held = [] ∧ j.val.Apart ∧ j.val.WF ∧ Relies c token j.val.mounts ∧
      (token.isRecoveryDrain = false → c.scope = .tracked → j.val.Narrow)
  | .lost _ => c.held = []
  | .hold token outcome held =>
    c.held = [] ∧ (devs held).Nodup ∧ Relies c token held ∧ (outcome.isOk = true → held = [])
  | .finalise _ _ => c.held = []
  | .rescope _ _ => c.held = []
  | .publish _ _ => c.held = []
  | .fail _ _ => c.scope = .tracked → OwnHandles c.log c.held
  | _ => True

theorem Provided.of_token {c : Ctx} {pc : ThawPc} (h : token pc = none) : Provided c pc := by
  cases pc <;> trivial

variable {cfg : Config} {c c' : Ctx} {i fresh : TaskId} {pc pc' : ThawPc} {new : Option Dog}

private theorem Relies.mono {tk : ThawToken} {ms : List Mount} (h : Relies c tk ms) (hscope : c'.scope = c.scope)
    (hlog : OwnHandles c.log ms → OwnHandles c'.log ms) : Relies c' tk ms :=
  fun ht hs => hlog (h ht (hscope ▸ hs))

/-- It depends on what is held and in scope and on the history of the handles only. -/
theorem Provided.mono (h : Provided c pc) (hheld : c'.held = c.held) (hscope : c'.scope = c.scope)
    (hlog : ∀ {ms}, OwnHandles c.log ms → OwnHandles c'.log ms) : Provided c' pc := by
  cases pc with
  | claimed tk =>
    show Relies c' tk c'.held
    rw [hheld]
    exact Relies.mono h hscope hlog
  | take tk =>
    show Relies c' tk c'.held
    rw [hheld]
    exact Relies.mono h hscope hlog
  | scope tk held => exact ⟨hheld.trans h.1, h.2.1, h.2.2.mono hscope hlog⟩
  | blocking tk j =>
    exact ⟨hheld.trans h.1, h.2.1, h.2.2.1, h.2.2.2.1.mono hscope hlog, fun ht hs => h.2.2.2.2 ht (hscope ▸ hs)⟩
  | lost tk => exact hheld.trans h
  | hold tk outcome held => exact ⟨hheld.trans h.1, h.2.1, h.2.2.1.mono hscope hlog, h.2.2.2⟩
  | finalise tk outcome => exact hheld.trans h
  | rescope tk outcome => exact hheld.trans h
  | publish tk outcome => exact hheld.trans h
  | fail tk failure =>
    intro hs
    rw [hheld]
    exact hlog (h (hscope ▸ hs))
  | _ => trivial

/-- The events that say nothing of the handles. -/
private theorem relies_note {tk : ThawToken} {ms : List Mount} {e : Event} (h : Relies c tk ms)
    (he : (∀ op, e.Still op) ∧ ∀ op r s, e ≠ .started op r s) : Relies (c.note e) tk ms := by
  intro ht hs
  refine @OwnHandles.append _ [e] _ (h ht hs) fun e' he' => ?_
  rw [List.mem_singleton.1 he']
  exact he

theorem Move.provided (hm : Move cfg c i fresh pc c' pc' new) (h : Provided c pc) (hnodup : (devs c.held).Nodup)
    (hfrozen : c.state = .frozen → c.scope = .tracked → OwnHandles c.log c.held)
    (hok : ∀ token outcome held, pc = .hold token outcome held → pc' = settles token outcome →
      token.isRecoveryDrain = true → held = []) : Provided c' pc' := by
  cases hm
  case win hs hpc =>
    have hrel : Relies c ⟨c.state⟩ c.held := by
      intro ht hsc
      refine hfrozen (hs.resolve_right fun hst => ?_) hsc
      simp [ThawToken.isRecoveryDrain, hst] at ht
    exact relies_note (c := { c with state := .thawing, owner := some i }) hrel
      ⟨fun op => ⟨rfl, rfl⟩, fun op r s he => by cases he⟩
  case cancel token =>
    have h : Provided c (.take token) := h
    exact h.mono (by simp) (by simp) (by simp)
  case take token => exact ⟨rfl, hnodup, h⟩
  case begin token held discover hd =>
    obtain ⟨hheld, hnodup', hrel⟩ := h
    have hpc : Relies c token (ThawBlocking.start discover held).mounts :=
      fun ht hs => (hrel ht hs).perm (ThawBlocking.mounts_start discover held).symm
    refine ⟨hheld, ThawBlocking.start_apart hnodup' discover, ThawBlocking.start_wf discover held,
      relies_note hpc ⟨fun op => ⟨rfl, rfl⟩, fun op r s he => by cases he⟩, fun ht hs => ?_⟩
    have hs : c.scope = .tracked := hs
    have hdisc : discover = false := by simp [hd, ht, hs]
    rw [hdisc]
    exact ThawBlocking.advance_narrow (j := ⟨.table, [], held, 0, none, [], none⟩) rfl
  case lost token v => exact h.1
  case ended token v r hs =>
    obtain ⟨hheld, hap, hwf, hrel, -⟩ := h
    have hret : v.retained = [] := (hwf.ended (.inr ⟨r, hs⟩)).1
    have hmounts : v.mounts = v.keep := by simp [ThawBlocking.mounts, hs, ThawStage.mounts, hret]
    refine ⟨hheld, ?_, hmounts ▸ hrel, fun hr => ?_⟩
    · exact hap.nodup.of_append_right.of_append_right
    · cases r with
      | error failure => cases hr
      | ok n =>
        by_contra hk
        have hkeep := hwf.keep hk
        rw [(hwf.clean (.inr ⟨n, hs⟩)).1] at hkeep
        cases hkeep
  case uncertain token => exact ⟨h, List.nodup_nil, fun _ hs => (by cases hs), fun _ => rfl⟩
  case hold token outcome held =>
    obtain ⟨hheld, -, hrel, hclean⟩ := h
    have hall : c.held ++ held = held := by rw [hheld, List.nil_append]
    cases outcome with
    | ok n =>
      show c.held ++ held = []
      rw [hall]
      exact hclean rfl
    | error failure =>
      simp only [settles]
      split
      · rename_i ht
        show c.held ++ held = []
        rw [hall]
        exact hok _ _ _ rfl (by simp only [settles, ht, if_true]) ht
      · rename_i ht
        intro hs
        show OwnHandles c.log (c.held ++ held)
        rw [hall]
        exact hrel (Bool.eq_false_iff.2 ht) hs
  case finalise => exact h
  case rescope => exact h
  case call token v v' hc =>
    obtain ⟨hheld, hap, hwf, hrel, hnar⟩ := h
    have hscope := hc.calls.scope
    refine ⟨hc.calls.held.trans hheld, hc.apart hap, hc.wf hwf, fun ht hs => ?_, fun ht hs => ?_⟩
    · exact hc.accounts (hnar ht (hscope ▸ hs)) hap (hrel ht (hscope ▸ hs))
    · exact hc.narrow (hnar ht (hscope ▸ hs))
  case lose => exact h
  all_goals trivial

end Thaw

/-! ### The invariant -/

namespace Provenance

/-- No handle is held while the state is `Thawed`; the held ones are on different superblocks, and in the tracked scope
those of the last operation. -/
structure Glob (c : Ctx) (_ : TaskId) : Prop where
  thawed : c.state = .thawed → c.held = []
  nodup : (devs c.held).Nodup
  frozen : c.state = .frozen → c.scope = .tracked → OwnHandles c.log c.held

def Loc (c : Ctx) (i : TaskId) : Task → Prop
  | .driver d => d.pc.published = false → d.Accounted c i
  | .thaw _ pc => Thaw.Provided c pc
  | _ => True

section Reach

variable {cfg : Config} {c c' : Ctx} {i j fresh : TaskId} {t t' u : Task} {new : Option Dog}

/-- While a task holds the token, only the superblocks of the held handles matter. -/
private theorem Glob.busy {n : TaskId} (hn : (devs c.held).Nodup) (h : c.state = .freezing ∨ c.state = .thawing) :
    Glob c n := by
  refine ⟨fun hs => ?_, hn, fun hs => ?_⟩ <;> rcases h with h | h <;> rw [h] at hs <;> cases hs

/-- What the token guards is unchanged, and nothing of the owner's is recorded. -/
private theorem Glob.unowned {n m : TaskId} (h : Glob c n) (hg : c'.toGuarded = c.toGuarded) {more : List Event}
    (hlog : c'.log = more ++ c.log) (hmore : ∀ e ∈ more, e.ofOwner = false) : Glob c' m := by
  refine ⟨fun hs => ?_, ?_, fun hs hsc => ?_⟩
  · rw [hg] at hs ⊢
    exact h.thawed hs
  · rw [hg]
    exact h.nodup
  · rw [hg] at hs hsc ⊢
    rw [hlog]
    exact (h.frozen hs hsc).unowned hmore

/-- Nothing is said of a task without a token. -/
private theorem Loc.of_token (hw : u.WF) (h : u.holdsToken = false) : Loc c j u := by
  cases u with
  | driver d =>
    intro hp
    have ht := hw.token_iff
    rw [show (d.token.isSome || d.thawToken.isSome) = false from h, hp] at ht
    cases ht
  | thaw w pc => exact Thaw.Provided.of_token (by simpa [Task.holdsToken, Task.freezeToken, Task.thawToken] using h)
  | _ => trivial

/-- A step that leaves what the token guards and the history of the handles. -/
private theorem Loc.mono (h : Loc c j u) (hg : c'.held = c.held ∧ c'.scope = c.scope) {more : List Event}
    (hlog : c'.log = more ++ c.log) (hmore : ∀ e ∈ more, e.ofOwner = false) (hlast : lastOperation c'.log = lastOperation c.log) :
    Loc c' j u := by
  cases u with
  | driver d =>
    intro hp
    have hd : d.Accounted c j := h hp
    have hleft : leftBy j c'.log = leftBy j c.log := by
      rw [hlog]
      exact leftBy_append fun e he => Event.still_of_unowned (hmore e he) j
    exact ⟨hlast.trans hd.last, hd.stale, hd.apart, hleft ▸ hd.released, hd.lost, fun he => hg.1.trans (hd.emptied he),
      fun terminal reply hpc => hg.2.trans (hd.scope terminal reply hpc)⟩
  | thaw w pc => exact Thaw.Provided.mono h hg.1 hg.2 fun ha => hlog ▸ ha.unowned hmore
  | _ => trivial

/-- The token keeps the others away from what its holder relies on. -/
private theorem Loc.frame (h : Loc c j u) (hm : Task.Move cfg c i fresh t c' t' new) {n : TaskId} (hg : Tokens.Glob c n)
    (hl : Tokens.Loc c i t) (hj : j ≠ i) (hu : Tokens.Loc c j u) : Loc c' j u := by
  cases ht : u.holdsToken with
  | false => exact .of_token hu.wf ht
  | true =>
    obtain ⟨hguard, more, hlog, hmore⟩ := Tokens.bystander hm hg hl hj hu ht
    exact h.mono ⟨by rw [hguard], by rw [hguard]⟩ hlog (fun e he => (hmore e he).2) hm.lastOperation

private theorem move_driver {d d' : Driver} (hm : Driver.Move cfg c i fresh d c' d' new) {n : TaskId} (hw : d.WF)
    (htok' : Tokens.Loc c' i (.driver d')) (hb : d.pc.published = false → d.Balanced c.held) (hg : Glob c n)
    (hl : Loc c i (.driver d)) : Glob c' n ∧ Loc c' i (.driver d') := by
  cases hp : d.pc.published with
  | true =>
    obtain ⟨more, hlog, hmore⟩ := hm.unowned_of_published hw hp
    refine ⟨hg.unowned (hm.guarded_of_published hw hp) hlog fun e he => (hmore e he).2, fun hp' => ?_⟩
    rw [hm.stays_published hw hp] at hp'
    cases hp'
  | false =>
    have hacc : d.Accounted c i := hl hp
    have hacc' := hm.accounted hw (hb hp) hacc
    refine ⟨?_, fun _ => hacc'⟩
    cases hp' : d'.pc.published with
    | false => exact .busy (hacc'.held_nodup (hm.balanced hw hb hp')) (htok'.driver_busy hp')
    | true =>
      obtain ⟨hheld, hpub⟩ := hm.provides_published hw (hb hp) hacc hp hp'
      have hnodup : (devs c'.held).Nodup := hheld ▸ hg.nodup
      rcases hpub with ⟨hs, hnil⟩ | ⟨hs, hfrozen⟩
      · exact ⟨fun _ => hnil, hnodup, fun hs' => by rw [hs] at hs'; cases hs'⟩
      · exact ⟨fun hs' => (by rw [hs] at hs'; cases hs'), hnodup, fun _ => hfrozen⟩

private theorem move_thaw {w : Bool} {pc pc' : ThawPc} (hm : Thaw.Move cfg c i fresh pc c' pc' new) {n : TaskId}
    (htok' : Tokens.Loc c' i (.thaw w pc')) (hg : Glob c n) (hl : Thaw.Provided c pc) : Glob c' n := by
  have hnodup : (devs c'.held).Nodup := by
    cases hm
    case take => exact List.nodup_nil
    case hold token outcome held =>
      show (devs (c.held ++ held)).Nodup
      rw [hl.1, List.nil_append]
      exact hl.2.1
    case call hc =>
      rw [hc.calls.held]
      exact hg.nodup
    all_goals simpa using hg.nodup
  cases ht : Thaw.token pc' with
  | some token => exact .busy hnodup (.inr (htok'.thawing (by simp [Task.thawToken, ht])))
  | none =>
    cases htok : Thaw.token pc with
    | some token =>
      cases hm
      case publish => exact ⟨fun _ => hl, hnodup, fun hs => by cases hs⟩
      case fail token failure =>
        refine ⟨fun hs => (by cases hs), hnodup, fun _ hsc => ?_⟩
        refine @OwnHandles.append _ [_] _ (hl hsc) fun e he => ?_
        rw [List.mem_singleton.1 he]
        exact ⟨fun op => ⟨rfl, rfl⟩, fun op r s heq => by cases heq⟩
      case hold token outcome held =>
        cases outcome with
        | ok n => cases ht
        | error failure =>
          simp only [Thaw.settles] at ht
          split at ht <;> cases ht
      all_goals first
        | (cases htok; done)
        | cases ht
    | none =>
      obtain ⟨more, hlog, hmore⟩ := hm.unowned htok
      refine hg.unowned ?_ hlog fun e he => (hmore e he).2
      cases hm
      case win => cases ht
      case install => simp
      all_goals first
        | rfl
        | cases htok

private theorem move (hm : Task.Move cfg c i fresh t c' t' new) {n : TaskId} (hw : t.WF) (htok' : Tokens.Loc c' i t')
    (hh : Handles.Loc c i t) (hg : Glob c n) (hl : Loc c i t)
    (hok : ∀ w token outcome held, t = .thaw w (.hold token outcome held) → t' = .thaw w (Thaw.settles token outcome) →
      token.isRecoveryDrain = true → held = []) : Glob c' n ∧ Loc c' i t' := by
  have same : ∀ {c'' : Ctx}, c''.toGuarded = c.toGuarded → c''.log = c.log → Glob c'' n := fun hguard hlog =>
    hg.unowned hguard (hlog.trans (List.nil_append _).symm) (by simp)
  cases hm with
  | driver h =>
    have hhand : Handles.DriverLoc c _ := hh
    exact move_driver h hw htok' hhand.balanced hg hl
  | @thaw w _ _ _ _ h =>
    refine ⟨move_thaw h htok' hg hl, h.provided hl hg.nodup hg.frozen ?_⟩
    rintro token outcome held rfl rfl hr
    exact hok w token outcome held rfl rfl hr
  | dogClaims hs hc =>
    refine ⟨.busy hg.nodup (.inr rfl), fun _ hsc => ?_⟩
    refine @OwnHandles.append _ [_] _ (hg.frozen hc hsc) fun e he => ?_
    rw [List.mem_singleton.1 he]
    exact ⟨fun op => ⟨rfl, rfl⟩, fun op r s heq => by cases heq⟩
  | startInstall => exact ⟨same (by simp) (by simp), trivial⟩
  | _ => exact ⟨same rfl rfl, trivial⟩

/-- The handles are accounted for in every run in which no recovery drain hands a handle back. -/
theorem reach {a : Agent} (h : Machine.Reach (Agent.step cfg) RecoveryCompletes Agent.Initial a) :
    a.Holds Glob Loc := by
  refine h.invariant (fun a h => ?_) (fun a act a' hr ih hs hok => ?_)
  · obtain ⟨c, n, rfl⟩ := h.booted
    exact Agent.boot_holds ⟨fun _ => rfl, List.nodup_nil, fun _ hsc => by cases hsc⟩ fun _ => trivial
  · have htok := Tokens.reach hr
    have hhand := Handles.reach hr
    have hreg := (Registry.reach hr).glob
    have hsucc : ∀ {c : Ctx} (n : TaskId), Glob c n → Glob c (n + 1) := fun _ hG => ⟨hG.thawed, hG.nodup, hG.frozen⟩
    refine Agent.holds_step ih hs ?_ ?_ ⟨hsucc _ ih.glob, trivial, trivial⟩ ?_ ?_
    · rintro i t c' t' new ht hm ⟨-, ht'⟩
      obtain ⟨-, htok'⟩ := Tokens.move hm (htok.bound ht) htok.glob (htok.loc ht)
      obtain ⟨hG, hL⟩ := move hm (htok.loc ht).wf htok' (hhand.loc ht) ih.glob (ih.loc ht)
        fun w token outcome held he he' => hok i w token outcome held (he ▸ ht) (he' ▸ ht')
      exact ⟨hG, hsucc, hL, fun _ _ => trivial, fun j u hj hu hl => hl.frame hm htok.glob (htok.loc ht) hj (htok.loc hu)⟩
    · intro restrict hst _
      have hheld := ih.glob.thawed hst
      have hpub : publishedBy a.ctx.log a.next = [] := by
        have hold : a.ctx.log.filterMap (Event.hands a.next) = [] :=
          List.filterMap_eq_nil_iff.2 fun e he => Event.hands_of_author (hreg.unheard he)
        exact congrArg List.reverse hold
      have hleft : leftBy a.next a.ctx.log = [] := List.sublist_nil.1 (hpub ▸ leftBy_sublist a.next a.ctx.log)
      have hleft' : leftBy a.next (Agent.freezeCtx cfg a.ctx a.next restrict).log = [] := by
        simp [Agent.freezeCtx, leftBy, Event.released, Event.hands, hleft]
      refine ⟨.busy ih.glob.nodup (.inl rfl), fun _ => ?_, fun j u hj hu hl => ?_⟩
      · refine ⟨rfl, hheld, ⟨List.nodup_nil, fun _ => rfl⟩, ?_, fun _ => rfl, fun _ => hheld, fun _ _ hpc => by cases hpc⟩
        rw [hleft']
        exact .refl _
      · refine .of_token (htok.loc hu).wf (Bool.eq_false_iff.2 fun ht => ?_)
        rcases (htok.loc hu).busy ht with hs | hs <;> rw [hst] at hs <;> cases hs
    · intro c' he _
      have hsame : c'.log = a.ctx.log ∧ c'.held = a.ctx.held ∧ c'.scope = a.ctx.scope ∧ c'.state = a.ctx.state := by
        cases he <;> simp
      obtain ⟨hlog, hheld, hscope, hstate⟩ := hsame
      refine ⟨⟨fun hs => ?_, ?_, fun hs hsc => ?_⟩, fun j u _ hl => ?_⟩
      · rw [hheld]
        exact ih.glob.thawed (hstate ▸ hs)
      · rw [hheld]
        exact ih.glob.nodup
      · rw [hheld, hlog]
        exact ih.glob.frozen (hstate ▸ hs) (hscope ▸ hsc)
      · exact hl.mono ⟨hheld, hscope⟩ (hlog.trans (List.nil_append _).symm) (by simp) (by rw [hlog])
    · intro _
      exact ⟨⟨fun _ => rfl, List.nodup_nil, fun _ hsc => by cases hsc⟩, fun _ => trivial⟩

end Reach

end Provenance

end Qeminga
