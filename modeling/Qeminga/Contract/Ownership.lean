import Qeminga.Invariant.Handles
import Qeminga.Contract.FreezeReply

/-!
# Ownership of the handles and of the tasks of an operation

What a freeze operation is answerable for until it settles: its blocking tasks, each spawned and joined once
(`outstanding`), and the handles its workers returned, each in one place.  After an abort no worker is spawned, so what
can still freeze is the worker that was outstanding.
-/

namespace Qeminga

/-! ### What the history says of an operation -/

/-- The blocking tasks of the operation `op` that were spawned and not joined. -/
def outstanding (op : TaskId) : List Event → List JobKind
  | [] => []
  | .spawned i job :: older => if i = op then job :: outstanding op older else outstanding op older
  | .joined i job :: older => if i = op then (outstanding op older).erase job else outstanding op older
  | _ :: older => outstanding op older

def JobKind.isWorker : JobKind → Bool
  | .worker _ => true
  | _ => false

/-- The event is the spawn of a worker of `op`. -/
def Event.spawnsWorker (op : TaskId) : Event → Bool
  | .spawned i job => i = op && job.isWorker
  | _ => false

/-- The event is a `FIFREEZE` of `op`. -/
def Event.isFifreeze (op : TaskId) : Event → Bool
  | .fifreeze i _ _ _ _ => i = op
  | _ => false

/-- The handle that came back with an outcome. -/
def TargetOutcome.handle : TargetOutcome → Option Mount
  | .frozen m => some m
  | .busy m => some m
  | _ => none

/-- The handles that the workers of `op` returned, in order. -/
def handlesReturned (log : List Event) (op : TaskId) : List Mount :=
  (attempts log op).filterMap fun p => p.2.bind TargetOutcome.handle

/-- A drain of `op` on the superblock of `m` completed. -/
def Completed (log : List Event) (op : TaskId) (m : Mount) : Prop :=
  ∃ err : KernelError, err.endsDrain = true ∧ .fithaw op m.dev (.error err) ∈ log

/-- The event is neither the spawn nor the end of a task of `op`. -/
def Event.NoTask (op : TaskId) (e : Event) : Prop := ∀ job, e ≠ .spawned op job ∧ e ≠ .joined op job

section History

variable {log new : List Event} {op : TaskId}

theorem outstanding_cons {e : Event} (h : e.NoTask op) : outstanding op (e :: log) = outstanding op log := by
  cases e with
  | spawned i job =>
    have hi : i ≠ op := by
      rintro rfl
      exact (h job).1 rfl
    simp [outstanding, hi]
  | joined i job =>
    have hi : i ≠ op := by
      rintro rfl
      exact (h job).2 rfl
    simp [outstanding, hi]
  | _ => rfl

theorem outstanding_append (h : ∀ e ∈ new, e.NoTask op) : outstanding op (new ++ log) = outstanding op log := by
  induction new with
  | nil => rfl
  | cons e new ih =>
    rw [List.cons_append, outstanding_cons (h e List.mem_cons_self)]
    exact ih fun e' he' => h e' (List.mem_cons_of_mem _ he')

theorem outstanding_eq_nil (h : ∀ e ∈ log, e.author ≠ some op) : outstanding op log = [] := by
  have happ : outstanding op (log ++ []) = outstanding op [] :=
    outstanding_append fun e he job => ⟨fun heq => h e he (by rw [heq]; rfl), fun heq => h e he (by rw [heq]; rfl)⟩
  rwa [List.append_nil] at happ

theorem Event.isCall_noTask {e : Event} (h : e.isCall = true) : e.NoTask op := by
  intro job
  constructor
  · rintro rfl
    cases h
  · rintro rfl
    cases h

theorem returned_cons {e : Event} (h : ∀ t o, e ≠ .attempted op t o) : handlesReturned (e :: log) op = handlesReturned log op := by
  have happ : attempts ([e] ++ log) op = attempts log op :=
    attempts_append fun e' he' => by rw [List.mem_singleton.1 he']; exact h
  unfold handlesReturned
  rw [← happ]
  rfl

@[simp] theorem returned_attempted (t : Target) (o : Option TargetOutcome) :
    handlesReturned (.attempted op t o :: log) op = handlesReturned log op ++ (o.bind TargetOutcome.handle).toList := by
  cases h : o.bind TargetOutcome.handle <;> simp [handlesReturned, h]

theorem returned_append (h : ∀ e ∈ new, ∀ t o, e ≠ .attempted op t o) : handlesReturned (new ++ log) op = handlesReturned log op := by
  unfold handlesReturned
  rw [attempts_append h]

theorem Completed.mono {m : Mount} (h : Completed log op m) (hs : ∀ e ∈ log, e ∈ new) : Completed new op m := by
  obtain ⟨err, he, hmem⟩ := h
  exact ⟨err, he, hs _ hmem⟩

end History

/-! ### The tasks of an operation -/

def Tracked.job : Tracked → JobKind
  | .prep _ => .prep
  | .worker t _ _ => .worker t
  | .removal _ _ => .removal
  | .rollback _ => .rollback

def Resume.jobs : Resume → List JobKind
  | .await tr => [tr.job]
  | .boundary _ => []

def Pc.jobs : Pc → List JobKind
  | .await tr => [tr.job]
  | .aborting _ k => k.jobs
  | _ => []

/-- The blocking tasks a driver has to join: the recovery drain and the awaited task. -/
def Driver.jobs (d : Driver) : List JobKind := (if d.recovery.isSome then [.drain] else []) ++ d.pc.jobs

theorem Tracked.Same.job {tr tr' : Tracked} (h : tr.Same tr') : tr'.job = tr.job := by
  cases tr <;> cases tr' <;> simp_all [Tracked.Same, Tracked.job]

namespace Driver

variable {cfg : Config} {c c' : Ctx} {i fresh : TaskId} {d d' : Driver} {new : Option Dog}

private theorem erase_job {r : Bool} {job : JobKind} (h : job ≠ .drain) :
    ((if r then [JobKind.drain] else []) ++ [job]).erase job = if r then [.drain] else [] := by
  cases r with
  | true => simp [h.symm]
  | false => simp

/-- A step with which no task begins or ends. -/
private theorem jobs_congr (h : outstanding i c.log = d.jobs) (hlog : outstanding i c'.log = outstanding i c.log)
    (hr : d'.recovery.isSome = d.recovery.isSome) (hp : d'.pc.jobs = d.pc.jobs) : outstanding i c'.log = d'.jobs := by
  rw [hlog, h, Driver.jobs, Driver.jobs, hr, hp]

/-- The awaited task is joined, and perhaps followed by another one. -/
private theorem jobs_joined (h : outstanding i c.log = d.jobs) {tr : Tracked} (hpc : d.pc = .await tr)
    {next : List JobKind} (hlog : outstanding i c'.log = next ++ (outstanding i c.log).erase tr.job)
    (hnext : next = [] ∨ d.recovery = none) (hr : d'.recovery = d.recovery) (hp : d'.pc.jobs = next) :
    outstanding i c'.log = d'.jobs := by
  have hne : tr.job ≠ .drain := by cases tr <;> rintro ⟨⟩
  rw [hlog, h, Driver.jobs, Driver.jobs, hpc, hp, hr]
  have herase := erase_job (r := d.recovery.isSome) hne
  rw [show Pc.jobs (.await tr) = [tr.job] from rfl, herase]
  rcases hnext with rfl | hnext
  · simp
  · simp [hnext]

/-- Every task of an operation is spawned and joined by its driver. -/
theorem Move.jobs (hm : Move cfg c i fresh d c' d' new) (hw : d.WF) (h : outstanding i c.log = d.jobs) :
    outstanding i c'.log = d'.jobs := by
  cases hm
  case abort hpc => rcases hpc with hpc | hpc | ⟨hpc, -⟩ <;> exact jobs_congr h rfl rfl (by rw [hpc]; rfl)
  case interrupt hpc harm hc =>
    have hlog : c'.log = c.log := by rcases hc with rfl | rfl <;> rfl
    exact jobs_congr h (by rw [hlog]) rfl (by rw [hpc]; rfl)
  case announce k hpc =>
    refine jobs_congr h rfl rfl ?_
    rw [hpc]
    cases k with
    | boundary b => cases b <;> rfl
    | «await» tr => rfl
  case call tr tr' ht hc =>
    obtain ⟨new, hn, he⟩ := hc.calls.calls
    refine jobs_congr h ?_ rfl ?_
    · rw [hn]
      exact outstanding_append fun e hm => Event.isCall_noTask (he e hm).2
    · have hj := hc.same.job
      rcases tracked_cases ht with ⟨hpc, h⟩ | ⟨stage, hpc, h⟩ <;> rw [h, hpc] <;> exact congrArg (fun j => [j]) hj
  case lose tr ht =>
    refine jobs_congr h rfl rfl ?_
    have hj := (Tracked.loseJob_same tr).job
    rcases tracked_cases ht with ⟨hpc, h⟩ | ⟨stage, hpc, h⟩ <;> rw [h, hpc] <;> exact congrArg (fun j => [j]) hj
  case drain hr htodo hc =>
    obtain ⟨new, hn, he⟩ := (Ctx.fithaw_calls hc).calls
    refine jobs_congr h ?_ (by rw [hr]; rfl) rfl
    rw [hn]
    exact outstanding_append fun e hm => Event.isCall_noTask (he e hm).2
  case loseDrain hr => exact jobs_congr h rfl (by rw [hr]; rfl) rfl
  case joinDrain hpc hr he hh =>
    have h : outstanding i c.log = .drain :: d.pc.jobs := by rw [h, Driver.jobs, hr]; rfl
    simp [outstanding, h, Driver.jobs, recorded]
  case joinDrainRestart hpc hr he hh =>
    have h : outstanding i c.log = .drain :: d.pc.jobs := by rw [h, Driver.jobs, hr]; rfl
    simp [outstanding, h, Driver.jobs, recorded]
  case settleDrain hpc hr hh =>
    rw [Driver.jobs, hr] at h
    simp [outstanding, h, Driver.jobs]
  case recover k hpc hr hh =>
    rw [Driver.jobs, hr, hpc] at h
    simp [outstanding, h, Driver.jobs, Pc.jobs]
  case spawn hpc hd =>
    have hr := (hw.at hpc : Open d).recovery
    rw [Driver.jobs, hr, hpc] at h
    simp [outstanding, h, Driver.jobs, Pc.jobs, hr, Tracked.job]
  case settleRemove hpc hr hh hu =>
    rw [Driver.jobs, hr, hpc] at h
    simp [outstanding, h, Driver.jobs, Pc.jobs, hr, Tracked.job]
  case commitNothing hpc ho hf hh hu =>
    have hr := (hw.at hpc : Open d).recovery
    rw [Driver.jobs, hr, hpc] at h
    simp [outstanding, h, Driver.jobs, Pc.jobs, hr, Tracked.job]
  case prepLost hpc hj ha =>
    have hr := (open_of_abort (hw.at hpc) ha).recovery
    exact jobs_joined h hpc (by simp [outstanding, Tracked.job, Pc.jobs]) (.inr hr) rfl rfl
  case hardError hpc ha =>
    have hr := (open_of_abort (hw.at hpc) ha).recovery
    exact jobs_joined h hpc (by simp [outstanding, Tracked.job, Pc.jobs]) (.inr hr) rfl rfl
  case froze hpc hd =>
    subst hd
    exact jobs_joined h hpc (by simp [outstanding, Tracked.job]) (.inl rfl) rfl rfl
  case busy hpc hd =>
    subst hd
    exact jobs_joined h hpc (by simp [outstanding, Tracked.job]) (.inl rfl) rfl rfl
  case prepared hpc => exact jobs_joined h hpc (by simp [outstanding, Tracked.job]) (.inl rfl) rfl rfl
  case prepAborted hpc hj ha => exact jobs_joined h hpc (by simp [outstanding, Tracked.job]) (.inl rfl) rfl rfl
  case prepFailed hpc hf ha => exact jobs_joined h hpc (by simp [outstanding, Tracked.job]) (.inl rfl) rfl rfl
  case workerLostAborted hpc ha => exact jobs_joined h hpc (by simp [outstanding, Tracked.job]) (.inl rfl) rfl rfl
  case workerLost hpc ha =>
    exact jobs_joined h hpc (by simp [outstanding, Tracked.job]) (.inl rfl) rfl rfl
  case skipped hpc => exact jobs_joined h hpc (by simp [outstanding, Tracked.job]) (.inl rfl) rfl rfl
  case notAuthorized hpc ha => exact jobs_joined h hpc (by simp [outstanding, Tracked.job]) (.inl rfl) rfl rfl
  case lateResult hpc ho ha => exact jobs_joined h hpc (by simp [outstanding, Tracked.job]) (.inl rfl) rfl rfl
  case removed hpc hk => exact jobs_joined h hpc (by simp [outstanding, Tracked.job]) (.inl rfl) rfl rfl
  case rollbackLost hpc => exact jobs_joined h hpc (by simp [outstanding, Tracked.job]) (.inl rfl) rfl rfl
  case rolledBack hpc hf => exact jobs_joined h hpc (by simp [outstanding, Tracked.job]) (.inl rfl) rfl rfl
  all_goals
    refine jobs_congr h ?_ rfl (by rw [‹d.pc = _›]; rfl)
    simp [outstanding]

/-! ### The handles of an operation -/

theorem Move.returns (hm : Move cfg c i fresh d c' d' new) (h : d.returned = handlesReturned c.log i) :
    d'.returned = handlesReturned c'.log i := by
  cases hm
  case interrupt hpc harm hc => rcases hc with rfl | rfl <;> exact h
  case call ht hc =>
    obtain ⟨new, hn, he⟩ := hc.calls.calls
    rw [hn, returned_append fun e hm t o heq => by
      have := (he e hm).2
      rw [heq] at this
      cases this]
    exact h
  case drain hc =>
    obtain ⟨new, hn, he⟩ := (Ctx.fithaw_calls hc).calls
    rw [hn, returned_append fun e hm t o heq => by
      have := (he e hm).2
      rw [heq] at this
      cases this]
    exact h
  case froze hpc hd =>
    subst hd
    simp [returned_cons, h, TargetOutcome.handle]
  case busy hpc hd =>
    subst hd
    simp [returned_cons, h, TargetOutcome.handle]
  case lateResult o hpc ho ha =>
    rcases ho with rfl | ⟨stop, rfl⟩ <;> simp [returned_cons, h, TargetOutcome.handle]
  case lose => exact h
  all_goals simp [returned_cons, h, TargetOutcome.handle, recorded, concludes, commitAbort]

/-- A drain releases a handle once it has completed. -/
private theorem released_fithaw {j : DrainHeld} {m : Mount} {rest : List Mount} (htodo : j.todo = m :: rest)
    {r : Except KernelError Unit} (hc : c.fithaw i m.dev r = some c') :
    (j.fithaw r).released = j.released ∨ ((j.fithaw r).released = j.released ++ [m] ∧ Completed c'.log i m) := by
  rcases DrainHeld.fithaw_cases htodo r with ⟨n, he⟩ | ⟨res, reason, -, -, he⟩ | ⟨res, hcall, hres, he⟩
  · exact .inl (by rw [he])
  · exact .inl (by rw [he])
  · obtain ⟨err, rfl, hends, -⟩ := incomplete_drainCall_eq_none hcall hres
    refine .inr ⟨by rw [he], err, hends, ?_⟩
    obtain rfl := Option.some.inj hc
    exact List.mem_cons_self

private theorem drained_congr (hd : d'.released = d.released) (hr : d'.recovery = d.recovery)
    (hp : d'.pc.rolling = d.pc.rolling) : d'.drained = d.drained := by
  simp only [drained, running, hd, hr, hp]

/-- What a drain of the operation has released was drained to its end. -/
theorem Move.releases (hm : Move cfg c i fresh d c' d' new) (hw : d.WF) (h : ∀ m ∈ d.drained, Completed c.log i m) :
    ∀ m ∈ d'.drained, Completed c'.log i m := by
  have hmono : ∀ m, Completed c.log i m → Completed c'.log i m := fun m hc => hc.mono fun e he => hm.grows.log.mem he
  suffices hs : ∀ m ∈ d'.drained, m ∈ d.drained ∨ Completed c'.log i m from
    fun m hm' => (hs m hm').elim (fun hd => hmono m (h m hd)) id
  have hsame : d'.drained = d.drained → ∀ m ∈ d'.drained, m ∈ d.drained ∨ Completed c'.log i m :=
    fun he m hm' => .inl (he ▸ hm')
  cases hm
  case abort hpc => rcases hpc with hpc | hpc | ⟨hpc, -⟩ <;> exact hsame (drained_congr rfl rfl (by rw [hpc]; rfl))
  case interrupt tr cause hpc harm hc =>
    refine hsame (drained_congr rfl rfl ?_)
    cases tr <;> first | (rw [hpc]; rfl) | cases harm
  case announce k hpc =>
    have hk := (hw.at hpc).2
    refine hsame (drained_congr rfl rfl ?_)
    rw [hpc]
    cases k with
    | boundary b => cases b <;> rfl
    | «await» tr =>
      have := hk tr rfl
      cases tr <;> first | rfl | cases this
  case call tr tr' ht hc =>
    cases hc with
    | rollbackDrains htodo hc =>
      rcases tracked_cases ht with ⟨hpc, he⟩ | ⟨stage, hpc, he⟩
      · rw [he]
        simp only [drained, running, hpc, Pc.rolling, List.mem_append, Option.toList_some, List.flatMap_append,
          List.flatMap_cons, List.flatMap_nil, List.append_nil]
        rcases released_fithaw htodo hc with hrel | ⟨hrel, hcomp⟩ <;> rw [hrel]
        · exact fun m hm' => .inl hm'
        · intro m hm'
          simp only [List.mem_append, List.mem_singleton] at hm'
          rcases hm' with hm' | hm' | hm' | rfl
          · exact .inl (.inl hm')
          · exact .inl (.inr (.inl hm'))
          · exact .inl (.inr (.inr hm'))
          · exact .inr hcomp
      · rw [he]
        exact fun m hm' => .inl (by simpa only [drained, running, hpc, Pc.rolling] using hm')
    | _ =>
      refine hsame (drained_congr rfl rfl ?_)
      rcases tracked_cases ht with ⟨hpc, he⟩ | ⟨stage, hpc, he⟩ <;> rw [he, hpc] <;> rfl
  case lose tr ht =>
    refine hsame (drained_congr rfl rfl ?_)
    rcases tracked_cases ht with ⟨hpc, he⟩ | ⟨stage, hpc, he⟩ <;> rw [he, hpc] <;> cases tr <;> rfl
  case drain hr htodo hc =>
    simp only [drained, running, hr, List.mem_append, Option.map_some, Option.toList_some, List.flatMap_append,
      List.flatMap_cons, List.flatMap_nil, List.append_nil]
    rcases released_fithaw htodo hc with hrel | ⟨hrel, hcomp⟩ <;> rw [hrel]
    · exact fun m hm' => .inl hm'
    · intro m hm'
      simp only [List.mem_append, List.mem_singleton] at hm'
      rcases hm' with hm' | (hm' | rfl) | hm'
      · exact .inl (.inl hm')
      · exact .inl (.inr (.inl hm'))
      · exact .inr hcomp
      · exact .inl (.inr (.inr hm'))
  case loseDrain hr =>
    refine hsame ?_
    simp only [drained, running, hr, Option.map_some]
  case joinDrain j hpc hr he hh => 
    refine hsame ?_
    simp [drained, running, hr, recorded]
  case joinDrainRestart j hpc hr he hh =>
    refine hsame ?_
    simp [drained, running, hr, recorded, Job.start, DrainHeld.start]
  case recover k hpc hr hh =>
    refine hsame ?_
    simp [drained, running, hr, hpc, Pc.rolling, Job.start, DrainHeld.start]
  case settleDrain hpc hr hh =>
    refine hsame ?_
    simp [drained, running, hr, Job.start, DrainHeld.start]
  case froze hpc hd =>
    subst hd
    exact hsame (drained_congr rfl rfl (by rw [hpc]; rfl))
  case busy hpc hd =>
    subst hd
    exact hsame (drained_congr rfl rfl (by rw [hpc]; rfl))
  case hardError hpc ha =>
    refine hsame ?_
    simp [drained, running, hpc, Pc.rolling, Job.start, Rollback.start, DrainHeld.start]
  case rollbackLost hpc =>
    have hr := (hw.at hpc : Open d).recovery
    refine hsame ?_
    simp [drained, running, hpc, hr, Pc.rolling, concludes]
  case rolledBack hpc hf =>
    have hr := (hw.at hpc : Open d).recovery
    refine hsame ?_
    simp [drained, running, hpc, hr, Pc.rolling, concludes]
  all_goals exact hsame (drained_congr rfl rfl (by rw [‹d.pc = _›]; rfl))

theorem Move.loses (hm : Move cfg c i fresh d c' d' new) (h : d.lost ≠ [] → d.uncertain = true) :
    d'.lost ≠ [] → d'.uncertain = true := by
  have hrec : ∀ j : Job DrainHeld, (d.recorded j).lost ≠ [] → (d.recorded j).uncertain = true := by
    intro j hl
    cases hj : j.lost with
    | true => simp [recorded, hj]
    | false =>
      simp only [recorded, hj, Bool.false_eq_true, if_false, Bool.or_false] at hl ⊢
      exact h hl
  cases hm
  case froze hpc hd => subst hd; exact h
  case busy hpc hd => subst hd; exact h
  case joinDrain j hpc hr he hh => exact hrec j
  case joinDrainRestart j hpc hr he hh => exact hrec j
  case rollbackLost => exact fun _ => rfl
  case workerLost => exact fun _ => rfl
  case workerLostAborted => exact fun _ => rfl
  all_goals exact h

/-- After the publication the operation's accounts are closed. -/
private theorem Move.closed (hm : Move cfg c i fresh d c' d' new) (hw : d.WF) (hp : d.pc.published = true) :
    d'.stale = d.stale ∧ d'.returned = d.returned ∧ d'.released = d.released ∧ d'.lost = d.lost := by
  cases hm
  case joinDrain hr _ _ => rw [hw.not_published_of_recovery hr] at hp; cases hp
  case joinDrainRestart hr _ _ => rw [hw.not_published_of_recovery hr] at hp; cases hp
  case froze hpc hd => rw [hpc] at hp; cases hp
  case busy hpc hd => rw [hpc] at hp; cases hp
  case rollbackLost hpc => rw [hpc] at hp; cases hp
  case rolledBack hpc hf => rw [hpc] at hp; cases hp
  all_goals exact ⟨rfl, rfl, rfl, rfl⟩

/-- What the operation leaves when it settles: the handles it has not released and not lost are held. -/
def Left (c : Ctx) (i : TaskId) (d : Driver) : Prop :=
  ∃ terminal : Terminal, ∃ now, .published i terminal.state now ∈ c.log ∧
    (d.stale ++ d.returned).Perm (now.held ++ d.released ++ d.lost)

theorem Move.leaves (hm : Move cfg c i fresh d c' d' new) (hw : d.WF) (hb : d.pc.published = false → d.Balanced c.held)
    (h : d.pc.published = true → d.Left c i) (hp' : d'.pc.published = true) : d'.Left c' i := by
  cases hp : d.pc.published with
  | true =>
    obtain ⟨terminal, now, he, hperm⟩ := h hp
    obtain ⟨h₁, h₂, h₃, h₄⟩ := hm.closed hw hp
    exact ⟨terminal, now, hm.grows.log.mem he, by rwa [h₁, h₂, h₃, h₄]⟩
  | false =>
    obtain ⟨terminal, reply, hpc, rfl, rfl⟩ := hm.publication hw hp hp'
    have hconcl : Concluding d := hw.at hpc
    refine ⟨terminal, c.snapshot, List.mem_cons_self, ?_⟩
    have hperm := (hb hp).perm
    simpa [draining, drained, running, hconcl.recovery, hconcl.kept, hpc, Pc.rolling, Ctx.snapshot] using hperm

end Driver

/-! ### What may still freeze -/

/-- The worker that is outstanding. -/
def Tracked.worker? : Tracked → Option (Job Worker)
  | .worker _ _ j => some j
  | _ => none

def Resume.worker? : Resume → Option (Job Worker)
  | .await tr => tr.worker?
  | .boundary _ => none

def Pc.worker? : Pc → Option (Job Worker)
  | .await tr => tr.worker?
  | .aborting _ k => k.worker?
  | _ => none

/-- What a worker's last check has read allows the `FIFREEZE`. -/
def Worker.Authorised (deadline : Nat) : Worker → Prop
  | .checkClock _ aborted => aborted = false
  | .ioctl _ aborted clock => aborted = false ∧ clock < deadline
  | _ => True

/-- The worker has its `FIFREEZE` before it. -/
def Worker.pending (j : Job Worker) : Nat :=
  if j.lost then 0
  else
    match j.val with
    | .done _ => 0
    | _ => 1

theorem Worker.pending_le_one (j : Job Worker) : Worker.pending j ≤ 1 := by
  unfold Worker.pending
  split
  · exact Nat.zero_le _
  · split
    · exact Nat.zero_le _
    · exact Nat.le_refl _

/-- No worker of `op` begins and none of them freezes. -/
def Event.Idle (op : TaskId) (e : Event) : Prop := e.isFifreeze op = false ∧ e.spawnsWorker op = false

theorem countP_idle_spawns {log new : List Event} {op : TaskId} (h : ∀ e ∈ new, e.Idle op) :
    (new ++ log).countP (Event.spawnsWorker op) = log.countP (Event.spawnsWorker op) := by
  rw [List.countP_append, List.countP_eq_zero.2 fun e he => by simp [(h e he).2], Nat.zero_add]

theorem countP_idle_freezes {log new : List Event} {op : TaskId} (h : ∀ e ∈ new, e.Idle op) :
    (new ++ log).countP (Event.isFifreeze op) = log.countP (Event.isFifreeze op) := by
  rw [List.countP_append, List.countP_eq_zero.2 fun e he => by simp [(h e he).1], Nat.zero_add]

/-- A step of a worker of `i`, from `v` to `v'`. -/
inductive Worker.Call (c : Ctx) (i : TaskId) : Worker → Ctx → Worker → Prop
  | check {v v' : Worker} {c' : Ctx} (hlog : c'.log = c.log) (hp : Worker.pending ⟨v, false⟩ = 1)
      (hv : v.Authorised (c.ops i).deadline → v'.Authorised (c.ops i).deadline) : Call c i v c' v'
  | fifreeze {m : Mount} {aborted : Bool} {clock : Nat} {r : Except KernelError Unit} {c' : Ctx}
      (hlog : c'.log = .fifreeze i m.dev aborted clock r :: c.log) :
      Call c i (.ioctl m aborted clock) c' (.done (Worker.answered m r))

theorem Tracked.Call.worker {c c' : Ctx} {i : TaskId} {tr tr' : Tracked} (h : tr.Call c i c' tr') :
    ((∃ log', c'.log = log' ++ c.log ∧ ∀ e ∈ log', e.Idle i) ∧ tr'.worker? = tr.worker?) ∨
      ∃ v v', tr.worker? = some ⟨v, false⟩ ∧ tr'.worker? = some ⟨v', false⟩ ∧ Worker.Call c i v c' v' := by
  cases h with
  | opened t rest path paths attempts => exact .inr ⟨_, _, rfl, rfl, .check rfl rfl fun _ => trivial⟩
  | openNext t rest path next paths attempts more => exact .inr ⟨_, _, rfl, rfl, .check rfl rfl fun _ => trivial⟩
  | unreachable t rest path attempts more => exact .inr ⟨_, _, rfl, rfl, .check rfl rfl fun _ => trivial⟩
  | sawAborted t rest m ha => exact .inr ⟨_, _, rfl, rfl, .check rfl rfl fun _ => trivial⟩
  | notAborted t rest m ha => exact .inr ⟨_, _, rfl, rfl, .check rfl rfl fun _ => rfl⟩
  | sawDeadline t rest m aborted hd => exact .inr ⟨_, _, rfl, rfl, .check rfl rfl fun _ => trivial⟩
  | authorised t rest m aborted hd => exact .inr ⟨_, _, rfl, rfl, .check rfl rfl fun ha => ⟨ha, hd⟩⟩
  | fifreeze t rest m aborted clock r =>
    exact .inr ⟨_, _, rfl, rfl, .fifreeze (by cases r <;> rfl)⟩
  | removed k h =>
    rcases Ctx.unlink_cases h with ⟨-, -, rfl⟩ | ⟨-, -, rfl⟩ | ⟨e, -, rfl⟩ <;> exact .inl ⟨⟨[], rfl, by simp⟩, rfl⟩
  | rollbackUnlinks hj h =>
    rcases Ctx.unlink_cases h with ⟨-, -, rfl⟩ | ⟨-, -, rfl⟩ | ⟨e, -, rfl⟩ <;> exact .inl ⟨⟨[], rfl, by simp⟩, rfl⟩
  | rollbackDrains htodo h =>
    rcases Ctx.fithaw_cases h with ⟨-, -, rfl⟩ | ⟨err, -, rfl⟩ <;>
      exact .inl ⟨⟨[_], rfl, by simp [Event.Idle, Event.isFifreeze, Event.spawnsWorker]⟩, rfl⟩
  | _ => exact .inl ⟨⟨[], rfl, by simp⟩, rfl⟩

namespace Driver

variable {cfg : Config} {c c' : Ctx} {i fresh : TaskId} {d d' : Driver} {new : Option Dog}

private theorem worker?_of_tracked {tr : Tracked} (ht : d.tracked = some tr) :
    d.pc.worker? = tr.worker? ∧ ∀ tr', (d.withTracked tr').pc.worker? = tr'.worker? := by
  rcases tracked_cases ht with ⟨hpc, h⟩ | ⟨stage, hpc, h⟩
  · exact ⟨by rw [hpc]; rfl, fun tr' => by rw [h]; rfl⟩
  · exact ⟨by rw [hpc]; rfl, fun tr' => by rw [h]; rfl⟩

/-- What a step of an operation does to its outstanding worker: there is none any more, it stays, it is lost, it is
spawned, or it takes a step. -/
theorem Move.worker (hm : Move cfg c i fresh d c' d' new) :
    ((∃ log', c'.log = log' ++ c.log ∧ ∀ e ∈ log', e.Idle i) ∧
      (d'.pc.worker? = none ∨ d'.pc.worker? = d.pc.worker? ∨
        ∃ v b, d.pc.worker? = some ⟨v, b⟩ ∧ d'.pc.worker? = some ⟨v, true⟩)) ∨
    (∃ t rest, d.pc = .decideClock (.spawn t rest) ∧ c'.log = .spawned i (.worker t) :: c.log ∧
      d'.pc.worker? = some (.start (.start t))) ∨
    ∃ v v', d.pc.worker? = some ⟨v, false⟩ ∧ d'.pc.worker? = some ⟨v', false⟩ ∧ Worker.Call c i v c' v' := by
  cases hm
  case spawn t rest hpc hd => exact .inr (.inl ⟨t, rest, hpc, rfl, rfl⟩)
  case call tr tr' ht hc =>
    obtain ⟨hold, hnew⟩ := worker?_of_tracked ht
    have hw := hc.worker
    rw [hold, hnew]
    exact hw.imp (fun h => ⟨h.1, .inr (.inl h.2)⟩) .inr
  case lose tr ht =>
    obtain ⟨hold, hnew⟩ := worker?_of_tracked ht
    refine .inl ⟨⟨[], rfl, by simp⟩, ?_⟩
    rw [hold, hnew]
    cases tr with
    | worker t rest j => exact .inr (.inr ⟨j.val, j.lost, rfl, rfl⟩)
    | _ => exact .inl rfl
  case drain hr htodo hc =>
    refine .inl ⟨?_, .inr (.inl rfl)⟩
    rcases Ctx.fithaw_cases hc with ⟨-, -, rfl⟩ | ⟨err, -, rfl⟩ <;>
      exact ⟨[_], rfl, by simp [Event.Idle, Event.isFifreeze, Event.spawnsWorker]⟩
  case interrupt hpc harm hc =>
    rcases hc with rfl | rfl <;> exact .inl ⟨⟨[], rfl, by simp⟩, .inr (.inl (by rw [hpc]; rfl))⟩
  case announce k hpc =>
    refine .inl ⟨⟨[], rfl, by simp⟩, .inr (.inl ?_)⟩
    rw [hpc]
    cases k with
    | boundary b => cases b <;> rfl
    | «await» tr => rfl
  case froze hpc hd =>
    subst hd
    exact .inl ⟨⟨[_, _], rfl, by simp [Event.Idle, Event.isFifreeze, Event.spawnsWorker]⟩, .inl rfl⟩
  case busy hpc hd =>
    subst hd
    exact .inl ⟨⟨[_, _], rfl, by simp [Event.Idle, Event.isFifreeze, Event.spawnsWorker]⟩, .inl rfl⟩
  case cancel hpc => exact .inl ⟨⟨[], by simp, by simp⟩, .inr (.inl (by rw [hpc]; rfl))⟩
  case retire => exact .inl ⟨⟨[], by simp, by simp⟩, .inl rfl⟩
  case install => exact .inl ⟨⟨[], by simp, by simp⟩, .inl rfl⟩
  case joinDrain =>
    exact .inl ⟨⟨[_], rfl, by simp [Event.Idle, Event.isFifreeze, Event.spawnsWorker]⟩, .inr (.inl rfl)⟩
  case joinDrainRestart =>
    exact .inl ⟨⟨[_, _], rfl, by simp [Event.Idle, Event.isFifreeze, Event.spawnsWorker, JobKind.isWorker]⟩,
      .inr (.inl rfl)⟩
  case settleDrain =>
    exact .inl ⟨⟨[_], rfl, by simp [Event.Idle, Event.isFifreeze, Event.spawnsWorker, JobKind.isWorker]⟩,
      .inr (.inl rfl)⟩
  case loseDrain => exact .inl ⟨⟨[], rfl, by simp⟩, .inr (.inl rfl)⟩
  case replyAborted hpc hr =>
    exact .inl ⟨⟨[_], rfl, by simp [Event.Idle, Event.isFifreeze, Event.spawnsWorker]⟩, .inr (.inl (by rw [hpc]; rfl))⟩
  case recover hpc hr hh =>
    exact .inl ⟨⟨[_], rfl, by simp [Event.Idle, Event.isFifreeze, Event.spawnsWorker, JobKind.isWorker]⟩,
      .inr (.inl (by rw [hpc]; rfl))⟩
  all_goals first
    | exact .inl ⟨⟨[], rfl, by simp⟩, .inl rfl⟩
    | exact .inl ⟨⟨[], rfl, by simp⟩, .inr (.inl (by rw [‹d.pc = _›]; rfl))⟩
    | exact .inl ⟨⟨[_], rfl, by simp [Event.Idle, Event.isFifreeze, Event.spawnsWorker, JobKind.isWorker]⟩, .inl rfl⟩
    | exact .inl ⟨⟨[_, _], rfl, by simp [Event.Idle, Event.isFifreeze, Event.spawnsWorker, JobKind.isWorker]⟩, .inl rfl⟩
    | exact .inl ⟨⟨[_, _, _], rfl, by simp [Event.Idle, Event.isFifreeze, Event.spawnsWorker, JobKind.isWorker]⟩, .inl rfl⟩

theorem Move.deadline (hm : Move cfg c i fresh d c' d' new) : (c'.ops i).deadline = (c.ops i).deadline := by
  cases hm
  case call hc => rw [hc.calls.ops]
  case drain hc => rw [(Ctx.fithaw_calls hc).ops]
  case interrupt hc => rcases hc with rfl | rfl <;> simp
  all_goals simp

/-- Every `FIFREEZE` comes after a check that read "not aborted" and a clock before the deadline. -/
theorem Move.authorised (hm : Move cfg c i fresh d c' d' new)
    (h : ∀ j, d.pc.worker? = some j → j.val.Authorised (c.ops i).deadline) :
    (∀ j, d'.pc.worker? = some j → j.val.Authorised (c.ops i).deadline) ∧
      ∀ x aborted clock r, .fifreeze i x aborted clock r ∈ c'.log →
        .fifreeze i x aborted clock r ∈ c.log ∨ (aborted = false ∧ clock < (c.ops i).deadline) := by
  rcases hm.worker with ⟨⟨log', hn, hidle⟩, hw⟩ | ⟨t, rest, -, hn, hw⟩ | ⟨v, v', hv, hv', hc⟩
  · refine ⟨fun j hj => ?_, fun x aborted clock r he => .inl ?_⟩
    · rcases hw with hw | hw | ⟨v, b, hv, hw⟩ <;> rw [hw] at hj
      · cases hj
      · exact h j hj
      · cases hj
        exact h ⟨v, b⟩ hv
    · rw [hn] at he
      refine (List.mem_append.1 he).resolve_left fun he => ?_
      have := (hidle _ he).1
      simp [Event.isFifreeze] at this
  · refine ⟨fun j hj => ?_, fun x aborted clock r he => .inl ?_⟩
    · rw [hw] at hj
      cases hj
      trivial
    · rw [hn] at he
      exact (List.mem_cons.1 he).resolve_left (by rintro ⟨⟩)
  · have hauth := h _ hv
    cases hc with
    | check hlog hp hstep =>
      refine ⟨fun j hj => ?_, fun x aborted clock r he => .inl (hlog ▸ he)⟩
      rw [hv'] at hj
      cases hj
      exact hstep hauth
    | fifreeze hlog =>
      refine ⟨fun j hj => ?_, fun x aborted clock r he => ?_⟩
      · rw [hv'] at hj
        cases hj
        trivial
      · rw [hlog] at he
        rcases List.mem_cons.1 he with he | he
        · cases he
          exact .inr hauth
        · exact .inl he

theorem Move.stays_aborted (hm : Move cfg c i fresh d c' d' new) (ha : d.abort.isSome) : d'.abort.isSome := by
  cases hm
  case froze hd => subst hd; exact ha
  case busy hd => subst hd; exact ha
  case abort => rfl
  case interrupt => rfl
  case workerLost => rfl
  all_goals exact ha

/-- The `FIFREEZE`s that the outstanding worker may still issue. -/
def pending (d : Driver) : Nat := (d.pc.worker?.map Worker.pending).getD 0

/-- After an abort no worker is spawned, and only the outstanding one may still freeze. -/
theorem Move.after_abort (hm : Move cfg c i fresh d c' d' new) (hw : d.WF) (ha : d.abort.isSome) :
    c'.log.countP (Event.spawnsWorker i) = c.log.countP (Event.spawnsWorker i) ∧
      c'.log.countP (Event.isFifreeze i) + d'.pending ≤ c.log.countP (Event.isFifreeze i) + d.pending := by
  rcases hm.worker with ⟨⟨log', hn, hidle⟩, hv⟩ | ⟨t, rest, hpc, -, -⟩ | ⟨v, v', hv, hv', hc⟩
  · rw [hn, countP_idle_spawns hidle, countP_idle_freezes hidle]
    refine ⟨rfl, Nat.add_le_add_left ?_ _⟩
    rcases hv with hv | hv | ⟨v, b, -, hv⟩
    · simp [pending, hv]
    · simp [pending, hv]
    · simp [pending, hv, Worker.pending]
  · have hnone := (hw.at hpc : Open d).abort
    rw [hnone] at ha
    cases ha
  · have hp : d.pending = Worker.pending ⟨v, false⟩ := by simp [pending, hv]
    have hp' : d'.pending = Worker.pending ⟨v', false⟩ := by simp [pending, hv']
    rw [hp, hp']
    cases hc with
    | check hlog hone hstep =>
      rw [hlog, hone]
      exact ⟨rfl, Nat.add_le_add_left (Worker.pending_le_one _) _⟩
    | fifreeze hlog =>
      rw [hlog]
      simp [Event.spawnsWorker, Event.isFifreeze, Worker.pending]

end Driver

/-! ### The invariant -/

namespace Ownership

def Glob (c : Ctx) (_ : TaskId) : Prop :=
  ∀ op x aborted clock r, .fifreeze op x aborted clock r ∈ c.log → aborted = false ∧ clock < (c.ops op).deadline

structure DriverLoc (c : Ctx) (i : TaskId) (d : Driver) : Prop where
  authorised : ∀ j, d.pc.worker? = some j → j.val.Authorised (c.ops i).deadline
  jobs : outstanding i c.log = d.jobs
  returned : d.returned = handlesReturned c.log i
  released : ∀ m ∈ d.drained, Completed c.log i m
  lost : d.lost ≠ [] → d.uncertain = true
  left : d.pc.published = true → d.Left c i

def Loc (c : Ctx) (i : TaskId) : Task → Prop
  | .driver d => DriverLoc c i d
  | _ => True

variable {cfg : Config} {c c' : Ctx} {i j fresh : TaskId} {t t' u : Task} {new : Option Dog}

/-- The operations of the other tasks are not concerned. -/
private theorem Loc.other (h : Loc c j u) (hj : j ≠ i) (hlog : c.Adds i c')
    (hd : (c'.ops j).deadline = (c.ops j).deadline) : Loc c' j u := by
  cases u with
  | driver d =>
    have h : DriverLoc c j d := h
    obtain ⟨log', hn, hby⟩ := hlog
    refine ⟨by rw [hd]; exact h.authorised, ?_, ?_, fun m hm => ?_, h.lost, fun hp => ?_⟩
    · rw [hn, outstanding_append fun e he job => ?_]
      · exact h.jobs
      · constructor <;> (rintro rfl; exact hj (hby _ he _ rfl))
    · rw [hn, returned_append fun e he t o heq => ?_]
      · exact h.returned
      · subst heq
        exact hj (hby _ he _ rfl)
    · exact (h.released m hm).mono fun e he => by rw [hn]; exact List.mem_append_right _ he
    · obtain ⟨terminal, now, he, hperm⟩ := h.left hp
      exact ⟨terminal, now, by rw [hn]; exact List.mem_append_right _ he, hperm⟩
  | _ => trivial

/-- What the other operations have frozen stays as it is recorded. -/
private theorem Glob.other {n : TaskId} (h : Glob c n) (hg : Grows i c c') {op : TaskId} (hop : op ≠ i) {x : Dev}
    {aborted : Bool} {clock : Nat} {r : Except KernelError Unit} (he : .fifreeze op x aborted clock r ∈ c'.log) :
    aborted = false ∧ clock < (c'.ops op).deadline := by
  rw [(hg.ops op hop).deadline]
  exact h op x aborted clock r ((hg.log.mem_or he).resolve_right fun hi => hop (hi _ rfl))

private theorem move_driver {d d' : Driver} (hm : Driver.Move cfg c i fresh d c' d' new) {n : TaskId} (hw : d.WF)
    (hb : Handles.DriverLoc c d) (hg : Glob c n) (hl : DriverLoc c i d) : Glob c' n ∧ DriverLoc c' i d' := by
  obtain ⟨hauth, hfreeze⟩ := hm.authorised hl.authorised
  refine ⟨fun op x aborted clock r he => ?_, ⟨by rw [hm.deadline]; exact hauth, hm.jobs hw hl.jobs,
    hm.returns hl.returned, hm.releases hw hl.released, hm.loses hl.lost, hm.leaves hw hb.balanced hl.left⟩⟩
  by_cases hop : op = i
  · subst hop
    rw [hm.deadline]
    exact (hfreeze x aborted clock r he).elim (hg _ x aborted clock r) id
  · exact hg.other hm.grows hop he

private theorem Task.Move.deadline (hm : Task.Move cfg c i fresh t c' t' new) (op : TaskId) :
    (c'.ops op).deadline = (c.ops op).deadline := by
  cases hm with
  | @driver d d' c' new h =>
    by_cases hop : op = i
    · subst hop
      exact h.deadline
    · rw [h.ops hop]
  | thaw h =>
    cases h
    case call hc => rw [hc.calls.ops]
    case accepted op' ho => by_cases hop : op = op' <;> simp [hop]
    case notify op' => by_cases hop : op = op' <;> simp [hop]
    all_goals simp
  | startInstall => simp
  | _ => rfl

private theorem move (hm : Task.Move cfg c i fresh t c' t' new) {n : TaskId} (hw : t.WF)
    (hb : Handles.Loc c i t) (hg : Glob c n) (hl : Loc c i t) : Glob c' n ∧ Loc c' i t' := by
  cases t with
  | driver d =>
    cases hm with
    | driver h => exact move_driver h hw hb hg hl
  | _ =>
    obtain ⟨log', hn, he⟩ := FreezeReply.other_events hm (fun _ h => by cases h)
    refine ⟨fun op x aborted clock r hf => ?_, by cases hm <;> trivial⟩
    rw [Task.Move.deadline hm op]
    rw [hn] at hf
    exact hg op x aborted clock r ((List.mem_append.1 hf).resolve_left fun hf => (he _ hf).2.1 _ _ _ _ _ rfl)

theorem reach {ok : Agent → Action → Agent → Prop} {a : Agent}
    (h : Machine.Reach (Agent.step cfg) ok Agent.Initial a) : a.Holds Glob Loc := by
  refine h.invariant (fun a h => ?_) (fun a act a' hr ih hs _ => ?_)
  · obtain ⟨c, n, rfl⟩ := h.booted
    have hlog : (Agent.bootCtx c).log = [] := h.log
    refine Agent.boot_holds (fun op x aborted clock r he => ?_) fun _ => trivial
    rw [hlog] at he
    cases he
  · have htok := Tokens.reach hr
    have hreg := Registry.reach hr
    have hhandles := Handles.reach hr
    refine Agent.holds_step ih hs ?_ ?_ ?_ ?_ ?_
    · intro i t c' t' new ht hm _
      obtain ⟨hG, hL⟩ := move hm (htok.loc ht).wf (hhandles.loc ht) ih.glob (ih.loc ht)
      refine ⟨hG, fun _ => id, hL, fun _ _ => trivial, fun j u hj hu hl => ?_⟩
      exact hl.other hj hm.grows.log (Task.Move.deadline hm j)
    · intro restrict hst _
      have hn : (Agent.freezeCtx cfg a.ctx a.next restrict).log =
          [.spawned a.next .prep, .started a.next restrict a.ctx.snapshot] ++ a.ctx.log := rfl
      have hunheard : ∀ e ∈ a.ctx.log, e.author ≠ some a.next := fun e he => hreg.glob.unheard he
      refine ⟨fun op x aborted clock r he => ?_, ⟨fun j hj => ?_, ?_, ?_, fun m hm => ?_, fun h => absurd rfl h, by rintro ⟨⟩⟩,
        fun j u hj hu hl => ?_⟩
      · rw [hn] at he
        have he := (List.mem_append.1 he).resolve_left (by simp)
        have hop : op ≠ a.next := fun hop => hunheard _ he (by rw [hop]; rfl)
        have hops : (Agent.freezeCtx cfg a.ctx a.next restrict).ops op = a.ctx.ops op := by
          simp [Agent.freezeCtx, Function.update_of_ne hop]
        rw [hops]
        exact ih.glob op x aborted clock r he
      · cases hj
      · rw [hn]
        simp [outstanding, outstanding_eq_nil hunheard, Driver.jobs, Driver.start, Pc.jobs, Tracked.job]
      · rw [hn, returned_append (by simp), handlesReturned, attempts_eq_nil hunheard]
        rfl
      · cases hm
      · refine hl.other (Nat.ne_of_lt hj) ⟨_, hn, by simp [Event.By, Event.author]⟩ ?_
        simp [Agent.freezeCtx, Function.update_of_ne (Nat.ne_of_lt hj)]
    · exact ⟨ih.glob, trivial, trivial⟩
    · intro c' he _
      have hlog : c'.log = a.ctx.log ∧ c'.ops = a.ctx.ops := by cases he <;> exact ⟨rfl, rfl⟩
      refine ⟨fun op x aborted clock r hf => ?_, fun j u hu hl => ?_⟩
      · rw [hlog.2]
        exact ih.glob op x aborted clock r (hlog.1 ▸ hf)
      · refine hl.other (Nat.ne_of_lt (Nat.lt_succ_self j)) ⟨[], hlog.1, by simp⟩ (by rw [hlog.2])
    · intro _
      exact ⟨ih.glob, fun _ => trivial⟩

/-! ### Runs after an abort -/

/-- After the abort of `op`: `spawned` workers were spawned, and at most `most` times is there a `FIFREEZE`. -/
structure AbortedGlob (op : TaskId) (spawned most : Nat) (c : Ctx) (next : TaskId) : Prop where
  known : op < next
  spawned : c.log.countP (Event.spawnsWorker op) = spawned
  freezes : c.log.countP (Event.isFifreeze op) ≤ most

def AbortedLoc (op : TaskId) (most : Nat) (c : Ctx) (i : TaskId) (t : Task) : Prop :=
  i = op → ∃ d, t = .driver d ∧ d.abort.isSome ∧ c.log.countP (Event.isFifreeze op) + d.pending ≤ most

private theorem idle_of_by {e : Event} (he : e.By i) {op : TaskId} (hop : op ≠ i) : e.Idle op := by
  cases e with
  | spawned j job =>
    have hj : j ≠ op := fun h => hop (h ▸ he j rfl)
    exact ⟨rfl, by simp [Event.spawnsWorker, hj]⟩
  | fifreeze j d aborted clock r =>
    have hj : j ≠ op := fun h => hop (h ▸ he j rfl)
    exact ⟨by simp [Event.isFifreeze, hj], rfl⟩
  | _ => exact ⟨rfl, rfl⟩

private theorem counts_of_adds (h : c.Adds i c') {op : TaskId} (hop : op ≠ i) :
    c'.log.countP (Event.spawnsWorker op) = c.log.countP (Event.spawnsWorker op) ∧
      c'.log.countP (Event.isFifreeze op) = c.log.countP (Event.isFifreeze op) := by
  obtain ⟨log', hn, hby⟩ := h
  have hidle : ∀ e ∈ log', e.Idle op := fun e he => idle_of_by (hby e he) hop
  rw [hn]
  exact ⟨countP_idle_spawns hidle, countP_idle_freezes hidle⟩

private theorem aborted_step {ok : Agent → Action → Agent → Prop} {a a' : Agent} {act : Action}
    (hr : Machine.Reach (Agent.step cfg) ok Agent.Initial a) {op : TaskId} {spawned most : Nat}
    (ih : a.Holds (AbortedGlob op spawned most) (AbortedLoc op most)) (hs : Agent.step cfg a act = some a') :
    a'.Holds (AbortedGlob op spawned most) (AbortedLoc op most) := by
  have htok := Tokens.reach hr
  have hg := ih.glob
  have hnew : ∀ {c : Ctx} {t : Task}, AbortedLoc op most c a.next t :=
    fun h => absurd h.symm (Nat.ne_of_lt hg.known)
  have hsucc : ∀ {c : Ctx} {n : TaskId}, AbortedGlob op spawned most c n → AbortedGlob op spawned most c (n + 1) :=
    fun h => ⟨Nat.lt_succ_of_lt h.known, h.spawned, h.freezes⟩
  -- a step that does not concern the operation
  have hother : ∀ {c' : Ctx} {i : TaskId}, op ≠ i → a.ctx.Adds i c' → AbortedGlob op spawned most c' a.next ∧
      ∀ j u, AbortedLoc op most a.ctx j u → AbortedLoc op most c' j u := by
    intro c' i hop hadds
    obtain ⟨hspawns, hfreezes⟩ := counts_of_adds hadds hop
    refine ⟨⟨hg.known, hspawns.trans hg.spawned, hfreezes ▸ hg.freezes⟩, fun j u hl hj => ?_⟩
    obtain ⟨d, rfl, ha, hle⟩ := hl hj
    exact ⟨d, rfl, ha, hfreezes ▸ hle⟩
  refine Agent.holds_step ih hs ?_ ?_ ?_ ?_ ?_
  · intro i t c' t' new ht hm _
    by_cases hop : op = i
    · subst hop
      obtain ⟨d, rfl, ha, hle⟩ := ih.loc ht rfl
      cases hm with
      | driver h =>
        obtain ⟨hspawns, hfreezes⟩ := h.after_abort (htok.loc ht).wf ha
        have hle' := Nat.le_trans hfreezes hle
        refine ⟨⟨hg.known, hspawns.trans hg.spawned, Nat.le_trans (Nat.le_add_right _ _) hle'⟩, fun _ => hsucc,
          fun _ => ⟨_, rfl, h.stays_aborted ha, hle'⟩, fun _ _ => hnew, fun j u hj _ _ hjop => absurd hjop hj⟩
    · obtain ⟨hG, hL⟩ := hother hop hm.grows.log
      refine ⟨hG, fun _ => hsucc, fun hi => absurd hi.symm hop, fun _ _ => hnew, fun j u _ _ => hL j u⟩
  · intro restrict _ _
    have hadds : a.ctx.Adds a.next (Agent.freezeCtx cfg a.ctx a.next restrict) :=
      ⟨[_, _], rfl, by simp [Event.By, Event.author]⟩
    obtain ⟨hG, hL⟩ := hother (Nat.ne_of_lt hg.known) hadds
    exact ⟨hsucc hG, hnew, fun j u _ _ => hL j u⟩
  · exact ⟨hsucc hg, hnew, hnew⟩
  · intro c' he _
    have hadds : a.ctx.Adds (op + 1) c' := ⟨[], by cases he <;> rfl, by simp⟩
    obtain ⟨hG, hL⟩ := hother (Nat.ne_of_lt (Nat.lt_succ_self op)) hadds
    exact ⟨hG, fun j u _ => hL j u⟩
  · intro _
    exact ⟨hsucc ⟨hg.known, hg.spawned, hg.freezes⟩, fun _ => hnew⟩

/-- Along a run after the abort of an operation: no worker is spawned, and what freezes is the worker that was
outstanding. -/
theorem after_abort {ok : Agent → Action → Agent → Prop} {a a' : Agent}
    (h : Machine.Reach (Agent.step cfg) ok Agent.Initial a) {op : TaskId} {d : Driver}
    (hd : a.tasks op = some (.driver d)) (ha : d.abort.isSome) (hs : Machine.Steps (Agent.step cfg) ok a a') :
    a'.ctx.log.countP (Event.spawnsWorker op) = a.ctx.log.countP (Event.spawnsWorker op) ∧
      a'.ctx.log.countP (Event.isFifreeze op) ≤ a.ctx.log.countP (Event.isFifreeze op) + d.pending := by
  have htok := Tokens.reach h
  have hinit : a.Holds (AbortedGlob op (a.ctx.log.countP (Event.spawnsWorker op))
      (a.ctx.log.countP (Event.isFifreeze op) + d.pending))
      (AbortedLoc op (a.ctx.log.countP (Event.isFifreeze op) + d.pending)) := by
    refine ⟨⟨htok.bound hd, rfl, Nat.le_add_right _ _⟩, fun {i t} ht hi => ?_, htok.bound⟩
    subst hi
    rw [hd] at ht
    cases ht
    exact ⟨d, rfl, ha, Nat.le_refl _⟩
  have hrun := h.invariant_from hs hinit fun _ _ _ hr hi hst _ => aborted_step hr hi hst
  exact ⟨hrun.glob.spawned, hrun.glob.freezes⟩

end Ownership

/-! ### The result -/

/-- What an operation is answerable for: the handles that its workers returned are different ones; until the operation
publishes its terminal state each of them, and of those it found, is held by the context, with the running drain or
rollback, kept, released after a complete drain or lost with a task; then those not released and not lost are held. -/
structure Accounted (c : Ctx) (op : TaskId) (d : Driver) : Prop where
  returned : d.returned = handlesReturned c.log op
  distinct : ((d.stale ++ d.returned).map Mount.fd).Nodup
  placed : d.pc.published = false →
    (d.stale ++ d.returned).Perm (c.held ++ d.draining ++ d.kept ++ d.drained ++ d.lost)
  released : ∀ m ∈ d.drained, Completed c.log op m
  lost : d.lost ≠ [] → d.uncertain = true
  workers : (outstanding op c.log).countP JobKind.isWorker ≤ 1
  drains : (outstanding op c.log).count .drain ≤ 1
  settling : (∃ stage terminal reply, d.pc = .conclude stage terminal reply) →
    outstanding op c.log = [] ∧ d.draining = [] ∧ d.kept = []
  settled : d.pc.published = true → outstanding op c.log = [] ∧ ∃ terminal : Terminal, ∃ now,
    .published op terminal.state now ∈ c.log ∧ (d.stale ++ d.returned).Perm (now.held ++ d.released ++ d.lost)

namespace Driver

private theorem jobs_cases (d : Driver) :
    (d.pc.jobs = [] ∧ d.pc.worker? = none) ∨ ∃ tr : Tracked, d.pc.jobs = [tr.job] ∧ d.pc.worker? = tr.worker? := by
  cases hpc : d.pc with
  | «await» tr => exact .inr ⟨tr, rfl, rfl⟩
  | aborting stage k =>
    cases k with
    | boundary b => exact .inl ⟨rfl, rfl⟩
    | «await» tr => exact .inr ⟨tr, rfl, rfl⟩
  | _ => exact .inl ⟨rfl, rfl⟩

theorem countP_jobs_le_one (d : Driver) : d.jobs.countP JobKind.isWorker ≤ 1 := by
  have hdrain : (if d.recovery.isSome then [JobKind.drain] else []).countP JobKind.isWorker = 0 := by
    split <;> rfl
  rw [jobs, List.countP_append, hdrain, Nat.zero_add]
  rcases d.jobs_cases with ⟨h, -⟩ | ⟨tr, h, -⟩ <;> rw [h]
  · exact Nat.zero_le _
  · exact List.countP_le_length

theorem pending_le_jobs (d : Driver) : d.pending ≤ d.jobs.countP JobKind.isWorker := by
  rw [jobs, List.countP_append]
  refine Nat.le_trans ?_ (Nat.le_add_left _ _)
  rcases d.jobs_cases with ⟨h, hw⟩ | ⟨tr, h, hw⟩ <;> rw [h, pending, hw]
  · exact Nat.zero_le _
  · cases tr with
    | worker t rest j => exact Worker.pending_le_one j
    | _ => exact Nat.zero_le _

theorem count_drain_jobs (d : Driver) : d.jobs.count .drain = if d.recovery.isSome then 1 else 0 := by
  have htracked : d.pc.jobs.count .drain = 0 := by
    rcases d.jobs_cases with ⟨h, -⟩ | ⟨tr, h, -⟩ <;> rw [h]
    · rfl
    · cases tr <;> rfl
  rw [jobs, List.count_append, htracked]
  split <;> rfl

/-- An operation that settles has no task left. -/
theorem WF.settling {d : Driver} (hw : d.WF)
    (hpc : (∃ stage terminal reply, d.pc = .conclude stage terminal reply) ∨ d.pc = .finished) :
    d.jobs = [] ∧ d.draining = [] := by
  have hnone : d.recovery = none ∧ d.pc.jobs = [] ∧ d.pc.rolling = none := by
    rcases hpc with ⟨stage, terminal, reply, hpc⟩ | hpc
    · have hp : concludePhase d stage := hw.at hpc
      refine ⟨?_, by rw [hpc]; rfl, by rw [hpc]; rfl⟩
      cases stage <;> first | exact Concluding.recovery hp | exact Concluded.recovery hp
    · exact ⟨(hw.at hpc).2.2.2, by rw [hpc]; rfl, by rw [hpc]; rfl⟩
  simp [jobs, draining, running, hnone]

end Driver

theorem accounted_of_reach {cfg : Config} {ok : Agent → Action → Agent → Prop} {a : Agent}
    (h : Machine.Reach (Agent.step cfg) ok Agent.Initial a) {op : TaskId} {d : Driver}
    (hd : a.tasks op = some (.driver d)) : Accounted a.ctx op d := by
  have hw : d.WF := ((Tokens.reach h).loc hd).wf
  have hl : Ownership.DriverLoc a.ctx op d := (Ownership.reach h).loc hd
  have hh : Handles.DriverLoc a.ctx d := (Handles.reach h).loc hd
  refine ⟨hl.returned, ?_, fun hp => (hh.balanced hp).perm, hl.released, hl.lost, ?_, ?_, fun hpc => ?_, fun hp => ?_⟩
  · have hfresh := hh.fresh.nodup
    rw [List.map_append] at hfresh
    exact hfresh.of_append_left
  · rw [hl.jobs]
    exact d.countP_jobs_le_one
  · rw [hl.jobs, d.count_drain_jobs]
    split
    · exact Nat.le_refl _
    · exact Nat.zero_le _
  · have hs := hw.settling (.inl hpc)
    obtain ⟨stage, terminal, reply, hpc⟩ := hpc
    have hp : d.concludePhase stage := hw.at hpc
    refine ⟨hl.jobs.trans hs.1, hs.2, ?_⟩
    cases stage <;> first | exact Driver.Concluding.kept hp | exact Driver.Concluded.kept hp
  · refine ⟨hl.jobs.trans (hw.settling ?_).1, hl.left hp⟩
    cases hpc : d.pc with
    | conclude stage terminal reply => exact .inl ⟨stage, terminal, reply, rfl⟩
    | finished => exact .inr rfl
    | _ => rw [hpc] at hp; cases hp

/-- In every run, under any environment, for the operation `op`: every `FIFREEZE` was issued after a check that read
"not aborted" and a clock before the deadline; each handle is accounted for, as are its tasks; there is one recovery
drain at most; and once the operation is aborted, no run spawns another worker of it, so that it freezes at most once
more, by the worker then outstanding. -/
theorem handles_have_one_owner {cfg : Config} {ok : Agent → Action → Agent → Prop} {a : Agent}
    (h : Machine.Reach (Agent.step cfg) ok Agent.Initial a) (op : TaskId) :
    (∀ x aborted clock r, .fifreeze op x aborted clock r ∈ a.ctx.log →
      aborted = false ∧ clock < (a.ctx.ops op).deadline) ∧
    (∀ d, a.tasks op = some (.driver d) → Accounted a.ctx op d ∧
      (∀ op' d', a.tasks op' = some (.driver d') → .drain ∈ outstanding op a.ctx.log →
        .drain ∈ outstanding op' a.ctx.log → op' = op) ∧
      (d.abort.isSome → ∀ a', Machine.Steps (Agent.step cfg) ok a a' →
        a'.ctx.log.countP (Event.spawnsWorker op) = a.ctx.log.countP (Event.spawnsWorker op) ∧
          a'.ctx.log.countP (Event.isFifreeze op) ≤
            a.ctx.log.countP (Event.isFifreeze op) + (outstanding op a.ctx.log).countP JobKind.isWorker)) := by
  have hown := Ownership.reach h
  have htok := Tokens.reach h
  refine ⟨hown.glob op, fun d hd => ⟨accounted_of_reach h hd, fun op' d' hd' hdr hdr' => ?_, fun ha a' hs => ?_⟩⟩
  · -- a driver with a recovery drain owns the state machine
    have howner : ∀ {i : TaskId} {e : Driver}, a.tasks i = some (.driver e) → .drain ∈ outstanding i a.ctx.log →
        a.ctx.owner = some i := by
      intro i e he hmem
      have hw : e.WF := (htok.loc he).wf
      have hl : Ownership.DriverLoc a.ctx i e := hown.loc he
      rw [hl.jobs] at hmem
      have hpos := List.count_pos_iff.2 hmem
      rw [e.count_drain_jobs] at hpos
      cases hr : e.recovery with
      | none => simp [hr] at hpos
      | some j =>
        refine (htok.loc he).owner.1 ?_
        have ht := hw.token_iff
        rw [hw.not_published_of_recovery hr] at ht
        exact ht
    exact Option.some.inj ((howner hd' hdr').symm.trans (howner hd hdr))
  · have hl : Ownership.DriverLoc a.ctx op d := hown.loc hd
    obtain ⟨hspawns, hfreezes⟩ := Ownership.after_abort h hd ha hs
    refine ⟨hspawns, Nat.le_trans hfreezes (Nat.add_le_add_left ?_ _)⟩
    rw [hl.jobs]
    exact d.pending_le_jobs

/-- A thaw request that arrives when one superblock is frozen and the worker of the next one is outstanding. -/
private def requestWithWorker : List Action :=
  [.freeze none] ++ Script.prepare 1 [Script.row (8, 1) [slash], Script.row (8, 2) [slash, 97]] ++
    Script.attempt 1 (8, 2) (.ok ()) ++ Script.drive 1 3 ++ [.thaw] ++ Script.proceed 2 4 ++
    [Script.driver 1 .abortRequested] ++ Script.drive 1 7

/-- The operation is aborted, and has a worker and a recovery drain with one handle. -/
private def recoversWithWorker (a : Agent) : Bool :=
  match a.tasks 1 with
  | some (.driver d) =>
    d.abort.isSome && decide ((outstanding 1 a.ctx.log).length = 2) && decide (d.draining.length = 1)
  | _ => false

theorem handles_have_one_owner_on_abort :
    ∃ a d, Machine.Reach (Agent.step ⟨60, 30, 300⟩) (fun _ _ _ => True) Agent.Initial a ∧
      a.tasks 1 = some (.driver d) ∧ d.abort.isSome ∧ (outstanding 1 a.ctx.log).length = 2 ∧ d.draining.length = 1 ∧
      Accounted a.ctx 1 d ∧ ∀ a', Machine.Steps (Agent.step ⟨60, 30, 300⟩) (fun _ _ _ => True) a a' →
        a'.ctx.log.countP (Event.spawnsWorker 1) = a.ctx.log.countP (Event.spawnsWorker 1) := by
  obtain ⟨a, hr, hp⟩ : ∃ a, Machine.Reach (Agent.step ⟨60, 30, 300⟩) (fun _ _ _ => True) Agent.Initial a ∧
      recoversWithWorker a = true :=
    Machine.Reach.of_execute (fun _ _ _ => true) (fun _ _ _ _ => trivial) requestWithWorker recoversWithWorker
      (Agent.cold_initial false) (by decide) (by decide)
  unfold recoversWithWorker at hp
  split at hp
  · rename_i d hd
    simp only [Bool.and_eq_true, decide_eq_true_eq] at hp
    obtain ⟨-, hown⟩ := handles_have_one_owner hr 1
    obtain ⟨hacc, -, habort⟩ := hown d hd
    exact ⟨a, d, hr, hd, hp.1.1, hp.1.2, hp.2, hacc, fun a' hs => (habort hp.1.1 a' hs).1⟩
  · cases hp

end Qeminga
