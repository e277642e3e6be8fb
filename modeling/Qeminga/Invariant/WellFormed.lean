import Qeminga.Moves

/-!
# Well-formed drivers

What the private fields of a driver satisfy at each of its program points, whatever the other tasks do: which token
it holds, whether its reply is still to be sent, and how `kept`, `unrecoverable` and `uncertain` go together.  Every
step of a driver keeps it (`Driver.Move.wf`).
-/

namespace Qeminga

/-! ### The blocking tasks -/

/-- A pass that keeps a handle reports an incomplete drain. -/
def DrainHeld.WF (j : DrainHeld) : Prop := j.keep ≠ [] → j.incomplete.isSome

theorem DrainHeld.start_wf (held : List Mount) : (DrainHeld.start held).WF := fun h => absurd rfl h

theorem DrainHeld.fithaw_wf {j : DrainHeld} (h : j.WF) (r : Except KernelError Unit) : (j.fithaw r).WF := by
  unfold DrainHeld.fithaw
  split
  · exact h
  · split
    · exact h
    · unfold DrainHeld.settle
      split
      · intro _
        simp
      · exact h

/-- The marker is removed only after a pass without an incomplete drain. -/
structure Rollback.WF (j : Rollback) : Prop where
  drain : j.drain.WF
  removed : j.removed.isSome → j.drain.todo = [] ∧ j.drain.incomplete = none

theorem Rollback.start_wf (held : List Mount) (failed : Path) (cause : FreezeStop) :
    (Rollback.start held failed cause).WF := ⟨DrainHeld.start_wf held, fun h => by cases h⟩

theorem Rollback.unlinks_iff (j : Rollback) :
    j.unlinks = true ↔ j.drain.todo = [] ∧ j.drain.incomplete = none ∧ j.removed = none := by
  simp [Rollback.unlinks, and_assoc]

/-- The handle a worker has opened is on its target's device. -/
def Worker.On (dev : Dev) : Worker → Prop
  | .opening _ _ _ => True
  | .checkAborted m => m.dev = dev
  | .checkClock m _ => m.dev = dev
  | .ioctl m _ _ => m.dev = dev
  | .done (.frozen m) => m.dev = dev
  | .done (.busy m) => m.dev = dev
  | .done _ => True

/-- A preparation reports a failure of the plan or of the marker. -/
def Prep.WF : Prep → Prop
  | .done (.error failure) => failure.isTask = false
  | _ => True

def Tracked.WF : Tracked → Prop
  | .prep j => j.val.WF
  | .worker t _ j => j.val.On t.dev
  | .rollback j => j.val.WF
  | .removal _ _ => True

/-- The same task, at another of its program points. -/
def Tracked.Same : Tracked → Tracked → Prop
  | .prep _, .prep _ => True
  | .worker t rest _, .worker t' rest' _ => t = t' ∧ rest = rest'
  | .removal k _, .removal k' _ => k = k'
  | .rollback _, .rollback _ => True
  | _, _ => False

theorem Tracked.Call.same {c c' : Ctx} {i : TaskId} {tr tr' : Tracked} (h : tr.Call c i c' tr') : tr.Same tr' := by
  cases h <;> simp [Tracked.Same]

theorem Tracked.loseJob_same (tr : Tracked) : tr.Same (Driver.loseJob tr) := by
  cases tr <;> simp [Tracked.Same, Driver.loseJob]

theorem Tracked.Call.wf {c c' : Ctx} {i : TaskId} {tr tr' : Tracked} (h : tr.Call c i c' tr') (hw : tr.WF) :
    tr'.WF := by
  cases h with
  | fifreeze t rest m aborted clock r =>
    have hm : m.dev = t.dev := hw
    show (Worker.done (Worker.answered m r)).On t.dev
    rcases Worker.answered_cases m r with ⟨h, -⟩ | ⟨err, -, h | h | h⟩ <;> rw [h]
    · exact hm
    · trivial
    · exact hm
    · trivial
  | @rollbackDrains j m rest r c' htodo hc =>
    have hw : j.WF := hw
    refine ⟨DrainHeld.fithaw_wf hw.drain r, fun hr => ?_⟩
    rw [(hw.removed hr).1] at htodo
    cases htodo
  | @rollbackUnlinks j ans c' r hj hc =>
    have hw : j.WF := hw
    have hj := j.unlinks_iff.1 hj
    exact ⟨hw.drain, fun _ => ⟨hj.1, hj.2.1⟩⟩
  | opened => rfl
  | notAborted => exact hw
  | authorised => exact hw
  | _ => trivial

theorem Tracked.loseJob_wf {tr : Tracked} (hw : tr.WF) : (Driver.loseJob tr).WF := by
  cases tr <;> exact hw

namespace Driver

/-- Where a driver waits for the task `tr`, and what a step of that task changes. -/
theorem tracked_cases {d : Driver} {tr : Tracked} (h : d.tracked = some tr) :
    (d.pc = .await tr ∧ ∀ tr', d.withTracked tr' = { d with pc := .await tr' }) ∨
      ∃ stage, d.pc = .aborting stage (.await tr) ∧
        ∀ tr', d.withTracked tr' = { d with pc := .aborting stage (.await tr') } := by
  unfold tracked at h
  split at h <;> cases h
  · rename_i hpc
    exact .inl ⟨hpc, fun tr' => by simp only [withTracked, hpc]⟩
  · rename_i stage hpc
    exact .inr ⟨stage, hpc, fun tr' => by simp only [withTracked, hpc]⟩

/-! ### The phases of a driver -/

/-- The operation is not aborted. -/
structure Open (d : Driver) : Prop where
  abort : d.abort = none
  token : d.token.isSome
  thawToken : d.thawToken = none
  reply : d.reply = true
  recovery : d.recovery = none
  kept : d.kept = []
  unrecoverable : d.unrecoverable = none
  uncertain : d.uncertain = false

/-- Inside `commit_abort`, before the recovery begins. -/
structure Aborting (swapped replied : Bool) (d : Driver) : Prop where
  abort : d.abort.isSome
  token : d.token.isSome = !swapped
  thawToken : d.thawToken.isSome = swapped
  reply : d.reply = !replied
  recovery : d.recovery = none
  kept : d.kept = []
  uncertain : d.uncertain = true → d.unrecoverable.isSome

/-- The abort has committed. -/
structure Recovering (d : Driver) : Prop where
  abort : d.abort.isSome
  token : d.token = none
  thawToken : d.thawToken.isSome
  reply : d.reply = false
  kept : d.kept ≠ [] → d.unrecoverable.isSome
  uncertain : d.uncertain = true → d.unrecoverable.isSome

/-- In `conclude`, before the terminal state is published. -/
structure Concluding (d : Driver) : Prop where
  tokens : (d.abort = none ∧ d.token.isSome ∧ d.thawToken = none ∧ d.reply = true) ∨
    (d.abort.isSome ∧ d.token = none ∧ d.thawToken.isSome ∧ d.reply = false)
  recovery : d.recovery = none
  kept : d.kept = []

/-- The terminal state has been published. -/
structure Concluded (d : Driver) : Prop where
  token : d.token = none
  thawToken : d.thawToken = none
  reply : d.reply = d.abort.isNone
  recovery : d.recovery = none
  kept : d.kept = []

section Phases

variable {d : Driver}

theorem Open.withPc (h : Open d) (pc : Pc) : Open { d with pc := pc } :=
  ⟨h.abort, h.token, h.thawToken, h.reply, h.recovery, h.kept, h.unrecoverable, h.uncertain⟩

theorem Aborting.withPc {s r : Bool} (h : Aborting s r d) (pc : Pc) : Aborting s r { d with pc := pc } :=
  ⟨h.abort, h.token, h.thawToken, h.reply, h.recovery, h.kept, h.uncertain⟩

theorem Recovering.withPc (h : Recovering d) (pc : Pc) : Recovering { d with pc := pc } :=
  ⟨h.abort, h.token, h.thawToken, h.reply, h.kept, h.uncertain⟩

theorem Concluding.withPc (h : Concluding d) (pc : Pc) : Concluding { d with pc := pc } :=
  ⟨h.tokens, h.recovery, h.kept⟩

theorem Concluded.withPc (h : Concluded d) (pc : Pc) : Concluded { d with pc := pc } :=
  ⟨h.token, h.thawToken, h.reply, h.recovery, h.kept⟩

theorem Open.concluding (h : Open d) : Concluding d :=
  ⟨.inl ⟨h.abort, h.token, h.thawToken, h.reply⟩, h.recovery, h.kept⟩

theorem Recovering.concluding (h : Recovering d) (hr : d.recovery = none) (hk : d.kept = []) : Concluding d :=
  ⟨.inr ⟨h.abort, h.token, h.thawToken, h.reply⟩, hr, hk⟩

theorem Aborting.recovering (h : Aborting true true d) : Recovering d where
  abort := h.abort
  token := by simpa using h.token
  thawToken := h.thawToken
  reply := h.reply
  kept := fun hk => absurd h.kept hk
  uncertain := h.uncertain

/-- A recovery drain that was joined leaves an aborted operation. -/
theorem Recovering.recorded (h : Recovering d) {j : Job DrainHeld} (hj : j.val.WF) : Recovering (d.recorded j) := by
  refine ⟨h.abort, h.token, h.thawToken, h.reply, fun hk => ?_, fun hu => ?_⟩
  · simp only [Driver.recorded, Option.isSome_or, Bool.or_eq_true] at hk ⊢
    cases hl : j.lost with
    | true => simp
    | false =>
      rw [hl] at hk
      by_cases hd : d.kept = []
      · have hinc : j.val.incomplete.isSome := hj (by simpa [hd] using hk)
        simp [hinc]
      · exact .inl (h.kept hd)
  · simp only [Driver.recorded, Option.isSome_or, Bool.or_eq_true] at hu ⊢
    rcases hu with hu | hl
    · exact .inl (h.uncertain hu)
    · simp [hl]

theorem Recovering.withRecovery (h : Recovering d) (r : Option (Job DrainHeld)) (pc : Pc) :
    Recovering { d with recovery := r, pc := pc } :=
  ⟨h.abort, h.token, h.thawToken, h.reply, h.kept, h.uncertain⟩

end Phases

def abortPhase (d : Driver) : AbortStage → Prop
  | .mark => Aborting false false d
  | .store => Aborting false false d
  | .state => Aborting false false d
  | .watchdog => Aborting true false d
  | .reply => Aborting true false d
  | .recover => Aborting true true d
  | .publish => Recovering d

def concludePhase (d : Driver) : ConcludeStage → Prop
  | .commit => Concluding d
  | .finalise => Concluding d
  | .retire => Concluding d
  | .scope => Concluding d
  | .state => Concluding d
  | .arm => Concluded d
  | .install _ => Concluded d
  | .settled => Concluded d
  | .reply => Concluded d

/-- What a driver satisfies while it waits for a task. -/
def awaitPhase (d : Driver) : Tracked → Prop
  | .prep _ => Open d ∨ Recovering d
  | .worker _ _ _ => Open d ∨ Recovering d
  | .removal .aborted _ => Recovering d ∧ d.recovery = none ∧ d.unrecoverable = none
  | .removal _ _ => Open d
  | .rollback _ => Open d

def phase (d : Driver) : Pc → Prop
  | .head _ => Open d ∨ Recovering d
  | .decide _ => Open d
  | .decideClock _ => Open d
  | .tryCommit => Open d
  | .aborting stage k => abortPhase d stage ∧ ∀ tr, k = .await tr → tr.abortable = true
  | .await tr => awaitPhase d tr
  | .settling => Recovering d
  | .conclude stage _ _ => concludePhase d stage
  | .finished => d.token = none ∧ d.thawToken = none ∧ d.reply = false ∧ d.recovery = none

structure WF (d : Driver) : Prop where
  phase : d.phase d.pc
  recovery : ∀ j, d.recovery = some j → j.val.WF
  tracked : ∀ tr, d.tracked = some tr → tr.WF

theorem start_wf (token : FreezeToken) (restrict : Option (List Path)) (c : Ctx) :
    (start token restrict c).WF where
  phase := .inl ⟨rfl, rfl, rfl, rfl, rfl, rfl, rfl, rfl⟩
  recovery := by intro j hj; cases hj
  tracked := by intro tr htr; cases htr; trivial

/-! ### Steps -/

section Steps

variable {cfg : Config} {c c' : Ctx} {i fresh : TaskId} {d d' : Driver} {new : Option Dog}

/-- A driver that waits for nothing is well formed if its phase is right and it runs no drain. -/
private theorem wf_of_phase (hp : d.phase d.pc) (hrec : d.recovery = none) (ht : d.tracked = none) : d.WF where
  phase := hp
  recovery := by intro j hj; rw [hrec] at hj; cases hj
  tracked := by intro tr htr; rw [ht] at htr; cases htr

/-- A move that changes only the program point. -/
private theorem WF.withPc (h : d.WF) {pc : Pc} (hp : Driver.phase { d with pc := pc } pc)
    (ht : Driver.tracked { d with pc := pc } = none) : WF { d with pc := pc } :=
  ⟨hp, h.recovery, by intro tr htr; rw [ht] at htr; cases htr⟩

/-- `commit_abort` may begin wherever the operation is not aborted; a lost worker has made it uncertain first. -/
private theorem commitAbort_wf {cause : AbortCause} {k : Resume} (htoken : d.token.isSome)
    (hthaw : d.thawToken = none) (hreply : d.reply = true) (hrec : d.recovery = none) (hkept : d.kept = [])
    (hunc : d.uncertain = true → d.unrecoverable.isSome)
    (hk : ∀ tr, k = .await tr → tr.abortable = true ∧ tr.WF) : (d.commitAbort cause k).WF where
  phase := ⟨⟨rfl, htoken, by simp [commitAbort, hthaw], hreply, hrec, hkept, hunc⟩, fun tr h => (hk tr h).1⟩
  recovery := by intro j hj; rw [show (d.commitAbort cause k).recovery = none from hrec] at hj; cases hj
  tracked := by
    intro tr htr
    cases k with
    | boundary b => cases htr
    | «await» tr' => cases htr; exact (hk tr rfl).2

private theorem Open.commitAbort_wf (h : Open d) {cause : AbortCause} {k : Resume}
    (hk : ∀ tr, k = .await tr → tr.abortable = true ∧ tr.WF) : (d.commitAbort cause k).WF :=
  Driver.commitAbort_wf h.token h.thawToken h.reply h.recovery h.kept (by simp [h.uncertain]) hk

private theorem concludes_wf {terminal : Terminal} {reply : Except FreezeFailure Nat} (h : Concluding d) :
    (d.concludes terminal reply).WF := wf_of_phase (h.withPc _) h.recovery rfl

/-- What a settlement is before it is published: the operation was not aborted, or it was and has recovered. -/
private theorem removal_concluding {k : RemovalFor} {j : Job Removal} (h : awaitPhase d (.removal k j)) :
    Concluding d := by
  cases k with
  | nothingFrozen => exact Open.concluding h
  | beforeIoctl failure => exact Open.concluding h
  | aborted =>
    obtain ⟨hd, hr, hu⟩ := h
    refine hd.concluding hr ?_
    by_contra hk
    have := hd.kept hk
    rw [hu] at this
    cases this

private theorem abortPhase_withPc {stage : AbortStage} (h : abortPhase d stage) (pc : Pc) :
    abortPhase { d with pc := pc } stage := by
  cases stage with
  | publish => exact Recovering.withPc h pc
  | _ => exact Aborting.withPc h pc

private theorem awaitPhase_withPc {tr : Tracked} (h : awaitPhase d tr) (pc : Pc) :
    awaitPhase { d with pc := pc } tr := by
  cases tr with
  | prep j => exact h.imp (·.withPc pc) (·.withPc pc)
  | worker t rest j => exact h.imp (·.withPc pc) (·.withPc pc)
  | removal k j =>
    cases k with
    | aborted => exact ⟨h.1.withPc pc, h.2⟩
    | _ => exact Open.withPc h pc
  | rollback j => exact Open.withPc h pc

/-- The phase at an await point does not depend on where the awaited task stands. -/
private theorem awaitPhase_same {tr tr' : Tracked} (hs : tr.Same tr') (h : awaitPhase d tr) : awaitPhase d tr' := by
  cases tr with
  | prep j =>
    cases tr' with
    | prep j' => exact h
    | _ => exact hs.elim
  | worker t rest j =>
    cases tr' with
    | worker t' rest' j' => exact h
    | _ => exact hs.elim
  | removal k j =>
    cases tr' with
    | removal k' j' =>
      obtain rfl : k = k' := hs
      cases k <;> exact h
    | _ => exact hs.elim
  | rollback j =>
    cases tr' with
    | rollback j' => exact h
    | _ => exact hs.elim

theorem WF.at (h : d.WF) {pc : Pc} (hpc : d.pc = pc) : d.phase pc := hpc ▸ h.phase

theorem WF.trackedAt (h : d.WF) {tr : Tracked} (hpc : d.pc = .await tr) : tr.WF :=
  h.tracked tr (by simp [Driver.tracked, hpc])

private theorem Open.lost_wf (h : Open d) {u : Option Unrecoverable} (hu : u.isSome) {cause : AbortCause} :
    Driver.WF ({ d with uncertain := true, unrecoverable := u }.commitAbort cause (.boundary .commit)) :=
  Driver.commitAbort_wf h.token h.thawToken h.reply h.recovery h.kept (fun _ => hu) (by simp)

private theorem Recovering.uncertain_wf (h : Recovering d) {u : Option Unrecoverable} (hu : u.isSome) (pc : Pc) :
    Recovering { d with uncertain := true, unrecoverable := u, pc := pc } :=
  ⟨h.abort, h.token, h.thawToken, h.reply, fun _ => hu, fun _ => hu⟩

/-- A step of the awaited task changes nothing but the task. -/
private theorem withTracked_wf (h : d.WF) {tr tr' : Tracked} (ht : d.tracked = some tr) (hs : tr.Same tr')
    (hw : tr'.WF) : (d.withTracked tr').WF := by
  rcases tracked_cases ht with ⟨hpc, he⟩ | ⟨stage, hpc, he⟩
  · rw [he]
    refine ⟨?_, h.recovery, fun u hu => by cases hu; exact hw⟩
    have ha : awaitPhase d tr := h.at hpc
    have ha' : awaitPhase d tr' := awaitPhase_same hs ha
    exact awaitPhase_withPc ha' _
  · rw [he]
    refine ⟨?_, h.recovery, fun u hu => by cases hu; exact hw⟩
    obtain ⟨ha, hk⟩ := h.at hpc
    refine ⟨abortPhase_withPc ha _, fun u hu => ?_⟩
    cases hu
    have := hk tr rfl
    cases tr <;> cases tr' <;> first | exact this | exact hs.elim

/-- A step of `commit_abort`, to its stage `s'`. -/
private theorem WF.toStage (h : d.WF) {s s' : AbortStage} {k : Resume} (hpc : d.pc = .aborting s k)
    (hpc' : d'.pc = .aborting s' k) (hp : abortPhase d' s') (hrec : ∀ j, d'.recovery = some j → j.val.WF) :
    d'.WF where
  phase := by rw [hpc']; exact ⟨hp, (h.at hpc).2⟩
  recovery := hrec
  tracked := by
    intro tr htr
    refine h.tracked tr ?_
    rw [← htr]
    cases k <;> simp only [Driver.tracked, hpc, hpc']

/-- A driver whose recovery drain runs while it waits for a task is aborted, and the task is abortable. -/
theorem WF.recovering (h : d.WF) (hpc : d.pc = .settling ∨ ∃ tr, d.pc = .await tr) {j : Job DrainHeld}
    (hr : d.recovery = some j) : Recovering d ∧ ∀ tr, d.pc = .await tr → tr.abortable = true := by
  have hopen : ¬ Open d := fun ho => by rw [ho.recovery] at hr; cases hr
  rcases hpc with hpc | ⟨tr, hpc⟩
  · exact ⟨h.at hpc, fun tr ht => by rw [hpc] at ht; cases ht⟩
  · suffices Recovering d ∧ tr.abortable = true from
      ⟨this.1, fun u hu => by rw [hpc] at hu; cases hu; exact this.2⟩
    have hp : awaitPhase d tr := h.at hpc
    cases tr with
    | prep j => exact ⟨hp.resolve_left hopen, rfl⟩
    | worker t rest j => exact ⟨hp.resolve_left hopen, rfl⟩
    | removal k j =>
      cases k with
      | aborted => rw [hp.2.1] at hr; cases hr
      | _ => exact absurd hp hopen
    | rollback j => exact absurd hp hopen

/-- A step of a recovery drain changes nothing but the drain. -/
private theorem WF.withDrain (h : d.WF) {j j' : Job DrainHeld} (hr : d.recovery = some j) (hj : j'.val.WF) :
    WF { d with recovery := some j' } := by
  have hopen : ¬ Open d := fun ho => by rw [ho.recovery] at hr; cases hr
  refine ⟨?_, fun x hx => by cases hx; exact hj, h.tracked⟩
  show Driver.phase _ d.pc
  have hp := h.phase
  cases hpc : d.pc with
  | head rest => rw [hpc] at hp; exact .inr ((hp.resolve_left hopen).withRecovery _ _)
  | decide b => rw [hpc] at hp; exact absurd hp hopen
  | decideClock b => rw [hpc] at hp; exact absurd hp hopen
  | tryCommit => rw [hpc] at hp; exact absurd hp hopen
  | aborting stage k =>
    rw [hpc] at hp
    refine ⟨?_, hp.2⟩
    cases stage with
    | publish => exact Recovering.withRecovery hp.1 _ _
    | _ => rw [Aborting.recovery hp.1] at hr; cases hr
  | «await» tr =>
    obtain ⟨hd, hok⟩ := h.recovering (.inr ⟨tr, hpc⟩) hr
    have := hok tr hpc
    cases tr with
    | prep j => exact .inr (hd.withRecovery _ _)
    | worker t rest j => exact .inr (hd.withRecovery _ _)
    | removal k j => cases this
    | rollback j => cases this
  | settling => rw [hpc] at hp; exact Recovering.withRecovery hp _ _
  | conclude stage terminal reply =>
    rw [hpc] at hp
    cases stage <;> first
      | (rw [Concluding.recovery hp] at hr; cases hr)
      | (rw [Concluded.recovery hp] at hr; cases hr)
  | finished => rw [hpc] at hp; rw [hp.2.2.2] at hr; cases hr

/-- Joining a recovery drain changes neither the program point nor the awaited task. -/
private theorem WF.joined (h : d.WF) (hpc : d.pc = .settling ∨ ∃ tr, d.pc = .await tr) (he : d'.pc = d.pc)
    (hd : Recovering d') (hok : ∀ tr, d.pc = .await tr → tr.abortable = true)
    (hrec : ∀ j, d'.recovery = some j → j.val.WF) : d'.WF where
  phase := by
    rw [he]
    rcases hpc with hpc | ⟨tr, hpc⟩
    · rw [hpc]; exact hd
    · have := hok tr hpc
      rw [hpc]
      cases tr with
      | prep j => exact .inr hd
      | worker t rest j => exact .inr hd
      | removal k j => cases this
      | rollback j => cases this
  recovery := hrec
  tracked := by
    intro tr htr
    refine h.tracked tr ?_
    rw [← htr]
    simp only [Driver.tracked, he]

theorem open_of_abort (h : Open d ∨ Recovering d) (ha : d.abort = none) : Open d := by
  rcases h with h | h
  · exact h
  · have := h.abort
    rw [ha] at this
    cases this

theorem recovering_of_abort (h : Open d ∨ Recovering d) (ha : d.abort.isSome) : Recovering d := by
  rcases h with h | h
  · rw [h.abort] at ha
    cases ha
  · exact h

/-- Every step of a freeze operation keeps its driver well formed. -/
theorem Move.wf (hm : Move cfg c i fresh d c' d' new) (hw : d.WF) : d'.WF := by
  have hrec := hw.recovery
  cases hm with
  | leave hpc ha => exact hw.withPc ((recovering_of_abort (hw.at hpc) ha).withPc _) rfl
  | exhaust hpc ha => exact hw.withPc ((open_of_abort (hw.at hpc) ha).withPc _) rfl
  | advance hpc ha => exact hw.withPc ((open_of_abort (hw.at hpc) ha).withPc _) rfl
  | decide hpc ho => exact hw.withPc (Open.withPc (hw.at hpc) _) rfl
  | spawn hpc hd =>
    have h : Open d := hw.at hpc
    exact ⟨.inl (h.withPc _), hrec, by intro tr htr; cases htr; trivial⟩
  | resume hpc hd => exact hw.withPc (.inl (Open.withPc (hw.at hpc) _)) rfl
  | ready hpc hd => exact hw.withPc (Open.withPc (hw.at hpc) _) rfl
  | abort hpc =>
    have h : Open d := by
      rcases hpc with hpc | hpc | ⟨hpc, -⟩ <;> exact hw.at hpc
    exact h.commitAbort_wf (by simp)
  | @interrupt tr cause c' hpc harm hc =>
    have harm : tr.abortable = true ∧ d.abort = none := by simpa [armed] using harm
    have h : Open d := by
      cases tr with
      | prep j => exact open_of_abort (hw.at hpc) harm.2
      | worker t rest j => exact open_of_abort (hw.at hpc) harm.2
      | removal k j => cases harm.1
      | rollback j => cases harm.1
    refine h.commitAbort_wf fun u hu => ?_
    cases hu
    exact ⟨harm.1, hw.trackedAt hpc⟩
  | mark hpc => exact hw.toStage hpc rfl (Aborting.withPc (hw.at hpc).1 _) hrec
  | store hpc => exact hw.toStage hpc rfl (Aborting.withPc (hw.at hpc).1 _) hrec
  | swap hpc ht =>
    have h : Aborting false false d := (hw.at hpc).1
    exact hw.toStage hpc rfl ⟨h.abort, rfl, rfl, h.reply, h.recovery, h.kept, h.uncertain⟩ hrec
  | swapNone hpc ht =>
    have h : Aborting false false d := (hw.at hpc).1
    have := h.token
    rw [ht] at this
    cases this
  | cancel hpc => exact hw.toStage hpc rfl (Aborting.withPc (hw.at hpc).1 _) hrec
  | replyAborted hf hpc hr =>
    have h : Aborting true false d := (hw.at hpc).1
    exact hw.toStage hpc rfl ⟨h.abort, h.token, h.thawToken, rfl, h.recovery, h.kept, h.uncertain⟩ hrec
  | replyAbortedNone hpc hr =>
    have h : Aborting true false d := (hw.at hpc).1
    rw [h.reply] at hr
    cases hr
  | recover hpc hr hh =>
    have h : Aborting true true d := (hw.at hpc).1
    refine hw.toStage hpc rfl (h.recovering.withRecovery _ _) fun j hj => ?_
    cases hj
    exact DrainHeld.start_wf _
  | recoverNone hpc hh =>
    have h : Aborting true true d := (hw.at hpc).1
    exact hw.toStage hpc rfl (h.recovering.withPc _) hrec
  | @announce k hpc =>
    obtain ⟨h, hk⟩ := hw.at hpc
    have h : Recovering d := h
    cases k with
    | boundary b =>
      cases b with
      | next rest => exact hw.withPc (.inr (h.withPc _)) rfl
      | spawn t rest => exact hw.withPc (h.withPc _) rfl
      | commit => exact hw.withPc (h.withPc _) rfl
    | «await» tr =>
      refine ⟨?_, hrec, fun u hu => hw.tracked u ?_⟩
      · have := hk tr rfl
        cases tr with
        | prep j => exact .inr (h.withPc _)
        | worker t rest j => exact .inr (h.withPc _)
        | removal k j => cases this
        | rollback j => cases this
      · cases hu
        simp [Driver.tracked, hpc]
  | @joinDrain j hpc hr he hh =>
    obtain ⟨h, hok⟩ := hw.recovering hpc hr
    refine hw.joined hpc rfl (h.recorded (hrec j hr)) hok fun j' hj' => ?_
    cases hj'
  | @joinDrainRestart j hpc hr he hh =>
    obtain ⟨h, hok⟩ := hw.recovering hpc hr
    refine hw.joined hpc rfl ((h.recorded (hrec j hr)).withRecovery _ _) hok fun j' hj' => ?_
    cases hj'
    exact DrainHeld.start_wf _
  | settleDrain hpc hr hh =>
    refine ⟨?_, fun j hj => by cases hj; exact DrainHeld.start_wf _, by simp [Driver.tracked, hpc]⟩
    have h : Recovering d := hw.at hpc
    show Driver.phase _ d.pc
    rw [hpc]
    exact h.withRecovery _ _
  | settleFrozen hpc hr hh hu =>
    have h : Recovering d := hw.at hpc
    exact concludes_wf ⟨.inr ⟨h.abort, h.token, h.thawToken, h.reply⟩, hr, rfl⟩
  | settleRemove hpc hr hh hu =>
    have h : Recovering d := hw.at hpc
    exact ⟨⟨h.withPc _, hr, hu⟩, hrec, by intro tr htr; cases htr; trivial⟩
  | commitNothing hpc ho hf hh hu =>
    have h : Open d := hw.at hpc
    exact ⟨h.withPc _, hrec, by intro tr htr; cases htr; trivial⟩
  | commitFrozen hpc ho hz =>
    have h : Open d := hw.at hpc
    exact concludes_wf h.concluding
  | prepared hpc =>
    have h : Open d ∨ Recovering d := hw.at hpc
    exact hw.withPc (h.imp (·.withPc _) (·.withPc _)) rfl
  | prepAborted hpc hj ha => exact hw.withPc ((recovering_of_abort (hw.at hpc) ha).withPc _) rfl
  | prepLost hpc hj ha =>
    have h : Open d := open_of_abort (hw.at hpc) ha
    exact ⟨h.withPc _, hrec, by intro tr htr; cases htr; trivial⟩
  | prepFailed hpc hf ha => exact concludes_wf (open_of_abort (hw.at hpc) ha).concluding
  | workerLostAborted hpc ha =>
    have h : Recovering d := recovering_of_abort (hw.at hpc) ha
    exact ⟨h.uncertain_wf (by simp) _, hrec, by simp [Driver.tracked]⟩
  | workerLost hpc ha => exact (open_of_abort (hw.at hpc) ha).lost_wf (by simp)
  | froze hpc hd =>
    subst hd
    have h : Open d ∨ Recovering d := hw.at hpc
    refine ⟨h.imp (fun h => ?_) fun h => ?_, hrec, by simp [Driver.tracked]⟩
    · exact ⟨h.abort, h.token, h.thawToken, h.reply, h.recovery, h.kept, h.unrecoverable, h.uncertain⟩
    · exact ⟨h.abort, h.token, h.thawToken, h.reply, h.kept, h.uncertain⟩
  | busy hpc hd =>
    subst hd
    have h : Open d ∨ Recovering d := hw.at hpc
    refine ⟨h.imp (fun h => ?_) fun h => ?_, hrec, by simp [Driver.tracked]⟩
    · exact ⟨h.abort, h.token, h.thawToken, h.reply, h.recovery, h.kept, h.unrecoverable, h.uncertain⟩
    · exact ⟨h.abort, h.token, h.thawToken, h.reply, h.kept, h.uncertain⟩
  | skipped hpc =>
    have h : Open d ∨ Recovering d := hw.at hpc
    exact hw.withPc (h.imp (·.withPc _) (·.withPc _)) rfl
  | notAuthorized hpc ha => exact hw.withPc ((open_of_abort (hw.at hpc) ha).withPc _) rfl
  | lateResult hpc ho ha => exact hw.withPc (.inr ((recovering_of_abort (hw.at hpc) ha).withPc _)) rfl
  | hardError hpc ha =>
    have h : Open d := open_of_abort (hw.at hpc) ha
    exact ⟨h.withPc _, hrec, by intro tr htr; cases htr; exact Rollback.start_wf _ _ _⟩
  | removed hpc hk => exact concludes_wf (removal_concluding (hw.at hpc))
  | rollbackLost hpc =>
    have h : Open d := hw.at hpc
    exact concludes_wf ⟨.inl ⟨h.abort, h.token, h.thawToken, h.reply⟩, h.recovery, h.kept⟩
  | rolledBack hpc hf =>
    have h : Open d := hw.at hpc
    exact concludes_wf ⟨.inl ⟨h.abort, h.token, h.thawToken, h.reply⟩, h.recovery, h.kept⟩
  | @commit terminal reply hpc =>
    refine hw.withPc ?_ rfl
    cases terminal <;> exact Concluding.withPc (hw.at hpc) _
  | finalise hpc => exact hw.withPc (Concluding.withPc (hw.at hpc) _) rfl
  | retire hpc => exact hw.withPc (Concluding.withPc (hw.at hpc) _) rfl
  | scope hpc => exact hw.withPc (Concluding.withPc (hw.at hpc) _) rfl
  | @publish terminal reply hpc ht =>
    have h : Concluding d := hw.at hpc
    have hd : Concluded { d with token := none, thawToken := if d.token.isSome then d.thawToken else none
                                 pc := .conclude (.afterState terminal) terminal reply } := by
      refine ⟨rfl, ?_, ?_, h.recovery, h.kept⟩
      · rcases h.tokens with ⟨-, ht, hth, -⟩ | ⟨-, ht, -, -⟩
        · simp [hth]
        · simp [ht]
      · rcases h.tokens with ⟨ha, -, -, hr⟩ | ⟨ha, -, -, hr⟩
        · simp [ha, hr]
        · simpa [hr] using ha
    exact ⟨by cases terminal <;> exact hd, hrec, by simp [Driver.tracked]⟩
  | publishNone hpc ht hth =>
    have h : Concluding d := hw.at hpc
    rcases h.tokens with ⟨-, ht', -, -⟩ | ⟨-, -, ht', -⟩
    · rw [ht] at ht'; cases ht'
    · rw [hth] at ht'; cases ht'
  | arm hpc => exact hw.withPc (Concluded.withPc (hw.at hpc) _) rfl
  | install hpc => exact hw.withPc (Concluded.withPc (hw.at hpc) _) rfl
  | settle hpc => exact hw.withPc (Concluded.withPc (hw.at hpc) _) rfl
  | reply hpc hr =>
    have h : Concluded d := hw.at hpc
    exact ⟨⟨h.token, h.thawToken, rfl, h.recovery⟩, hrec, by simp [Driver.tracked]⟩
  | replied hpc hr =>
    have h : Concluded d := hw.at hpc
    exact hw.withPc ⟨h.token, h.thawToken, hr, h.recovery⟩ rfl
  | call ht hc => exact withTracked_wf hw ht hc.same (hc.wf (hw.tracked _ ht))
  | lose ht => exact withTracked_wf hw ht (Tracked.loseJob_same _) (Tracked.loseJob_wf (hw.tracked _ ht))
  | drain hr htodo hc => exact hw.withDrain hr (DrainHeld.fithaw_wf (hrec _ hr) _)
  | @loseDrain j hr => exact hw.withDrain hr (hrec j hr)

end Steps

end Driver

end Qeminga
