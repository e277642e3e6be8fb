import Qeminga.Contract.Settlement
import Qeminga.Invariant.Provenance

/-!
# No stale handles while thawed

In the runs in which no recovery drain hands a handle back (`RecoveryCompletes`) no handle is held in the state
`Thawed`.  So an operation that freezes nothing, because its plan is empty or because no target can be frozen, holds
nothing at its commit, and settles `Thawed` with the reply `0`.  A recovery drain that fails leaves its handle behind:
a run shows it.
-/

namespace Qeminga

/-- Every target that the operation attempted cannot be frozen. -/
def Skips (log : List Event) (op : TaskId) : Prop := ∀ p ∈ attempts log op, p.2 = some .skipped

/-- The plan is empty, or every target that the operation attempted cannot be frozen. -/
def ZeroWork (c : Ctx) (i : TaskId) : Prop := (∃ plan, Prepared c i plan ∧ plan.targets = []) ∨ Skips c.log i

/-- The operation is not aborted, and the task that removes its marker is not lost and finds it removed or absent. -/
structure Driver.Unimpeded (d : Driver) : Prop where
  abort : d.abort = none
  removal : ∀ k j, d.tracked = some (.removal k j) →
    j.lost = false ∧ ∀ r, j.val = some r → r = .ok () ∨ r = .error .absent

/-- The runs in which the operation `op` is not aborted and its marker can be removed. -/
def Unimpeded (op : TaskId) (_ : Agent) (_ : Action) (a' : Agent) : Prop :=
  ∀ d, a'.tasks op = some (.driver d) → d.Unimpeded

/-- The marker was not created by a preparation that succeeded. -/
def NeverPrepared (c : Ctx) (i : TaskId) : Prop := ∀ plan, ¬ Prepared c i plan

/-- Where the driver of an operation stands that has frozen nothing: it heads for `Thawed` with the reply `0`. -/
def Pc.idle (c : Ctx) (i : TaskId) : Pc → Prop
  | .await (.removal .nothingFrozen _) => True
  | .await (.removal _ _) => NeverPrepared c i
  | .await (.rollback _) => False
  | .conclude _ terminal reply => NeverPrepared c i ∨ (terminal = .thawed ∧ reply = .ok 0)
  | _ => True

section History

variable {log : List Event} {op : TaskId} {c c' : Ctx} {i : TaskId}

theorem Skips.older {new : List Event} (h : Skips (new ++ log) op) : Skips log op := by
  intro p hp
  refine h p ?_
  simp only [attempts, List.mem_reverse, List.filterMap_append, List.mem_append] at hp ⊢
  exact .inr hp

/-- What cannot be frozen leaves no handle. -/
theorem Skips.publishedBy_eq_nil (h : Skips log op) : publishedBy log op = [] := by
  have hnone : ∀ e ∈ log, e.hands op = none := by
    intro e he
    cases hh : e.hands op with
    | none => rfl
    | some m =>
      exfalso
      obtain ⟨t, o, rfl, ho⟩ : ∃ t o, e = .attempted op t (some o) ∧ o ≠ .skipped := by
        unfold Event.hands at hh
        split at hh
        · rename_i i t m'
          by_cases hi : i = op
          · exact ⟨t, .frozen m', by rw [hi], by simp⟩
          · simp [hi] at hh
        · rename_i i t m'
          by_cases hi : i = op
          · exact ⟨t, .busy m', by rw [hi], by simp⟩
          · simp [hi] at hh
        · cases hh
      have hmem : (t, some o) ∈ attempts log op :=
        List.mem_reverse.2 (List.mem_filterMap.2 ⟨_, he, by simp⟩)
      exact ho (Option.some.inj (h _ hmem))
  exact congrArg List.reverse (List.filterMap_eq_nil_iff.2 hnone)

theorem NeverPrepared.append (h : NeverPrepared c i) (new : List Event) (hlog : c'.log = new ++ c.log)
    (hnew : ∀ e ∈ new, ∀ plan, e ≠ .prepared i (.prepared plan)) : NeverPrepared c' i := by
  intro plan he
  rw [Prepared, hlog] at he
  exact h plan ((List.mem_append.1 he).resolve_left fun he => hnew _ he plan rfl)

end History

namespace ZeroWork

variable {cfg : Config} {c c' : Ctx} {i fresh : TaskId} {d d' : Driver} {new : Option Dog}

/-- The removal of the marker for nothing frozen ends in `Thawed` with the reply `0`. -/
private theorem idle_removed {k : RemovalFor} {j : Job Removal} {terminal : Terminal} {reply : Except FreezeFailure Nat}
    (h : (Pc.await (.removal k j)).idle c i) (hq : j.lost = false ∧ ∀ r, j.val = some r → r = .ok () ∨ r = .error .absent)
    (hk : Driver.removedFor k j.lost j.val = some (terminal, reply)) :
    NeverPrepared c i ∨ (terminal = .thawed ∧ reply = .ok 0) := by
  cases k with
  | nothingFrozen =>
    rw [hq.1] at hk
    cases hv : j.val with
    | none => rw [hv] at hk; cases hk
    | some r =>
      rw [hv] at hk
      rcases hq.2 r hv with rfl | rfl <;> cases hk <;> exact .inr ⟨rfl, rfl⟩
  | beforeIoctl failure => exact .inl h
  | aborted => exact .inl h

/-- What a step finds of the preparation was there, or the preparation has just ended. -/
private theorem prepared_old (hm : Driver.Move cfg c i fresh d c' d' new) {plan : FreezePlan} (h : Prepared c' i plan) :
    Prepared c i plan ∨ ∃ j, d.pc = .await (.prep j) := by
  have hcalls : c.Calls i c' → Prepared c i plan := fun hc => by
    obtain ⟨new, hlog, hcall⟩ := hc.calls
    rw [Prepared, hlog] at h
    refine (List.mem_append.1 h).resolve_left fun he => ?_
    cases (hcall _ he).2
  cases hm
  case call hc => exact .inl (hcalls hc.calls)
  case drain hc => exact .inl (hcalls (Ctx.fithaw_calls hc))
  case interrupt hc => rcases hc with rfl | rfl <;> exact .inl h
  case froze hd => subst hd; exact .inl (by simpa [Prepared] using h)
  case busy hd => subst hd; exact .inl (by simpa [Prepared] using h)
  all_goals first
    | exact .inr ⟨_, ‹d.pc = .await (.prep _)›⟩
    | exact .inl (by simpa [Prepared] using h)

/-- A call of the awaited task. -/
private theorem idle_call {tr tr' : Tracked} (hc : tr.Call c i c' tr') (h : (Pc.await tr).idle c i) :
    (Pc.await tr').idle c' i := by
  cases hc with
  | removed k hu =>
    have hlog : c'.log = c.log := by
      rcases Ctx.unlink_cases hu with ⟨-, -, rfl⟩ | ⟨-, -, rfl⟩ | ⟨e, -, rfl⟩ <;> rfl
    have hnever : NeverPrepared c i → NeverPrepared c' i := fun hn => hn.append [] hlog (by simp)
    cases k with
    | nothingFrozen => trivial
    | beforeIoctl failure => exact hnever h
    | aborted => exact hnever h
  | rollbackDrains => exact h.elim
  | rollbackUnlinks => exact h.elim
  | _ => trivial

/-- Every step of an operation that freezes nothing. -/
private theorem idle_move (hm : Driver.Move cfg c i fresh d c' d' new) (hw : d.WF) (hq : d.Unimpeded)
    (hplan : d.Planned c i) (hheld : d.pc = .tryCommit → c.held = []) (hzero : ZeroWork c' i)
    (h : d.frozen = 0 ∧ d.pc.idle c i) : d'.frozen = 0 ∧ d'.pc.idle c' i := by
  have hat : ∀ {pc : Pc}, d.pc = pc → pc.idle c i := fun hpc => hpc ▸ h.2
  have habort : ∀ {p : Prop}, d.abort.isSome → p := fun {p} ha => by
    rw [hq.abort] at ha
    cases ha
  have hrec : ∀ {p : Prop} {j : Job DrainHeld}, d.recovery = some j → p := fun {p j} hr => by
    rw [Settlement.recovery_eq_none hw hq.abort] at hr
    cases hr
  have hconcl : ∀ {stage : ConcludeStage} {terminal : Terminal} {reply : Except FreezeFailure Nat},
      d.pc = .conclude stage terminal reply → (NeverPrepared c i → NeverPrepared c' i) →
        NeverPrepared c' i ∨ (terminal = .thawed ∧ reply = .ok 0) := fun {stage terminal reply} hpc hn => by
    have hidle : NeverPrepared c i ∨ (terminal = .thawed ∧ reply = .ok 0) := hat hpc
    exact hidle.imp hn id
  have hended : ∀ {j : Job Prep} (more : List Event), d.pc = .await (.prep j) →
      (j.lost = true ∨ ∃ failure, j = ⟨.done (.error failure), false⟩) → (∀ e ∈ more, ∀ how, e ≠ .prepared i how) →
        c'.log = more ++ .prepared i (Prep.ending j) :: .joined i .prep :: c.log → NeverPrepared c' i := by
    intro j more hpc hj hmore hlog
    have hnone : NeverPrepared c i := (hplan.preparing (by rw [hpc]; rfl)).2
    refine hnone.append (more ++ [.prepared i (Prep.ending j), .joined i .prep]) (by simp [hlog]) fun e he plan => ?_
    have hne : Prep.ending j ≠ .prepared plan := Driver.ending_ne_prepared hj plan
    rcases List.mem_append.1 he with he | he
    · exact hmore e he _
    · rcases List.mem_pair.1 he with rfl | rfl
      · exact fun h => hne (Event.prepared.inj h).2
      · exact fun h => by cases h
  -- an outstanding worker has a target of the plan
  have hwork : ∀ {p : Prop} {t : Target} {rest : List Target} {j : Job Worker} {o : Option TargetOutcome},
      d.pc = .await (.worker t rest j) → .attempted i t o ∈ c'.log → o ≠ some .skipped → p := by
    intro p t rest j o hpc he ho
    exfalso
    rcases hzero with ⟨plan, hp, hempty⟩ | hskip
    · have hp : Prepared c i plan := by
        rcases prepared_old hm hp with hp | ⟨j, hpc'⟩
        · exact hp
        · rw [hpc] at hpc'
          cases hpc'
      have hsub := hplan.order plan hp
      simp [hpc, FreezePlan.freezeOrder, hempty, FreezePlan.targetDevs, Pc.targets, Tracked.targets] at hsub
    · exact ho (hskip (t, o) (List.mem_reverse.2 (List.mem_filterMap.2 ⟨_, he, by simp⟩)))
  cases hm
  case froze t rest m hpc hd =>
    subst hd
    exact hwork (o := some (.frozen m)) hpc (by simp [Driver.collected]) (by simp)
  case busy hd => subst hd; exact ⟨h.1, trivial⟩
  case hardError t rest stop hpc ha =>
    exact hwork (o := some (.failed stop)) hpc (by simp [Driver.collected]) (by simp)
  case joinDrain hr _ _ => exact hrec hr
  case joinDrainRestart hr _ _ => exact hrec hr
  case drain hr _ _ => exact hrec hr
  case loseDrain hr => exact hrec hr
  case settleDrain hpc hr hh => exact ⟨h.1, by rw [hpc]; trivial⟩
  case settleFrozen hpc hr hh hu => exact habort (Driver.Recovering.abort (hw.at hpc))
  case settleRemove hpc hr hh hu => exact habort (Driver.Recovering.abort (hw.at hpc))
  case commitFrozen hpc ho hz =>
    have hopen : Driver.Open d := hw.at hpc
    exact absurd ⟨h.1, hheld hpc, hopen.unrecoverable⟩ hz
  case prepLost j failure hpc hj ha =>
    refine ⟨h.1, hended [.spawned i .removal] hpc (hj.imp And.left fun he => ⟨failure, he.1⟩) ?_ rfl⟩
    simp
  case prepFailed failure hpc hf ha =>
    exact ⟨h.1, .inl (hended [] hpc (.inr ⟨failure, rfl⟩) (by simp) rfl)⟩
  case announce k hpc =>
    refine ⟨h.1, ?_⟩
    have hab := (hw.at hpc).2
    cases k with
    | boundary b => cases b <;> trivial
    | «await» tr =>
      cases tr with
      | removal k j => cases hab _ rfl
      | rollback j => cases hab _ rfl
      | _ => trivial
  case removed k j terminal reply hpc hk =>
    have hremoved := idle_removed (hat hpc) (hq.removal k j (by simp [Driver.tracked, hpc])) hk
    exact ⟨h.1, hremoved.imp (fun hn plan he => hn plan (by simpa [Prepared] using he)) id⟩
  case rollbackLost hpc => exact (hat hpc).elim
  case rolledBack hpc hf => exact (hat hpc).elim
  case call tr tr' ht hc =>
    rcases Driver.tracked_cases ht with ⟨hpc, he⟩ | ⟨stage, -, he⟩ <;> rw [he]
    · exact ⟨h.1, idle_call hc (hat hpc)⟩
    · exact ⟨h.1, trivial⟩
  case lose tr ht =>
    rcases Driver.tracked_cases ht with ⟨hpc, he⟩ | ⟨stage, -, he⟩ <;> rw [he]
    · refine ⟨h.1, ?_⟩
      have hidle := hat hpc
      cases tr with
      | removal k j => cases k <;> exact hidle
      | _ => exact hidle
    · exact ⟨h.1, trivial⟩
  all_goals first
    | exact ⟨h.1, trivial⟩
    | exact ⟨h.1, hconcl ‹d.pc = _› fun hn plan he => hn plan (by simpa [Prepared] using he)⟩

/-! ### Over a run -/

structure DriverLoc (c : Ctx) (i : TaskId) (d : Driver) : Prop where
  quiet : d.Unimpeded
  idle : ZeroWork c i → d.frozen = 0 ∧ d.pc.idle c i

def Loc (op : TaskId) (c : Ctx) (i : TaskId) : Task → Prop
  | .driver d => i = op → DriverLoc c i d
  | _ => True

/-- What the context holds at the commit of an operation that freezes nothing. -/
private theorem held_eq_nil (hb : d.Balanced c.held) (ha : d.Accounted c i)
    (hpub : publishedBy c.log i = []) : c.held = [] := by
  have hleft : leftBy i c.log = [] := List.sublist_nil.1 (hpub ▸ leftBy_sublist i c.log)
  have hperm := ha.perm hb
  rw [hleft, List.perm_nil] at hperm
  simp only [List.append_eq_nil_iff] at hperm
  exact hperm.1.1.1

/-- A step of the operation itself. -/
private theorem DriverLoc.move (hm : Driver.Move cfg c i fresh d c' d' new) (hw : d.WF) (hplan : d.Planned c i)
    (hwalk : FreezeReply.DriverLoc c i d) (hglob : ∀ plan, Prepared c i plan → plan.targets = [] → publishedBy c.log i = [])
    (hacc : d.pc = .tryCommit → d.Balanced c.held ∧ d.Accounted c i) (hq : d'.Unimpeded) (h : DriverLoc c i d) :
    DriverLoc c' i d' := by
  refine ⟨hq, fun hz => ?_⟩
  have hold : ZeroWork c i := by
    rcases hz with ⟨plan, hp, hempty⟩ | hskip
    · rcases prepared_old hm hp with hp | ⟨j, hpc⟩
      · exact .inl ⟨plan, hp, hempty⟩
      · have hwalks := hwalk.walks
        rw [hpc] at hwalks
        refine .inr fun p hp => ?_
        rw [(hwalks h.quiet.abort).2.1] at hp
        cases hp
    · obtain ⟨more, hlog, -⟩ := (Task.Move.driver hm : Task.Move cfg c i fresh (.driver d) c' (.driver d') new).grows.log
      exact .inr (hlog ▸ hskip).older
  refine idle_move hm hw h.quiet hplan (fun hpc => ?_) hz (h.idle hold)
  obtain ⟨hb, ha⟩ := hacc hpc
  refine held_eq_nil hb ha ?_
  rcases hold with ⟨plan, hp, hempty⟩ | hskip
  · exact hglob plan hp hempty
  · exact hskip.publishedBy_eq_nil

/-- What another task records does not concern the operation. -/
private theorem DriverLoc.other {more : List Event} (h : DriverLoc c i d) (hlog : c'.log = more ++ c.log)
    (hby : ∀ e ∈ more, e.author ≠ some i) : DriverLoc c' i d := by
  have hprep : ∀ {plan : FreezePlan}, Prepared c' i plan → Prepared c i plan := fun {plan} hp => by
    rw [Prepared, hlog] at hp
    exact (List.mem_append.1 hp).resolve_left fun he => hby _ he rfl
  have hnever : NeverPrepared c i → NeverPrepared c' i := fun hn plan hp => hn plan (hprep hp)
  refine ⟨h.quiet, fun hz => ?_⟩
  have hold : ZeroWork c i := by
    rcases hz with ⟨plan, hp, hempty⟩ | hskip
    · exact .inl ⟨plan, hprep hp, hempty⟩
    · exact .inr (hlog ▸ hskip).older
  obtain ⟨hz, hidle⟩ := h.idle hold
  refine ⟨hz, ?_⟩
  cases hpc : d.pc with
  | «await» tr =>
    rw [hpc] at hidle
    cases tr with
    | removal k j =>
      cases k with
      | nothingFrozen => trivial
      | _ => exact hnever hidle
    | rollback j => exact hidle.elim
    | _ => trivial
  | conclude stage terminal reply =>
    rw [hpc] at hidle
    exact Or.imp_left hnever hidle
  | _ => trivial

/-- An operation that freezes nothing, is not aborted and can remove its marker heads for `Thawed`. -/
theorem reach {op : TaskId} {a : Agent} (h : Machine.Reach (Agent.step cfg)
    (fun a act a' => RecoveryCompletes a act a' ∧ Unimpeded op a act a') Agent.Initial a) :
    a.Holds (fun _ _ => True) (Loc op) := by
  refine h.invariant (fun a h => ?_) (fun a act a' hr ih hs hok => ?_)
  · obtain ⟨c, n, rfl⟩ := h.booted
    exact Agent.boot_holds trivial fun _ => trivial
  · have htok := Tokens.reach hr
    have hhand := Handles.reach hr
    have hplan := Planned.reach hr
    have hwalk := FreezeReply.reach hr
    have hacc := Provenance.reach (hr.mono fun _ _ _ h => h.1)
    refine Agent.holds_step ih hs ?_ ?_ ⟨trivial, trivial, trivial⟩ ?_ fun _ => ⟨trivial, fun _ => trivial⟩
    · rintro i t c' t' new ht hm ⟨-, hself⟩
      refine ⟨trivial, fun _ => id, ?_, fun g _ => trivial, fun j u hj hu hl => ?_⟩
      · cases hm with
        | @driver d d' _ _ hd =>
          rintro rfl
          refine DriverLoc.move hd (htok.loc ht).wf (hplan.loc ht) (hwalk.loc ht) (fun plan hp hempty => ?_) (fun hpc => ?_)
            (hok.2 d' hself) (ih.loc ht rfl)
          · have hsub := hplan.glob i plan hp
            have hnil : devs (publishedBy a.ctx.log i) = [] := by
              simpa [FreezePlan.freezeOrder, hempty, FreezePlan.targetDevs] using hsub
            exact List.map_eq_nil_iff.1 hnil
          · have hp : d.pc.published = false := by rw [hpc]; rfl
            have hb : Handles.DriverLoc a.ctx d := hhand.loc ht
            exact ⟨hb.balanced hp, hacc.loc ht hp⟩
        | _ => trivial
      · cases u with
        | driver d =>
          obtain ⟨more, hlog, hby⟩ := hm.grows.log
          exact fun hop => DriverLoc.other (hl hop) hlog fun e he ha => hj (hby e he j ha)
        | _ => trivial
    · intro restrict hst _
      have hn : (Agent.freezeCtx cfg a.ctx a.next restrict).log =
          [.spawned a.next .prep, .started a.next restrict a.ctx.snapshot] ++ a.ctx.log := rfl
      refine ⟨trivial, fun _ => ⟨⟨rfl, fun k j h => by cases h⟩, fun _ => ⟨rfl, trivial⟩⟩, fun j u hj hu hl => ?_⟩
      cases u with
      | driver d =>
        have hne : j ≠ a.next := Nat.ne_of_lt hj
        exact fun hop => DriverLoc.other (hl hop) hn (by simp [Event.author, hne.symm])
      | _ => trivial
    · intro c' he _
      have hlog : c'.log = a.ctx.log := by cases he <;> simp
      refine ⟨trivial, fun j u hu hl => ?_⟩
      cases u with
      | driver d => exact fun hop => DriverLoc.other (hl hop) (hlog.trans (List.nil_append _).symm) (by simp)
      | _ => trivial

end ZeroWork

/-! ### The result -/

/-- A drain that has ended without a failure leaves nothing. -/
private theorem mounts_of_ok {j : ThawBlocking} (hw : j.WF) {n : Nat} (hs : j.stage = .done (.ok n)) : j.mounts = [] := by
  have hret : j.retained = [] := (hw.ended (.inr ⟨_, hs⟩)).1
  have hkeep : j.keep = [] := by
    by_contra hk
    have hinc := hw.keep hk
    rw [(hw.clean (.inr ⟨n, hs⟩)).1] at hinc
    cases hinc
  simp [ThawBlocking.mounts, hs, ThawStage.mounts, hret, hkeep]

/-- In every run in which no recovery drain hands a handle back: no handle is held in the state `Thawed`, the held
handles are on different superblocks, and a tracked thaw drains exactly those that the last operation published and no
`FITHAW` has released since, until a drain without a failure has released all of them.  An operation that prepared an
empty plan, or whose targets are all skipped, and that is not aborted and can remove its marker, publishes `Thawed` and
replies `0`, and nothing else. -/
theorem no_stale_handles {cfg : Config} :
    (∀ a, Machine.Reach (Agent.step cfg) RecoveryCompletes Agent.Initial a →
      (a.ctx.state = .thawed → a.ctx.held = []) ∧ (devs a.ctx.held).Nodup ∧
      ∀ i w token j, a.tasks i = some (.thaw w (.blocking token j)) → token.isRecoveryDrain = false →
        a.ctx.scope = .tracked →
        ∃ op, lastOperation a.ctx.log = some op ∧ (leftBy op a.ctx.log).Sublist (publishedBy a.ctx.log op) ∧
          j.val.mounts.Perm (leftBy op a.ctx.log) ∧ j.val.Narrow ∧
          ∀ n, j.val.stage = .done (.ok n) → leftBy op a.ctx.log = []) ∧
    ∀ op a act a', Machine.Reach (Agent.step cfg) (fun a act a' => RecoveryCompletes a act a' ∧ Unimpeded op a act a')
        Agent.Initial a →
      Agent.step cfg a act = some a' → RecoveryCompletes a act a' → Unimpeded op a act a' → Started a.ctx op →
      ∀ plan, .prepared op (.prepared plan) ∈ a.ctx.log → (plan.targets = [] ∨ Skips a'.ctx.log op) →
      ∀ st now, .published op st now ∈ news a.ctx a'.ctx →
        st = .thawed ∧ a'.ctx.state = .thawed ∧
        ∀ b, Machine.Steps (Agent.step cfg) (fun a act a' => RecoveryCompletes a act a' ∧ Unimpeded op a act a') a' b →
          (∀ r, .replied op r ∈ b.ctx.log → r = .ok 0) ∧
          ∀ d, b.tasks op = some (.driver d) → d.pc = .finished → .replied op (.ok 0) ∈ b.ctx.log := by
  refine ⟨fun a h => ?_, fun op a act a' h hs hok hun hst plan hprep hzero st now hpub => ?_⟩
  · have hprov := Provenance.reach h
    refine ⟨hprov.glob.thawed, hprov.glob.nodup, fun i w token j ht hrec hscope => ?_⟩
    obtain ⟨-, -, hwf, hrel, hnarrow⟩ := hprov.loc ht
    obtain ⟨op, hlast, hperm⟩ := hrel hrec hscope
    refine ⟨op, hlast, leftBy_sublist op _, hperm, hnarrow hrec hscope, fun n hdone => ?_⟩
    rw [mounts_of_ok hwf hdone] at hperm
    exact hperm.nil_eq.symm
  · obtain ⟨d, terminal, reply, ht, hw, hpc, hold, hctx, htask⟩ := Settlement.publishing h hs hst hpub
    have hlog : a'.ctx.log = [.published op terminal.state a.ctx.snapshot] ++ a.ctx.log := by rw [hctx]; rfl
    have hd : ZeroWork.DriverLoc a.ctx op d := (ZeroWork.reach h).loc ht rfl
    have hwork : ZeroWork a.ctx op := hzero.imp (fun hempty => ⟨plan, hprep, hempty⟩) fun hskip => (hlog ▸ hskip).older
    have hidle := (hd.idle hwork).2
    rw [hpc] at hidle
    obtain ⟨rfl, rfl⟩ := Or.resolve_left hidle fun hn => hn plan hprep
    have hstate : st = .thawed := by
      rw [news_eq hlog, List.mem_singleton] at hpub
      cases hpub
      rfl
    refine ⟨hstate, by rw [hctx]; rfl, fun b hb => ?_⟩
    have hsaid : Settlement.Replies op (.ok 0) a' := .of_publication h ht hw hpc hd.quiet.abort hold hlog htask
    exact hsaid.run (h.tail hs ⟨hok, hun⟩) hb

/-- The checks of a step for a fixed list of actions. -/
private def unimpeded (op : TaskId) (_ : Agent) (_ : Action) (a' : Agent) : Bool :=
  match a'.tasks op with
  | some (.driver d) => d.abort.isNone && (d.tracked.all fun tr =>
      match tr with
      | .removal _ j => !j.lost && j.val.all fun r => r = .ok () || r = .error .absent
      | _ => true)
  | _ => true

private def completes (op : TaskId) (a : Agent) (act : Action) (a' : Agent) : Bool :=
  ((List.range a.next).all fun i =>
    match a.tasks i with
    | some (.thaw _ (.hold token _ held)) => !token.isRecoveryDrain || held.isEmpty
    | _ => true) && unimpeded op a act a'

private theorem Unimpeded.of_check {op : TaskId} (a : Agent) (act : Action) (a' : Agent)
    (h : unimpeded op a act a' = true) : Unimpeded op a act a' := by
  intro d hd
  simp only [unimpeded, hd, Bool.and_eq_true, Option.isNone_iff_eq_none] at h
  obtain ⟨habort, hrem⟩ := h
  refine ⟨habort, fun k j htr => ?_⟩
  rw [htr] at hrem
  simp only [Option.all_some, Bool.and_eq_true, Bool.not_eq_true'] at hrem
  refine ⟨hrem.1, fun r hr => ?_⟩
  rw [hr] at hrem
  simpa using hrem.2

private theorem completes_of_check {cfg : Config} {op : TaskId} (s : Agent) (act : Action) (s' : Agent)
    (hr : Machine.Reach (Agent.step cfg) (fun a act a' => RecoveryCompletes a act a' ∧ Unimpeded op a act a') Agent.Initial s)
    (h : completes op s act s' = true) : RecoveryCompletes s act s' ∧ Unimpeded op s act s' := by
  simp only [completes, Bool.and_eq_true, List.all_eq_true, List.mem_range] at h
  refine ⟨fun i w token outcome held ht _ hrec => ?_, .of_check s act s' h.2⟩
  have hi := h.1 i ((Tokens.reach hr).bound ht)
  simpa [ht, hrec] using hi

/-- A thaw received in the state `Thawed` that finds nothing frozen. -/
private def cleanDrain : List Action :=
  [.thaw] ++ Script.proceed 1 4 ++
    [Script.thaw 1 (.job (.table (.ok [Script.row (8, 1) [slash]]))), Script.thaw 1 (.job (.opened (.found (8, 1)))),
      Script.thaw 1 (.job (.fithaw (.error (.errno .EINVAL)))), Script.thaw 1 (.job (.unlink (.failed .ENOENT)))] ++
    Script.proceed 1 6

/-- A freeze of a superblock that cannot be frozen, up to the publication of its settlement. -/
private def skippedFreeze : List Action :=
  [.freeze none] ++ Script.prepare 2 [Script.row (8, 1) [slash]] ++
    Script.attempt 2 (8, 1) (.error (.errno .EOPNOTSUPP)) ++ Script.drive 2 4 ++
    [Script.driver 2 (.job (.unlink .ok)), Script.driver 2 .done] ++ Script.drive 2 4

/-- What the history says of the operation 2. -/
private def Event.starts : Event → Bool
  | .started i _ _ => i = 2
  | _ => false

private def Event.plans (p : FreezePlan → Bool) : Event → Bool
  | .prepared i (.prepared plan) => i = 2 && p plan
  | _ => false

private def Event.concludes (st : FreezeState) : Event → Bool
  | .published i st' _ => i = 2 && st' = st
  | _ => false

private theorem Event.plans_iff {p : FreezePlan → Bool} {log : List Event} (h : log.any (Event.plans p) = true) :
    ∃ plan, .prepared 2 (.prepared plan) ∈ log ∧ p plan = true := by
  obtain ⟨e, he, hp⟩ := List.any_eq_true.1 h
  unfold Event.plans at hp
  split at hp
  · simp only [Bool.and_eq_true, decide_eq_true_eq] at hp
    obtain ⟨rfl, hp⟩ := hp
    exact ⟨_, he, hp⟩
  · cases hp

private theorem Event.concludes_iff {st : FreezeState} {log : List Event} (h : log.any (Event.concludes st) = true) :
    ∃ now, .published 2 st now ∈ log := by
  obtain ⟨e, he, hp⟩ := List.any_eq_true.1 h
  unfold Event.concludes at hp
  split at hp
  · simp only [Bool.and_eq_true, decide_eq_true_eq] at hp
    obtain ⟨rfl, rfl⟩ := hp
    exact ⟨_, he⟩
  · cases hp

theorem no_stale_handles_of_skipped :
    ∃ a a', Machine.Reach (Agent.step ⟨60, 30, 300⟩) (fun a act a' => RecoveryCompletes a act a' ∧ Unimpeded 2 a act a')
        Agent.Initial a ∧
      Agent.step ⟨60, 30, 300⟩ a (Script.driver 2 .go) = some a' ∧ attempts a'.ctx.log 2 ≠ [] ∧
      a'.ctx.state = .thawed ∧ a'.ctx.held = [] := by
  obtain ⟨a, hr, hp⟩ : ∃ a, Machine.Reach (Agent.step ⟨60, 30, 300⟩)
      (fun a act a' => RecoveryCompletes a act a' ∧ Unimpeded 2 a act a') Agent.Initial a ∧
      (a.ctx.log.any Event.starts && a.ctx.log.any (Event.plans fun _ => true) &&
        (Agent.step ⟨60, 30, 300⟩ a (Script.driver 2 .go)).any fun a' =>
          completes 2 a (Script.driver 2 .go) a' && (news a.ctx a'.ctx).any (Event.concludes .thawed) &&
            (attempts a'.ctx.log 2).all (fun p => p.2 = some .skipped) && !(attempts a'.ctx.log 2).isEmpty) = true :=
    Machine.Reach.of_checked (completes 2) completes_of_check (cleanDrain ++ skippedFreeze)
      (fun a => a.ctx.log.any Event.starts && a.ctx.log.any (Event.plans fun _ => true) &&
        (Agent.step ⟨60, 30, 300⟩ a (Script.driver 2 .go)).any fun a' =>
          completes 2 a (Script.driver 2 .go) a' && (news a.ctx a'.ctx).any (Event.concludes .thawed) &&
            (attempts a'.ctx.log 2).all (fun p => p.2 = some .skipped) && !(attempts a'.ctx.log 2).isEmpty)
      (Agent.cold_initial false) (by decide) (by decide)
  simp only [Bool.and_eq_true] at hp
  obtain ⟨⟨hstart, hplan⟩, hstep⟩ := hp
  obtain ⟨plan, hprep, -⟩ := Event.plans_iff hplan
  have hst : Started a.ctx 2 := by
    obtain ⟨e, he, hs⟩ := List.any_eq_true.1 hstart
    unfold Event.starts at hs
    split at hs
    · rw [of_decide_eq_true hs] at he
      exact ⟨_, _, he⟩
    · cases hs
  cases hs : Agent.step ⟨60, 30, 300⟩ a (Script.driver 2 .go) with
  | none => rw [hs] at hstep; cases hstep
  | some a' =>
    rw [hs] at hstep
    simp only [Option.any_some, Bool.and_eq_true, Bool.not_eq_true', List.isEmpty_eq_false_iff] at hstep
    obtain ⟨⟨⟨hok, hpub⟩, hskip⟩, hne⟩ := hstep
    obtain ⟨hrec, hun⟩ := completes_of_check a _ a' hr hok
    obtain ⟨now, hpub⟩ := Event.concludes_iff hpub
    have hskip : Skips a'.ctx.log 2 := fun p hp => of_decide_eq_true (List.all_eq_true.1 hskip p hp)
    obtain ⟨hclean, hzero⟩ := @no_stale_handles ⟨60, 30, 300⟩
    obtain ⟨-, hstate, -⟩ := hzero 2 a _ a' hr hs hrec hun hst plan hprep (.inr hskip) _ _ hpub
    have hr' := (hr.tail hs ⟨hrec, hun⟩).mono fun _ _ _ h => h.1
    exact ⟨a, a', hr, hs, hne, hstate, (hclean a' hr').1 hstate⟩

/-- A thaw received in the state `Thawed` whose `FITHAW` is denied. -/
private def deniedDrain : List Action :=
  [.thaw] ++ Script.proceed 1 4 ++
    [Script.thaw 1 (.job (.table (.ok [Script.row (8, 1) [slash]]))), Script.thaw 1 (.job (.opened (.found (8, 1)))),
      Script.thaw 1 (.job (.fithaw (.error (.errno .EPERM))))] ++ Script.proceed 1 6

/-- It leaves its handle behind in the state `Thawed`, so that a freeze with an empty plan settles `Frozen`. -/
theorem denied_drain_leaves_handle :
    (∃ a, Machine.Reach (Agent.step ⟨60, 30, 300⟩) (Unimpeded 2) Agent.Initial a ∧ a.ctx.state = .thawed ∧
      (∀ i w token j, a.tasks i ≠ some (.thaw w (.blocking token j))) ∧ a.ctx.held ≠ []) ∧
    ∃ a, Machine.Reach (Agent.step ⟨60, 30, 300⟩) (Unimpeded 2) Agent.Initial a ∧
      (∃ plan, .prepared 2 (.prepared plan) ∈ a.ctx.log ∧ plan.targets = []) ∧
      (∃ now, .published 2 .frozen now ∈ a.ctx.log) ∧ a.ctx.state = .frozen := by
  refine ⟨?_, ?_⟩
  · obtain ⟨a, hr, hp⟩ : ∃ a, Machine.Reach (Agent.step ⟨60, 30, 300⟩) (Unimpeded 2) Agent.Initial a ∧
        (decide (a.ctx.state = .thawed) && !a.ctx.held.isEmpty) = true :=
      Machine.Reach.of_execute (unimpeded 2) Unimpeded.of_check deniedDrain
        (fun a => decide (a.ctx.state = .thawed) && !a.ctx.held.isEmpty) (Agent.cold_initial false) (by decide) (by decide)
    simp only [Bool.and_eq_true, decide_eq_true_eq, Bool.not_eq_true', List.isEmpty_eq_false_iff] at hp
    obtain ⟨hstate, hheld⟩ := hp
    refine ⟨a, hr, hstate, fun i w token j ht => ?_, hheld⟩
    -- a drain in progress has the token, which the state `Thawed` excludes
    rcases ((Tokens.reach hr).loc ht).busy rfl with hs | hs <;> rw [hstate] at hs <;> cases hs
  · obtain ⟨a, hr, hp⟩ : ∃ a, Machine.Reach (Agent.step ⟨60, 30, 300⟩) (Unimpeded 2) Agent.Initial a ∧
        (a.ctx.log.any (Event.plans fun plan => plan.targets.isEmpty) && a.ctx.log.any (Event.concludes .frozen) &&
          decide (a.ctx.state = .frozen)) = true :=
      Machine.Reach.of_execute (unimpeded 2) Unimpeded.of_check
        (deniedDrain ++ [.freeze none] ++ Script.prepare 2 [] ++ Script.drive 2 8)
        (fun a => a.ctx.log.any (Event.plans fun plan => plan.targets.isEmpty) && a.ctx.log.any (Event.concludes .frozen) &&
          decide (a.ctx.state = .frozen)) (Agent.cold_initial false) (by decide) (by decide)
    simp only [Bool.and_eq_true, decide_eq_true_eq] at hp
    obtain ⟨⟨hplan, hpub⟩, hstate⟩ := hp
    obtain ⟨plan, hprep, hempty⟩ := Event.plans_iff hplan
    exact ⟨a, hr, ⟨plan, hprep, List.isEmpty_iff.1 hempty⟩, Event.concludes_iff hpub, hstate⟩

end Qeminga
