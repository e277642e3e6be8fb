import Qeminga.Invariant.Drains
import Qeminga.Invariant.Registry
import Mathlib.Data.List.Nodup
import Mathlib.Data.List.Perm.Subperm

/-!
# Where the handles are

A handle that a worker returned is held by the context, is with a running drain or rollback, is kept by the driver, was
released by a drain that completed, or was lost with a task.  `Driver.Balanced` says that each handle is in exactly
one of these places, as an equation between the numbers of its occurrences; every step of an operation keeps it.
Descriptors are never given out twice (`Fresh`), so no handle occurs twice (`Handles.reach`).
-/

namespace Qeminga

/-! ### Descriptors -/

/-- The handles have different descriptors, all of them given out already. -/
structure Fresh (fd : Nat) (ms : List Mount) : Prop where
  nodup : (ms.map Mount.fd).Nodup
  below : ∀ m ∈ ms, m.fd < fd

namespace Fresh

variable {fd fd' : Nat} {ms ns : List Mount}

theorem nil (fd : Nat) : Fresh fd [] := ⟨List.nodup_nil, by simp⟩

theorem mono (h : Fresh fd ms) (hle : fd ≤ fd') : Fresh fd' ms :=
  ⟨h.nodup, fun m hm => Nat.lt_of_lt_of_le (h.below m hm) hle⟩

theorem perm (h : Fresh fd ms) (hp : ms.Perm ns) : Fresh fd ns :=
  ⟨(hp.map _).nodup_iff.1 h.nodup, fun m hm => h.below m (hp.mem_iff.2 hm)⟩

theorem subperm (h : Fresh fd ms) (hp : ns.Subperm ms) : Fresh fd ns := by
  obtain ⟨ks, hk, hs⟩ := hp
  have hks : Fresh fd ks := ⟨h.nodup.sublist (hs.map _), fun m hm => h.below m (hs.subset hm)⟩
  exact hks.perm hk

/-- A handle that was just opened. -/
theorem snoc (h : Fresh fd ms) (path : Path) (dev : Dev) : Fresh (fd + 1) (ms ++ [⟨path, dev, fd⟩]) where
  nodup := by
    rw [List.map_append, List.nodup_append]
    refine ⟨h.nodup, by simp, fun x hx y hy => ?_⟩
    obtain ⟨m, hm, rfl⟩ := List.mem_map.1 hx
    obtain rfl : y = fd := by simpa using hy
    exact Nat.ne_of_lt (h.below m hm)
  below := by
    intro m hm
    rcases List.mem_append.1 hm with hm | hm
    · exact Nat.lt_succ_of_lt (h.below m hm)
    · obtain rfl := List.mem_singleton.1 hm
      exact Nat.lt_succ_self _

/-- Handles with different descriptors are different. -/
theorem distinct (h : Fresh fd ms) : ms.Nodup := List.Nodup.of_map _ h.nodup

end Fresh

/-! ### The handles of the blocking tasks -/

/-- The handle a worker has opened and not yet given away. -/
def Worker.opened : Worker → List Mount
  | .checkAborted m => [m]
  | .checkClock m _ => [m]
  | .ioctl m _ _ => [m]
  | .done (.frozen m) => [m]
  | .done (.busy m) => [m]
  | _ => []

def Tracked.opened : Tracked → List Mount
  | .worker _ _ j => j.val.opened
  | _ => []

def Resume.opened : Resume → List Mount
  | .await tr => tr.opened
  | .boundary _ => []

/-- The handle that the outstanding worker has opened. -/
def Pc.opened : Pc → List Mount
  | .await tr => tr.opened
  | .aborting _ k => k.opened
  | _ => []

/-- The pass of the running rollback. -/
def Pc.rolling : Pc → Option DrainHeld
  | .await (.rollback j) => some j.val.drain
  | _ => none

namespace Driver

/-- The running passes over held handles: the recovery drain and the rollback. -/
def running (d : Driver) : List DrainHeld := (d.recovery.map Job.val).toList ++ d.pc.rolling.toList

/-- The handles with the running drain or rollback. -/
def draining (d : Driver) : List Mount := d.running.flatMap DrainHeld.mounts

/-- The handles released after a complete drain, those of the running drain or rollback included. -/
def drained (d : Driver) : List Mount := d.released ++ d.running.flatMap DrainHeld.released

/-- Each handle found or returned is in one place, `held` being what the context holds. -/
def Balanced (held : List Mount) (d : Driver) : Prop :=
  ∀ m, (d.stale ++ d.returned).count m =
    held.count m + d.draining.count m + d.kept.count m + d.drained.count m + d.lost.count m

theorem Balanced.perm {held : List Mount} {d : Driver} (h : d.Balanced held) :
    (d.stale ++ d.returned).Perm (held ++ d.draining ++ d.kept ++ d.drained ++ d.lost) := by
  rw [List.perm_iff_count]
  intro m
  simp only [List.count_append, h m]

theorem Balanced.held_subperm {held : List Mount} {d : Driver} (h : d.Balanced held) :
    held.Subperm (d.stale ++ d.returned) := by
  rw [List.subperm_ext_iff]
  intro m _
  have := h m
  omega

end Driver

/-- A `FITHAW` of a pass keeps or releases a handle. -/
theorem DrainHeld.count_fithaw {j : DrainHeld} {m : Mount} {rest : List Mount} (htodo : j.todo = m :: rest)
    (r : Except KernelError Unit) (x : Mount) :
    (j.fithaw r).mounts.count x + (j.fithaw r).released.count x = j.mounts.count x + j.released.count x := by
  rcases DrainHeld.fithaw_cases htodo r with ⟨n, he⟩ | ⟨res, reason, -, -, he⟩ | ⟨res, -, -, he⟩ <;> rw [he]
  · rfl
  · simp only [mounts, htodo, List.count_append, List.count_cons, List.count_nil]
    omega
  · simp only [mounts, htodo, List.count_append, List.count_cons, List.count_nil]
    omega

/-- How often a handle occurs in a pass, if there is one. -/
def DrainHeld.weight (o : Option DrainHeld) (x : Mount) : Nat :=
  (o.map fun j => j.mounts.count x + j.released.count x).getD 0

theorem DrainHeld.weight_eq (o : Option DrainHeld) (x : Mount) :
    DrainHeld.weight o x =
      (o.toList.flatMap DrainHeld.mounts).count x + (o.toList.flatMap DrainHeld.released).count x := by
  cases o <;> simp [DrainHeld.weight]

@[simp] theorem DrainHeld.count_mounts_start (held : List Mount) (x : Mount) :
    (DrainHeld.start held).mounts.count x = held.count x := by
  simp [DrainHeld.start, DrainHeld.mounts, List.count_reverse]

namespace Driver

section Steps

variable {cfg : Config} {c c' : Ctx} {i fresh : TaskId} {d d' : Driver} {new : Option Dog}

/-- A step that moves no handle. -/
private theorem Balanced.congr {held held' : List Mount} (h : d.Balanced held) (hh : held' = held)
    (hs : d'.stale ++ d'.returned = d.stale ++ d.returned) (hg : d'.recovery = d.recovery) (hk : d'.kept = d.kept)
    (hd : d'.released = d.released) (hl : d'.lost = d.lost) (hp : d'.pc.rolling = d.pc.rolling) : d'.Balanced held' := by
  intro m
  simp only [draining, drained, running, hs, hh, hg, hk, hd, hl, hp]
  exact h m

/-- A driver that has published its terminal state stays there. -/
theorem Move.stays_published (hm : Move cfg c i fresh d c' d' new) (hw : d.WF) (hp : d.pc.published = true) :
    d'.pc.published = true := by
  have ht := hw.token_iff
  have ht' := (hm.wf hw).token_iff
  rw [hp, Bool.not_true, Bool.or_eq_false_iff] at ht
  rcases hm.tokens hw with ⟨h₁, h₂, -⟩ | ⟨h, -⟩ | ⟨h, -⟩
  · rw [h₁, h₂, ht.1, ht.2] at ht'
    simpa using ht'.symm
  · rw [ht.1] at h
    cases h
  · rw [ht.1, ht.2] at h
    cases h

/-- The handles of the context go to a recovery drain. -/
private theorem Balanced.recover (h : d.Balanced c.held) {pc : Pc} (hr : d.recovery = none)
    (hp : pc.rolling = d.pc.rolling) : Balanced [] { d with recovery := some (.start (.start c.held)), pc := pc } := by
  intro x
  have hx := h x
  simp only [draining, drained, running, hr, hp, Job.start, Option.map_some, Option.map_none, Option.toList_some,
    Option.toList_none, List.nil_append, List.cons_append, List.flatMap_cons, List.count_append,
    DrainHeld.count_mounts_start, List.count_nil] at hx ⊢
  have hrel : (DrainHeld.start c.held).released.count x = 0 := rfl
  omega

/-- A running pass takes a step, or is lost. -/
private theorem Balanced.pass {held : List Mount} (h : d.Balanced held) {r : Option (Job DrainHeld)} {pc : Pc}
    (hr : ∀ x, DrainHeld.weight (r.map Job.val) x = DrainHeld.weight (d.recovery.map Job.val) x)
    (hp : ∀ x, DrainHeld.weight pc.rolling x = DrainHeld.weight d.pc.rolling x) :
    Balanced held { d with recovery := r, pc := pc } := by
  intro x
  have hx := h x
  have hr := hr x
  have hp := hp x
  simp only [DrainHeld.weight_eq] at hr hp
  simp only [draining, drained, running, List.flatMap_append, List.count_append] at hx ⊢
  omega

private theorem weight_rolling {tr tr' : Tracked} (ht : d.tracked = some tr)
    (he : ∀ x, DrainHeld.weight (Pc.rolling (.await tr')) x = DrainHeld.weight (Pc.rolling (.await tr)) x) (x : Mount) :
    DrainHeld.weight (d.withTracked tr').pc.rolling x = DrainHeld.weight d.pc.rolling x := by
  rcases tracked_cases ht with ⟨hpc, h⟩ | ⟨stage, hpc, h⟩
  · rw [h, hpc]
    exact he x
  · rw [h, hpc]
    rfl

/-- A recovery drain that ended is joined. -/
private theorem Balanced.recorded {held : List Mount} (h : d.Balanced held) {j : Job DrainHeld}
    (hr : d.recovery = some j) (he : drainEnded j = true) : (d.recorded j).Balanced held := by
  intro x
  have hx := h x
  simp only [draining, drained, running, hr, Driver.recorded, Option.map_some, Option.map_none, Option.toList_some,
    Option.toList_none, List.nil_append, List.cons_append, List.flatMap_cons, List.count_append] at hx ⊢
  cases hl : j.lost with
  | true =>
    simp only [if_true, List.count_append]
    omega
  | false =>
    have htodo : j.val.todo = [] := by simpa [drainEnded, hl] using he
    simp only [DrainHeld.mounts, htodo, List.nil_append] at hx
    simp only [Bool.false_eq_true, if_false, List.count_append]
    omega

/-- Every step of an operation keeps each handle in one place. -/
theorem Move.balanced (hm : Move cfg c i fresh d c' d' new) (hw : d.WF)
    (h : d.pc.published = false → d.Balanced c.held) (hp' : d'.pc.published = false) : d'.Balanced c'.held := by
  have hp : d.pc.published = false := Bool.eq_false_iff.2 fun hp => by
    rw [hm.stays_published hw hp] at hp'
    cases hp'
  have hb := h hp
  cases hm
  case abort hpc => rcases hpc with hpc | hpc | ⟨hpc, -⟩ <;> exact hb.congr rfl rfl rfl rfl rfl rfl (by rw [hpc]; rfl)
  case interrupt tr cause hpc harm hc =>
    have hh : c'.held = c.held := by rcases hc with rfl | rfl <;> rfl
    refine hb.congr hh rfl rfl rfl rfl rfl ?_
    cases tr <;> first | (rw [hpc]; rfl) | cases harm
  case announce k hpc =>
    have hk := (hw.at hpc).2
    refine hb.congr rfl rfl rfl rfl rfl rfl ?_
    cases k with
    | boundary b => cases b <;> (rw [hpc]; rfl)
    | «await» tr =>
      have := hk tr rfl
      cases tr <;> first | (rw [hpc]; rfl) | cases this
  case recover k hpc hr hh => exact hb.recover hr (by rw [hpc]; rfl)
  case joinDrain hpc hr he hh => exact hb.recorded hr he
  case joinDrainRestart hpc hr he hh => 
    exact (hb.recorded hr he).recover rfl rfl
  case settleDrain hpc hr hh => exact hb.recover hr rfl
  case settleFrozen hpc hr hh hu =>
    intro x
    have hx := hb x
    simp only [draining, drained, running, hpc, hh, hr, concludes] at hx ⊢
    simp [Pc.rolling, hh] at hx ⊢
    omega
  case froze hpc hd => 
    subst hd
    intro x
    have hx := hb x
    simp only [draining, drained, running, hpc] at hx ⊢
    simp [Pc.rolling] at hx ⊢
    omega
  case busy hpc hd =>
    subst hd
    intro x
    have hx := hb x
    simp only [draining, drained, running, hpc] at hx ⊢
    simp [Pc.rolling] at hx ⊢
    omega
  case hardError hpc ha =>
    intro x
    have hx := hb x
    simp only [draining, drained, running, hpc, Pc.rolling, Job.start, Rollback.start] at hx ⊢
    simp [DrainHeld.start, DrainHeld.mounts] at hx ⊢
    omega
  case rollbackLost hpc =>
    intro x
    have hx := hb x
    simp only [draining, drained, running, hpc, Pc.rolling, concludes] at hx ⊢
    simp at hx ⊢
    omega
  case rolledBack v hpc hf =>
    have htodo : v.drain.todo = [] := by
      simp only [Rollback.finished, Bool.and_eq_true, List.isEmpty_iff] at hf
      exact hf.1
    intro x
    have hx := hb x
    simp only [draining, drained, running, hpc, Pc.rolling, concludes] at hx ⊢
    simp [DrainHeld.mounts, htodo] at hx ⊢
    omega
  case call ht hc =>
    rw [hc.calls.held]
    refine hb.pass (fun _ => rfl) (weight_rolling ht fun x => ?_)
    cases hc with
    | rollbackDrains htodo hc => exact DrainHeld.count_fithaw htodo _ x
    | _ => rfl
  case lose tr ht => exact hb.pass (fun _ => rfl) (weight_rolling ht fun x => by cases tr <;> rfl)
  case drain hr htodo hc =>
    rw [(Ctx.fithaw_calls hc).held]
    refine hb.pass (fun x => ?_) fun _ => rfl
    rw [hr]
    exact DrainHeld.count_fithaw htodo _ x
  case loseDrain hr => exact hb.pass (fun x => by rw [hr]; rfl) fun _ => rfl
  all_goals
    have hpc := ‹d.pc = _›
    refine hb.congr (by simp) rfl rfl rfl rfl rfl (by rw [hpc]; rfl)

/-- A step that opens no handle; the worker may give its handle away. -/
private theorem fresh_of_opened (h : Fresh c.fd (d.stale ++ d.returned ++ d.pc.opened)) (hs : d'.stale = d.stale)
    (hr : d'.returned = d.returned) (ho : d'.pc.opened = [] ∨ d'.pc.opened = d.pc.opened) (hfd : c.fd ≤ c'.fd) :
    Fresh c'.fd (d'.stale ++ d'.returned ++ d'.pc.opened) := by
  rw [hs, hr]
  refine (h.subperm ?_).mono hfd
  rcases ho with ho | ho
  · rw [ho, List.append_nil]
    exact (List.sublist_append_left _ _).subperm
  · rw [ho]

theorem opened_of_tracked {tr : Tracked} (ht : d.tracked = some tr) :
    d.pc.opened = tr.opened ∧ ∀ tr', (d.withTracked tr').pc.opened = tr'.opened := by
  rcases tracked_cases ht with ⟨hpc, h⟩ | ⟨stage, hpc, h⟩
  · exact ⟨by rw [hpc]; rfl, fun tr' => by rw [h]; rfl⟩
  · exact ⟨by rw [hpc]; rfl, fun tr' => by rw [h]; rfl⟩

/-- The handles that an operation found, returned and opened have different descriptors. -/
theorem Move.keeps_fresh (hm : Move cfg c i fresh d c' d' new) (h : Fresh c.fd (d.stale ++ d.returned ++ d.pc.opened)) :
    Fresh c'.fd (d'.stale ++ d'.returned ++ d'.pc.opened) := by
  have hfd := hm.grows.fd
  cases hm
  case froze t rest m hpc hd =>
    subst hd
    simpa [hpc, Pc.opened, Tracked.opened, Worker.opened] using h
  case busy t rest m hpc hd =>
    subst hd
    simpa [hpc, Pc.opened, Tracked.opened, Worker.opened] using h
  case announce k hpc =>
    refine fresh_of_opened h rfl rfl (.inr ?_) hfd
    rw [hpc]
    cases k with
    | boundary b => cases b <;> rfl
    | «await» tr => rfl
  case call tr tr' ht hc =>
    obtain ⟨hold, hnew⟩ := opened_of_tracked ht
    cases hc with
    | opened t rest path paths attempts =>
      rw [hold] at h
      rw [hnew]
      have hsnoc := h.snoc path t.dev
      simpa [withTracked, Tracked.opened, Worker.opened] using hsnoc
    | fifreeze t rest m aborted clock r =>
      refine fresh_of_opened h rfl rfl ?_ hfd
      rw [hnew, hold]
      rcases Worker.answered_cases m r with ⟨he, -⟩ | ⟨err, -, he | he | he⟩ <;>
        simp [Tracked.opened, Worker.opened, he]
    | _ => first
      | exact fresh_of_opened h rfl rfl (.inr (by rw [hnew, hold]; rfl)) hfd
      | exact fresh_of_opened h rfl rfl (.inl (by rw [hnew]; rfl)) hfd
  case lose tr ht =>
    obtain ⟨hold, hnew⟩ := opened_of_tracked ht
    refine fresh_of_opened h rfl rfl (.inr ?_) hfd
    rw [hnew, hold]
    cases tr <;> rfl
  case joinDrain => exact fresh_of_opened h rfl rfl (.inr rfl) hfd
  case joinDrainRestart => exact fresh_of_opened h rfl rfl (.inr rfl) hfd
  case settleDrain => exact fresh_of_opened h rfl rfl (.inr rfl) hfd
  case drain => exact fresh_of_opened h rfl rfl (.inr rfl) hfd
  case loseDrain => exact fresh_of_opened h rfl rfl (.inr rfl) hfd
  all_goals first
    | exact fresh_of_opened h rfl rfl (.inl rfl) hfd
    | exact fresh_of_opened h rfl rfl (.inr (by rw [‹d.pc = _›]; rfl)) hfd

end Steps

end Driver

/-! ### The handles of a thaw -/

def ThawStage.mounts : ThawStage → List Mount
  | .drain m _ => [m]
  | _ => []

namespace ThawBlocking

/-- The handles a thaw has: the one it drains, those it has yet to drain, and those it keeps. -/
def mounts (j : ThawBlocking) : List Mount := j.stage.mounts ++ (j.retained ++ j.keep)

theorem mounts_advance (j : ThawBlocking) : (j.retained ++ j.keep).Perm j.advance.mounts := by
  rcases j.advance_cases with ⟨t, ts, m, retained, -, -, hperm, he⟩ | ⟨t, ts, -, -, he⟩ | ⟨m, retained, -, hret, he⟩ |
    ⟨failure, -, -, -, he⟩ | ⟨-, -, -, -, he⟩
  · rw [he]
    exact hperm.append_right _
  · rw [he]
    exact .refl _
  · rw [he, hret, List.append_assoc]
    exact List.perm_middle
  · rw [he]
    exact .refl _
  · rw [he]
    exact .refl _

theorem mounts_start (discover : Bool) (held : List Mount) : held.Perm (start discover held).mounts := by
  unfold start
  cases discover with
  | true => simp [mounts, ThawStage.mounts]
  | false => simpa using mounts_advance ⟨.table, [], held, 0, none, [], none⟩

end ThawBlocking

/-- The handles a thaw has taken. -/
def ThawPc.mounts : ThawPc → List Mount
  | .scope _ held => held
  | .blocking _ j => j.val.mounts
  | .hold _ _ held => held
  | _ => []

theorem ThawBlocking.Call.keeps_fresh {c c' : Ctx} {i : TaskId} {j j' : ThawBlocking} (h : j.Call c i c' j')
    {held : List Mount} (hf : Fresh c.fd (held ++ j.mounts)) : Fresh c'.fd (held ++ j'.mounts) := by
  -- the handles go on to the next stage, some of them perhaps released
  have hadv : ∀ k : ThawBlocking, (k.retained ++ k.keep).Subperm j.mounts → Fresh c.fd (held ++ k.advance.mounts) :=
    fun k hk => (hf.subperm ((List.subperm_append_left held).2 hk)).perm (k.mounts_advance.append_left held)
  have hall : (j.retained ++ j.keep).Subperm j.mounts := (List.sublist_append_right _ _).subperm
  cases h with
  | discovered entries hs => exact hadv _ hall
  | undiscovered message hs => exact hadv _ hall
  | @opened t path paths attempts hs =>
    have hj : j.mounts = j.retained ++ j.keep := by simp [mounts, hs, ThawStage.mounts]
    rw [hj] at hf
    refine (hf.snoc path t.dev).perm ?_
    simp only [mounts, ThawStage.mounts, List.append_assoc]
    refine List.Perm.append_left held ?_
    rw [← List.append_assoc]
    exact List.perm_append_comm
  | @notOpened t path paths attempts err hs =>
    cases paths with
    | cons next paths =>
      have hj : j.mounts = j.retained ++ j.keep := by simp [mounts, hs, ThawStage.mounts]
      rw [hj] at hf
      exact hf
    | nil => exact hadv _ hall
  | @fithaw m n r c' hs hc =>
    refine Fresh.mono ?_ (Ctx.fithaw_calls hc).fd
    have hj : j.mounts = m :: (j.retained ++ j.keep) := by simp [mounts, hs, ThawStage.mounts]
    rcases j.fithaw_cases m n r with ⟨n', he⟩ | ⟨res, failure, -, -, he⟩ | ⟨res, -, -, he⟩ <;> rw [he]
    · rw [hj] at hf
      exact hf
    · refine hadv _ ?_
      rw [hj, ← List.append_assoc]
      exact List.perm_append_comm.subperm
    · exact hadv _ hall
  | unlinked hs hc =>
    refine Fresh.mono ?_ (Ctx.unlink_calls (i := i) hc).fd
    have hj : j.mounts = j.retained ++ j.keep := by simp [mounts, hs, ThawStage.mounts]
    rw [hj] at hf
    unfold ThawBlocking.removed
    split <;> exact hf

/-- The handles of the context and of the thaw that holds the token have different descriptors. -/
theorem Thaw.Move.keeps_fresh {cfg : Config} {c c' : Ctx} {i fresh : TaskId} {pc pc' : ThawPc} {new : Option Dog}
    (hm : Thaw.Move cfg c i fresh pc c' pc' new) (hg : Fresh c.fd c.held)
    (h : (Thaw.token pc).isSome → Fresh c.fd (c.held ++ pc.mounts)) (ht : (Thaw.token pc').isSome) :
    Fresh c'.fd (c'.held ++ pc'.mounts) := by
  cases hm
  case win => simpa [ThawPc.mounts] using hg
  case cancel => simpa [ThawPc.mounts] using hg
  case take => simpa [ThawPc.mounts] using hg
  case begin hd => exact (h rfl).perm ((ThawBlocking.mounts_start _ _).append_left _)
  case lost => simpa [ThawPc.mounts] using hg
  case ended v r hs =>
    refine (h rfl).subperm ((List.subperm_append_left _).2 ?_)
    exact ((List.sublist_append_right _ _).trans (List.sublist_append_right _ _)).subperm
  case uncertain => simpa [ThawPc.mounts] using hg
  case hold token outcome held =>
    have hnone : (Thaw.settles token outcome).mounts = [] := by
      cases outcome with
      | ok n => rfl
      | error failure =>
        simp only [Thaw.settles]
        split <;> rfl
    rw [hnone, List.append_nil]
    exact h rfl
  case finalise => simpa [ThawPc.mounts] using hg
  case rescope => simpa [ThawPc.mounts] using hg
  case call hc =>
    rw [hc.calls.held]
    exact hc.keeps_fresh (h rfl)
  case lose => exact h rfl
  all_goals cases ht

namespace Handles

def Glob (c : Ctx) (_ : TaskId) : Prop := Fresh c.fd c.held

structure DriverLoc (c : Ctx) (d : Driver) : Prop where
  fresh : Fresh c.fd (d.stale ++ d.returned ++ d.pc.opened)
  balanced : d.pc.published = false → d.Balanced c.held

def Loc (c : Ctx) (_ : TaskId) : Task → Prop
  | .driver d => DriverLoc c d
  | .thaw _ pc => (Thaw.token pc).isSome → Fresh c.fd (c.held ++ pc.mounts)
  | _ => True

section Reach

variable {cfg : Config} {c c' : Ctx} {i j fresh : TaskId} {t t' u : Task} {new : Option Dog}

/-- The handles of the others are not concerned. -/
private theorem Loc.other (h : Loc c j u) (hfd : c.fd ≤ c'.fd) (hu : c'.held = c.held ∨ u.holdsToken = false)
    (hw : u.WF) : Loc c' j u := by
  cases u with
  | driver d =>
    have h : DriverLoc c d := h
    have hw : d.WF := hw
    refine ⟨h.fresh.mono hfd, fun hp => ?_⟩
    rcases hu with hu | hu
    · rw [hu]
      exact h.balanced hp
    · have ht := hw.token_iff
      rw [show (d.token.isSome || d.thawToken.isSome) = false from hu, hp] at ht
      cases ht
  | thaw w pc =>
    intro ht
    rcases hu with hu | hu
    · rw [hu]
      exact (h ht).mono hfd
    · have hu : (false || (Thaw.token pc).isSome) = false := hu
      rw [ht] at hu
      cases hu
  | _ => trivial

private theorem move_driver {d d' : Driver} (hm : Driver.Move cfg c i fresh d c' d' new) {n : TaskId} (hw : d.WF)
    (hg : Glob c n) (hl : DriverLoc c d) : Glob c' n ∧ DriverLoc c' d' := by
  have hfresh := hm.keeps_fresh hl.fresh
  have hbal := hm.balanced hw hl.balanced
  refine ⟨?_, hfresh, hbal⟩
  cases hp' : d'.pc.published with
  | false =>
    refine hfresh.subperm ((hbal hp').held_subperm.trans ?_)
    exact (List.sublist_append_left _ _).subperm
  | true =>
    have hheld : c'.held = c.held := by
      cases hp : d.pc.published with
      | true => rw [hm.guarded_of_published hw hp]
      | false =>
        obtain ⟨terminal, reply, -, rfl, -⟩ := hm.publication hw hp hp'
        rfl
    show Fresh c'.fd c'.held
    rw [hheld]
    exact hg.mono hm.grows.fd

private theorem move_thaw {pc pc' : ThawPc} (hm : Thaw.Move cfg c i fresh pc c' pc' new) (hg : Fresh c.fd c.held)
    (hl : (Thaw.token pc).isSome → Fresh c.fd (c.held ++ pc.mounts)) : Fresh c'.fd c'.held := by
  have hfd := hm.grows.fd
  cases hm
  case take => exact Fresh.nil _
  case hold => exact hl rfl
  case call hc =>
    rw [hc.calls.held]
    exact hg.mono hfd
  all_goals simpa using hg

private theorem move (hm : Task.Move cfg c i fresh t c' t' new) {n : TaskId} (hw : t.WF) (hg : Glob c n)
    (hl : Loc c i t) : Glob c' n ∧ Loc c' i t' := by
  have hg : Fresh c.fd c.held := hg
  cases hm with
  | driver h => exact move_driver h hw hg hl
  | thaw h => exact ⟨move_thaw h hg hl, h.keeps_fresh hg hl⟩
  | dogClaims => exact ⟨hg, fun _ => by simpa [ThawPc.mounts] using hg⟩
  | startInstall => exact ⟨by simpa [Glob] using hg, trivial⟩
  | _ => exact ⟨hg, trivial⟩

theorem reach {ok : Agent → Action → Agent → Prop} {a : Agent}
    (h : Machine.Reach (Agent.step cfg) ok Agent.Initial a) : a.Holds Glob Loc := by
  refine h.invariant (fun a h => ?_) (fun a act a' hr ih hs _ => ?_)
  · obtain ⟨c, n, rfl⟩ := h.booted
    exact Agent.boot_holds (Fresh.nil _) fun _ => trivial
  · have htok := Tokens.reach hr
    refine Agent.holds_step ih hs ?_ ?_ ?_ ?_ ?_
    · intro i t c' t' new ht hm _
      have hf := hm.frame htok.glob (htok.loc ht)
      obtain ⟨hG, hL⟩ := move hm (htok.loc ht).wf ih.glob (ih.loc ht)
      refine ⟨hG, fun _ => id, hL, fun _ _ => trivial, fun j u hj hu hl => ?_⟩
      refine hl.other hf.fd ?_ (htok.loc hu).wf
      exact (Tokens.undisturbed hf hj (htok.loc hu)).imp (fun h => by rw [h]) id
    · intro restrict hst _
      refine ⟨ih.glob, ⟨?_, fun _ x => ?_⟩, fun j u hj hu hl => ?_⟩
      · have hg : Fresh a.ctx.fd a.ctx.held := ih.glob
        simpa [Driver.start, Pc.opened, Tracked.opened, Agent.freezeCtx] using hg
      · simp [Driver.start, Driver.draining, Driver.drained, Driver.running, Pc.rolling, Agent.freezeCtx]
      · exact hl.other (Nat.le_refl _) (.inl rfl) (htok.loc hu).wf
    · exact ⟨ih.glob, by rintro ⟨⟩, trivial⟩
    · intro c' he _
      have hheld : c'.held = a.ctx.held ∧ c'.fd = a.ctx.fd := by cases he <;> exact ⟨rfl, rfl⟩
      have hG : Fresh c'.fd c'.held := by rw [hheld.1, hheld.2]; exact ih.glob
      exact ⟨hG, fun j u hu hl => hl.other (Nat.le_of_eq hheld.2.symm) (.inl hheld.1) (htok.loc hu).wf⟩
    · intro _
      exact ⟨Fresh.nil _, fun _ => trivial⟩

end Reach

end Handles

end Qeminga
