import Qeminga.Invariant.Handles

/-!
# One handle for a superblock

The targets of a plan are on different superblocks, so an operation returns at most one handle for each
(`Driver.Move.apart`), and a thaw that begins with handles on different superblocks goes on with such
(`ThawBlocking.Apart`): it opens a target only if it has no handle on its superblock.
-/

namespace Qeminga

open FreezePlan (targetDevs)

/-! ### The targets an operation has before it -/

def Prep.targets : Prep → List Target
  | .create plan => plan.freezeOrder
  | .fsync plan => plan.freezeOrder
  | .done (.ok plan) => plan.freezeOrder
  | _ => []

def Tracked.targets : Tracked → List Target
  | .prep j => j.val.targets
  | .worker t rest _ => t :: rest
  | _ => []

def Boundary.targets : Boundary → List Target
  | .spawn t rest => t :: rest
  | .next rest => rest
  | .commit => []

def Resume.targets : Resume → List Target
  | .boundary b => b.targets
  | .await tr => tr.targets

/-- The targets left, the one of the outstanding worker included. -/
def Pc.targets : Pc → List Target
  | .head rest => rest
  | .decide b => b.targets
  | .decideClock b => b.targets
  | .aborting _ k => k.targets
  | .await tr => tr.targets
  | _ => []

def Tracked.preparing : Tracked → Bool
  | .prep _ => true
  | _ => false

def Resume.preparing : Resume → Bool
  | .await tr => tr.preparing
  | .boundary _ => false

def Pc.preparing : Pc → Bool
  | .await tr => tr.preparing
  | .aborting _ k => k.preparing
  | _ => false

theorem freezeOrder_nodup (entries : List MountEntry) (restrict : Option (List Path)) :
    (targetDevs (buildPlan entries restrict).freezeOrder).Nodup := by
  unfold FreezePlan.freezeOrder targetDevs
  rw [List.map_reverse, List.nodup_reverse]
  exact buildPlan_nodup entries restrict

namespace Driver

variable {cfg : Config} {c c' : Ctx} {i fresh : TaskId} {d d' : Driver} {new : Option Dog}

/-- The superblocks of the handles an operation has returned and of the targets it has before it are different ones. -/
structure Apart (d : Driver) : Prop where
  nodup : (devs d.returned ++ targetDevs d.pc.targets).Nodup
  preparing : d.pc.preparing = true → d.returned = []

private theorem Apart.sub (h : d.Apart) (hr : d'.returned = d.returned) (ht : d'.pc.targets.Sublist d.pc.targets)
    (hp : d'.pc.preparing = true → d.pc.preparing = true) : d'.Apart := by
  refine ⟨?_, fun hp' => hr.trans (h.preparing (hp hp'))⟩
  rw [hr]
  exact h.nodup.sublist ((ht.map _).append_left _)

/-- The handle of the target `t` is returned. -/
private theorem Apart.returns (h : d.Apart) {t : Target} {rest : List Target} {m : Mount} (ht : d.pc.targets = t :: rest)
    (hm : m.dev = t.dev) (hr : d'.returned = d.returned ++ [m]) (ht' : d'.pc.targets = rest)
    (hp : d'.pc.preparing = false) : d'.Apart := by
  refine ⟨?_, fun hp' => by rw [hp] at hp'; cases hp'⟩
  have hn := h.nodup
  rw [ht] at hn
  rw [hr, ht', devs_append]
  simpa [targetDevs, hm] using hn

theorem targets_of_tracked {tr : Tracked} (ht : d.tracked = some tr) :
    (d.pc.targets = tr.targets ∧ d.pc.preparing = tr.preparing) ∧
      ∀ tr', (d.withTracked tr').pc.targets = tr'.targets ∧ (d.withTracked tr').pc.preparing = tr'.preparing := by
  rcases tracked_cases ht with ⟨hpc, h⟩ | ⟨stage, hpc, h⟩
  · exact ⟨⟨by rw [hpc]; rfl, by rw [hpc]; rfl⟩, fun tr' => ⟨by rw [h]; rfl, by rw [h]; rfl⟩⟩
  · exact ⟨⟨by rw [hpc]; rfl, by rw [hpc]; rfl⟩, fun tr' => ⟨by rw [h]; rfl, by rw [h]; rfl⟩⟩

private theorem Apart.call (h : d.Apart) {tr tr' : Tracked} (ht : d.tracked = some tr) (hc : tr.Call c i c' tr') :
    (d.withTracked tr').Apart := by
  obtain ⟨⟨hold, hprep⟩, hnew⟩ := targets_of_tracked ht
  obtain ⟨htargets, hpreparing⟩ := hnew tr'
  -- every call but the one that makes the plan
  have hsub : tr'.targets.Sublist tr.targets → tr'.preparing = tr.preparing → (d.withTracked tr').Apart := by
    intro hs hp
    refine h.sub rfl (by rw [htargets, hold]; exact hs) fun hp' => ?_
    rw [hprep, ← hp, ← hpreparing]
    exact hp'
  cases hc with
  | planned restrict entries =>
    have hret : d.returned = [] := h.preparing (by rw [hprep]; rfl)
    refine ⟨?_, fun _ => hret⟩
    rw [htargets]
    show (devs d.returned ++ _).Nodup
    rw [hret]
    exact freezeOrder_nodup entries restrict
  | _ => exact hsub (by simp [Tracked.targets, Prep.targets]) rfl

theorem Move.apart (hm : Move cfg c i fresh d c' d' new) (hw : d.WF) (h : d.Apart) : d'.Apart := by
  cases hm
  case froze hpc hd =>
    subst hd
    exact h.returns (by rw [hpc]; rfl) (hw.trackedAt hpc) rfl rfl rfl
  case busy hpc hd =>
    subst hd
    exact h.returns (by rw [hpc]; rfl) (hw.trackedAt hpc) rfl rfl rfl
  case call ht hc => exact h.call ht hc
  case lose tr ht =>
    obtain ⟨⟨hold, hprep⟩, hnew⟩ := targets_of_tracked ht
    obtain ⟨htargets, hpreparing⟩ := hnew (loseJob tr)
    refine h.sub rfl ?_ ?_
    · rw [htargets, hold]
      cases tr <;> exact List.Sublist.refl _
    · rw [hpreparing, hprep]
      cases tr <;> exact id
  case abort hpc =>
    rcases hpc with hpc | hpc | ⟨hpc, rfl⟩ <;>
      exact h.sub rfl (by rw [hpc]; exact List.Sublist.refl _) (by rw [hpc]; exact id)
  case announce k hpc =>
    refine h.sub rfl ?_ ?_
    · rw [hpc]
      cases k with
      | boundary b => cases b <;> simp [Resume.pc, Pc.targets, Resume.targets, Boundary.targets]
      | «await» tr => exact List.Sublist.refl _
    · rw [hpc]
      cases k with
      | boundary b => cases b <;> exact id
      | «await» tr => exact id
  case joinDrain => exact h.sub rfl (List.Sublist.refl _) id
  case joinDrainRestart => exact h.sub rfl (List.Sublist.refl _) id
  case settleDrain => exact h.sub rfl (List.Sublist.refl _) id
  case drain => exact h.sub rfl (List.Sublist.refl _) id
  case loseDrain => exact h.sub rfl (List.Sublist.refl _) id
  case prepared hpc => exact h.sub rfl (by rw [hpc]; exact List.Sublist.refl _) (by rintro ⟨⟩)
  case commit terminal reply hpc => exact h.sub rfl (List.nil_sublist _) (by cases terminal <;> rintro ⟨⟩)
  all_goals
    have hpc := ‹d.pc = _›
    first
    | exact h.sub rfl (by rw [hpc]; exact List.Sublist.refl _) (by rw [hpc]; exact id)
    | exact h.sub rfl (List.nil_sublist _) (by rw [hpc]; rintro ⟨⟩)
    | exact h.sub rfl (by rw [hpc]; exact List.sublist_cons_self _ _) (by rw [hpc]; rintro ⟨⟩)

end Driver

/-! ### The superblocks of a thaw -/

/-- The superblock a thaw is at. -/
def ThawStage.devs : ThawStage → List Dev
  | .open t _ _ _ => [t.dev]
  | .drain m _ => [m.dev]
  | _ => []

namespace ThawBlocking

/-- The handles of a thaw are on different superblocks, and so are the targets left, on which it keeps no handle. -/
structure Apart (j : ThawBlocking) : Prop where
  nodup : (j.stage.devs ++ (devs j.retained ++ devs j.keep)).Nodup
  rest : (targetDevs j.rest).Nodup
  ahead : ∀ t ∈ j.rest, t.dev ∉ j.stage.devs ∧ t.dev ∉ devs j.keep
  table : j.stage = .table → j.keep = []

theorem advance_apart {j : ThawBlocking} (hn : (devs j.retained ++ devs j.keep).Nodup) (hr : (targetDevs j.rest).Nodup)
    (ha : ∀ t ∈ j.rest, t.dev ∉ devs j.keep) : j.advance.Apart := by
  rcases j.advance_cases with ⟨t, ts, m, retained, hrest, hdev, hperm, he⟩ | ⟨t, ts, hrest, hnot, he⟩ |
    ⟨m, retained, hrest, hret, he⟩ | ⟨failure, hrest, hret, -, he⟩ | ⟨hrest, hret, -, -, he⟩
  · rw [hrest] at hr ha
    obtain ⟨ht, hts⟩ := List.nodup_cons.1 hr
    rw [he]
    refine ⟨?_, hts, fun t' ht' => ⟨?_, ha t' (List.mem_cons_of_mem _ ht')⟩, by rintro ⟨⟩⟩
    · exact ((hperm.map Mount.dev).append_right _).nodup_iff.1 hn
    · rw [ThawStage.devs, List.mem_singleton, hdev]
      rintro heq
      exact ht (heq ▸ List.mem_map_of_mem ht')
  · rw [hrest] at hr ha
    obtain ⟨ht, hts⟩ := List.nodup_cons.1 hr
    rw [he]
    refine ⟨?_, hts, fun t' ht' => ⟨?_, ha t' (List.mem_cons_of_mem _ ht')⟩, by rintro ⟨⟩⟩
    · have hkeep := ha t List.mem_cons_self
      have hmem : t.dev ∉ devs j.retained ++ devs j.keep := fun hmem => (List.mem_append.1 hmem).elim hnot hkeep
      exact List.nodup_cons.2 ⟨hmem, hn⟩
    · rw [ThawStage.devs, List.mem_singleton]
      rintro heq
      exact ht (heq ▸ List.mem_map_of_mem ht')
  · rw [he]
    refine ⟨?_, hr, by simp [hrest], by rintro ⟨⟩⟩
    rw [hret, devs_append, List.append_assoc] at hn
    have hperm : (devs retained ++ m.dev :: devs j.keep).Perm (m.dev :: (devs retained ++ devs j.keep)) :=
      List.perm_middle
    exact hperm.nodup_iff.1 hn
  · rw [he]
    exact ⟨hn, hr, by simp [hrest], by rintro ⟨⟩⟩
  · rw [he]
    exact ⟨hn, hr, by simp [hrest], by rintro ⟨⟩⟩

theorem start_apart {held : List Mount} (h : (devs held).Nodup) (discover : Bool) : (start discover held).Apart := by
  unfold start
  cases discover with
  | true => exact ⟨by simpa [ThawStage.devs] using h, List.nodup_nil, by simp, fun _ => rfl⟩
  | false =>
    simp only [Bool.false_eq_true, if_false]
    exact advance_apart (by simpa using h) List.nodup_nil (by simp)

theorem Call.apart {c c' : Ctx} {i : TaskId} {j j' : ThawBlocking} (h : j.Call c i c' j') (hj : j.Apart) : j'.Apart := by
  have hn : (devs j.retained ++ devs j.keep).Nodup := hj.nodup.of_append_right
  cases h with
  | discovered entries hs =>
    refine advance_apart hn (buildPlan_nodup entries none) fun t _ => ?_
    show t.dev ∉ devs j.keep
    rw [hj.table hs]
    exact List.not_mem_nil
  | undiscovered message hs => exact advance_apart hn hj.rest fun t ht => (hj.ahead t ht).2
  | opened hs =>
    refine ⟨?_, hj.rest, fun t ht => ?_, by rintro ⟨⟩⟩
    · have hnodup := hj.nodup
      rw [hs] at hnodup
      exact hnodup
    · have hahead := hj.ahead t ht
      rw [hs] at hahead
      exact hahead
  | @notOpened t path paths attempts err hs =>
    cases paths with
    | cons next paths =>
      refine ⟨?_, hj.rest, fun t ht => ?_, by rintro ⟨⟩⟩
      · have hnodup := hj.nodup
        rw [hs] at hnodup
        exact hnodup
      · have hahead := hj.ahead t ht
        rw [hs] at hahead
        exact hahead
    | nil => exact advance_apart hn hj.rest fun t ht => (hj.ahead t ht).2
  | @fithaw m n r c' hs hc =>
    have hnodup := hj.nodup
    rw [hs] at hnodup
    have hahead := fun t ht => hj.ahead t ht
    rw [hs] at hahead
    rcases j.fithaw_cases m n r with ⟨n', he⟩ | ⟨res, failure, -, -, he⟩ | ⟨res, -, -, he⟩ <;> rw [he]
    · exact ⟨hnodup, hj.rest, hahead, by rintro ⟨⟩⟩
    · refine advance_apart ?_ hj.rest fun t ht => ?_
      · show (devs j.retained ++ devs (j.keep ++ [m])).Nodup
        rw [devs_append, ← List.append_assoc]
        exact List.perm_append_comm.nodup_iff.1 hnodup
      · show t.dev ∉ devs (j.keep ++ [m])
        rw [devs_append]
        exact fun hmem => (List.mem_append.1 hmem).elim (hahead t ht).2 (hahead t ht).1
    · exact advance_apart hn hj.rest fun t ht => (hj.ahead t ht).2
  | unlinked hs hc =>
    have hnodup := hj.nodup
    rw [hs] at hnodup
    unfold removed
    split <;> exact ⟨hnodup, hj.rest, fun t ht => ⟨List.not_mem_nil, (hj.ahead t ht).2⟩, by rintro ⟨⟩⟩

end ThawBlocking

end Qeminga
