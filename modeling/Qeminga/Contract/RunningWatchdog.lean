import Qeminga.Invariant.Watchdogs

/-!
# A frozen agent has a running watchdog

Publishing `Frozen` and arming the watchdog are two steps, and so are arming it and putting its handle into the slot.  A
watchdog that expires before its handle is in the slot ends there, and the handle of a dead watchdog then replaces, and
cancels, the live one of a later entry into `Frozen`.  In every run without such an expiry a frozen agent has a running
watchdog, or a task that is still about to arm one.
-/

namespace Qeminga

/-- The watchdog `w` runs: it was not cancelled and its timer loop has not ended. -/
def Agent.Runs (a : Agent) (w : TaskId) : Prop :=
  a.ctx.cancelled w = false ∧ ∃ g, a.tasks w = some (.dog g) ∧ g.stage ≠ .ended

/-- No watchdog makes the claim of its expiry before the task that armed it has put its handle into the slot. -/
def InstalledFirst (a : Agent) (act : Action) (_ : Agent) : Prop :=
  ∀ w ch g, act = .task w ch → a.tasks w = some (.dog g) → g.stage = .expiring →
    ∀ i t, a.tasks i = some t → t.installing ≠ some w

variable {cfg : Config} {c c' : Ctx} {i w fresh : TaskId} {t t' : Task} {new : Option Dog} {a a' : Agent}

/-! ### One step -/

/-- A watchdog that nobody cancels runs on, unless its own step is its claim. -/
private theorem Agent.Runs.apply (hr : a.Runs w) (hb : w < a.next) (ht : a.tasks i = some t)
    (hm : Task.Move cfg a.ctx i a.next t c' t' new) (hc : c'.cancelled w = false)
    (hno : i = w → ∀ g, t = .dog g → g.stage ≠ .expiring) : Agent.Runs (a.apply i c' t' (new.map .dog)) w := by
  obtain ⟨hcan, g, hg, hs⟩ := hr
  refine ⟨by simpa using hc, ?_⟩
  by_cases hi : i = w
  · subst hi
    obtain rfl : t = .dog g := Option.some.inj (ht.symm.trans hg)
    rw [Pool.apply_self (Nat.ne_of_lt hb)]
    have hno := hno rfl g rfl
    cases hm with
    | dogEnds _ hend => rw [hend] at hcan; cases hcan
    | dogClaims hs hc => exact absurd hs hno
    | dogRefused hs hc => exact absurd hs hno
    | _ => exact ⟨_, rfl, by rintro ⟨⟩⟩
  · exact ⟨g, by rw [Pool.apply_of_ne (Ne.symm hi) (Nat.ne_of_lt hb)]; exact hg, hs⟩

/-- In every state: an armed watchdog that is not in the slot yet runs and is put there by one task only, and a frozen
agent has a running watchdog in the slot or a task in the hook `on_frozen`. -/
structure Agent.Watched (a : Agent) : Prop where
  slot : ∀ w, a.ctx.watchdog = some w → w < a.next
  installs : ∀ i t w, a.tasks i = some t → t.installing = some w → a.Runs w ∧ a.ctx.watchdog ≠ some w
  apart : ∀ i j t u w, a.tasks i = some t → a.tasks j = some u → t.installing = some w → u.installing = some w → i = j
  frozen : a.ctx.state = .frozen →
    (∃ i t, a.tasks i = some t ∧ t.arming = true) ∨ ∃ w, a.ctx.watchdog = some w ∧ a.Runs w

namespace Agent

private theorem Runs.bound (hr : a.Runs w) (h : a.Holds Tokens.Glob Tokens.Loc) : w < a.next := by
  obtain ⟨-, g, hg, -⟩ := hr
  exact h.bound hg

/-- A cancellation hits the watchdog in the slot only. -/
private theorem cancelled_take (h : c.watchdog ≠ some w) : c.onThawClaimed.cancelled w = c.cancelled w :=
  c.cancelPrevious_cancelled w h

private theorem cancelled_install {w' : TaskId} (h : c.watchdog ≠ some w) :
    (c.install w').cancelled w = c.cancelled w := c.cancelPrevious_cancelled w h

/-- What the step of `i` does to the slot and to the watchdogs that other tasks have armed. -/
private theorem Watched.others (h : a.Watched) (htk : a.Holds Tokens.Glob Tokens.Loc) (ht : a.tasks i = some t)
    (hm : Task.Move cfg a.ctx i a.next t c' t' new) {j : TaskId} {u : Task} (hj : j ≠ i) (hu : a.tasks j = some u)
    (hw : u.installing = some w) : c'.cancelled w = false ∧ c'.watchdog ≠ some w := by
  obtain ⟨hr, hslot⟩ := h.installs j u w hu hw
  cases hm.watches (htk.loc ht).wf with
  | none _ hw' hc => exact ⟨by rw [hc]; exact hr.1, by rw [hw']; exact hslot⟩
  | publish _ hw' hc => exact ⟨by rw [hc]; exact hr.1, by rw [hw']; exact hslot⟩
  | take _ _ hc => subst hc; exact ⟨by rw [cancelled_take hslot]; exact hr.1, by rintro ⟨⟩⟩
  | arm _ hc =>
    subst hc
    refine ⟨?_, hslot⟩
    simp only [Ctx.arm]
    rw [Function.update_of_ne (Nat.ne_of_lt (hr.bound htk))]
    exact hr.1
  | @install w' _ hc _ _ hi _ =>
    subst hc
    refine ⟨by rw [cancelled_install hslot]; exact hr.1, fun he => ?_⟩
    obtain rfl : w' = w := Option.some.inj he
    exact hj (h.apart j i u t _ hu ht hw hi)

/-- The watchdog that a task has armed and not yet put into the slot, after a step of the task itself: as before the
step, or the one that the step arms. -/
private theorem Watched.own (h : a.Watched) (htk : a.Holds Tokens.Glob Tokens.Loc) (ht : a.tasks i = some t)
    (hm : Task.Move cfg a.ctx i a.next t c' t' new) (hw : t'.installing = some w) :
    (t.installing = some w ∧ c'.cancelled w = false ∧ c'.watchdog ≠ some w) ∨
      (w = a.next ∧ c' = a.ctx.arm a.next ∧ new = some (.arm cfg a.ctx.now)) := by
  cases hm.watches (htk.loc ht).wf with
  | none _ hw' hc _ hi =>
    rw [hi] at hw
    obtain ⟨hr, hslot⟩ := h.installs i t w ht hw
    exact .inl ⟨hw, by rw [hc]; exact hr.1, by rw [hw']; exact hslot⟩
  | arm hn hc _ _ _ hi' => exact .inr ⟨Option.some.inj (hw.symm.trans hi'), hc, hn⟩
  | publish _ _ _ _ _ _ hi' => rw [hi'] at hw; cases hw
  | take _ _ _ _ _ _ hi' => rw [hi'] at hw; cases hw
  | install _ _ _ _ _ hi' => rw [hi'] at hw; cases hw

private theorem Watched.apply (h : a.Watched) (htk : a.Holds Tokens.Glob Tokens.Loc) (ht : a.tasks i = some t)
    (hm : Task.Move cfg a.ctx i a.next t c' t' new)
    (hok : ∀ g, t = .dog g → g.stage = .expiring → ∀ j u, a.tasks j = some u → u.installing ≠ some i) :
    Watched (a.apply i c' t' (new.map .dog)) := by
  have hi : i < a.next := htk.bound ht
  -- an armed watchdog that is not in the slot yet does not take the step of its claim
  have hruns : ∀ j u w, a.tasks j = some u → u.installing = some w → c'.cancelled w = false →
      Agent.Runs (a.apply i c' t' (new.map .dog)) w := by
    intro j u w hu hw hc
    have hr := (h.installs j u w hu hw).1
    refine hr.apply (hr.bound htk) ht hm hc ?_
    rintro rfl g rfl hs
    exact hok g rfl hs j u hu hw
  have hnone : ∀ {u : Task}, new.map Task.dog = some u → u.installing = none := by
    intro u hu
    obtain ⟨g, -, rfl⟩ := Option.map_eq_some_iff.1 hu
    rfl
  constructor
  case slot =>
    intro w hw
    rw [Pool.apply_ctx] at hw
    refine Nat.lt_of_lt_of_le ?_ (a.le_apply_next i c' t' _)
    cases hm.watches (htk.loc ht).wf with
    | none _ hw' => exact h.slot w (hw' ▸ hw)
    | publish _ hw' => exact h.slot w (hw' ▸ hw)
    | take _ _ hc => rw [hc] at hw; cases hw
    | arm _ hc => rw [hc] at hw; exact h.slot w hw
    | install _ hc _ _ hi =>
      rw [hc] at hw
      cases hw
      exact (h.installs _ _ _ ht hi).1.bound htk
  case installs =>
    intro j u w hu hw
    rw [Pool.apply_ctx]
    rcases Pool.apply_tasks hu with ⟨-, hn⟩ | ⟨rfl, rfl⟩ | ⟨hj, hu⟩
    · rw [hnone hn] at hw
      cases hw
    · rcases h.own htk ht hm hw with ⟨hw, hc, hslot⟩ | ⟨rfl, rfl, rfl⟩
      · exact ⟨hruns _ _ _ ht hw hc, hslot⟩
      · refine ⟨⟨by simp [Ctx.arm], _, Pool.apply_spawned, by rintro ⟨⟩⟩, fun hw => ?_⟩
        exact Nat.lt_irrefl _ (h.slot _ hw)
    · obtain ⟨hc, hslot⟩ := h.others htk ht hm hj hu hw
      exact ⟨hruns _ _ _ hu hw hc, hslot⟩
  case apart =>
    -- a task that was there before has not armed the watchdog that this step arms
    have hold : ∀ {j : TaskId} {u : Task} {w : TaskId}, a.tasks j = some u → u.installing = some w → w ≠ a.next :=
      fun hu hw => Nat.ne_of_lt ((h.installs _ _ _ hu hw).1.bound htk)
    intro j k u v w hu hv hw hw'
    rcases Pool.apply_tasks hu with ⟨-, hn⟩ | ⟨rfl, rfl⟩ | ⟨hj, hu'⟩
    · rw [hnone hn] at hw
      cases hw
    · rcases Pool.apply_tasks hv with ⟨-, hn⟩ | ⟨rfl, rfl⟩ | ⟨hk, hv⟩
      · rw [hnone hn] at hw'
        cases hw'
      · rfl
      · rcases h.own htk ht hm hw with ⟨hw, -⟩ | ⟨rfl, -⟩
        · exact h.apart _ _ _ _ _ ht hv hw hw'
        · exact absurd rfl (hold hv hw')
    · rcases Pool.apply_tasks hv with ⟨-, hn⟩ | ⟨rfl, rfl⟩ | ⟨hk, hv⟩
      · rw [hnone hn] at hw'
        cases hw'
      · rcases h.own htk ht hm hw' with ⟨hw', -⟩ | ⟨rfl, -⟩
        · exact h.apart _ _ _ _ _ hu' ht hw hw'
        · exact absurd rfl (hold hu' hw)
      · exact h.apart _ _ _ _ _ hu' hv hw hw'
  case frozen =>
    rw [Pool.apply_ctx]
    intro hs
    have hself : t'.arming = true → ∃ j u, (a.apply i c' t' (new.map .dog)).tasks j = some u ∧ u.arming = true :=
      fun ha => ⟨i, t', Pool.apply_self (Nat.ne_of_lt hi), ha⟩
    cases hm.watches (htk.loc ht).wf with
    | none hn hw hc ha _ hs' =>
      rcases h.frozen (hs' hs) with ⟨j, u, hu, hau⟩ | ⟨w, hslot, hr⟩
      · by_cases hj : j = i
        · subst hj
          obtain rfl : t = u := Option.some.inj (ht.symm.trans hu)
          exact .inl (hself (ha.trans hau))
        · exact .inl ⟨j, u, by rw [Pool.apply_of_ne hj (Nat.ne_of_lt (htk.bound hu))]; exact hu, hau⟩
      · refine .inr ⟨w, hw.trans hslot, hr.apply (hr.bound htk) ht hm (by rw [hc]; exact hr.1) ?_⟩
        -- the claim of the watchdog in the slot, in `Frozen`, is won and leaves that state
        rintro rfl g rfl hstage
        cases hm with
        | dogClaims => cases hs
        | dogRefused _ hne => exact hne hs
        | dogPolls h' => rw [h'] at hstage; cases hstage
        | dogEnds h' => rw [h'] at hstage; cases hstage
        | dogFires h' => rw [h'] at hstage; cases hstage
        | dogRefreshes h' => rw [h'] at hstage; cases hstage
        | dogPends h' => rw [h'] at hstage; cases hstage
    | publish _ _ _ _ ha' => exact .inl (hself ha')
    | take _ htok hc =>
      have hst := (htk.loc ht).thawing htok
      rw [hc, Ctx.onThawClaimed_guarded, hst] at hs
      cases hs
    | arm _ _ _ ha' => exact .inl (hself ha')
    | @install w _ hc _ _ hi' _ =>
      obtain ⟨hr, hslot⟩ := h.installs i t w ht hi'
      refine .inr ⟨w, by rw [hc]; rfl, hruns i t w ht hi' ?_⟩
      rw [hc, cancelled_install hslot]
      exact hr.1

/-! ### Every run -/

private theorem Watched.spawn (h : a.Watched) (htk : a.Holds Tokens.Glob Tokens.Loc) {u : Task}
    (hu : u.installing = none) (hw : c.watchdog = a.ctx.watchdog) (hc : c.cancelled = a.ctx.cancelled)
    (hs : c.state = .frozen → a.ctx.state = .frozen) : Watched (a.spawn c u) := by
  have hne : ∀ {j v}, a.tasks j = some v → j ≠ a.next := fun hv => Nat.ne_of_lt (htk.bound hv)
  have hruns : ∀ {w}, a.Runs w → Agent.Runs (a.spawn c u) w := fun hr => by
    obtain ⟨hcan, g, hg, hstage⟩ := hr
    exact ⟨by rw [Pool.spawn_ctx, hc]; exact hcan, g, by rw [Pool.spawn_of_ne (hne hg)]; exact hg, hstage⟩
  have hold : ∀ {j v w}, (a.spawn c u).tasks j = some v → v.installing = some w → a.tasks j = some v := by
    intro j v w hv hi
    rcases Pool.spawn_tasks hv with ⟨-, rfl⟩ | ⟨-, hv⟩
    · rw [hu] at hi
      cases hi
    · exact hv
  constructor
  case slot =>
    intro w hslot
    rw [Pool.spawn_ctx, hw] at hslot
    exact Nat.lt_succ_of_lt (h.slot w hslot)
  case installs =>
    intro j v w hv hi
    obtain ⟨hr, hslot⟩ := h.installs j v w (hold hv hi) hi
    exact ⟨hruns hr, by rw [Pool.spawn_ctx, hw]; exact hslot⟩
  case apart =>
    intro j k v v' w hv hv' hi hi'
    exact h.apart j k v v' w (hold hv hi) (hold hv' hi') hi hi'
  case frozen =>
    intro hst
    rcases h.frozen (hs hst) with ⟨j, v, hv, ha⟩ | ⟨w, hslot, hr⟩
    · exact .inl ⟨j, v, by rw [Pool.spawn_of_ne (hne hv)]; exact hv, ha⟩
    · exact .inr ⟨w, by rw [Pool.spawn_ctx, hw]; exact hslot, hruns hr⟩

private theorem Watched.boot (c : Ctx) (n : TaskId) : Watched (Agent.boot c n) := by
  have htasks : ∀ {j v w}, (Agent.boot c n).tasks j = some v → v.installing ≠ some w := by
    intro j v w hv hi
    by_cases hj : j = n
    · subst hj
      simp only [Agent.boot, Function.update_self] at hv
      split at hv <;> cases hv
      cases hi
    · simp [Agent.boot, Function.update_of_ne hj] at hv
  refine ⟨(fun w h => by cases h), fun j v w hv hi => absurd hi (htasks hv),
    fun j k v v' w hv _ hi _ => absurd hi (htasks hv), fun hs => ?_⟩
  have hm : c.marker = true := by
    by_contra hm
    simp [Agent.boot, Agent.bootCtx, hm] at hs
  exact .inl ⟨n, .startup .ring, by simp [Agent.boot, hm], rfl⟩

theorem Watched.reach (h : Machine.Reach (Agent.step cfg) InstalledFirst Agent.Initial a) : a.Watched := by
  refine h.invariant (fun a h => ?_) (fun a act a' hr ih hs hok => ?_)
  · obtain ⟨c, n, rfl⟩ := h.booted
    exact Watched.boot c n
  · have htk := Tokens.reach hr
    cases Agent.step_move hs with
    | @task i ch t t' c' new ht hm =>
      refine ih.apply htk ht hm fun g hg hstage j u hu => ?_
      subst hg
      exact hok i ch g rfl ht hstage j u hu
    | freeze restrict => exact ih.spawn htk rfl rfl rfl (by rintro ⟨⟩)
    | refused => exact ih
    | thaw => exact ih.spawn htk rfl rfl rfl id
    | status => exact ih.spawn htk rfl rfl rfl id
    | env he => cases he <;> exact ⟨ih.slot, ih.installs, ih.apart, ih.frozen⟩
    | crash => exact Watched.boot _ _

end Agent

/-- In every run in which no watchdog expires before its handle is in the slot: a frozen agent of which no task is in the
hook `on_frozen` has a watchdog in the slot that was not cancelled and whose timer loop has not ended. -/
theorem frozen_agent_has_watchdog (h : Machine.Reach (Agent.step cfg) InstalledFirst Agent.Initial a)
    (hs : a.ctx.state = .frozen) (hno : ∀ i t, a.tasks i = some t → t.arming = false) :
    ∃ w g, a.ctx.watchdog = some w ∧ a.ctx.cancelled w = false ∧ a.tasks w = some (.dog g) ∧ g.stage ≠ .ended := by
  rcases (Agent.Watched.reach h).frozen hs with ⟨i, t, ht, ha⟩ | ⟨w, hslot, hcan, g, hg, hstage⟩
  · rw [hno i t ht] at ha
    cases ha
  · exact ⟨w, g, hslot, hcan, hg, hstage⟩

/-- The step is not the claim of a watchdog. -/
private def unexpired (a : Agent) (act : Action) (_ : Agent) : Bool :=
  match act with
  | .task w _ =>
    match a.tasks w with
    | some (.dog g) => decide (g.stage ≠ .expiring)
    | _ => true
  | _ => true

private theorem installedFirst_of_unexpired (a : Agent) (act : Action) (a' : Agent) (h : unexpired a act a' = true) :
    InstalledFirst a act a' := by
  rintro w ch g rfl hg hstage
  simp [unexpired, hg, hstage] at h

/-- The agent is frozen and no task is in the hook `on_frozen`. -/
private def settledFrozen (a : Agent) : Bool :=
  decide (a.ctx.state = .frozen) && (List.range a.next).all fun i => (a.tasks i).all fun t => !t.arming

private theorem unarmed_of_settledFrozen {ok : Agent → Action → Agent → Prop}
    (hr : Machine.Reach (Agent.step cfg) ok Agent.Initial a) (h : settledFrozen a = true) :
    a.ctx.state = .frozen ∧ ∀ i t, a.tasks i = some t → t.arming = false := by
  simp only [settledFrozen, Bool.and_eq_true, decide_eq_true_eq, List.all_eq_true, List.mem_range] at h
  refine ⟨h.1, fun i t ht => ?_⟩
  have := h.2 i ((Tokens.reach hr).bound ht)
  simpa [ht] using this

theorem frozen_agent_has_watchdog_after_freeze :
    ∃ a, Machine.Reach (Agent.step ⟨60, 30, 300⟩) InstalledFirst Agent.Initial a ∧ a.ctx.state = .frozen ∧
      ∃ w g, a.ctx.watchdog = some w ∧ a.ctx.cancelled w = false ∧ a.tasks w = some (.dog g) ∧ g.stage ≠ .ended := by
  obtain ⟨a, hr, hp⟩ : ∃ a, Machine.Reach (Agent.step ⟨60, 30, 300⟩) InstalledFirst Agent.Initial a ∧
      settledFrozen a = true :=
    Machine.Reach.of_execute unexpired installedFirst_of_unexpired Script.freezeOne settledFrozen
      (Agent.cold_initial false) (by decide) (by decide)
  obtain ⟨hs, hno⟩ := unarmed_of_settledFrozen hr hp
  exact ⟨a, hr, hs, frozen_agent_has_watchdog hr hs hno⟩

/-- After a crash in a freeze, the recovery start-up is interrupted between the two steps of its hook `on_frozen` for longer
than the watchdog's timeouts.  The watchdog expires, its drain fails back to `Frozen` and arms another one, and the
interrupted hook then puts the handle of the dead watchdog into the slot and cancels the live one. -/
private def lateInstall : List Action :=
  Script.freezeOne ++ [.crash, .task 3 .go, .task 3 .go] ++
    [.tick 400, Script.dog 4 .poll, Script.dog 4 .fire, Script.dog 4 .claim] ++ Script.proceed 4 3 ++
    [Script.thaw 4 (.job (.table (.ok [Script.row (8, 1) [slash]]))), Script.thaw 4 (.job (.opened (.found (8, 1)))),
      Script.thaw 4 (.job (.fithaw (.error (.errno .EPERM))))] ++ Script.proceed 4 6 ++ [.task 3 .go]

/-- The slot holds the handle of a task that is no running watchdog. -/
private def deadSlot (a : Agent) : Bool :=
  settledFrozen a && decide (a.ctx.watchdog = some 4) &&
    match a.tasks 4 with
    | some (.dog _) => false
    | _ => true

theorem frozen_agent_without_watchdog :
    ¬ ∀ (cfg : Config) (a : Agent), Machine.Reach (Agent.step cfg) (fun _ _ _ => True) Agent.Initial a →
      a.ctx.state = .frozen → (∀ i t, a.tasks i = some t → t.arming = false) →
      ∃ w g, a.ctx.watchdog = some w ∧ a.ctx.cancelled w = false ∧ a.tasks w = some (.dog g) ∧ g.stage ≠ .ended := by
  intro hall
  obtain ⟨a, hr, hp⟩ : ∃ a, Machine.Reach (Agent.step ⟨60, 30, 300⟩) (fun _ _ _ => True) Agent.Initial a ∧
      deadSlot a = true :=
    Machine.Reach.of_execute (fun _ _ _ => true) (fun _ _ _ _ => trivial) lateInstall deadSlot
      (Agent.cold_initial false) (by decide) (by decide)
  simp only [deadSlot, Bool.and_eq_true, decide_eq_true_eq] at hp
  obtain ⟨⟨hsettled, hslot⟩, htask⟩ := hp
  obtain ⟨hs, hno⟩ := unarmed_of_settledFrozen hr hsettled
  obtain ⟨w, g, hw, -, hg, -⟩ := hall _ a hr hs hno
  obtain rfl : w = 4 := Option.some.inj (hw.symm.trans hslot)
  rw [hg] at htask
  cases htask

end Qeminga
