import Qeminga.Invariant.Watchdogs
import Qeminga.Contract.TokenDiscipline

/-!
# A watchdog belongs to one freeze

The claim of an expired watchdog looks at the state only, not at which entry into `Frozen` it is.  An observer counts the
entries, and remembers for which of them a task runs the hook `on_frozen` and a watchdog was armed.  A watchdog that was
cancelled after its last poll, or armed by a hook that was overtaken by a thaw, claims a later entry; in every run without
these two a watchdog only claims the entry that it was armed for, and not before its timeout.
-/

namespace Qeminga

/-- What an observer knows of the entries into `Frozen`: how many there were, when the last one was, and the entry that
each task made or each watchdog was armed for. -/
structure Entries where
  current : Nat
  since : Nat
  of : TaskId → Nat

namespace Entries

/-- The task `i` enters `Frozen`. -/
def enter (e : Entries) (now : Nat) (i : TaskId) : Entries :=
  ⟨e.current + 1, now, Function.update e.of i (e.current + 1)⟩

/-- The task `i` arms the watchdog `w`, for the entry that it made itself. -/
def arm (e : Entries) (i w : TaskId) : Entries := { e with of := Function.update e.of w (e.of i) }

/-- The only new tasks of a task's step are watchdogs; a start in recovery mode enters `Frozen` by its start-up task. -/
def observe (e : Entries) (a : Agent) (act : Action) (a' : Agent) : Entries :=
  match act with
  | .task i _ =>
    let e := if a.ctx.state ≠ .frozen ∧ a'.ctx.state = .frozen then e.enter a'.ctx.now i else e
    if a.next < a'.next then e.arm i a.next else e
  | .crash => if a'.ctx.state = .frozen then e.enter a'.ctx.now a.next else e
  | _ => e

/-- The observer begins with the start of the agent. -/
def initial (a : Agent) : Entries := ⟨0, a.ctx.now, fun _ => 0⟩

end Entries

/-- No cancelled watchdog claims the frozen state, and nobody claims it while a task is in the hook `on_frozen`. -/
structure Prompt (a : Agent) (act : Action) (a' : Agent) : Prop where
  cancelled : ∀ w ch g, act = .task w ch → a.tasks w = some (.dog g) → g.stage = .expiring → a.ctx.state = .frozen →
    a.ctx.cancelled w = false
  hooked : a.ctx.state = .frozen → a'.ctx.state = .thawing → ∀ i t, a.tasks i = some t → t.arming = false

variable {cfg : Config} {c c' : Ctx} {i w fresh : TaskId} {t t' : Task} {new : Option Dog} {a a' : Agent} {e : Entries}

/-- The thaw has claimed and is about to cancel the watchdog. -/
def Task.cancelling : Task → Bool
  | .thaw _ (.claimed _) => true
  | _ => false

/-- The deadlines of a watchdog that was armed for the current entry. -/
structure Dog.Timed (cfg : Config) (since now : Nat) (g : Dog) : Prop where
  hard : since + cfg.max ≤ g.hardDeadline
  idle : since + cfg.idle ≤ g.idleDeadline
  expiring : g.stage = .expiring → g.hardDeadline ≤ now ∨ g.idleDeadline ≤ now

/-- What the observer knows of the agent: tasks in the hook `on_frozen` and watchdogs that were not cancelled are of the
current entry, and this entry has not ended, or has just been claimed. -/
structure Cycle (cfg : Config) (a : Agent) (e : Entries) : Prop where
  since : e.since ≤ a.ctx.now
  arming : ∀ i t, a.tasks i = some t → t.arming = true → e.of i = e.current ∧ a.ctx.state = .frozen
  live : ∀ w g, a.tasks w = some (.dog g) → g.stage ≠ .ended → a.ctx.cancelled w = false →
    e.of w = e.current ∧ g.Timed cfg e.since a.ctx.now ∧
      (a.ctx.watchdog = some w ∨ ∃ i t, a.tasks i = some t ∧ t.installing = some w) ∧
      (a.ctx.state = .frozen ∨ ∃ i t, a.tasks i = some t ∧ t.cancelling = true)
  watchdogs : ∀ i pc, a.tasks i = some (.thaw true pc) → Task.unclaimed (.thaw true pc) = false

/-! ### One step of a task -/

theorem Task.arming_of_installing (h : t.installing = some w) : t.arming = true := by
  cases t with
  | driver d =>
    rw [Task.installing_driver] at h
    rw [Task.arming_driver]
    cases hpc : d.pc with
    | conclude stage terminal reply =>
      rw [hpc] at h
      cases stage <;> first | rfl | cases h
    | _ => rw [hpc] at h; cases h
  | thaw b pc => cases pc <;> first | rfl | cases h
  | startup pc => cases pc <;> first | rfl | cases h
  | _ => cases h

/-- A thaw that has claimed cancels the watchdog with its next step. -/
private theorem Task.Move.of_cancelling (hm : Task.Move cfg c i fresh t c' t' new) (h : t.cancelling = true) :
    c' = c.onThawClaimed := by
  cases hm with
  | @thaw w pc pc' c' new hm =>
    cases hm
    case win hpc =>
      cases pc <;> cases h
      cases hpc
    all_goals first | rfl | cases h
  | _ => cases h

private theorem Task.thawToken_of_cancelling (h : t.cancelling = true) : t.thawToken.isSome = true := by
  cases t with
  | thaw b pc => cases pc <;> first | rfl | cases h
  | _ => cases h

private theorem Task.Move.not_cancelling (hm : Task.Move cfg c i fresh t c' t' new) (hl : Tokens.Loc c i t)
    (hs : c'.state = .frozen) : t.cancelling = false := by
  rw [Bool.eq_false_iff]
  intro h
  rw [hm.of_cancelling h, Ctx.onThawClaimed_guarded, hl.thawing (Task.thawToken_of_cancelling h)] at hs
  cases hs

/-- The step of a task that leaves the frozen state is a claim, by a request or by a watchdog. -/
private theorem Task.Move.leaves (hm : Task.Move cfg c i fresh t c' t' new) (hl : Tokens.Loc c i t)
    (hs : c.state = .frozen) (hs' : c'.state ≠ .frozen) :
    c'.state = .thawing ∧ t'.cancelling = true ∧
      ((∃ b pc, t = .thaw b pc ∧ t.unclaimed = true) ∨ ∃ g, t = .dog g ∧ g.stage = .expiring) := by
  have hno : t.holdsToken = false := by
    rw [Bool.eq_false_iff, Task.holdsToken]
    intro h
    rcases Bool.or_eq_true _ _ ▸ h with h | h
    · rw [hl.freezing h] at hs; cases hs
    · rw [hl.thawing h] at hs; cases hs
  have hsame : c'.state ≠ c.state := fun h => hs' (h.trans hs)
  cases hm with
  | @driver d d' c' new h =>
    have hp : d.pc.published = true := by
      have := Driver.WF.token_iff hl.wf
      rw [show (d.token.isSome || d.thawToken.isSome) = false from hno] at this
      simpa using this.symm
    exact absurd (by rw [h.guarded_of_published hl.wf hp]) hsame
  | @thaw b pc pc' c' new h =>
    cases h
    case win hs hpc =>
      refine ⟨rfl, rfl, .inl ⟨b, pc, rfl, ?_⟩⟩
      clear hs hsame hs' hno hl
      cases pc <;> first | rfl | cases hpc
    case call hc => exact absurd hc.calls.state hsame
    case publish => cases hno
    case fail => cases hno
    all_goals exact absurd (by simp) hsame
  | dogClaims h _ => exact ⟨rfl, rfl, .inr ⟨_, rfl, h⟩⟩
  | startInstall => exact absurd (by simp) hsame
  | _ => exact absurd rfl hsame

/-- A watchdog that goes on had not ended. -/
private theorem Task.Move.dog_lives {g g' : Dog} (hm : Task.Move cfg c i fresh (.dog g) c' (.dog g') new)
    (he : g'.stage ≠ .ended) : g.stage ≠ .ended := by
  cases hm with
  | dogPolls hs => rw [hs]; rintro ⟨⟩
  | dogFires hs hd => rw [hs]; rintro ⟨⟩
  | dogRefreshes hs => rw [hs]; rintro ⟨⟩
  | dogPends hs => rw [hs]; rintro ⟨⟩
  | dogEnds => exact absurd rfl he
  | dogRefused => exact absurd rfl he

private theorem Dog.Timed.move {g g' : Dog} {since : Nat} (h : g.Timed cfg since c.now) (hsince : since ≤ c.now)
    (hm : Task.Move cfg c i fresh (.dog g) c' (.dog g') new) (he : g'.stage ≠ .ended) : g'.Timed cfg since c'.now := by
  cases hm with
  | dogPolls => exact ⟨h.hard, h.idle, by rintro ⟨⟩⟩
  | dogFires _ hd => exact ⟨h.hard, h.idle, fun _ => hd⟩
  | dogRefreshes => exact ⟨h.hard, Nat.add_le_add_right hsince _, by rintro ⟨⟩⟩
  | dogPends => exact ⟨h.hard, h.idle, by rintro ⟨⟩⟩
  | dogEnds => exact absurd rfl he
  | dogRefused => exact absurd rfl he

/-- Only a watchdog becomes a watchdog. -/
private theorem Task.Move.of_dog {g' : Dog} (hm : Task.Move cfg c i fresh t c' (.dog g') new) : ∃ g, t = .dog g := by
  cases hm <;> exact ⟨_, rfl⟩

/-- A cancellation is not taken back. -/
private theorem Task.Watches.uncancelled (hw : Task.Watches cfg c fresh t c' t' new) (hne : w ≠ fresh)
    (h : c'.cancelled w = false) : c.cancelled w = false := by
  have hprev : c.cancelPrevious.cancelled w = false → c.cancelled w = false := by
    intro h
    by_cases hslot : c.watchdog = some w
    · simp [Ctx.cancelPrevious, hslot] at h
    · rwa [c.cancelPrevious_cancelled w hslot] at h
  cases hw with
  | none _ _ hc => rwa [hc] at h
  | publish _ _ hc => rwa [hc] at h
  | take _ _ hc => rw [hc] at h; exact hprev h
  | arm _ hc =>
    rw [hc] at h
    simpa [Ctx.arm, hne] using h
  | install _ hc => rw [hc] at h; exact hprev h

/-- What the observer does at a step of the task `i`, by what the step does to the watchdogs. -/
private theorem Entries.observe_task {ch : Task.Choice} (e : Entries) (hw : Task.Watches cfg a.ctx a.next t c' t' new)
    (hl : Tokens.Loc a.ctx i t) :
    e.observe a (.task i ch) (a.apply i c' t' (new.map .dog)) =
      if t.arming = false ∧ t'.arming = true then e.enter c'.now i
      else if new.isSome then e.arm i a.next else e := by
  have hold : ∀ t : Task, t.holdsToken = true → Tokens.Loc a.ctx i t → a.ctx.state ≠ .frozen := by
    intro t ht hl hs
    rcases Bool.or_eq_true _ _ ▸ ht with h | h
    · rw [hl.freezing h] at hs; cases hs
    · rw [hl.thawing h] at hs; cases hs
  cases hw with
  | none hn _ _ ha _ hs =>
    subst hn
    have : ¬ (a.ctx.state ≠ .frozen ∧ c'.state = .frozen) := fun h => h.1 (hs h.2)
    simp [Entries.observe, Pool.apply, this, ha]
  | publish hn _ _ ha ha' _ _ ht hs =>
    subst hn
    simp [Entries.observe, Pool.apply, hold t ht hl, hs, ha, ha']
  | take hn htok hc ha ha' =>
    subst hn hc
    have hst : a.ctx.state = .thawing := hl.thawing htok
    simp [Entries.observe, Pool.apply, hst, ha, ha']
  | arm hn hc ha ha' =>
    subst hn hc
    simp [Entries.observe, Pool.apply, ha]
  | install hn hc ha ha' =>
    subst hn hc
    simp [Entries.observe, Pool.apply, ha, ha']

namespace Cycle

/-- Whoever publishes a state holds the token: the state before is not `Frozen`, and no other thaw has just claimed. -/
private theorem exclusive (htk : a.Holds Tokens.Glob Tokens.Loc) (ht : a.tasks i = some t) (hh : t.holdsToken = true)
    (hc : t.cancelling = false) : ¬ (a.ctx.state = .frozen ∨ ∃ j u, a.tasks j = some u ∧ u.cancelling = true) := by
  have ho := (htk.loc ht).owner.1 hh
  rintro (hs | ⟨j, u, hu, hcu⟩)
  · rw [htk.glob.free.2 (.inr hs)] at ho
    cases ho
  · have hj : u.holdsToken = true := by simp [Task.holdsToken, Task.thawToken_of_cancelling hcu]
    obtain rfl : j = i := Option.some.inj (((htk.loc hu).owner.1 hj).symm.trans ho)
    obtain rfl : u = t := Option.some.inj (hu.symm.trans ht)
    rw [hc] at hcu
    cases hcu

/-- A task in the hook `on_frozen`, after a step of the task `i`. -/
private theorem arming_apply {ch : Task.Choice} (h : Cycle cfg a e) (htk : a.Holds Tokens.Glob Tokens.Loc)
    (ht : a.tasks i = some t) (hm : Task.Move cfg a.ctx i a.next t c' t' new)
    (hok : Prompt a (.task i ch) (a.apply i c' t' (new.map .dog))) {j : TaskId} {u : Task}
    (hu : (a.apply i c' t' (new.map .dog)).tasks j = some u) (ha : u.arming = true) :
    (e.observe a (.task i ch) (a.apply i c' t' (new.map .dog))).of j =
        (e.observe a (.task i ch) (a.apply i c' t' (new.map .dog))).current ∧ c'.state = .frozen := by
  have hl := htk.loc ht
  have hwatch := hm.watches hl.wf
  rw [Entries.observe_task e hwatch hl]
  -- the state stays frozen as long as a task is in the hook
  have hstays : ∀ {k v}, a.tasks k = some v → v.arming = true → c'.state = .frozen := by
    intro k v hv hav
    by_contra hs'
    have hth := (hm.leaves hl (h.arming k v hv hav).2 hs').1
    have := hok.hooked (h.arming k v hv hav).2 (by simpa using hth) k v hv
    rw [hav] at this
    cases this
  have hnext : ∀ {k v}, a.tasks k = some v → k ≠ a.next := fun hv => Nat.ne_of_lt (htk.bound hv)
  rcases Pool.apply_tasks hu with ⟨-, hn⟩ | ⟨rfl, rfl⟩ | ⟨hj, hu⟩
  · obtain ⟨g, -, rfl⟩ := Option.map_eq_some_iff.1 hn
    cases ha
  · by_cases hta : t.arming = true
    · rw [if_neg (by simp [hta])]
      refine ⟨?_, hstays ht hta⟩
      split
      · simpa [Entries.arm, hnext ht] using (h.arming _ _ ht hta).1
      · exact (h.arming _ _ ht hta).1
    · rw [if_pos ⟨by simpa using hta, ha⟩]
      refine ⟨by simp [Entries.enter], ?_⟩
      cases hwatch with
      | publish _ _ _ _ _ _ _ _ hs => exact hs
      | none _ _ _ ha' => exact absurd (ha'.symm.trans ha) hta
      | take _ _ _ _ ha' => rw [ha] at ha'; cases ha'
      | arm _ _ ha' => exact absurd ha' hta
      | install _ _ ha' => exact absurd ha' hta
  · have hold := h.arming j u hu ha
    by_cases hpub : t.arming = false ∧ t'.arming = true
    · cases hwatch with
      | publish _ _ _ _ _ _ _ hh hs => exact absurd (.inl hold.2) (exclusive htk ht hh (hm.not_cancelling hl hs))
      | none _ _ _ ha' => rw [ha', hpub.1] at hpub; cases hpub.2
      | take _ _ _ _ ha' => rw [ha'] at hpub; cases hpub.2
      | arm _ _ ha' => rw [ha'] at hpub; cases hpub.1
      | install _ _ ha' => rw [ha'] at hpub; cases hpub.1
    · rw [if_neg hpub]
      refine ⟨?_, hstays hu ha⟩
      split
      · simpa [Entries.arm, hnext hu] using hold.1
      · exact hold.1

/-- A watchdog that was there before a step of the task `i` and was not cancelled by it. -/
private theorem live_apply (ch : Task.Choice) (h : Cycle cfg a e) (htk : a.Holds Tokens.Glob Tokens.Loc)
    (ht : a.tasks i = some t) (hm : Task.Move cfg a.ctx i a.next t c' t' new)
    {g : Dog} (hg : a.tasks w = some (.dog g)) (hstage : g.stage ≠ .ended) (hc' : c'.cancelled w = false) :
    ((e.observe a (.task i ch) (a.apply i c' t' (new.map .dog))).of w =
        (e.observe a (.task i ch) (a.apply i c' t' (new.map .dog))).current ∧
      (e.observe a (.task i ch) (a.apply i c' t' (new.map .dog))).since = e.since) ∧
      (c'.watchdog = some w ∨ ∃ j u, (a.apply i c' t' (new.map .dog)).tasks j = some u ∧ u.installing = some w) ∧
      (c'.state = .frozen ∨ ∃ j u, (a.apply i c' t' (new.map .dog)).tasks j = some u ∧ u.cancelling = true) := by
  have hl := htk.loc ht
  have hwatch := hm.watches hl.wf
  have hi := htk.bound ht
  have hne : w ≠ a.next := Nat.ne_of_lt (htk.bound hg)
  obtain ⟨hof, -, hslot, hphase⟩ := h.live w g hg hstage (hwatch.uncancelled hne hc')
  have hself : (a.apply i c' t' (new.map .dog)).tasks i = some t' := Pool.apply_self (Nat.ne_of_lt hi)
  have hother : ∀ {j u}, a.tasks j = some u → j ≠ i → (a.apply i c' t' (new.map .dog)).tasks j = some u := by
    intro j u hu hj
    rw [Pool.apply_of_ne hj (Nat.ne_of_lt (htk.bound hu))]
    exact hu
  -- the phase survives every step that does not take the handle out of the slot
  have hphase' : t.cancelling = false →
      c'.state = .frozen ∨ ∃ j u, (a.apply i c' t' (new.map .dog)).tasks j = some u ∧ u.cancelling = true := by
    intro hc
    rcases hphase with hs | ⟨j, u, hu, hcu⟩
    · by_cases hs' : c'.state = .frozen
      · exact .inl hs'
      · exact .inr ⟨i, t', hself, (hm.leaves hl hs hs').2.1⟩
    · refine .inr ⟨j, u, hother hu fun hj => ?_, hcu⟩
      subst hj
      rw [Option.some.inj (ht.symm.trans hu), hcu] at hc
      cases hc
  -- whoever takes the handle out of the slot cancels the only watchdog that there can be
  have htake : t.thawToken.isSome = true → c' ≠ a.ctx.onThawClaimed := by
    rintro htok rfl
    rcases hslot with hw | ⟨j, u, hu, hw⟩
    · simp [Ctx.onThawClaimed, Ctx.cancelPrevious, hw] at hc'
    · have hs := (h.arming j u hu (Task.arming_of_installing hw)).2
      rw [hl.thawing htok] at hs
      cases hs
  have hcan : t.cancelling = false := by
    rw [Bool.eq_false_iff]
    exact fun hc => htake (Task.thawToken_of_cancelling hc) (hm.of_cancelling hc)
  have hkept : (∀ w, t.installing = some w → t'.installing = some w ∨ c'.watchdog = some w) →
      (a.ctx.watchdog = some w → c'.watchdog = some w) →
      c'.watchdog = some w ∨ ∃ j u, (a.apply i c' t' (new.map .dog)).tasks j = some u ∧ u.installing = some w := by
    intro hown hw
    rcases hslot with hslot | ⟨j, u, hu, hiu⟩
    · exact .inl (hw hslot)
    · by_cases hj : j = i
      · subst hj
        rw [← Option.some.inj (ht.symm.trans hu)] at hiu
        exact (hown w hiu).elim (fun h => .inr ⟨j, t', hself, h⟩) .inl
      · exact .inr ⟨j, u, hother hu hj, hiu⟩
  rw [Entries.observe_task e hwatch hl]
  cases hwatch with
  | none hn hw _ ha hi =>
    subst hn
    rw [if_neg (by simp [ha])]
    exact ⟨⟨hof, rfl⟩, hkept (fun _ h => .inl (hi.trans h)) fun h => hw.trans h, hphase' hcan⟩
  | publish _ _ _ _ _ _ _ hh => exact absurd hphase (exclusive htk ht hh hcan)
  | take _ htok hc => exact absurd hc (htake htok)
  | arm hn hc ha ha' hi =>
    subst hn
    rw [if_neg (by simp [ha]), Option.isSome_some, if_pos rfl]
    refine ⟨⟨?_, rfl⟩, hkept (fun _ h => by rw [hi] at h; cases h) fun h => by rw [hc]; exact h, hphase' hcan⟩
    simpa [Entries.arm, hne] using hof
  | install hn hc ha ha' hi =>
    subst hn
    rw [if_neg (by simp [ha])]
    refine ⟨⟨hof, rfl⟩, hkept (fun w h => .inr ?_) fun h => ?_, hphase' hcan⟩
    · rw [hc, ← Option.some.inj (hi.symm.trans h)]
      rfl
    · rw [hc] at hc'
      simp [Ctx.install, Ctx.cancelPrevious, h] at hc'

/-- The watchdog that a step arms. -/
private theorem live_spawned (ch : Task.Choice) (h : Cycle cfg a e) (htk : a.Holds Tokens.Glob Tokens.Loc)
    (ht : a.tasks i = some t) (hm : Task.Move cfg a.ctx i a.next t c' t' new) {g : Dog} (hn : new = some g) :
    ((e.observe a (.task i ch) (a.apply i c' t' (new.map .dog))).of a.next =
        (e.observe a (.task i ch) (a.apply i c' t' (new.map .dog))).current ∧
      (e.observe a (.task i ch) (a.apply i c' t' (new.map .dog))).since = e.since) ∧
      t'.installing = some a.next ∧ c'.state = .frozen ∧ c'.now = a.ctx.now ∧ g = .arm cfg a.ctx.now := by
  have hwatch := hm.watches (htk.loc ht).wf
  rw [Entries.observe_task e hwatch (htk.loc ht)]
  cases hwatch with
  | arm hn' hc ha ha' _ hi' =>
    rw [if_neg (by simp [ha]), hn, Option.isSome_some, if_pos rfl]
    obtain ⟨hof, hs⟩ := h.arming i t ht ha
    refine ⟨⟨by simpa [Entries.arm] using hof, rfl⟩, hi', by rw [hc]; exact hs, by rw [hc]; rfl, ?_⟩
    exact Option.some.inj (hn.symm.trans hn')
  | none hn' => rw [hn'] at hn; cases hn
  | publish hn' => rw [hn'] at hn; cases hn
  | take hn' => rw [hn'] at hn; cases hn
  | install hn' => rw [hn'] at hn; cases hn

private theorem apply {ch : Task.Choice} (h : Cycle cfg a e) (htk : a.Holds Tokens.Glob Tokens.Loc)
    (ht : a.tasks i = some t) (hm : Task.Move cfg a.ctx i a.next t c' t' new)
    (hok : Prompt a (.task i ch) (a.apply i c' t' (new.map .dog))) :
    Cycle cfg (a.apply i c' t' (new.map .dog)) (e.observe a (.task i ch) (a.apply i c' t' (new.map .dog))) := by
  have hi := htk.bound ht
  have hl := htk.loc ht
  have hnow := hm.grows.now
  constructor
  case since =>
    rw [Pool.apply_ctx, Entries.observe_task e (hm.watches hl.wf) hl]
    split
    · exact Nat.le_refl _
    · split <;> exact hnow ▸ h.since
  case arming =>
    intro j u hu ha
    rw [Pool.apply_ctx]
    exact arming_apply h htk ht hm hok hu ha
  case live =>
    intro w g hg hstage hcan
    rw [Pool.apply_ctx] at hcan ⊢
    rcases Pool.apply_tasks hg with ⟨rfl, hn⟩ | ⟨rfl, rfl⟩ | ⟨hw, hg⟩
    · obtain ⟨g', hn, hg'⟩ := Option.map_eq_some_iff.1 hn
      cases hg'
      obtain ⟨⟨hof, hsince⟩, hinst, hs, hnow, rfl⟩ := live_spawned ch h htk ht hm hn
      refine ⟨hof, ?_, .inr ⟨i, t', Pool.apply_self (Nat.ne_of_lt hi), hinst⟩, .inl hs⟩
      rw [hsince, hnow]
      exact ⟨Nat.add_le_add_right h.since _, Nat.add_le_add_right h.since _, by rintro ⟨⟩⟩
    · -- the watchdog's own step
      obtain ⟨g₀, rfl⟩ := hm.of_dog
      have hstage₀ := hm.dog_lives hstage
      obtain ⟨⟨hof, hsince⟩, hslot, hphase⟩ := live_apply ch h htk ht hm ht hstage₀ hcan
      refine ⟨hof, ?_, hslot, hphase⟩
      rw [hsince]
      refine (h.live w g₀ ht hstage₀ ?_).2.1.move h.since hm hstage
      exact (hm.watches hl.wf).uncancelled (Nat.ne_of_lt hi) hcan
    · obtain ⟨⟨hof, hsince⟩, hslot, hphase⟩ := live_apply ch h htk ht hm hg hstage hcan
      refine ⟨hof, ?_, hslot, hphase⟩
      have hold := (h.live w g hg hstage ((hm.watches hl.wf).uncancelled (Nat.ne_of_lt (htk.bound hg)) hcan)).2.1
      rw [hsince, hnow]
      exact hold
  case watchdogs =>
    intro j pc hj
    rcases Pool.apply_tasks hj with ⟨-, hn⟩ | ⟨rfl, ht'⟩ | ⟨-, hj⟩
    · obtain ⟨g, -, hg⟩ := Option.map_eq_some_iff.1 hn
      cases hg
    · subst ht'
      cases hm with
      | dogClaims => rfl
      | thaw hm =>
        -- a thaw that has claimed once does not go back to where it claims
        cases (Task.Move.thaw hm).uses trivial with
        | none _ hu =>
          rw [Bool.eq_false_iff]
          exact fun hpc => absurd (hu hpc) (by rw [h.watchdogs _ _ ht]; rintro ⟨⟩)
        | claim _ _ _ hu' => exact hu'
        | give _ _ hu' => exact hu'
    · exact h.watchdogs j pc hj

/-! ### Every run -/

private theorem spawn (h : Cycle cfg a e) (htk : a.Holds Tokens.Glob Tokens.Loc) {u : Task} (hc : u.cancelling = false)
    (ha : u.arming = false) (hd : ∀ g, u ≠ .dog g) (hw : ∀ pc, u ≠ .thaw true pc) (hnow : c.now = a.ctx.now)
    (hcan : c.cancelled = a.ctx.cancelled) (hslot : c.watchdog = a.ctx.watchdog)
    (hs : c.state = a.ctx.state ∨ a.ctx.state = .thawed) : Cycle cfg (a.spawn c u) e := by
  have hsame : a.ctx.state = .frozen → c.state = .frozen := by
    intro hf
    rcases hs with hs | hs
    · exact hs.trans hf
    · rw [hs] at hf
      cases hf
  have hold : ∀ {j v}, (a.spawn c u).tasks j = some v → v ≠ u → a.tasks j = some v := by
    intro j v hv hne
    rcases Pool.spawn_tasks hv with ⟨-, rfl⟩ | ⟨-, hv⟩
    · exact absurd rfl hne
    · exact hv
  have hstay : ∀ {j v}, a.tasks j = some v → (a.spawn c u).tasks j = some v := by
    intro j v hv
    rw [Pool.spawn_of_ne (Nat.ne_of_lt (htk.bound hv))]
    exact hv
  have hmoved : ∀ {p : Task → Prop}, (∃ j v, a.tasks j = some v ∧ p v) → ∃ j v, (a.spawn c u).tasks j = some v ∧ p v := by
    rintro p ⟨j, v, hv, hp⟩
    exact ⟨j, v, hstay hv, hp⟩
  constructor
  case since =>
    rw [Pool.spawn_ctx, hnow]
    exact h.since
  case arming =>
    intro j v hv hav
    obtain ⟨hof, hf⟩ := h.arming j v (hold hv fun he => by rw [he, ha] at hav; cases hav) hav
    exact ⟨hof, hsame hf⟩
  case live =>
    intro w g hg hstage hc'
    rw [Pool.spawn_ctx, hcan] at hc'
    obtain ⟨hof, htimed, hslot', hphase⟩ := h.live w g (hold hg fun he => hd g he.symm) hstage hc'
    refine ⟨hof, by rw [Pool.spawn_ctx, hnow]; exact htimed, ?_, ?_⟩
    · rw [Pool.spawn_ctx, hslot]
      exact hslot'.imp id hmoved
    · exact hphase.imp hsame hmoved
  case watchdogs =>
    intro j pc hj
    exact h.watchdogs j pc (hold hj fun he => hw pc he.symm)

/-- A start of the agent: the only task is the start-up task of a recovery, whose entry into `Frozen` it is. -/
private theorem boot {n : TaskId} (hsince : e.since ≤ c.now)
    (hof : (Agent.bootCtx c).state = .frozen → e.of n = e.current) : Cycle cfg (Agent.boot c n) e := by
  have htasks : ∀ {j v}, (Agent.boot c n).tasks j = some v →
      j = n ∧ v = .startup .ring ∧ (Agent.bootCtx c).state = .frozen := by
    intro j v hv
    by_cases hj : j = n
    · subst hj
      simp only [Agent.boot, Function.update_self] at hv
      split at hv <;> cases hv
      rename_i hm
      exact ⟨rfl, rfl, by simp [Agent.bootCtx, hm]⟩
    · simp [Agent.boot, Function.update_of_ne hj] at hv
  refine ⟨hsince, fun j v hv _ => ?_, fun w g hg => ?_, fun j pc hj => ?_⟩
  · obtain ⟨rfl, -, hs⟩ := htasks hv
    exact ⟨hof hs, hs⟩
  · cases (htasks hg).2.1
  · cases (htasks hj).2.1

/-- The agent beside the observer of its entries into `Frozen`, in the runs that `Prompt` allows. -/
abbrev Observed (cfg : Config) (s : Agent × Entries) : Prop :=
  Machine.Reach (Machine.observed (Agent.step cfg) Entries.observe) (fun s act s' => Prompt s.1 act s'.1)
    (fun s => Agent.Initial s.1 ∧ s.2 = .initial s.1) s

theorem Observed.agent {s : Agent × Entries} (h : Observed cfg s) :
    Machine.Reach (Agent.step cfg) Prompt Agent.Initial s.1 := Machine.Reach.of_observed h

theorem reach {s : Agent × Entries} (h : Observed cfg s) : Cycle cfg s.1 s.2 := by
  refine h.invariant (I := fun s => Cycle cfg s.1 s.2) (fun s h => ?_) (fun s act s' hr ih hs hok => ?_)
  · obtain ⟨c, n, hb⟩ := h.1.booted
    rw [h.2, hb]
    exact boot (Nat.le_refl _) fun _ => rfl
  · obtain ⟨a, e⟩ := s
    obtain ⟨a', hs', rfl⟩ := Option.map_eq_some_iff.1 hs
    have htk : a.Holds Tokens.Glob Tokens.Loc := Tokens.reach (Observed.agent hr)
    cases Agent.step_move hs' with
    | @task i ch t t' c' new ht hm => exact ih.apply htk ht hm hok
    | freeze restrict hst => exact ih.spawn htk rfl rfl (fun _ h => by cases h) (fun _ h => by cases h) rfl rfl rfl (.inr hst)
    | refused => exact ih
    | thaw => exact ih.spawn htk rfl rfl (fun _ h => by cases h) (fun _ h => by cases h) rfl rfl rfl (.inl rfl)
    | status => exact ih.spawn htk rfl rfl (fun _ h => by cases h) (fun _ h => by cases h) rfl rfl rfl (.inl rfl)
    | @env _ c' he hact =>
      have he' : e.observe a act { a with ctx := c' } = e := by
        cases act with
        | task i ch => exact absurd rfl (hact.1 i ch)
        | crash => exact absurd rfl hact.2
        | _ => rfl
      show Cycle cfg _ (e.observe a act { a with ctx := c' })
      rw [he']
      cases he with
      | tick n =>
        have hle : a.ctx.now ≤ a.ctx.now + n := Nat.le_add_right _ _
        refine ⟨Nat.le_trans ih.since hle, ih.arming, fun w g hg hstage hcan => ?_, ih.watchdogs⟩
        obtain ⟨hof, htimed, hslot, hphase⟩ := ih.live w g hg hstage hcan
        refine ⟨hof, ⟨htimed.hard, htimed.idle, fun hx => ?_⟩, hslot, hphase⟩
        exact (htimed.expiring hx).imp (Nat.le_trans · hle) (Nat.le_trans · hle)
      | foreignFreeze d => exact ⟨ih.since, ih.arming, ih.live, ih.watchdogs⟩
      | foreignThaw d hd => exact ⟨ih.since, ih.arming, ih.live, ih.watchdogs⟩
    | crash =>
      show Cycle cfg (Agent.boot a.ctx a.next) (e.observe a .crash (Agent.boot a.ctx a.next))
      simp only [Entries.observe]
      split
      · exact boot (Nat.le_refl _) fun _ => by simp [Entries.enter]
      · rename_i hs
        exact boot ih.since fun h => absurd h hs

end Cycle

/-- In every run in which no cancelled watchdog claims the frozen state and nobody claims it while a task is in the hook
`on_frozen`: whoever claims the frozen state is a thaw that was requested, or a watchdog that was armed for this entry
into `Frozen`, of which `min(idle, max)` have elapsed. -/
theorem watchdog_claims_own_entry {s s' : Agent × Entries} (h : Cycle.Observed cfg s) {ch : Task.Choice}
    (hs : Machine.observed (Agent.step cfg) Entries.observe s (.task i ch) = some s')
    (hok : Prompt s.1 (.task i ch) s'.1) (hf : s.1.ctx.state = .frozen) (hth : s'.1.ctx.state = .thawing) :
    (∃ pc, s.1.tasks i = some (.thaw false pc)) ∨
      ∃ g, s.1.tasks i = some (.dog g) ∧ s.2.of i = s.2.current ∧ s.2.since + min cfg.idle cfg.max ≤ s.1.ctx.now := by
  obtain ⟨a, e⟩ := s
  obtain ⟨a', hs', rfl⟩ := Option.map_eq_some_iff.1 hs
  have hcyc := Cycle.reach h
  have htk : a.Holds Tokens.Glob Tokens.Loc := Tokens.reach h.agent
  cases Agent.step_move hs' with
  | env _ hact => exact absurd rfl (hact.1 i ch)
  | @task _ _ t t' c' new ht hm =>
    have hth : c'.state = .thawing := by simpa using hth
    rcases (hm.leaves (htk.loc ht) hf (by rw [hth]; rintro ⟨⟩)).2.2 with ⟨b, pc, rfl, hu⟩ | ⟨g, rfl, hstage⟩
    · cases b with
      | false => exact .inl ⟨pc, ht⟩
      | true => rw [hcyc.watchdogs i pc ht] at hu; cases hu
    · have hcan := hok.cancelled i ch g rfl ht hstage hf
      obtain ⟨hof, htimed, -, -⟩ := hcyc.live i g ht (by rw [hstage]; rintro ⟨⟩) hcan
      refine .inr ⟨g, ht, hof, ?_⟩
      rcases htimed.expiring hstage with hd | hd
      · exact Nat.le_trans (Nat.add_le_add_left (Nat.min_le_right ..) _) (Nat.le_trans htimed.hard hd)
      · exact Nat.le_trans (Nat.add_le_add_left (Nat.min_le_left ..) _) (Nat.le_trans htimed.idle hd)

/-- The step neither claims the frozen state nor is the claim of a watchdog. -/
private def claimless (s : Agent × Entries) (act : Action) (s' : Agent × Entries) : Bool :=
  !(decide (s.1.ctx.state = .frozen) && decide (s'.1.ctx.state = .thawing)) &&
    match act with
    | .task w _ =>
      match s.1.tasks w with
      | some (.dog g) => decide (g.stage ≠ .expiring)
      | _ => true
    | _ => true

private theorem prompt_of_claimless (s : Agent × Entries) (act : Action) (s' : Agent × Entries)
    (h : claimless s act s' = true) : Prompt s.1 act s'.1 := by
  constructor
  · rintro w ch g rfl hg hstage -
    simp [claimless, hg, hstage] at h
  · intro hf hth
    simp [claimless, hf, hth] at h

/-- The watchdog 2 has expired in the frozen state, and its claim wins. -/
private def expired (s : Agent × Entries) : Bool :=
  decide (s.1.ctx.state = .frozen) && !s.1.ctx.cancelled 2 &&
    ((List.range s.1.next).all fun i => (s.1.tasks i).all fun t => !t.arming) &&
    (Machine.observed (Agent.step ⟨60, 30, 300⟩) Entries.observe s (.task 2 (.dog .claim))).any fun s' =>
      decide (s'.1.ctx.state = .thawing)

/-- A freeze that is left alone for the idle timeout of 30 seconds: its own watchdog claims it. -/
theorem watchdog_claims_own_entry_on_timeout :
    ∃ s s', Cycle.Observed ⟨60, 30, 300⟩ s ∧
      Machine.observed (Agent.step ⟨60, 30, 300⟩) Entries.observe s (.task 2 (.dog .claim)) = some s' ∧
      s.1.ctx.state = .frozen ∧ s'.1.ctx.state = .thawing ∧ ((∃ pc, s.1.tasks 2 = some (.thaw false pc)) ∨
        ∃ g, s.1.tasks 2 = some (.dog g) ∧ s.2.of 2 = s.2.current ∧ s.2.since + min 30 300 ≤ s.1.ctx.now) := by
  obtain ⟨s, hr, hp⟩ : ∃ s, Cycle.Observed ⟨60, 30, 300⟩ s ∧ expired s = true :=
    Machine.Reach.of_execute claimless prompt_of_claimless
      (Script.freezeOne ++ [.tick 30, Script.dog 2 .poll, Script.dog 2 .fire]) expired
      (s := (Agent.cold false, .initial (Agent.cold false))) ⟨Agent.cold_initial false, rfl⟩ (by decide) (by decide)
  simp only [expired, Bool.and_eq_true, decide_eq_true_eq, Bool.not_eq_true'] at hp
  obtain ⟨⟨⟨hf, hcan⟩, hno⟩, hclaim⟩ := hp
  cases hs : Machine.observed (Agent.step ⟨60, 30, 300⟩) Entries.observe s (.task 2 (.dog .claim)) with
  | none => rw [hs] at hclaim; cases hclaim
  | some s' =>
    have hth : s'.1.ctx.state = .thawing := by simpa [hs] using hclaim
    refine ⟨s, s', hr, hs, hf, hth, watchdog_claims_own_entry hr hs ⟨?_, fun _ _ i t ht => ?_⟩ hf hth⟩
    · rintro w ch g hw - - -
      cases hw
      exact hcan
    · rw [List.all_eq_true] at hno
      have := hno i (List.mem_range.2 ((Tokens.reach hr.agent).bound ht))
      simpa [ht] using this

/-- The watchdog 2 of a first freeze has reached its deadline and is about to claim; a thaw and a second freeze come in
between. -/
private def overtaken : List Action :=
  Script.freezeOne ++ [.tick 30, Script.dog 2 .poll, Script.dog 2 .fire] ++ Script.thawOne ++ [.freeze none] ++
    Script.prepare 4 [Script.row (8, 1) [slash]] ++ Script.attempt 4 (8, 1) (.ok ()) ++ Script.drive 4 12

/-- The watchdog 2 was armed for another entry, and its claim wins. -/
private def overtakes (s : Agent × Entries) : Bool :=
  decide (s.1.ctx.state = .frozen) && decide (s.2.of 2 ≠ s.2.current) &&
    (match s.1.tasks 2 with | some (.dog _) => true | _ => false) &&
    (Machine.observed (Agent.step ⟨60, 30, 300⟩) Entries.observe s (.task 2 (.dog .claim))).any fun s' =>
      decide (s'.1.ctx.state = .thawing)

theorem watchdog_claims_later_entry :
    ¬ ∀ (cfg : Config) (s s' : Agent × Entries) (i : TaskId) (ch : Task.Choice),
      Machine.Reach (Machine.observed (Agent.step cfg) Entries.observe) (fun _ _ _ => True)
        (fun s => Agent.Initial s.1 ∧ s.2 = .initial s.1) s →
      Machine.observed (Agent.step cfg) Entries.observe s (.task i ch) = some s' → s.1.ctx.state = .frozen →
      s'.1.ctx.state = .thawing → (∃ pc, s.1.tasks i = some (.thaw false pc)) ∨
        ∃ g, s.1.tasks i = some (.dog g) ∧ s.2.of i = s.2.current ∧
          s.2.since + min cfg.idle cfg.max ≤ s.1.ctx.now := by
  intro hall
  obtain ⟨s, hr, hp⟩ : ∃ s, Machine.Reach (Machine.observed (Agent.step ⟨60, 30, 300⟩) Entries.observe)
      (fun _ _ _ => True) (fun s => Agent.Initial s.1 ∧ s.2 = .initial s.1) s ∧ overtakes s = true :=
    Machine.Reach.of_execute (fun _ _ _ => true) (fun _ _ _ _ => trivial) overtaken overtakes
      (s := (Agent.cold false, .initial (Agent.cold false))) ⟨Agent.cold_initial false, rfl⟩ (by decide) (by decide)
  simp only [overtakes, Bool.and_eq_true, decide_eq_true_eq] at hp
  obtain ⟨⟨⟨hf, hother⟩, hdog⟩, hclaim⟩ := hp
  cases hs : Machine.observed (Agent.step ⟨60, 30, 300⟩) Entries.observe s (.task 2 (.dog .claim)) with
  | none => rw [hs] at hclaim; cases hclaim
  | some s' =>
    have hth : s'.1.ctx.state = .thawing := by simpa [hs] using hclaim
    rcases hall _ s s' 2 (.dog .claim) hr hs hf hth with ⟨pc, hpc⟩ | ⟨g, -, hof, -⟩
    · rw [hpc] at hdog
      cases hdog
    · exact hother hof

end Qeminga
