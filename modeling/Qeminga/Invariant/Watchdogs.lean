import Qeminga.Invariant.Tokens

/-!
# What the steps of the tasks do to the watchdogs

A task that has published `Frozen` runs the hook `on_frozen` in two steps: it arms a watchdog and puts its handle into
the slot, which cancels the one that was there.  A task that has claimed a thaw takes the handle out and cancels it.
`Task.Move.watches` says that nothing else touches the slot, a cancellation or the hook of a task, and `Dog.Lives` that a
watchdog only ends by a cancellation or by its own expiry.
-/

namespace Qeminga

variable {cfg : Config} {c c' : Ctx} {i fresh : TaskId} {t t' : Task} {new : Option Dog}

/-- What a step of a task does to the watchdogs: nothing, or one of the steps of the hooks.  A publication of `Frozen` is
where the hook `on_frozen` begins. -/
inductive Task.Watches (cfg : Config) (c : Ctx) (fresh : TaskId) (t : Task) (c' : Ctx) (t' : Task) (new : Option Dog) :
    Prop
  | none (hn : new = none) (hw : c'.watchdog = c.watchdog) (hc : c'.cancelled = c.cancelled)
      (ha : t'.arming = t.arming) (hi : t'.installing = t.installing) (hs : c'.state = .frozen → c.state = .frozen)
  | publish (hn : new = none) (hw : c'.watchdog = c.watchdog) (hc : c'.cancelled = c.cancelled)
      (ha : t.arming = false) (ha' : t'.arming = true) (hi : t.installing = none) (hi' : t'.installing = none)
      (ht : t.holdsToken = true) (hs : c'.state = .frozen)
  | take (hn : new = none) (ht : t.thawToken.isSome) (hc : c' = c.onThawClaimed) (ha : t.arming = false)
      (ha' : t'.arming = false) (hi : t.installing = none) (hi' : t'.installing = none)
  | arm (hn : new = some (.arm cfg c.now)) (hc : c' = c.arm fresh) (ha : t.arming = true) (ha' : t'.arming = true)
      (hi : t.installing = none) (hi' : t'.installing = some fresh)
  | install {w : TaskId} (hn : new = none) (hc : c' = c.install w) (ha : t.arming = true) (ha' : t'.arming = false)
      (hi : t.installing = some w) (hi' : t'.installing = none)

/-- The step runs no hook: the watchdogs and the audit mode stay as they are. -/
structure Ctx.Unhooked (c c' : Ctx) : Prop where
  watchdog : c'.watchdog = c.watchdog
  cancelled : c'.cancelled = c.cancelled
  refreshed : c'.refreshed = c.refreshed
  ring : c'.ring = c.ring

theorem Ctx.fithaw_unhooked {d : Dev} {r : Except KernelError Unit} (h : c.fithaw i d r = some c') : c.Unhooked c' := by
  rcases Ctx.fithaw_cases h with ⟨-, -, rfl⟩ | ⟨err, -, rfl⟩ <;> exact ⟨rfl, rfl, rfl, rfl⟩

theorem Ctx.unlink_unhooked {ans : UnlinkAnswer} {r : Except MarkerError Unit} (h : c.unlink ans = some (c', r)) :
    c.Unhooked c' := by
  rcases Ctx.unlink_cases h with ⟨-, -, rfl⟩ | ⟨-, -, rfl⟩ | ⟨e, -, rfl⟩ <;> exact ⟨rfl, rfl, rfl, rfl⟩

theorem Tracked.Call.unhooked {tr tr' : Tracked} (h : tr.Call c i c' tr') : c.Unhooked c' := by
  cases h with
  | fifreeze t rest m aborted clock r =>
    rcases c.fifreeze_cases i m.dev aborted clock r with ⟨-, h⟩ | ⟨err, -, h⟩ <;> rw [h] <;> exact ⟨rfl, rfl, rfl, rfl⟩
  | removed k h => exact Ctx.unlink_unhooked h
  | rollbackDrains htodo h => exact Ctx.fithaw_unhooked h
  | rollbackUnlinks hj h => exact Ctx.unlink_unhooked h
  | _ => exact ⟨rfl, rfl, rfl, rfl⟩

theorem ThawBlocking.Call.unhooked {j j' : ThawBlocking} (h : j.Call c i c' j') : c.Unhooked c' := by
  cases h with
  | fithaw hs h => exact Ctx.fithaw_unhooked h
  | unlinked hs h => exact Ctx.unlink_unhooked h
  | _ => exact ⟨rfl, rfl, rfl, rfl⟩

/-! ### The steps of a driver and of a thaw -/

/-- The program points of the hook `on_frozen` in a driver, and the watchdog it has armed there. -/
def Pc.arming : Pc → Bool
  | .conclude .arm _ _ => true
  | .conclude (.install _) _ _ => true
  | _ => false

def Pc.installing : Pc → Option TaskId
  | .conclude (.install w) _ _ => some w
  | _ => none

theorem Task.arming_driver (d : Driver) : Task.arming (.driver d) = d.pc.arming := by
  cases hpc : d.pc with
  | conclude stage terminal reply => cases stage <;> simp [Task.arming, Pc.arming, hpc]
  | _ => simp [Task.arming, Pc.arming, hpc]

theorem Task.installing_driver (d : Driver) : Task.installing (.driver d) = d.pc.installing := by
  cases hpc : d.pc with
  | conclude stage terminal reply => cases stage <;> simp [Task.installing, Pc.installing, hpc]
  | _ => simp [Task.installing, Pc.installing, hpc]

private theorem Driver.tracked_unarmed {d : Driver} {tr : Tracked} (ht : d.tracked = some tr) (tr' : Tracked) :
    d.pc.arming = false ∧ d.pc.installing = none ∧ (d.withTracked tr').pc.arming = false ∧
      (d.withTracked tr').pc.installing = none := by
  rcases tracked_cases ht with ⟨hpc, he⟩ | ⟨stage, hpc, he⟩ <;> rw [he, hpc] <;> exact ⟨rfl, rfl, rfl, rfl⟩

private theorem Driver.Move.watches {d d' : Driver} (hm : Driver.Move cfg c i fresh d c' d' new) (hw : d.WF) :
    Task.Watches cfg c fresh (.driver d) c' (.driver d') new := by
  -- a step that keeps out of the hooks
  have hquiet : new = none → c'.watchdog = c.watchdog → c'.cancelled = c.cancelled → d'.pc.arming = d.pc.arming →
      d'.pc.installing = d.pc.installing → c'.state = c.state ∨ c'.state ≠ .frozen →
      Task.Watches cfg c fresh (.driver d) c' (.driver d') new := by
    intro hn hw hc ha hi hs
    refine .none hn hw hc (by simpa [Task.arming_driver] using ha) (by simpa [Task.installing_driver] using hi) ?_
    rcases hs with hs | hs
    · exact fun h => hs ▸ h
    · exact fun h => absurd h hs
  cases hm
  case publish terminal reply hpc ht =>
    cases terminal with
    | thawed => exact hquiet rfl rfl rfl (by rw [hpc]; rfl) (by rw [hpc]; rfl) (.inr (by simp [Terminal.state]))
    | frozen =>
      refine .publish rfl rfl rfl ?_ ?_ ?_ ?_ ?_ rfl
      · rw [Task.arming_driver, hpc]; rfl
      · rfl
      · rw [Task.installing_driver, hpc]; rfl
      · rfl
      · rcases ht with ht | ⟨-, ht⟩ <;> simp [Task.holdsToken, Task.freezeToken, Task.thawToken, ht]
  case publishNone hpc ht hth =>
    have h := hw.token_iff
    simp [Pc.published, hpc, ht, hth] at h
  case cancel k hpc =>
    have ha := (Driver.WF.at hw hpc).1
    refine .take rfl ?_ rfl ?_ rfl ?_ rfl
    · simp [Task.thawToken, Aborting.thawToken ha]
    · rw [Task.arming_driver, hpc]; rfl
    · rw [Task.installing_driver, hpc]; rfl
  case arm terminal reply hpc =>
    refine .arm rfl rfl ?_ rfl ?_ rfl
    · rw [Task.arming_driver, hpc]; rfl
    · rw [Task.installing_driver, hpc]; rfl
  case install terminal reply w hpc =>
    refine .install (w := w) rfl rfl ?_ rfl ?_ rfl
    · rw [Task.arming_driver, hpc]; rfl
    · rw [Task.installing_driver, hpc]; rfl
  case call tr tr' ht hc =>
    obtain ⟨h₁, h₂, h₃, h₄⟩ := Driver.tracked_unarmed ht tr'
    exact hquiet rfl hc.unhooked.watchdog hc.unhooked.cancelled (h₃.trans h₁.symm) (h₄.trans h₂.symm)
      (.inl hc.calls.state)
  case lose tr ht =>
    obtain ⟨h₁, h₂, h₃, h₄⟩ := Driver.tracked_unarmed ht (Driver.loseJob tr)
    exact hquiet rfl rfl rfl (h₃.trans h₁.symm) (h₄.trans h₂.symm) (.inl rfl)
  case drain h =>
    exact hquiet rfl (Ctx.fithaw_unhooked h).watchdog (Ctx.fithaw_unhooked h).cancelled rfl rfl
      (.inl (Ctx.fithaw_calls h).state)
  case abort hpc =>
    rcases hpc with hpc | hpc | ⟨hpc, -⟩ <;> exact hquiet rfl rfl rfl (by rw [hpc]; rfl) (by rw [hpc]; rfl) (.inl rfl)
  case interrupt hpc _ hc =>
    rcases hc with rfl | rfl <;> exact hquiet rfl rfl rfl (by rw [hpc]; rfl) (by rw [hpc]; rfl) (.inl rfl)
  case announce k hpc =>
    have hk : k.pc.arming = false ∧ k.pc.installing = none := by
      cases k with
      | boundary b => cases b <;> exact ⟨rfl, rfl⟩
      | «await» tr => exact ⟨rfl, rfl⟩
    exact hquiet rfl rfl rfl (by rw [hpc]; exact hk.1) (by rw [hpc]; exact hk.2) (.inl rfl)
  case joinDrain => exact hquiet rfl rfl rfl rfl rfl (.inl rfl)
  case joinDrainRestart => exact hquiet rfl rfl rfl rfl rfl (.inl rfl)
  case settleDrain => exact hquiet rfl rfl rfl rfl rfl (.inl rfl)
  case loseDrain => exact hquiet rfl rfl rfl rfl rfl (.inl rfl)
  case froze hpc hd =>
    subst hd
    exact hquiet rfl rfl rfl (by rw [hpc]; rfl) (by rw [hpc]; rfl) (.inl rfl)
  case busy hpc hd =>
    subst hd
    exact hquiet rfl rfl rfl (by rw [hpc]; rfl) (by rw [hpc]; rfl) (.inl rfl)
  case commit terminal reply hpc =>
    cases terminal <;> exact hquiet rfl rfl rfl (by rw [hpc]; rfl) (by rw [hpc]; rfl) (.inl rfl)
  case retire hpc =>
    exact hquiet rfl (by simp) (by simp) (by rw [hpc]; rfl) (by rw [hpc]; rfl) (.inl (by simp))
  case swap hpc ht => exact hquiet rfl rfl rfl (by rw [hpc]; rfl) (by rw [hpc]; rfl) (.inr (by rintro ⟨⟩))
  all_goals exact hquiet rfl rfl rfl (by rw [‹d.pc = _›]; rfl) (by rw [‹d.pc = _›]; rfl) (.inl rfl)

private theorem Thaw.Move.watches {pc pc' : ThawPc} {w : Bool} (hm : Thaw.Move cfg c i fresh pc c' pc' new) :
    Task.Watches cfg c fresh (.thaw w pc) c' (.thaw w pc') new := by
  cases hm
  case win hs hpc =>
    have hno : Task.arming (.thaw w pc) = false ∧ Task.installing (.thaw w pc) = none := by
      clear hs
      cases pc <;> first | exact ⟨rfl, rfl⟩ | cases hpc
    exact .none rfl rfl rfl hno.1.symm hno.2.symm (by rintro ⟨⟩)
  case cancel => exact .take rfl rfl rfl rfl rfl rfl rfl
  case call hc => exact .none rfl hc.unhooked.watchdog hc.unhooked.cancelled rfl rfl fun h => hc.calls.state ▸ h
  case hold token outcome held =>
    have hno : Task.arming (.thaw w (Thaw.settles token outcome)) = false ∧
        Task.installing (.thaw w (Thaw.settles token outcome)) = none := by
      cases outcome with
      | ok n => exact ⟨rfl, rfl⟩
      | error failure =>
        simp only [Thaw.settles]
        split <;> exact ⟨rfl, rfl⟩
    exact .none rfl rfl rfl hno.1 hno.2 id
  case publish => exact .none rfl rfl rfl rfl rfl (by rintro ⟨⟩)
  case fail => exact .publish rfl rfl rfl rfl rfl rfl rfl rfl rfl
  case arm => exact .arm rfl rfl rfl rfl rfl rfl
  case install w failure => exact .install rfl rfl rfl rfl rfl rfl
  all_goals exact .none rfl rfl rfl rfl rfl id

/-- What a step of any task does to the watchdogs. -/
theorem Task.Move.watches (hm : Task.Move cfg c i fresh t c' t' new) (hw : t.WF) :
    Task.Watches cfg c fresh t c' t' new := by
  cases hm with
  | driver h => exact h.watches hw
  | thaw h => exact h.watches
  | dogClaims hs hc => exact .none rfl rfl rfl rfl rfl (by rintro ⟨⟩)
  | startArm => exact .arm rfl rfl rfl rfl rfl rfl
  | startInstall => exact .install rfl rfl rfl rfl rfl rfl
  | _ => exact .none rfl rfl rfl rfl rfl id

end Qeminga
