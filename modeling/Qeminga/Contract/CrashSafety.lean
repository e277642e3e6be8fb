import Qeminga.Invariant.Cover

/-!
# Crash safety

While a superblock that the agent froze is still frozen, the marker is on disk and the state is not `Thawed`, so that
a crash at that instant restarts the agent in recovery mode.  A discovery drain relies on the mount table: without
`TableListsOwn` a superblock without a handle that is not in the table is left behind by a successful thaw.
-/

namespace Qeminga

/-- In every run on an honest kernel whose mount table lists what the agent froze and the drain has no handle on: as long as
some superblock that the agent froze is still frozen, the state is not `Thawed`, the marker is there, and a crash leads to
`Frozen` with the recovery start-up pending. -/
theorem frozen_is_marked {cfg : Config} {a : Agent}
    (h : Machine.Reach (Agent.step cfg) Cover.Assumed Agent.Initial a) {x : Dev} (hx : a.ctx.own x = true) :
    0 < a.ctx.depth x ∧ a.ctx.state ≠ .thawed ∧ a.ctx.marker = true ∧
      ∀ a', Agent.step cfg a .crash = some a' →
        a'.ctx.state = .frozen ∧ a'.ctx.own x = true ∧ ∃ i, a'.tasks i = some (.startup .ring) := by
  have hg := (Cover.reach h).glob
  have hmark := hg.marked x hx
  refine ⟨hg.frozen x hx, fun hst => ?_, hmark, fun a' ha' => ?_⟩
  · rw [hg.thawed hst x] at hx
    cases hx
  · obtain rfl := Option.some.inj ha'
    exact ⟨by simp [Agent.boot, Agent.bootCtx, hmark], hx, a.next, by simp [Agent.boot, hmark]⟩

theorem frozen_is_marked_after_freeze :
    ∃ a, Machine.Reach (Agent.step ⟨60, 30, 300⟩) Cover.Assumed Agent.Initial a ∧ a.ctx.own (8, 1) = true ∧
      a.ctx.state ≠ .thawed ∧ a.ctx.marker = true := by
  obtain ⟨a, hr, hp⟩ : ∃ a, Machine.Reach (Agent.step ⟨60, 30, 300⟩) Cover.Assumed Agent.Initial a ∧
      a.ctx.own (8, 1) = true :=
    Machine.Reach.of_execute (allows Cover.assumed) Cover.Assumed.of_check Script.freezeOne
      (fun a => a.ctx.own (8, 1)) (Agent.cold_initial false) (by decide) (by decide)
  obtain ⟨-, hst, hmark, -⟩ := frozen_is_marked hr hp
  exact ⟨a, hr, hp, hst, hmark⟩

/-- The worker is lost right after its `FIFREEZE`, so the agent settles `Frozen` without a handle; the thaw that follows
reads a mount table without that superblock. -/
def unlistedSuperblock : List Action :=
  [.freeze none] ++ Script.prepare 1 [Script.row (8, 1) [slash]] ++ Script.drive 1 3 ++
    [Script.driver 1 (.job (.opened (.found (8, 1)))), Script.driver 1 (.job .check), Script.driver 1 (.job .check),
      Script.driver 1 (.job (.fifreeze (.ok ()))), Script.driver 1 .loseJob, Script.driver 1 .done] ++
    Script.drive 1 16 ++ [.thaw] ++ Script.proceed 3 4 ++
    [Script.thaw 3 (.job (.table (.ok []))), Script.thaw 3 (.job (.unlink .ok))] ++ Script.proceed 3 6

/-- An honest kernel alone does not suffice. -/
theorem frozen_unmarked_if_unlisted :
    ∃ a, Machine.Reach (Agent.step ⟨60, 30, 300⟩) (Allows fun c e => honestThaw c e = true) Agent.Initial a ∧
      a.ctx.own (8, 1) = true ∧ 0 < a.ctx.depth (8, 1) ∧ a.ctx.state = .thawed ∧ a.ctx.marker = false := by
  obtain ⟨a, hr, hp⟩ : ∃ a, Machine.Reach (Agent.step ⟨60, 30, 300⟩) (Allows fun c e => honestThaw c e = true)
      Agent.Initial a ∧ (a.ctx.own (8, 1) && decide (0 < a.ctx.depth (8, 1)) && decide (a.ctx.state = .thawed) &&
        !a.ctx.marker) = true :=
    Machine.Reach.of_execute (allows honestThaw) (Allows.of_check fun _ _ => id) unlistedSuperblock
      (fun a => a.ctx.own (8, 1) && decide (0 < a.ctx.depth (8, 1)) && decide (a.ctx.state = .thawed) && !a.ctx.marker)
      (Agent.cold_initial false) (by decide) (by decide)
  simp only [Bool.and_eq_true, decide_eq_true_eq, Bool.not_eq_true'] at hp
  exact ⟨a, hr, hp.1.1.1, hp.1.1.2, hp.1.2, hp.2⟩

end Qeminga
