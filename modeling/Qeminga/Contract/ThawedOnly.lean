import Qeminga.Invariant.Serving

/-!
# Ordinary commands and the exit of the process

Two things are done only while nothing is frozen: an ordinary command (a trim, a shutdown, a suspend, the information
walks) runs from its gates to its return, and `serve_until_signal` returns.
-/

namespace Qeminga

namespace Daemon

variable {cfg : Config} {f : Features} {d d' : Daemon}

/-! ### Ordinary commands -/

/-- A handler that has passed its gates belongs to a running command of the session, in the lane of the command; and
from the gates of an ordinary command until its return the state is `Thawed` and neither a `FIFREEZE` nor a `FITHAW` is
called. -/
theorem ordinary_while_thawed (h : Machine.Reach (Daemon.step cfg f) (fun _ _ _ => True) Daemon.Initial d) {n since : Nat}
    (hn : d.handlers n = .passed since) :
    ∃ s event, d.pc = .session s ∧ s.slotOf n = some (.pending (classify event) event) ∧
      (classify event = .ordinary → d.agent.ctx.state = .thawed ∧ since ≤ d.agent.ctx.log.length ∧
        ∀ e ∈ d.agent.ctx.log.take (d.agent.ctx.log.length - since), e.isIoctl = false) := by
  have hserving := Serving.reach h
  obtain ⟨s, kind, event, hpc, hslot, -⟩ := hserving.active (n := n) (by rw [hn]; rfl)
  obtain rfl := Session.Reachable.classified (hserving.session hpc) hslot
  refine ⟨s, event, hpc, hslot, fun hlane => ?_⟩
  rw [hlane] at hslot
  have hquiet := hserving.ordinary hpc hslot hn
  exact ⟨hquiet.state, hquiet.recorded, hquiet.calls⟩

/-- A trim, the first command of the session, is running and has passed its gates. -/
private def trims (d : Daemon) : Bool :=
  match d.pc with
  | .session s => decide (s.slotOf 0 = some (.pending .ordinary (.frame (some ⟨"guest-fstrim", .none, none⟩))) ∧
      d.handlers 0 = .passed 0 ∧ d.agent.ctx.now = 5)
  | _ => false

/-- A trim that has passed its gates runs while the clock goes on. -/
theorem ordinary_while_thawed_of_trim :
    ∃ d, Machine.Reach (Daemon.step ⟨10, 10, 100⟩ ⟨true, true, true, true⟩) (fun _ _ _ => True) Daemon.Initial d ∧
      d.handlers 0 = .passed 0 ∧ d.agent.ctx.now = 5 ∧ d.agent.ctx.state = .thawed := by
  have hinitial : Daemon.Initial (.start (.cold false) true) := ⟨_, _, Agent.cold_initial false, rfl⟩
  obtain ⟨d, hd, hp⟩ := @Machine.Reach.of_execute _ _ (Daemon.step ⟨10, 10, 100⟩ ⟨true, true, true, true⟩)
    (fun _ _ _ => True) (fun _ _ _ => true) (fun _ _ _ _ => trivial)
    (Script.receives [.frame (some ⟨"guest-fstrim", .none, none⟩)] ++
      [.handler 0 (.gates false none), .background (.tick 5)])
    trims _ _ hinitial (by decide) (by decide)
  unfold trims at hp
  split at hp
  · next s hpc =>
    obtain ⟨hslot, hn, hnow⟩ := of_decide_eq_true hp
    obtain ⟨s', event, hpc', hslot', hthawed⟩ := ordinary_while_thawed hd hn
    obtain rfl : s = s' := ServePc.session.inj (hpc.symm.trans hpc')
    obtain ⟨hlane, -⟩ := Slot.pending.inj (Option.some.inj (hslot.symm.trans hslot'))
    exact ⟨d, hd, hn, hnow, (hthawed hlane.symm).1⟩
  · cases hp

/-! ### The exit -/

/-- After the exit only the agent goes on by itself. -/
private theorem exited_step {act : DaemonAction} {lost : Bool} (hpc : d.pc = .exited lost)
    (hs : d.step cfg f act = some d') (hact : ∀ initial, act ≠ .crash initial) :
    d'.pc = .exited lost ∧ ∃ act, act.isBackground = true ∧ Agent.step cfg d.agent act = some d'.agent := by
  cases act with
  | background act =>
    simp only [Daemon.step] at hs
    split at hs
    · next hb =>
      obtain ⟨a', ha, rfl⟩ := Option.map_eq_some_iff.1 hs
      exact ⟨hpc, act, hb, ha⟩
    · cases hs
  | handler => simp [Daemon.step, hpc] at hs
  | session => simp [Daemon.step, hpc] at hs
  | serve ans => cases ans <;> simp [Daemon.step, serve, hpc] at hs
  | signal => simp [Daemon.step, serving, hpc] at hs
  | stopper => simp [Daemon.step, serving, hpc] at hs
  | crash initial => exact absurd rfl (hact initial)

/-- When the process exits the state is `Thawed` and no `FIFREEZE` or `FITHAW` is outstanding; and as long as anything of
it still runs this stays so, and none is called any more. -/
theorem exits_thawed (h : Machine.Reach (Daemon.step cfg f) (fun _ _ _ => True) Daemon.Initial d) {lost : Bool}
    (hpc : d.pc = .exited lost)
    (hrun : Machine.Steps (Daemon.step cfg f) (fun _ act _ => ∀ initial, act ≠ .crash initial) d d') :
    d'.pc = .exited lost ∧ d'.agent.ctx.state = .thawed ∧
      (∀ i t, d'.agent.tasks i = some t → t.outstanding = false) ∧
      ∃ new, d'.agent.ctx.log = new ++ d.agent.ctx.log ∧ ∀ e ∈ new, e.isIoctl = false := by
  have hlater : Machine.Reach (Daemon.step cfg f) (fun _ _ _ => True) Daemon.Initial d' ∧ d'.pc = .exited lost ∧
      ∃ new, d'.agent.ctx.log = new ++ d.agent.ctx.log ∧ ∀ e ∈ new, e.isIoctl = false := by
    induction hrun with
    | refl => exact ⟨h, hpc, [], rfl, fun _ he => by cases he⟩
    | @tail d₁ d₂ act _ hs hact ih =>
      obtain ⟨hr, hpc₁, new, hlog, hnew⟩ := ih
      obtain ⟨hpc₂, act, hb, ha⟩ := exited_step hpc₁ hs hact
      have hserving := Serving.reach hr
      have hidle := hserving.idle fun s hs => by cases hpc₁.symm.trans hs
      obtain ⟨-, new', hlog', hnew'⟩ := Agent.thawed_of_background (Tokens.reach hserving.agent) (hserving.exited hpc₁)
        (fun _ _ ht => hserving.unclaimed_of_idle hidle ht) ha hb
      refine ⟨hr.tail hs trivial, hpc₂, new' ++ new, by rw [hlog', hlog, List.append_assoc], fun e he => ?_⟩
      exact (List.mem_append.1 he).elim (hnew' e) (hnew e)
  obtain ⟨hr, hpc', hlog⟩ := hlater
  have hserving := Serving.reach hr
  have hst := hserving.exited hpc'
  exact ⟨hpc', hst, fun i t ht => ((Tokens.reach hserving.agent).loc ht).not_outstanding hst, hlog⟩

private def exitedCleanly (d : Daemon) : Bool :=
  match d.pc with
  | .exited lost => !lost
  | _ => false

/-- A signal ends the session under way, and then the process exits. -/
theorem exits_thawed_of_signal :
    ∃ d, Machine.Reach (Daemon.step ⟨10, 10, 100⟩ ⟨true, true, true, true⟩) (fun _ _ _ => True) Daemon.Initial d ∧
      d.pc = .exited false ∧ d.agent.ctx.state = .thawed := by
  have hinitial : Daemon.Initial (.start (.cold false) true) := ⟨_, _, Agent.cold_initial false, rfl⟩
  obtain ⟨d, hd, hp⟩ := @Machine.Reach.of_execute _ _ (Daemon.step ⟨10, 10, 100⟩ ⟨true, true, true, true⟩)
    (fun _ _ _ => True) (fun _ _ _ => true) (fun _ _ _ _ => trivial)
    (Script.receives [] ++ [.signal, .stopper, .stopper, .session (.select (some true) ⟨[], none⟩ none),
      .session .top, .session (.stop ⟨[], none⟩), .serve .closed, .serve .check])
    exitedCleanly _ _ hinitial (by decide) (by decide)
  unfold exitedCleanly at hp
  split at hp
  · next lost hpc =>
    obtain rfl : lost = false := by simpa using hp
    exact ⟨d, hd, hpc, (exits_thawed hd hpc (.refl d)).2.1⟩
  · cases hp

end Daemon

end Qeminga
