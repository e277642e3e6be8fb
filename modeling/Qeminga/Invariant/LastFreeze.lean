import Qeminga.Contract.FreezeReply
import Qeminga.Invariant.Provenance
import Qeminga.Lib.History

/-!
# What is frozen was frozen by the last operation

A freeze can only be started in the state `Thawed`, when nothing is frozen any more.  So without another freezer, and on
a kernel that freezes no superblock twice, whatever is frozen was frozen by the operation that was started last, and no
`FITHAW` on it has succeeded since (`LastFreeze.reach`).
-/

namespace Qeminga

/-- The event is a successful `FITHAW` on `d`. -/
def Event.unfreezes (d : Dev) : Event → Bool
  | .fithaw _ x (.ok _) => x = d
  | _ => false

/-- No `FITHAW` on `d` has succeeded since the last successful `FIFREEZE` on it by `op`. -/
def Unthawed (log : List Event) (op : TaskId) (d : Dev) : Prop :=
  ∀ e ∈ log.takeWhile fun e => !e.freezes op d, e.unfreezes d = false

/-- The event says that something was frozen or thawed, or that an operation or the drain of a thaw began. -/
def Event.pivotal : Event → Bool
  | .started _ _ _ => true
  | .fifreeze _ _ _ _ (.ok _) => true
  | .fithaw _ _ (.ok _) => true
  | .began _ _ => true
  | _ => false

/-- What a step of the task `i` does to what is frozen; `walks` says that it is a freeze operation before its
publication. -/
inductive Ctx.Turns (walks : Prop) (i : TaskId) (c c' : Ctx) : Prop
  | quiet (new : List Event) (hlog : c'.log = new ++ c.log) (hnew : ∀ e ∈ new, e.pivotal = false)
      (hdepth : c'.depth = c.depth) (hown : c'.own = c.own)
  | began (hlog : c'.log = .began i c.snapshot :: c.log) (hdepth : c'.depth = c.depth) (hown : c'.own = c.own)
  | froze (x : Dev) (aborted : Bool) (clock : Nat) (hw : walks)
      (hlog : c'.log = .fifreeze i x aborted clock (.ok ()) :: c.log)
      (hdepth : c'.depth = Function.update c.depth x (c.depth x + 1)) (hown : c'.own = Function.update c.own x true)
  | thawed (x : Dev) (hx : 0 < c.depth x) (hlog : c'.log = .fithaw i x (.ok ()) :: c.log)
      (hdepth : c'.depth = Function.update c.depth x (c.depth x - 1))
      (hown : c'.own = Function.update c.own x (c.own x && decide (1 < c.depth x)))

section Turns

variable {cfg : Config} {c c' : Ctx} {i fresh : TaskId} {new : Option Dog} {walks : Prop}

theorem Ctx.Turns.mono {walks' : Prop} (h : c.Turns walks i c') (hw : walks → walks') : c.Turns walks' i c' := by
  cases h with
  | quiet new hlog hnew hdepth hown => exact .quiet new hlog hnew hdepth hown
  | began hlog hdepth hown => exact .began hlog hdepth hown
  | froze x aborted clock h hlog hdepth hown => exact .froze x aborted clock (hw h) hlog hdepth hown
  | thawed x hx hlog hdepth hown => exact .thawed x hx hlog hdepth hown

theorem Ctx.fithaw_turns {d : Dev} {r : Except KernelError Unit} (h : c.fithaw i d r = some c') : c.Turns walks i c' := by
  rcases Ctx.fithaw_cases h with ⟨rfl, hx, rfl⟩ | ⟨err, rfl, rfl⟩
  · exact .thawed d hx rfl rfl rfl
  · exact .quiet [.fithaw i d (.error err)] rfl (by simp [Event.pivotal]) rfl rfl

theorem Ctx.unlink_turns {ans : UnlinkAnswer} {r : Except MarkerError Unit} (h : c.unlink ans = some (c', r)) :
    c.Turns walks i c' := by
  rcases Ctx.unlink_cases h with ⟨-, -, rfl⟩ | ⟨-, -, rfl⟩ | ⟨e, -, rfl⟩ <;> exact .quiet [] rfl (by simp) rfl rfl

theorem Tracked.Call.turns {tr tr' : Tracked} (h : tr.Call c i c' tr') (hw : walks) : c.Turns walks i c' := by
  cases h with
  | fifreeze t rest m aborted clock r =>
    rcases c.fifreeze_cases i m.dev aborted clock r with ⟨rfl, he⟩ | ⟨err, rfl, he⟩ <;> rw [he]
    · exact .froze m.dev aborted clock hw rfl rfl rfl
    · exact .quiet [_] rfl (by simp [Event.pivotal]) rfl rfl
  | removed k h => exact Ctx.unlink_turns h
  | rollbackDrains htodo h => exact Ctx.fithaw_turns h
  | rollbackUnlinks hj h => exact Ctx.unlink_turns h
  | _ => exact .quiet [] rfl (by simp) rfl rfl

theorem ThawBlocking.Call.turns {j j' : ThawBlocking} (h : j.Call c i c' j') : c.Turns walks i c' := by
  cases h with
  | discovered entries hs => exact .quiet [_] rfl (by simp [Event.pivotal]) rfl rfl
  | fithaw hs h => exact Ctx.fithaw_turns h
  | unlinked hs h => exact Ctx.unlink_turns h
  | _ => exact .quiet [] rfl (by simp) rfl rfl

private theorem Driver.Move.turns {d d' : Driver} (hm : Driver.Move cfg c i fresh d c' d' new) :
    c.Turns (d.pc.published = false) i c' := by
  cases hm with
  | call ht hc => exact hc.turns (Driver.not_published_of_tracked ht)
  | drain _ _ hc => exact Ctx.fithaw_turns hc
  | interrupt _ _ hc => rcases hc with rfl | rfl <;> exact .quiet [] (by simp) (by simp) (by simp) (by simp)
  | prepLost | hardError => exact .quiet [_, _, _] rfl (by simp [Event.pivotal]) (by simp) (by simp)
  | prepared | prepAborted | prepFailed | removed | joinDrainRestart | workerLostAborted | workerLost | froze | busy | skipped
  | notAuthorized | lateResult => exact .quiet [_, _] rfl (by simp [Event.pivotal]) (by simp) (by simp)
  | spawn | replyAborted | recover | joinDrain | settleDrain | settleRemove | commitNothing | rollbackLost | rolledBack
  | publish | publishNone | reply => exact .quiet [_] rfl (by simp [Event.pivotal]) (by simp) (by simp)
  | _ => exact .quiet [] (by simp) (by simp) (by simp) (by simp)

private theorem Thaw.Move.turns {pc pc' : ThawPc} (hm : Thaw.Move cfg c i fresh pc c' pc' new) : c.Turns walks i c' := by
  cases hm
  case call hc => exact hc.turns
  case begin => exact .began rfl rfl rfl
  case cancel => exact .quiet [] (by simp) (by simp) (by simp) (by simp)
  case install => exact .quiet [] (by simp) (by simp) (by simp) (by simp)
  all_goals first
    | exact .quiet [] rfl (by simp) (by simp) (by simp)
    | exact .quiet [_] rfl (by simp [Event.pivotal]) (by simp) (by simp)

theorem Task.Move.turns {t t' : Task} (hm : Task.Move cfg c i fresh t c' t' new) :
    c.Turns (∃ d, t = .driver d ∧ d.pc.published = false) i c' := by
  cases hm with
  | driver h => exact h.turns.mono fun hp => ⟨_, rfl, hp⟩
  | thaw h => exact h.turns
  | dogClaims hs hc => exact .quiet [_] rfl (by simp [Event.pivotal]) rfl rfl
  | startInstall => exact .quiet [] (by simp) (by simp) (by simp) (by simp)
  | _ => exact .quiet [] rfl (by simp) rfl rfl

end Turns

/-! ### What the history says of the last operation -/

/-- The superblock was frozen by the operation and nothing has thawed it since. -/
def StillFrozen (log : List Event) (op : TaskId) (x : Dev) : Prop := x ∈ successes log op ∧ Unthawed log op x

section History

variable {log new : List Event} {op : TaskId} {x y : Dev} {e : Event}

theorem Event.freezes_eq_false {e : Event} (h : e.pivotal = false) : e.freezes op x = false := by
  cases e with
  | fifreeze i d aborted clock r => cases r <;> first | rfl | cases h
  | _ => rfl

theorem Event.unfreezes_eq_false {e : Event} (h : e.pivotal = false) : e.unfreezes x = false := by
  cases e with
  | fithaw i d r => cases r <;> first | rfl | cases h
  | _ => rfl

/-- Events after which as much is frozen as before. -/
theorem stillFrozen_cons (hf : e.freezes op x = false) (hu : e.unfreezes x = false) :
    StillFrozen (e :: log) op x ↔ StillFrozen log op x := by
  have hs : x ∈ successes (e :: log) op ↔ x ∈ successes log op := by
    cases e with
    | fifreeze i d aborted clock r =>
      cases r with
      | error err => rfl
      | ok u =>
        by_cases hi : i = op
        · subst hi
          have hd : d ≠ x := by simpa [Event.freezes] using hf
          rw [show successes (.fifreeze i d aborted clock (.ok u) :: log) i = successes log i ++ [d] from
            successes_fifreeze aborted clock]
          simp [hd.symm]
        · rw [show successes (.fifreeze i d aborted clock (.ok u) :: log) op = successes log op by simp [successes, hi]]
    | _ => rfl
  have ht : Unthawed (e :: log) op x ↔ Unthawed log op x := by
    simp only [Unthawed, List.takeWhile_cons, hf, Bool.not_false, ↓reduceIte, List.mem_cons, forall_eq_or_imp, hu, true_and]
  exact and_congr hs ht

theorem stillFrozen_append (h : ∀ e ∈ new, e.freezes op x = false ∧ e.unfreezes x = false) :
    StillFrozen (new ++ log) op x ↔ StillFrozen log op x := by
  induction new with
  | nil => rfl
  | cons e new ih =>
    obtain ⟨hf, hu⟩ := h e List.mem_cons_self
    exact (stillFrozen_cons hf hu).trans (ih fun e' he' => h e' (List.mem_cons_of_mem _ he'))

theorem stillFrozen_fifreeze (aborted : Bool) (clock : Nat) : StillFrozen (.fifreeze op x aborted clock (.ok ()) :: log) op x := by
  refine ⟨by simp, ?_⟩
  simp [Unthawed, Event.freezes]

theorem not_stillFrozen_fithaw (i : TaskId) : ¬ StillFrozen (.fithaw i x (.ok ()) :: log) op x := by
  rintro ⟨-, h⟩
  have := h (.fithaw i x (.ok ())) (by simp [Event.freezes])
  simp [Event.unfreezes] at this

end History

/-! ### The assumptions -/

/-- A `FIFREEZE` succeeds only on a superblock that is not frozen. -/
def honestFreeze (c : Ctx) : Event → Bool
  | .fifreeze _ d _ _ (.ok _) => decide (c.depth d = 0)
  | _ => true

/-- The step is one of another freezer. -/
def Action.isForeign : Action → Bool
  | .foreignFreeze _ => true
  | .foreignThaw _ => true
  | _ => false

/-- The agent is the only one that freezes and thaws, on an honest kernel whose mount table lists what it froze. -/
structure SoleFreezer (a : Agent) (act : Action) (a' : Agent) : Prop where
  assumed : Cover.Assumed a act a'
  honest : ∀ e ∈ news a.ctx a'.ctx, honestFreeze a.ctx e = true
  alone : act.isForeign = false

/-- A first start on a kernel with nothing frozen but what the earlier instance of the agent froze. -/
structure Agent.SoleStart (a : Agent) : Prop extends Agent.Initial a where
  single : ∀ d, a.ctx.depth d = if a.ctx.own d then 1 else 0

/-- Without another freezer only time passes beside the agent. -/
theorem Agent.quiet_of_env {cfg : Config} {a a' : Agent} {act : Action} (hs : Agent.step cfg a act = some a')
    (hf : act.isForeign = false) (he : a.ctx.Env a'.ctx) : a'.ctx.depth = a.ctx.depth ∧ a'.ctx.own = a.ctx.own := by
  have hlog : a'.ctx.log = a.ctx.log := by
    generalize a'.ctx = c' at he
    cases he <;> rfl
  cases act with
  | foreignFreeze d => cases hf
  | foreignThaw d => cases hf
  | task i ch =>
    cases Agent.step_move hs with
    | @task i ch t t' c' new ht hm =>
      rw [Pool.apply_ctx] at hlog ⊢
      rcases hm.turns with ⟨new, -, -, hdepth, hown⟩ | ⟨h, -, -⟩ | ⟨x, aborted, clock, -, h, -, -⟩ | ⟨x, hx, h, -, -⟩
      · exact ⟨hdepth, hown⟩
      all_goals
        have := congrArg List.length (h.symm.trans hlog)
        simp at this
    | env he hact => exact absurd rfl (hact.1 i ch)
  | tick n => obtain rfl := Option.some.inj hs; exact ⟨rfl, rfl⟩
  | thaw => obtain rfl := Option.some.inj hs; exact ⟨rfl, rfl⟩
  | status => obtain rfl := Option.some.inj hs; exact ⟨rfl, rfl⟩
  | crash => obtain rfl := Option.some.inj hs; exact ⟨rfl, rfl⟩
  | freeze restrict =>
    obtain rfl := Option.some.inj hs
    unfold Agent.freeze
    split <;> exact ⟨rfl, rfl⟩

/-! ### The invariant -/

/-- What is frozen is frozen once, by the agent, and the history tells it once there has been an operation. -/
structure Told (depth : Dev → Nat) (own : Dev → Bool) (log : List Event) : Prop where
  single : ∀ x, depth x = if own x then 1 else 0
  last : ∀ op, lastOperation log = some op → ∀ x, own x = true ↔ StillFrozen log op x

/-- The snapshot at the begin of a drain is told by the history before it. -/
def Event.Told (e : Event) (older : List Event) : Prop :=
  match e with
  | .began _ now => Qeminga.Told now.depth now.own older
  | _ => True

theorem Event.told_of_not_pivotal {e : Event} (h : e.pivotal = false) (older : List Event) : e.Told older := by
  cases e <;> trivial

namespace LastFreeze

structure Glob (c : Ctx) (_ : TaskId) : Prop extends Told c.depth c.own c.log where
  log : Justified Event.Told c.log

/-- An operation is the last one until it has published its state. -/
def Loc (c : Ctx) (i : TaskId) : Task → Prop
  | .driver d => d.pc.published = false → lastOperation c.log = some i
  | _ => True

variable {cfg : Config} {c c' : Ctx} {i j fresh : TaskId} {t t' u : Task} {new : Option Dog}

private theorem Glob.turn {n m : TaskId} (h : Glob c n) (hw : Prop) (ht : c.Turns hw i c')
    (hlast : lastOperation c'.log = lastOperation c.log) (hwalk : hw → lastOperation c.log = some i)
    (hon : ∀ e ∈ news c c', honestFreeze c e = true) : Glob c' m := by
  cases ht with
  | quiet new hlog hnew hdepth hown =>
    refine ⟨⟨fun x => by rw [hdepth, hown]; exact h.single x, fun op hop x => ?_⟩,
      hlog ▸ h.log.append fun e he => Event.told_of_not_pivotal (hnew e he)⟩
    rw [hown, hlog, stillFrozen_append fun e he => ⟨Event.freezes_eq_false (hnew e he), Event.unfreezes_eq_false (hnew e he)⟩]
    exact h.last op (hlast ▸ hop) x
  | began hlog hdepth hown =>
    refine ⟨⟨fun x => by rw [hdepth, hown]; exact h.single x, fun op hop x => ?_⟩, hlog ▸ ⟨h.toTold, h.log⟩⟩
    rw [hown, hlog, stillFrozen_cons rfl rfl]
    exact h.last op (hlast ▸ hop) x
  | froze d aborted clock hw hlog hdepth hown =>
    have hzero : c.depth d = 0 := by
      have hnew : news c c' = [.fifreeze i d aborted clock (.ok ())] := news_eq hlog
      have h := hon (.fifreeze i d aborted clock (.ok ())) (by rw [hnew]; exact List.mem_cons_self)
      exact of_decide_eq_true h
    refine ⟨⟨fun x => ?_, fun op hop x => ?_⟩, hlog ▸ ⟨trivial, h.log⟩⟩
    · rw [hdepth, hown]
      by_cases hx : x = d
      · subst hx
        simp [hzero]
      · simpa [Function.update_of_ne hx] using h.single x
    · obtain rfl : i = op := by
        rw [hlast, hwalk hw] at hop
        exact Option.some.inj hop
      rw [hown, hlog]
      by_cases hx : x = d
      · subst hx
        simpa using stillFrozen_fifreeze aborted clock
      · rw [Function.update_of_ne hx, stillFrozen_cons (by simp [Event.freezes, Ne.symm hx]) rfl]
        exact h.last i (hwalk hw) x
  | thawed d hd hlog hdepth hown =>
    have hone : c.depth d = 1 := by
      have := h.single d
      split at this <;> omega
    refine ⟨⟨fun x => ?_, fun op hop x => ?_⟩, hlog ▸ ⟨trivial, h.log⟩⟩
    · rw [hdepth, hown]
      by_cases hx : x = d
      · subst hx
        simp [hone]
      · simpa [Function.update_of_ne hx] using h.single x
    · rw [hown, hlog]
      by_cases hx : x = d
      · subst hx
        simpa [hone] using not_stillFrozen_fithaw i
      · rw [Function.update_of_ne hx, stillFrozen_cons rfl (by simp [Event.unfreezes, Ne.symm hx])]
        exact h.last op (hlast ▸ hop) x

private theorem Loc.of_last (h : Loc c j u) (hlast : lastOperation c'.log = lastOperation c.log) : Loc c' j u := by
  cases u with
  | driver d => exact fun hp => hlast.trans (h hp)
  | _ => trivial

private theorem Loc.move (hm : Task.Move cfg c i fresh t c' t' new) (hw : t.WF) (h : Loc c i t) : Loc c' i t' := by
  have hlast := hm.lastOperation
  cases hm with
  | @driver d d' _ _ hm =>
    intro hp'
    refine hlast.trans (h (Bool.eq_false_iff.2 fun hp => ?_))
    rw [hm.stays_published hw hp] at hp'
    cases hp'
  | _ => trivial

theorem reach {a : Agent} (h : Machine.Reach (Agent.step cfg) SoleFreezer Agent.SoleStart a) : a.Holds Glob Loc := by
  refine h.invariant (fun a h => ?_) (fun a act a' hr ih hs hok => ?_)
  · obtain ⟨c, n, rfl⟩ := h.booted
    have hlog : (Agent.bootCtx c).log = [] := h.log
    refine Agent.boot_holds ⟨⟨h.single, fun op hop => ?_⟩, ?_⟩ fun _ => trivial
    · rw [hlog] at hop
      cases hop
    · show Justified _ (Agent.bootCtx c).log
      rw [hlog]
      trivial
  · have hr' : Machine.Reach (Agent.step cfg) SoleFreezer Agent.Initial a := hr.of_init fun _ h => h.toInitial
    have htok := Tokens.reach hr'
    have hreg := (Registry.reach hr').glob
    have hcov := (Cover.reach (hr'.mono fun _ _ _ h => h.assumed)).glob
    have hsucc : ∀ {c : Ctx} {m : TaskId} (n : TaskId), Glob c m → Glob c n := fun _ hG => ⟨hG.toTold, hG.log⟩
    refine Agent.holds_step ih hs ?_ ?_ ⟨hsucc _ ih.glob, trivial, trivial⟩ ?_ ?_
    · rintro i t c' t' new ht hm ⟨rfl, -⟩
      have hl := ih.loc ht
      refine ⟨ih.glob.turn _ hm.turns hm.lastOperation ?_ hok.honest, fun n => hsucc _, hl.move hm (htok.loc ht).wf,
        fun _ _ => trivial, fun j u _ _ hu => hu.of_last hm.lastOperation⟩
      rintro ⟨d, rfl, hp⟩
      exact hl hp
    · intro restrict hst _
      have hclean := hcov.thawed hst
      have hnil : successes a.ctx.log a.next = [] := successes_eq_nil fun e he => hreg.unheard he
      refine ⟨⟨⟨ih.glob.single, fun op hop x => ?_⟩, trivial, trivial, ih.glob.log⟩, fun _ => rfl, fun j u _ hu hl => ?_⟩
      · obtain rfl : a.next = op := Option.some.inj hop
        have hs : successes (Agent.freezeCtx cfg a.ctx a.next restrict).log a.next = successes a.ctx.log a.next := rfl
        refine iff_of_false (by simp [Agent.freezeCtx, hclean x]) fun h => ?_
        have := h.1
        rw [hs, hnil] at this
        cases this
      · cases u with
        | driver d => exact fun hp => absurd hst ((htok.loc hu).not_thawed hp)
        | _ => trivial
    · rintro c' he rfl
      obtain ⟨hdepth, hown⟩ := Agent.quiet_of_env hs hok.alone he
      have hlog : a'.ctx.log = a.ctx.log := by
        generalize a'.ctx = c' at he
        cases he <;> rfl
      refine ⟨⟨⟨fun x => by rw [hdepth, hown]; exact ih.glob.single x, fun op hop x => ?_⟩, hlog ▸ ih.glob.log⟩,
        fun j u _ hu => hu.of_last (by rw [hlog])⟩
      rw [hown, hlog]
      exact ih.glob.last op (hlog ▸ hop) x
    · intro _
      exact ⟨⟨ih.glob.toTold, ih.glob.log⟩, fun _ => trivial⟩

end LastFreeze

end Qeminga
