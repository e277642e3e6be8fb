import Qeminga.Blocking
import Qeminga.Invariant.Cover

/-!
# A freeze can always be undone

Whatever has happened (lost tasks, failed drains, aborts, crashes) on a kernel and a mount table that told no lies, a thaw
that the kernel lets through ends in `Thawed` with nothing frozen and no marker: from every reachable state in which no
transition is under way, and after a restart from every reachable state.  The run is that of the thaw's task alone.  That
nothing is left frozen at its end is not a matter of this run, but of the invariant.  What other freezers have added to a
superblock must be less than the rounds of a drain.
-/

namespace Qeminga

/-! ### A kernel that refuses nothing -/

/-- The kernel and the marker as the context has them, answering the task `i` with no failure. -/
def openKernel (i : TaskId) : KernelOps Ctx where
  openMount := fun path dev c => (.ok ⟨path, dev, c.fd⟩, { c with fd := c.fd + 1 })
  fithaw := fun m c =>
    match c.fithaw i m.dev (.ok ()) with
    | some c' => (.ok (), c')
    | none => (.error (.errno .EINVAL), c.note (.fithaw i m.dev (.error (.errno .EINVAL))))
  removeMarker := fun c => if c.marker then (.ok (), { c with marker := false }) else (.error .absent, c)
  dev_of_openMount := by
    rintro path dev c m ⟨⟩
    rfl

variable {cfg : Config} {a b : Agent} {c c' : Ctx} {i : TaskId} {pc pc' : ThawPc}

/-- Every superblock thaws within one drain. -/
def Ctx.Drainable (c : Ctx) : Prop := ∀ x, c.depth x < maxThawIterations

theorem Ctx.Drainable.mono (h : c.Drainable) (hle : ∀ x, c'.depth x ≤ c.depth x) : c'.Drainable := fun x =>
  Nat.lt_of_le_of_lt (hle x) (h x)

/-- The superblock `d` after one more thaw. -/
private def thawedOnce (c : Ctx) (i : TaskId) (d : Dev) : Ctx :=
  { c with
    depth := Function.update c.depth d (c.depth d - 1)
    own := Function.update c.own d (c.own d && decide (1 < c.depth d))
    log := .fithaw i d (.ok ()) :: c.log }

theorem drainLoop_openKernel (m : Mount) {k n : Nat} (h : c.depth m.dev < k) :
    (drainLoop ((openKernel i).fithaw m) k n c).1.incomplete = none ∧
      ∀ x, (drainLoop ((openKernel i).fithaw m) k n c).2.depth x ≤ c.depth x := by
  induction k generalizing n c with
  | zero => exact absurd h (Nat.not_lt_zero _)
  | succ k ih =>
    by_cases hd : 0 < c.depth m.dev
    · have hcall : c.fithaw i m.dev (.ok ()) = some (thawedOnce c i m.dev) := by simp [Ctx.fithaw, hd, thawedOnce]
      have hless : (thawedOnce c i m.dev).depth m.dev < k := by
        simp only [thawedOnce, Function.update_self]
        omega
      simp only [drainLoop, openKernel, hcall]
      obtain ⟨hcomplete, hle⟩ := ih (n := n + 1) hless
      refine ⟨hcomplete, fun x => Nat.le_trans (hle x) ?_⟩
      by_cases hx : x = m.dev
      · subst hx
        simp [thawedOnce]
      · simp [thawedOnce, Function.update_of_ne hx]
    · have hcall : c.fithaw i m.dev (.ok ()) = none := by simp [Ctx.fithaw, hd]
      simp only [drainLoop, openKernel, hcall]
      exact ⟨rfl, fun x => Nat.le_refl _⟩

/-! ### The drain succeeds -/

/-- Nothing has failed so far. -/
structure ThawState.Fine (st : ThawState) : Prop where
  unrecoverable : st.unrecoverable = none
  keep : st.keep = []

theorem ThawState.Fine.drain {st : ThawState} (h : st.Fine) (hc : c.Drainable) (m : Mount) :
    (st.drain (openKernel i) m c).1.Fine ∧ (st.drain (openKernel i) m c).2.Drainable := by
  obtain ⟨hcomplete, hle⟩ := drainLoop_openKernel (i := i) (n := 0) m (hc m.dev)
  refine ⟨?_, hc.mono hle⟩
  unfold ThawState.drain ThawState.settle
  simp only [Qeminga.drain, hcomplete]
  exact ⟨h.unrecoverable, h.keep⟩

theorem openTarget_openKernel (t : Target) (c : Ctx) :
    openTarget (openKernel i) t c = (.ok ⟨t.openPaths.1, t.dev, c.fd⟩, { c with fd := c.fd + 1 }) := by
  unfold openTarget
  cases t.openPaths.2 <;> rfl

theorem ThawState.Fine.thawTargets {st : ThawState} (h : st.Fine) (hc : c.Drainable) (ts : List Target)
    (retained : List Mount) : (thawTargets (openKernel i) ts retained st c).2.1.Fine ∧
      (thawTargets (openKernel i) ts retained st c).2.2.Drainable := by
  induction ts generalizing retained st c with
  | nil => exact ⟨h, hc⟩
  | cons t ts ih =>
    rw [Qeminga.thawTargets]
    split
    · next m retained htake =>
      obtain ⟨hfine, hdrainable⟩ := h.drain (i := i) hc m
      exact ih hfine hdrainable _
    · rw [openTarget_openKernel]
      have hopened : Ctx.Drainable { c with fd := c.fd + 1 } := hc
      obtain ⟨hfine, hdrainable⟩ := h.drain (i := i) hopened ⟨t.openPaths.1, t.dev, c.fd⟩
      exact ih hfine hdrainable _

theorem ThawState.Fine.thawRetained {st : ThawState} (h : st.Fine) (hc : c.Drainable) (ms : List Mount) :
    (thawRetained (openKernel i) ms st c).1.Fine := by
  induction ms generalizing st c with
  | nil => exact h
  | cons m ms ih =>
    obtain ⟨hfine, hdrainable⟩ := h.drain (i := i) hc m
    exact ih hfine hdrainable

theorem ThawState.Fine.thawEnd {st : ThawState} (h : st.Fine) (c : Ctx) :
    (thawEnd (openKernel i) none st c).1.result = .ok st.thawed ∧ (thawEnd (openKernel i) none st c).1.held = [] ∧
      (thawEnd (openKernel i) none st c).2.marker = false := by
  unfold Qeminga.thawEnd
  rw [h.unrecoverable]
  cases hm : c.marker <;> simp [openKernel, hm, h.keep]

/-- With every superblock drainable a thaw answers a count, keeps no handle and removes the marker. -/
theorem thawBlocking_openKernel (plan : Option FreezePlan) (held : List Mount) (hc : c.Drainable) :
    ∃ n, (thawBlocking (openKernel i) (plan.map .ok) held c).1.result = .ok n ∧
      (thawBlocking (openKernel i) (plan.map .ok) held c).1.held = [] ∧
      (thawBlocking (openKernel i) (plan.map .ok) held c).2.marker = false := by
  have hdefault : ThawState.default.Fine := ⟨rfl, rfl⟩
  have hdiscovery : discoveryFailure (plan.map .ok) = none := by cases plan <;> rfl
  obtain ⟨hfine, hdrainable⟩ := hdefault.thawTargets (i := i) hc (plannedTargets (plan.map .ok)) held
  unfold thawBlocking
  rw [hdiscovery]
  exact ⟨_, (hfine.thawRetained (i := i) hdrainable _).thawEnd _⟩

/-! ### The run of a thaw -/

/-- The step is one of the thaw `i`, or its request, and the environment does what is assumed of it. -/
def Solo (i : TaskId) (a : Agent) (act : Action) (a' : Agent) : Prop :=
  Cover.Assumed a act a' ∧ (act = .thaw ∨ ∃ ch, act = .task i (.thaw ch))

/-- The event is one of an honest kernel, and a mount table that is read lists what the agent froze. -/
def Fair (c : Ctx) (e : Event) : Prop := honestThaw c e = true ∧ ∀ handles, TableListsOwn handles c e

/-- The thaw `i` gets to `pc` by itself, with the context `c`. -/
def Gets (cfg : Config) (a : Agent) (i : TaskId) (c : Ctx) (pc : ThawPc) : Prop :=
  ∃ b, Machine.Steps (Agent.step cfg) (Solo i) a b ∧ b.ctx = c ∧ b.tasks i = some (.thaw false pc)

theorem Gets.step (h : Gets cfg a i c pc) (ch : Thaw.Choice)
    (hs : ∀ fresh, Thaw.step cfg c i fresh pc ch = some ⟨c', pc', none⟩) (hnews : ∀ e ∈ news c c', Fair c e) :
    Gets cfg a i c' pc' := by
  obtain ⟨b, hb, rfl, htask⟩ := h
  refine ⟨b.apply i c' (.thaw false pc') none, hb.tail (a := .task i (.thaw ch)) ?_
    ⟨fun e he => ⟨(hnews e he).1, (hnews e he).2 _⟩, .inr ⟨ch, rfl⟩⟩, rfl, Function.update_self ..⟩
  simp only [Agent.step, htask, Task.step, hs b.next, Option.map_some, Option.map_none]

/-- A step that records one event which says nothing of the kernel. -/
theorem Gets.notes (h : Gets cfg a i c pc) {e : Event} (hs : ∀ fresh, Thaw.go cfg c i fresh pc = some ⟨c', pc', none⟩)
    (hlog : c'.log = e :: c.log) (he : Fair c e) : Gets cfg a i c' pc' := by
  refine h.step .go hs fun e' he' => ?_
  have hnews : news c c' = [e] := news_eq hlog
  rw [hnews] at he'
  obtain rfl := List.mem_singleton.1 he'
  exact he

/-- A step that records nothing. -/
theorem Gets.go (h : Gets cfg a i c pc) (hs : ∀ fresh, Thaw.go cfg c i fresh pc = some ⟨c', pc', none⟩)
    (hlog : c'.log = c.log) : Gets cfg a i c' pc' := by
  refine h.step .go hs fun e' he' => ?_
  have hnews : news c c' = [] := news_eq hlog
  rw [hnews] at he'
  cases he'

/-- A call of the drain that the context answers. -/
theorem Gets.calls {token : ThawToken} {j j' : ThawBlocking} (h : Gets cfg a i c (.blocking token ⟨j, false⟩)) (ans : Answer)
    (hs : Thaw.call c i j ans = some (c', j')) (hnews : ∀ e ∈ news c c', Fair c e) :
    Gets cfg a i c' (.blocking token ⟨j', false⟩) := by
  refine h.step (.job ans) (fun fresh => ?_) hnews
  simp only [Thaw.step, hs, Option.map_some, Bool.false_eq_true, if_false]

/-- A call of the drain, answered by the open kernel. -/
theorem Gets.answered {token : ThawToken} {j : ThawBlocking} (h : Gets cfg a i c (.blocking token ⟨j, false⟩)) :
    Gets cfg a i (ThawBlocking.answered (openKernel i) (j, c)).2
      (.blocking token ⟨(ThawBlocking.answered (openKernel i) (j, c)).1, false⟩) := by
  unfold ThawBlocking.answered
  cases hstage : j.stage with
  | table => exact h
  | done r => exact h
  | «open» t path paths attempts =>
    refine h.calls (.opened (.found t.dev)) ?_ (by simp [openKernel, news])
    simp only [Thaw.call, hstage, openMount, if_true]
    rfl
  | drain m n =>
    by_cases hd : 0 < c.depth m.dev
    · have hcall : c.fithaw i m.dev (.ok ()) = some (thawedOnce c i m.dev) := by simp [Ctx.fithaw, hd, thawedOnce]
      refine h.calls (.fithaw (.ok ())) (by simp [Thaw.call, hstage, hcall, openKernel]) fun e he => ?_
      have hnews : news c (thawedOnce c i m.dev) = [.fithaw i m.dev (.ok ())] := news_eq rfl
      simp only [openKernel, hcall, hnews, List.mem_singleton] at he
      rw [he]
      exact ⟨rfl, fun _ => trivial⟩
    · have hcall : c.fithaw i m.dev (.ok ()) = none := by simp [Ctx.fithaw, hd]
      have hfail : c.fithaw i m.dev (.error (.errno .EINVAL)) =
          some (c.note (.fithaw i m.dev (.error (.errno .EINVAL)))) := rfl
      refine h.calls (.fithaw (.error (.errno .EINVAL))) (by simp [Thaw.call, hstage, hcall, hfail, openKernel])
        fun e he => ?_
      have hnews : news c (c.note (.fithaw i m.dev (.error (.errno .EINVAL)))) =
          [.fithaw i m.dev (.error (.errno .EINVAL))] := news_eq rfl
      simp only [openKernel, hcall, hnews, List.mem_singleton] at he
      rw [he]
      exact ⟨by simp [honestThaw, Nat.eq_zero_of_not_pos hd], fun _ => trivial⟩
  | unlink =>
    cases hm : c.marker with
    | true =>
      refine h.calls (.unlink .ok) (by simp [Thaw.call, hstage, Ctx.unlink, hm, openKernel]) fun e he => ?_
      simp [openKernel, hm, news] at he
    | false =>
      refine h.calls (.unlink (.failed .ENOENT)) (by simp [Thaw.call, hstage, Ctx.unlink, hm, openKernel]) fun e he => ?_
      simp [openKernel, hm, news] at he

theorem held_answered (j : ThawBlocking) (c : Ctx) : (ThawBlocking.answered (openKernel i) (j, c)).2.held = c.held := by
  unfold ThawBlocking.answered
  cases j.stage with
  | drain m n => by_cases hd : 0 < c.depth m.dev <;> simp [openKernel, Ctx.fithaw, hd]
  | unlink => cases hm : c.marker <;> simp [openKernel, hm]
  | _ => rfl

theorem Gets.run {token : ThawToken} {j : ThawBlocking} (h : Gets cfg a i c (.blocking token ⟨j, false⟩)) (n : Nat) :
    Gets cfg a i (ThawBlocking.run (openKernel i) n (j, c)).2
      (.blocking token ⟨(ThawBlocking.run (openKernel i) n (j, c)).1, false⟩) ∧
      (ThawBlocking.run (openKernel i) n (j, c)).2.held = c.held := by
  induction n generalizing c j with
  | zero => exact ⟨h, rfl⟩
  | succ n ih =>
    obtain ⟨hgets, hheld⟩ := ih h.answered
    exact ⟨hgets, hheld.trans (held_answered j c)⟩

/-- The mount table lists what the agent froze. -/
def Lists (entries : List MountEntry) (c : Ctx) : Prop :=
  ∀ d, c.own d = true → ∃ e ∈ entries, isEligible e = true ∧ e.dev = d

/-- The whole drain of a thaw, from the handles or from the mount table. -/
theorem Gets.drains {token : ThawToken} {discover : Bool} {held : List Mount} {entries : List MountEntry}
    (h : Gets cfg a i c (.blocking token (.start (.start discover held)))) (hlist : Lists entries c) (hc : c.Drainable) :
    ∃ n c' j, Gets cfg a i c' (.blocking token ⟨j, false⟩) ∧ j.stage = .done (.ok n) ∧ j.keep = [] ∧ c'.marker = false ∧
      c'.held = c.held := by
  have hbegin : ∃ c₀ plan, Gets cfg a i c₀ (.blocking token ⟨.begin (Option.map .ok plan) held, false⟩) ∧ c₀.Drainable ∧
      c₀.held = c.held := by
    cases discover with
    | false =>
      rw [ThawBlocking.start_false] at h
      exact ⟨c, none, h, hc, rfl⟩
    | true =>
      refine ⟨c.note (.discovered i entries), some (buildPlan entries none), ?_, hc, rfl⟩
      rw [Option.map_some, ← ThawBlocking.plan_start]
      refine h.calls (.table (.ok entries)) rfl fun e he => ?_
      have hnews : news c (c.note (.discovered i entries)) = [.discovered i entries] := news_eq rfl
      rw [hnews, List.mem_singleton] at he
      rw [he]
      exact ⟨rfl, fun _ d hd => .inr (hlist d hd)⟩
  obtain ⟨c₀, plan, h₀, hc₀, hheld₀⟩ := hbegin
  obtain ⟨n, hresult, hheld, hmarker⟩ := thawBlocking_openKernel (i := i) plan held hc₀
  obtain ⟨k, j, hrun, hdone, hkeep⟩ := ThawBlocking.run_begin (openKernel i) (plan.map .ok) held c₀
  obtain ⟨hend, hheld'⟩ := h₀.run k
  rw [hrun] at hend hheld'
  exact ⟨n, _, j, hend, hdone.trans (by rw [hresult]), hkeep.trans hheld, hmarker, hheld'.trans hheld₀⟩

/-- From the claim of a thaw to its drain. -/
theorem Gets.claims (h : Gets cfg a i c .claim) (hs : c.state = .frozen ∨ c.state = .thawed) :
    ∃ c' token discover held, Gets cfg a i c' (.blocking token (.start (.start discover held))) ∧ c'.own = c.own ∧
      c'.depth = c.depth ∧ c'.held = [] := by
  obtain ⟨token, hclaim⟩ : ∃ token, c.state.claimThaw = .ok (.thawing, token) := by
    rcases hs with hs | hs <;> exact ⟨_, by rw [hs]; rfl⟩
  have hclaimed : Gets cfg a i ({ c with state := .thawing, owner := some i }.note (.claimed i token)) (.claimed token) :=
    h.notes (e := .claimed i token) (fun fresh => by simp [Thaw.go, Thaw.claims, hclaim]) rfl ⟨rfl, fun _ => trivial⟩
  have htake := hclaimed.go (fun fresh => rfl) (by simp)
  have hscope := htake.go (fun fresh => rfl) rfl
  have hblocking := hscope.notes (fun fresh => rfl) rfl ⟨rfl, fun _ => trivial⟩
  exact ⟨_, token, _, _, hblocking, by simp, by simp, by simp⟩

/-- From the end of a drain that succeeded to the answer. -/
theorem Gets.settles {token : ThawToken} {j : ThawBlocking} {n : Nat} (h : Gets cfg a i c (.blocking token ⟨j, false⟩))
    (hdone : j.stage = .done (.ok n)) (hkeep : j.keep = []) :
    ∃ c', Gets cfg a i c' .finished ∧ c'.state = .thawed ∧ c'.marker = c.marker ∧ c'.held = c.held ∧
      .answered i (.ok n) none ∈ c'.log := by
  have hhold : Gets cfg a i c (.hold token (.ok n) []) := h.go (fun fresh => by simp [Thaw.go, hdone, hkeep]) rfl
  have hfinalise := hhold.go (fun fresh => rfl) rfl
  have hrescope := hfinalise.go (fun fresh => rfl) rfl
  have hpublish := hrescope.go (fun fresh => rfl) rfl
  have hanswer := hpublish.notes (fun fresh => rfl) rfl ⟨rfl, fun _ => trivial⟩
  have hfinished := hanswer.notes (fun fresh => rfl) rfl ⟨rfl, fun _ => trivial⟩
  exact ⟨_, hfinished, rfl, rfl, by simp [Ctx.holdFrozenMounts, Ctx.onThawed, Ctx.note], List.mem_cons_self⟩

/-! ### The contract -/

/-- The thaw `i` by itself brings the agent back to `Thawed`, with nothing frozen, no handle and no marker. -/
def Recovers (cfg : Config) (a : Agent) (i : TaskId) : Prop :=
  ∃ b n, Machine.Steps (Agent.step cfg) (Solo i) a b ∧ b.ctx.state = .thawed ∧ b.ctx.Clean ∧ b.ctx.held = [] ∧
    b.ctx.marker = false ∧ .answered i (.ok n) none ∈ b.ctx.log

theorem recovers_of_settled {entries : List MountEntry}
    (h : Machine.Reach (Agent.step cfg) Cover.Assumed Agent.Initial a)
    (hs : a.ctx.state = .frozen ∨ a.ctx.state = .thawed) (hlist : Lists entries a.ctx) (hc : a.ctx.Drainable) :
    Recovers cfg a a.next := by
  have hrequest : Gets cfg a a.next a.ctx .claim :=
    ⟨a.spawn a.ctx (.thaw false .claim), .tail (.refl a) (a := .thaw) rfl ⟨by simp [Cover.Assumed, news], .inl rfl⟩, rfl,
      Function.update_self ..⟩
  obtain ⟨c₁, token, discover, held, hblocking, hown, hdepth, hheld⟩ := hrequest.claims hs
  have hlist₁ : Lists entries c₁ := fun d hd => hlist d (hown ▸ hd)
  have hc₁ : c₁.Drainable := fun x => hdepth ▸ hc x
  obtain ⟨n, c₂, j, hdrained, hdone, hkeep, hmarker, hheld₂⟩ := hblocking.drains hlist₁ hc₁
  obtain ⟨c₃, ⟨b, hsteps, rfl, -⟩, hthawed, hmarker₃, hheld₃, hanswer⟩ := hdrained.settles hdone hkeep
  have hreach : Machine.Reach (Agent.step cfg) Cover.Assumed Agent.Initial b := by
    have hsolo : Machine.Reach (Agent.step cfg) (Solo a.next) (· = a) b := ⟨a, rfl, hsteps⟩
    obtain ⟨a₀, ha₀, hallowed⟩ := hsolo.mono fun _ _ _ h => h.1
    exact (ha₀ ▸ h).steps hallowed
  exact ⟨b, n, hsteps, hthawed, (Cover.reach hreach).glob.thawed hthawed, hheld₃.trans (hheld₂.trans hheld),
    hmarker₃.trans hmarker, hanswer⟩

/-- After any honest history a thaw undoes every freeze, at once if no transition is under way, and after a restart in any
case, if no superblock is frozen as often as a drain has rounds. -/
theorem recoverable {cfg : Config} {a : Agent} {entries : List MountEntry}
    (h : Machine.Reach (Agent.step cfg) Cover.Assumed Agent.Initial a)
    (hlist : ∀ d, a.ctx.own d = true → ∃ e ∈ entries, isEligible e = true ∧ e.dev = d)
    (hdepth : ∀ d, a.ctx.depth d < maxThawIterations) :
    (a.ctx.state = .frozen ∨ a.ctx.state = .thawed → Recovers cfg a a.next) ∧
      Recovers cfg (.boot a.ctx a.next) (a.next + 1) := by
  refine ⟨fun hs => recovers_of_settled h hs hlist hdepth, ?_⟩
  have hboot : Machine.Reach (Agent.step cfg) Cover.Assumed Agent.Initial (.boot a.ctx a.next) :=
    h.tail (a := .crash) rfl (by simp [Cover.Assumed, news, Agent.boot, Agent.bootCtx])
  refine recovers_of_settled hboot ?_ hlist hdepth
  cases hm : a.ctx.marker with
  | true => exact .inl (by simp [Agent.boot, Agent.bootCtx, hm])
  | false => exact .inr (by simp [Agent.boot, Agent.bootCtx, hm])

/-- What `Script.freezeOne` leaves. -/
private def frozenOne : Option Agent := Machine.execute (Agent.step ⟨60, 30, 300⟩) (Agent.cold false) Script.freezeOne

private theorem frozenOne_depth : frozenOne.map (fun a => (a.ctx.depth, a.ctx.own, a.ctx.state)) =
    some (Function.update (fun _ => 0) (8, 1) 1, Function.update (fun _ => false) (8, 1) true, .frozen) := rfl

/-- After a freeze of one superblock, and after a crash in it. -/
theorem recoverable_after_freeze :
    ∃ a, Machine.Reach (Agent.step ⟨60, 30, 300⟩) Cover.Assumed Agent.Initial a ∧ a.ctx.own (8, 1) = true ∧
      Recovers ⟨60, 30, 300⟩ a a.next ∧ Recovers ⟨60, 30, 300⟩ (.boot a.ctx a.next) (a.next + 1) := by
  obtain ⟨a, ha, hctx⟩ := Option.map_eq_some_iff.1 frozenOne_depth
  simp only [Prod.mk.injEq] at hctx
  obtain ⟨hdepth, hown, hstate⟩ := hctx
  have hreach : Machine.Reach (Agent.step ⟨60, 30, 300⟩) Cover.Assumed Agent.Initial a :=
    Machine.Reach.execute (fun s act t _ => Cover.Assumed.of_check s act t) (.init (Agent.cold_initial false))
      ha (by decide)
  have hlist : ∀ d, a.ctx.own d = true → ∃ e ∈ [Script.row (8, 1) [slash]], isEligible e = true ∧ e.dev = d := by
    intro d hd
    rw [hown] at hd
    by_cases hx : d = (8, 1)
    · subst hx
      exact ⟨_, List.mem_singleton_self _, by decide, by decide⟩
    · simp [Function.update_of_ne hx] at hd
  have hless : ∀ d, a.ctx.depth d < maxThawIterations := by
    intro d
    rw [hdepth]
    by_cases hx : d = (8, 1)
    · subst hx
      decide
    · simp [Function.update_of_ne hx, maxThawIterations]
  obtain ⟨hnow, hcrash⟩ := recoverable hreach hlist hless
  exact ⟨a, hreach, by rw [hown]; rfl, hnow (.inl hstate), hcrash⟩

end Qeminga
