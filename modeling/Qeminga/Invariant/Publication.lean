import Qeminga.Invariant.Devices

/-!
# The order of publication

A freeze publishes its handles in reverse mount order, each with a newer descriptor than those before it, so the
descriptors tell in which order one operation published two handles.  `Ordered` is the order in which the handles of a
list have to be held for a drain to visit them forward.  A drain that is incomplete appends its handle to the handles
that its pass keeps: the order survives this if the pass has kept no other handle of the same operation, which is the
assumption `KeepsApart` on a run (`Publication.reach`).
-/

namespace Qeminga

/-! ### The handles that an operation published -/

/-- The handle that the event publishes for the operation `op`. -/
def Event.hands (op : TaskId) : Event → Option Mount
  | .attempted i _ (some (.frozen m)) => if i = op then some m else none
  | .attempted i _ (some (.busy m)) => if i = op then some m else none
  | _ => none

/-- The handles that the operation `op` published, in order. -/
def publishedBy (log : List Event) (op : TaskId) : List Mount := (log.filterMap (Event.hands op)).reverse

/-- Nothing was published between `c` and `c'`. -/
def Quiet (c c' : Ctx) : Prop := ∀ op, publishedBy c'.log op = publishedBy c.log op

/-- The operation `i` published `m` between `c` and `c'`. -/
structure Publishes (i : TaskId) (m : Mount) (c c' : Ctx) : Prop where
  self : publishedBy c'.log i = publishedBy c.log i ++ [m]
  other : ∀ op, op ≠ i → publishedBy c'.log op = publishedBy c.log op

section Log

variable {log new : List Event} {op : TaskId} {c c' : Ctx}

theorem publishedBy_append (h : ∀ e ∈ new, e.hands op = none) : publishedBy (new ++ log) op = publishedBy log op := by
  have hnil : new.filterMap (Event.hands op) = [] := List.filterMap_eq_nil_iff.2 h
  simp [publishedBy, hnil]

theorem Quiet.of_log (new : List Event) (hn : c'.log = new ++ c.log) (h : ∀ e ∈ new, ∀ op, e.hands op = none) :
    Quiet c c' := by
  intro op
  rw [hn]
  exact publishedBy_append fun e he => h e he op

theorem Event.hands_of_author {e : Event} (h : e.author ≠ some op) : e.hands op = none := by
  unfold Event.hands
  split
  · rw [if_neg fun he => h (congrArg some he)]
  · rw [if_neg fun he => h (congrArg some he)]
  · rfl

theorem Quiet.refl (c : Ctx) : Quiet c c := fun _ => rfl

theorem Ctx.Calls.quiet {i : TaskId} (h : c.Calls i c') : Quiet c c' := by
  obtain ⟨new, hn, hcall⟩ := h.calls
  refine .of_log new hn fun e he op => ?_
  cases e with
  | attempted => cases (hcall _ he).2
  | _ => rfl

/-- Only the holder of the token publishes. -/
theorem Event.hands_of_unowned {e : Event} (h : e.ofOwner = false) (op : TaskId) : e.hands op = none := by
  cases e with
  | attempted => cases h
  | _ => rfl

theorem publishes_of_log {i : TaskId} {t : Target} {m : Mount} {o : TargetOutcome} (ho : o = .frozen m ∨ o = .busy m)
    (hlog : c'.log = .attempted i t (some o) :: .joined i (.worker t) :: c.log) : Publishes i m c c' := by
  have hjoin : ∀ op, Event.hands op (.joined i (.worker t)) = none := fun _ => rfl
  constructor
  · rcases ho with rfl | rfl <;> simp [publishedBy, hlog, Event.hands, List.filterMap_cons_none (hjoin _)]
  · intro op hop
    have hop : ¬ i = op := fun h => hop h.symm
    rcases ho with rfl | rfl <;> simp [publishedBy, hlog, Event.hands, List.filterMap_cons_none (hjoin _), hop]

end Log

/-! ### The order of the plan -/

/-- The operation `i` prepared with the plan `plan`. -/
def Prepared (c : Ctx) (i : TaskId) (plan : FreezePlan) : Prop := .prepared i (.prepared plan) ∈ c.log

namespace Driver

open FreezePlan (targetDevs)

/-- The handles that the operation returned are those it published, and with the targets left they follow the plan. -/
structure Planned (c : Ctx) (i : TaskId) (d : Driver) : Prop where
  returned : publishedBy c.log i = d.returned
  preparing : d.pc.preparing = true → d.returned = [] ∧ ∀ plan, ¬ Prepared c i plan
  order : ∀ plan, Prepared c i plan →
    (devs d.returned ++ targetDevs d.pc.targets).Sublist (targetDevs plan.freezeOrder)

variable {cfg : Config} {c c' : Ctx} {i fresh : TaskId} {d d' : Driver} {new : Option Dog}

/-- A step that publishes nothing. -/
private theorem Planned.sub (h : d.Planned c i) (log' : List Event) (hlog : c'.log = log' ++ c.log)
    (hnew : ∀ e ∈ log', e.hands i = none ∧ ∀ plan, e ≠ .prepared i (.prepared plan)) (hr : d'.returned = d.returned)
    (ht : d'.pc.targets.Sublist d.pc.targets) (hp : d'.pc.preparing = true → d.pc.preparing = true) :
    d'.Planned c' i := by
  have hprep : ∀ plan, Prepared c' i plan → Prepared c i plan := by
    intro plan he
    rw [Prepared, hlog] at he
    exact (List.mem_append.1 he).resolve_left fun he => (hnew _ he).2 plan rfl
  refine ⟨?_, fun hp' => ?_, fun plan he => ?_⟩
  · rw [hlog, publishedBy_append fun e he => (hnew e he).1, hr]
    exact h.returned
  · obtain ⟨hnil, hnone⟩ := h.preparing (hp hp')
    exact ⟨hr.trans hnil, fun plan he => hnone plan (hprep plan he)⟩
  · rw [hr]
    exact ((ht.map _).append_left _).trans (h.order plan (hprep plan he))

/-- The worker on the target `t` returns the handle `m`, which is published. -/
private theorem Planned.returns (h : d.Planned c i) {t : Target} {rest : List Target} {m : Mount} {o : TargetOutcome}
    (ht : d.pc.targets = t :: rest) (hm : m.dev = t.dev) (ho : o = .frozen m ∨ o = .busy m)
    (hlog : c'.log = .attempted i t (some o) :: .joined i (.worker t) :: c.log) (hr : d'.returned = d.returned ++ [m])
    (hpc : d'.pc = .head rest) : d'.Planned c' i := by
  refine ⟨?_, fun hp => ?_, fun plan he => ?_⟩
  · rw [(publishes_of_log ho hlog).self, h.returned, hr]
  · rw [hpc] at hp
    cases hp
  · have he : Prepared c i plan := by
      rw [Prepared, hlog] at he
      simpa [Prepared] using he
    have hsub := h.order plan he
    rw [ht] at hsub
    rw [hr, hpc, devs_append]
    simpa [targetDevs, Pc.targets, hm] using hsub

private theorem unplanned_of_calls (h : c.Calls i c') :
    ∃ log', c'.log = log' ++ c.log ∧ ∀ e ∈ log', e.hands i = none ∧ ∀ plan, e ≠ .prepared i (.prepared plan) := by
  obtain ⟨log', hlog, hcall⟩ := h.calls
  refine ⟨log', hlog, fun e he => ?_⟩
  have := (hcall e he).2
  cases e with
  | attempted => cases this
  | prepared => cases this
  | _ => exact ⟨rfl, fun _ h => by cases h⟩

private theorem Planned.call (h : d.Planned c i) {tr tr' : Tracked} (ht : d.tracked = some tr) (hc : tr.Call c i c' tr') :
    (d.withTracked tr').Planned c' i := by
  obtain ⟨⟨hold, hprep⟩, hnew⟩ := targets_of_tracked ht
  obtain ⟨htargets, hpreparing⟩ := hnew tr'
  obtain ⟨log', hlog, hevents⟩ := unplanned_of_calls hc.calls
  have hsub : tr'.targets.Sublist tr.targets → tr'.preparing = tr.preparing → (d.withTracked tr').Planned c' i := by
    intro hs hp
    refine h.sub log' hlog hevents rfl (by rw [htargets, hold]; exact hs) fun hp' => ?_
    rw [hprep, ← hp, ← hpreparing]
    exact hp'
  cases hc with
  | planned restrict entries =>
    -- the plan is made before it is recorded
    obtain ⟨hret, hnone⟩ := h.preparing (by rw [hprep]; rfl)
    exact ⟨h.returned, fun _ => ⟨hret, hnone⟩, fun plan he => absurd he (hnone plan)⟩
  | _ => exact hsub (by simp [Tracked.targets, Prep.targets]) rfl

theorem ending_ne_prepared {j : Job Prep} (hj : j.lost = true ∨ ∃ failure, j = ⟨.done (.error failure), false⟩)
    (plan : FreezePlan) : Prep.ending j ≠ .prepared plan := by
  intro he
  unfold Prep.ending at he
  rcases hj with hj | ⟨failure, rfl⟩
  · rw [if_pos hj] at he
    cases he
  · simp only [Bool.false_eq_true, if_false] at he
    split at he <;> cases he
    rename_i hd
    cases hd

theorem Move.planned (hm : Move cfg c i fresh d c' d' new) (hw : d.WF) (h : d.Planned c i) : d'.Planned c' i := by
  cases hm
  case froze hpc hd =>
    subst hd
    exact h.returns (by rw [hpc]; rfl) (hw.trackedAt hpc) (.inl rfl) rfl rfl rfl
  case busy hpc hd =>
    subst hd
    exact h.returns (by rw [hpc]; rfl) (hw.trackedAt hpc) (.inr rfl) rfl rfl rfl
  case prepared plan hpc =>
    obtain ⟨hret, hnone⟩ := h.preparing (by rw [hpc]; rfl)
    refine ⟨h.returned, by rintro ⟨⟩, fun plan' he => ?_⟩
    obtain rfl : plan' = plan := by
      rcases List.mem_cons.1 he with he | he
      · cases he
        rfl
      · exact absurd ((List.mem_cons.1 he).resolve_left (by rintro ⟨⟩)) (hnone plan')
    show (devs d.returned ++ targetDevs plan'.freezeOrder).Sublist _
    rw [hret]
    exact .refl _
  case call ht hc => exact h.call ht hc
  case lose tr ht =>
    obtain ⟨⟨hold, hprep⟩, hnew⟩ := targets_of_tracked ht
    obtain ⟨htargets, hpreparing⟩ := hnew (loseJob tr)
    refine h.sub [] rfl (by simp) rfl ?_ ?_
    · rw [htargets, hold]
      cases tr <;> exact List.Sublist.refl _
    · rw [hpreparing, hprep]
      cases tr <;> exact id
  case abort hpc =>
    rcases hpc with hpc | hpc | ⟨hpc, rfl⟩ <;>
      exact h.sub [] rfl (by simp) rfl (by rw [hpc]; exact List.Sublist.refl _) (by rw [hpc]; exact id)
  case interrupt hpc harm hc =>
    have hlog : c'.log = [] ++ c.log := by rcases hc with rfl | rfl <;> rfl
    exact h.sub [] hlog (by simp) rfl (by rw [hpc]; exact List.Sublist.refl _) (by rw [hpc]; exact id)
  case announce k hpc =>
    refine h.sub [] rfl (by simp) rfl ?_ ?_
    · rw [hpc]
      cases k with
      | boundary b => cases b <;> simp [Resume.pc, Pc.targets, Resume.targets, Boundary.targets]
      | «await» tr => exact List.Sublist.refl _
    · rw [hpc]
      cases k with
      | boundary b => cases b <;> exact id
      | «await» tr => exact id
  case joinDrain => exact h.sub [_] rfl (by simp [Event.hands]) rfl (List.Sublist.refl _) id
  case joinDrainRestart => exact h.sub [_, _] rfl (by simp [Event.hands]) rfl (List.Sublist.refl _) id
  case settleDrain => exact h.sub [_] rfl (by simp [Event.hands]) rfl (List.Sublist.refl _) id
  case drain hc =>
    obtain ⟨log', hlog, hevents⟩ := unplanned_of_calls (Ctx.fithaw_calls hc)
    exact h.sub log' hlog hevents rfl (List.Sublist.refl _) id
  case loseDrain => exact h.sub [] rfl (by simp) rfl (List.Sublist.refl _) id
  case lateResult hpc ho ha =>
    refine h.sub [_, _] rfl ?_ rfl (by rw [hpc]; exact List.sublist_cons_self _ _) (by rw [hpc]; rintro ⟨⟩)
    rcases ho with rfl | ⟨stop, rfl⟩ <;> simp [Event.hands]
  case prepAborted j hpc hj ha =>
    have hend := ending_ne_prepared (j := j) hj
    exact h.sub [_, _] rfl (by simp [Event.hands, hend]) rfl (List.nil_sublist _) (by rintro ⟨⟩)
  case prepLost j failure hpc hj ha =>
    have hend := ending_ne_prepared (j := j) (hj.imp And.left fun he => ⟨failure, he.1⟩)
    exact h.sub [_, _, _] rfl (by simp [Event.hands, hend]) rfl (List.nil_sublist _) (by rintro ⟨⟩)
  case prepFailed failure hpc hf ha =>
    have hend := ending_ne_prepared (j := ⟨.done (.error failure), false⟩) (.inr ⟨failure, rfl⟩)
    exact h.sub [_, _] rfl (by simp [Event.hands, hend]) rfl (List.nil_sublist _) (by rintro ⟨⟩)
  case commit terminal reply hpc => exact h.sub [] rfl (by simp) rfl (List.nil_sublist _) (by cases terminal <;> rintro ⟨⟩)
  all_goals
    have hpc := ‹d.pc = _›
    first
    | exact h.sub [] rfl (by simp) rfl (by rw [hpc]; exact List.Sublist.refl _) (by rw [hpc]; exact id)
    | exact h.sub [] rfl (by simp) rfl (List.nil_sublist _) (by rw [hpc]; rintro ⟨⟩)
    | exact h.sub [_] rfl (by simp [Event.hands]) rfl (by rw [hpc]; exact List.Sublist.refl _) (by rw [hpc]; exact id)
    | exact h.sub [_] rfl (by simp [Event.hands]) rfl (List.nil_sublist _) (by rw [hpc]; rintro ⟨⟩)
    | exact h.sub [_, _] rfl (by simp [Event.hands]) rfl (List.nil_sublist _) (by rw [hpc]; rintro ⟨⟩)
    | exact h.sub [_, _] rfl (by simp [Event.hands]) rfl (by rw [hpc]; exact List.sublist_cons_self _ _) (by rw [hpc]; rintro ⟨⟩)
    | exact h.sub [_, _, _] rfl (by simp [Event.hands]) rfl (List.nil_sublist _) (by rw [hpc]; rintro ⟨⟩)
    | exact h.sub [] (by simp) (by simp) rfl (by rw [hpc]; exact List.Sublist.refl _) (by rw [hpc]; exact id)

end Driver

/-- Only the driver of an operation prepares and publishes. -/
theorem Task.Move.unplanned {cfg : Config} {c c' : Ctx} {i fresh : TaskId} {t t' : Task} {new : Option Dog}
    (hm : Task.Move cfg c i fresh t c' t' new) (ht : ∀ d, t ≠ .driver d) :
    ∃ log', c'.log = log' ++ c.log ∧ ∀ e ∈ log', ∀ op, e.hands op = none ∧ ∀ plan, e ≠ .prepared op (.prepared plan) := by
  cases hm with
  | driver h => exact absurd rfl (ht _)
  | thaw h =>
    cases h
    case call hc =>
      cases hc with
      | discovered entries hs => exact ⟨[_], rfl, by simp [Event.hands]⟩
      | undiscovered message hs => exact ⟨[], rfl, by simp⟩
      | opened hs => exact ⟨[], rfl, by simp⟩
      | notOpened err hs => exact ⟨[], rfl, by simp⟩
      | fithaw hs h =>
        rcases Ctx.fithaw_cases h with ⟨-, -, rfl⟩ | ⟨err, -, rfl⟩ <;> exact ⟨[_], rfl, by simp [Event.hands]⟩
      | unlinked hs h =>
        rcases Ctx.unlink_cases h with ⟨-, -, rfl⟩ | ⟨-, -, rfl⟩ | ⟨e, -, rfl⟩ <;> exact ⟨[], rfl, by simp⟩
    case cancel => exact ⟨[], by simp, by simp⟩
    case install => exact ⟨[], by simp, by simp⟩
    all_goals first
      | exact ⟨[], rfl, by simp⟩
      | exact ⟨[_], rfl, by simp [Event.hands]⟩
  | dogClaims => exact ⟨[_], rfl, by simp [Event.hands]⟩
  | startInstall => exact ⟨[], by simp, by simp⟩
  | _ => exact ⟨[], rfl, by simp⟩

namespace Planned

open FreezePlan (targetDevs)

def Glob (c : Ctx) (_ : TaskId) : Prop :=
  ∀ op plan, Prepared c op plan → (devs (publishedBy c.log op)).Sublist (targetDevs plan.freezeOrder)

def Loc (c : Ctx) (i : TaskId) : Task → Prop
  | .driver d => d.Planned c i
  | _ => True

variable {cfg : Config} {c c' : Ctx} {i j fresh : TaskId} {t t' u : Task} {new : Option Dog}

/-- What the history says of the operation `j` is not concerned by a step of another task. -/
private theorem same_of_adds (ha : c.Adds i c') (hj : j ≠ i) :
    publishedBy c'.log j = publishedBy c.log j ∧ ∀ plan, Prepared c' j plan ↔ Prepared c j plan := by
  obtain ⟨log', hlog, hby⟩ := ha
  refine ⟨by rw [hlog]; exact publishedBy_append fun e he => Event.hands_of_author fun h => hj (hby e he j h), fun plan => ?_⟩
  rw [Prepared, Prepared, hlog, List.mem_append]
  exact or_iff_right fun he => hj (hby _ he j rfl)

theorem Loc.other (h : Loc c j u) (ha : c.Adds i c') (hj : j ≠ i) : Loc c' j u := by
  obtain ⟨hpub, hprep⟩ := same_of_adds ha hj
  cases u with
  | driver d =>
    have h : d.Planned c j := h
    exact ⟨hpub.trans h.returned, fun hp => ⟨(h.preparing hp).1, fun plan he => (h.preparing hp).2 plan ((hprep plan).1 he)⟩,
      fun plan he => h.order plan ((hprep plan).1 he)⟩
  | _ => trivial

/-- An operation publishes its handles in the order of its plan, in every run. -/
theorem reach {ok : Agent → Action → Agent → Prop} {a : Agent}
    (h : Machine.Reach (Agent.step cfg) ok Agent.Initial a) : a.Holds Glob Loc := by
  refine h.invariant (fun a h => ?_) (fun a act a' hr ih hs _ => ?_)
  · obtain ⟨c, n, rfl⟩ := h.booted
    have hlog : (Agent.bootCtx c).log = [] := h.log
    refine Agent.boot_holds (fun op plan he => ?_) fun _ => trivial
    rw [Prepared, hlog] at he
    cases he
  · have htok := Tokens.reach hr
    have hreg := Registry.reach hr
    refine Agent.holds_step ih hs ?_ ?_ ⟨ih.glob, trivial, trivial⟩ ?_ fun _ => ⟨ih.glob, fun _ => trivial⟩
    · intro i t c' t' new ht hm _
      have ha := hm.grows.log
      have hL : Loc c' i t' := by
        cases hm with
        | driver h => exact h.planned (htok.loc ht).wf (ih.loc ht)
        | _ => trivial
      refine ⟨fun op plan he => ?_, fun _ => id, hL, fun _ _ => trivial, fun j u hj _ hl => hl.other ha hj⟩
      by_cases hop : op = i
      · subst hop
        cases t with
        | driver d =>
          cases hm with
          | @driver _ d' _ _ h =>
            have hd : d'.Planned c' op := hL
            rw [hd.returned]
            exact (List.sublist_append_left _ _).trans (hd.order plan he)
        | _ =>
          obtain ⟨log', hlog, hevents⟩ := hm.unplanned fun _ h => by cases h
          rw [hlog, publishedBy_append fun e he => (hevents e he op).1]
          rw [Prepared, hlog] at he
          exact ih.glob op plan ((List.mem_append.1 he).resolve_left fun he => (hevents _ he op).2 plan rfl)
      · obtain ⟨hpub, hprep⟩ := same_of_adds ha hop
        rw [hpub]
        exact ih.glob op plan ((hprep plan).1 he)
    · intro restrict hst _
      have ha : a.ctx.Adds a.next (Agent.freezeCtx cfg a.ctx a.next restrict) :=
        ⟨[_, _], rfl, by simp [Event.By, Event.author]⟩
      have hnone : ∀ plan, ¬ Prepared (Agent.freezeCtx cfg a.ctx a.next restrict) a.next plan := by
        intro plan he
        have hold : Prepared a.ctx a.next plan := by simpa [Prepared, Agent.freezeCtx] using he
        exact hreg.glob.unheard hold rfl
      have hpub : publishedBy (Agent.freezeCtx cfg a.ctx a.next restrict).log a.next = [] := by
        have hold : a.ctx.log.filterMap (Event.hands a.next) = [] :=
          List.filterMap_eq_nil_iff.2 fun e he => Event.hands_of_author (hreg.glob.unheard he)
        exact congrArg List.reverse hold
      refine ⟨fun op plan he => ?_, ⟨hpub, fun _ => ⟨rfl, hnone⟩, fun plan he => absurd he (hnone plan)⟩,
        fun j u hj _ hl => hl.other ha (Nat.ne_of_lt hj)⟩
      by_cases hop : op = a.next
      · subst hop
        exact absurd he (hnone plan)
      · obtain ⟨hsame, hprep⟩ := same_of_adds ha hop
        rw [hsame]
        exact ih.glob op plan ((hprep plan).1 he)
    · intro c' he _
      have hlog : c'.log = a.ctx.log := by cases he <;> rfl
      refine ⟨fun op plan he => ?_, fun j u hu hl => ?_⟩
      · rw [Prepared, hlog] at he
        rw [hlog]
        exact ih.glob op plan he
      · cases u with
        | driver d =>
          have hl : d.Planned a.ctx j := hl
          have hprep : ∀ plan, Prepared c' j plan → Prepared a.ctx j plan := fun plan he => by
            rwa [Prepared, hlog] at he
          exact ⟨by rw [hlog]; exact hl.returned,
            fun hp => ⟨(hl.preparing hp).1, fun plan he => (hl.preparing hp).2 plan (hprep plan he)⟩,
            fun plan he => hl.order plan (hprep plan he)⟩
        | _ => trivial

end Planned

/-! ### Handles in order -/

/-- If one operation published both, it published `x` first. -/
def InOrder (log : List Event) (x y : Mount) : Prop :=
  ∀ op, x ∈ publishedBy log op → y ∈ publishedBy log op → x.fd < y.fd

/-- The handles are in the order in which they were published. -/
def Ordered (log : List Event) (ms : List Mount) : Prop := ms.Pairwise (InOrder log)

namespace Ordered

variable {log log' : List Event} {ms ns : List Mount} {c c' : Ctx} {m : Mount} {i : TaskId}

theorem nil (log : List Event) : Ordered log [] := List.Pairwise.nil

theorem sublist (h : Ordered log ms) (hs : ns.Sublist ms) : Ordered log ns := List.Pairwise.sublist hs h

theorem quiet (h : Ordered c.log ms) (hq : Quiet c c') : Ordered c'.log ms := by
  refine List.Pairwise.imp (fun {x y} hxy op hx hy => ?_) h
  rw [hq op] at hx hy
  exact hxy op hx hy

/-- A publication does not concern the handles that were there. -/
theorem publish (h : Ordered c.log ms) (hp : Publishes i m c c') (hm : m ∉ ms) : Ordered c'.log ms := by
  have hold : ∀ {x op}, x ∈ ms → x ∈ publishedBy c'.log op → x ∈ publishedBy c.log op := by
    intro x op hx hpub
    by_cases hop : op = i
    · subst hop
      rw [hp.self, List.mem_append, List.mem_singleton] at hpub
      exact hpub.resolve_right fun he => hm (he ▸ hx)
    · rwa [hp.other op hop] at hpub
  refine List.Pairwise.imp_of_mem (fun {x y} hx hy hxy op hpx hpy => ?_) h
  exact hxy op (hold hx hpx) (hold hy hpy)

/-- The handle that is published is held last. -/
theorem snoc (h : Ordered c.log ms) (hp : Publishes i m c c') (hm : m ∉ ms)
    (habove : ∀ op, ∀ x ∈ publishedBy c.log op, x.fd < m.fd) : Ordered c'.log (ms ++ [m]) := by
  refine List.pairwise_append.2 ⟨h.publish hp hm, List.pairwise_singleton _ _, fun x hx y hy op hpx hpy => ?_⟩
  obtain rfl := List.mem_singleton.1 hy
  by_cases hop : op = i
  · subst hop
    rw [hp.self, List.mem_append, List.mem_singleton] at hpx
    rcases hpx with hpx | rfl
    · exact habove op x hpx
    · exact absurd hx hm
  · -- another operation has not published `y`
    rw [hp.other op hop] at hpy
    exact absurd (habove op y hpy) (Nat.lt_irrefl _)

/-- A handle goes behind those that its pass kept before it. -/
theorem keeps {as bs keep : List Mount} (h : Ordered log (as ++ m :: keep ++ bs)) (hk : ∀ x ∈ keep, InOrder log x m) :
    Ordered log (as ++ (keep ++ [m]) ++ bs) := by
  unfold Ordered at h ⊢
  simp only [List.append_assoc, List.cons_append, List.pairwise_append, List.pairwise_cons, List.mem_append,
    List.mem_cons, List.nil_append] at h ⊢
  obtain ⟨has, ⟨⟨hm, hkeep, hbs, hkb⟩, hab⟩⟩ := h
  refine ⟨has, ⟨hkeep, ⟨fun y hy => hm y (.inr hy), hbs⟩, fun x hx y hy => ?_⟩, fun x hx y hy => ?_⟩
  · rcases hy with rfl | hy
    · exact hk x hx
    · exact hkb x hx y hy
  · rcases hy with hy | rfl | hy
    · exact hab x hx y (.inr (.inl hy))
    · exact hab x hx y (.inl rfl)
    · exact hab x hx y (.inr (.inr hy))

end Ordered

/-! ### Incomplete drains -/

/-- A drain in progress: the handle, the successful calls on it so far, and the handles that its pass has kept. -/
structure Visit where
  mount : Mount
  successes : Nat
  keep : List Mount

def DrainHeld.visit (j : DrainHeld) : Option Visit := j.todo.head?.map fun m => ⟨m, j.successes, j.keep⟩

def ThawBlocking.visit (j : ThawBlocking) : Option Visit :=
  match j.stage with
  | .drain m n => some ⟨m, n, j.keep⟩
  | _ => none

/-- The pass over held handles that a driver has: its recovery drain or its rollback. -/
def Driver.pass (d : Driver) : Option DrainHeld := (d.recovery.map Job.val).or d.pc.rolling

/-- The drain that the task's next `FITHAW` belongs to. -/
def Task.visit : Task → Option Visit
  | .driver d => d.pass.bind DrainHeld.visit
  | .thaw _ (.blocking _ j) => j.val.visit
  | _ => none

/-- No pass keeps two handles that one operation published: when the answer to a `FITHAW` makes a drain incomplete, its
pass has kept no other handle of an operation that published this one. -/
def KeepsApart (a : Agent) (_ : Action) (a' : Agent) : Prop :=
  ∀ i t v d r res, a.tasks i = some t → t.visit = some v → .fithaw i d r ∈ news a.ctx a'.ctx →
    drainCall v.successes r = .ended res → res.incomplete.isSome = true →
    ∀ x ∈ v.keep, ∀ op, x ∈ publishedBy a.ctx.log op → v.mount ∉ publishedBy a.ctx.log op

theorem news_of_fithaw {c c' : Ctx} {i : TaskId} {x : Dev} {r : Except KernelError Unit} (h : c.fithaw i x r = some c') :
    news c c' = [.fithaw i x r] := by
  rcases Ctx.fithaw_cases h with ⟨rfl, -, rfl⟩ | ⟨err, rfl, rfl⟩ <;> exact news_eq rfl

theorem mem_news_of_fithaw {c c' : Ctx} {i : TaskId} {x : Dev} {r : Except KernelError Unit}
    (h : c.fithaw i x r = some c') : .fithaw i x r ∈ news c c' := news_of_fithaw h ▸ List.mem_cons_self

/-! ### The handles of an operation, in the order of their publication -/

/-- The handles of a pass: those to drain, the next one last, then those it keeps. -/
def DrainHeld.line (j : DrainHeld) : List Mount := j.todo.reverse ++ j.keep

namespace Driver

/-- The handles of an operation, `held` being what the context holds. -/
def line (held : List Mount) (d : Driver) : List Mount :=
  d.kept ++ ((d.recovery.map Job.val).elim [] DrainHeld.line ++ (held ++ d.pc.rolling.elim [] DrainHeld.line))

section Steps

variable {cfg : Config} {c c' : Ctx} {i fresh : TaskId} {d d' : Driver} {new : Option Dog}

theorem held_sublist_line (held : List Mount) (d : Driver) : held.Sublist (d.line held) :=
  (List.sublist_append_left _ _).trans ((List.sublist_append_right _ _).trans (List.sublist_append_right _ _))

theorem recovery_of_rolling (hw : d.WF) {j : DrainHeld} (h : d.pc.rolling = some j) : d.recovery = none := by
  unfold Pc.rolling at h
  split at h
  · rename_i hpc
    have hopen : Open d := hw.at hpc
    exact hopen.recovery
  · cases h

/-- What a step of an operation does to the order of its handles: it leaves it, except that some may be gone; it
publishes the handle of its worker; or an incomplete drain keeps its handle. -/
inductive Reorders (c : Ctx) (i : TaskId) (d : Driver) (c' : Ctx) (d' : Driver) : Prop
  | stays (hq : Quiet c c') (hl : (d'.line c'.held).Sublist (d.line c.held))
  | publishes {m : Mount} (hp : Publishes i m c c') (ho : d.pc.opened = [m]) (ho' : d'.pc.opened = [])
      (hl : d'.line c'.held = d.line c.held ++ [m])
  | keeps {v : Visit} {as bs : List Mount} {r : Except KernelError Unit} {res : Drained} (hq : Quiet c c')
      (hv : d.pass.bind DrainHeld.visit = some v) (he : .fithaw i v.mount.dev r ∈ news c c')
      (hr : Qeminga.drainCall v.successes r = .ended res) (hres : res.incomplete.isSome = true)
      (hl : d.line c.held = as ++ v.mount :: v.keep ++ bs) (hl' : d'.line c'.held = as ++ (v.keep ++ [v.mount]) ++ bs)

private theorem line_congr (hh : c'.held = c.held) (hk : d'.kept = d.kept) (hr : d'.recovery = d.recovery)
    (hp : d'.pc.rolling = d.pc.rolling) : d'.line c'.held = d.line c.held := by
  simp only [line, hh, hk, hr, hp]

/-- One `FITHAW` of a pass. -/
private theorem reorders_fithaw (as bs : List Mount) {j : DrainHeld} {m : Mount} {rest : List Mount}
    {r : Except KernelError Unit} (htodo : j.todo = m :: rest) (hc : c.fithaw i m.dev r = some c') (hv : d.pass = some j)
    (hl : d.line c.held = as ++ j.line ++ bs) (hl' : d'.line c'.held = as ++ (j.fithaw r).line ++ bs) :
    Reorders c i d c' d' := by
  have hq := (Ctx.fithaw_calls hc).quiet
  rcases DrainHeld.fithaw_cases htodo r with ⟨n, he⟩ | ⟨res, reason, hcall, hres, he⟩ | ⟨res, -, -, he⟩ <;> rw [he] at hl'
  · exact .stays hq (by rw [hl', hl]; exact .refl _)
  · refine @Reorders.keeps c i d c' d' ⟨m, j.successes, j.keep⟩ (as ++ rest.reverse) bs r res hq ?_ (mem_news_of_fithaw hc)
      hcall (by rw [hres]; rfl) ?_ ?_
    · rw [hv, Option.bind_some, DrainHeld.visit, htodo]
      rfl
    · rw [hl]
      simp [DrainHeld.line, htodo]
    · rw [hl']
      simp [DrainHeld.line]
  · refine .stays hq ?_
    rw [hl', hl]
    refine (List.Sublist.append_left ?_ as).append_right bs
    simp only [DrainHeld.line, htodo, List.reverse_cons, List.append_assoc]
    exact (List.sublist_append_right _ _).append_left _

/-- A recovery drain that ended is joined. -/
private theorem line_recorded {held : List Mount} {j : Job DrainHeld} (hr : d.recovery = some j)
    (he : drainEnded j = true) : ((d.recorded j).line held).Sublist (d.line held) := by
  simp only [line, recorded, hr, Option.map_some, Option.map_none, Option.elim_some, Option.elim_none, List.nil_append]
  cases hlost : j.lost with
  | true =>
    simp only [if_true]
    exact (List.sublist_append_right _ _).append_left _
  | false =>
    have htodo : j.val.todo = [] := by simpa [drainEnded, hlost] using he
    simp only [Bool.false_eq_true, if_false, DrainHeld.line, htodo, List.reverse_nil, List.nil_append,
      List.append_assoc]
    exact .refl _

theorem rolling_of_tracked {tr tr' : Tracked} (ht : d.tracked = some tr)
    (he : (Pc.await tr').rolling = (Pc.await tr).rolling) : (d.withTracked tr').pc.rolling = d.pc.rolling := by
  rcases tracked_cases ht with ⟨hpc, h⟩ | ⟨stage, hpc, h⟩
  · rw [h, hpc]
    exact he
  · rw [h, hpc]
    rfl

/-- The handles of the context go to a recovery drain. -/
private theorem line_recover {held : List Mount} {pc : Pc} (hr : d.recovery = none) (hp : pc.rolling = d.pc.rolling) :
    ({ d with recovery := some (.start (.start held)), pc := pc } : Driver).line [] = d.line held := by
  simp [line, hr, hp, Job.start, DrainHeld.line, DrainHeld.start]

theorem Move.reorders (hm : Move cfg c i fresh d c' d' new) (hw : d.WF) : Reorders c i d c' d' := by
  have same : Quiet c c' → d'.line c'.held = d.line c.held → Reorders c i d c' d' :=
    fun hq hl => .stays hq (by rw [hl])
  cases hm
  case abort hpc => rcases hpc with hpc | hpc | ⟨hpc, -⟩ <;> exact same (.refl _) (line_congr rfl rfl rfl (by rw [hpc]; rfl))
  case interrupt tr cause hpc harm hc =>
    have hh : c'.held = c.held ∧ Quiet c c' := by rcases hc with rfl | rfl <;> exact ⟨rfl, .refl _⟩
    refine same hh.2 (line_congr hh.1 rfl rfl ?_)
    cases tr <;> first | (rw [hpc]; rfl) | cases harm
  case announce k hpc =>
    have hk := (hw.at hpc).2
    refine same (.refl _) (line_congr rfl rfl rfl ?_)
    cases k with
    | boundary b => cases b <;> (rw [hpc]; rfl)
    | «await» tr =>
      have := hk tr rfl
      cases tr <;> first | (rw [hpc]; rfl) | cases this
  case recover k hpc hr hh => exact same (.of_log [_] rfl (by simp [Event.hands])) (line_recover hr (by rw [hpc]; rfl))
  case joinDrain hpc hr he hh =>
    exact .stays (.of_log [_] rfl (by simp [Event.hands])) (line_recorded hr he)
  case joinDrainRestart j hpc hr he hh =>
    refine .stays (.of_log [_, _] rfl (by simp [Event.hands])) ?_
    have hrestart : ({ d.recorded j with recovery := some (.start (.start c.held)) } : Driver).line [] =
        (d.recorded j).line c.held := line_recover rfl rfl
    exact hrestart ▸ line_recorded hr he
  case settleDrain hpc hr hh => exact same (.of_log [_] rfl (by simp [Event.hands])) (line_recover hr rfl)
  case settleFrozen hpc hr hh hu =>
    refine same (.refl _) ?_
    simp [line, hr, hh, hpc, concludes, Pc.rolling]
  case froze t rest m hpc hd =>
    subst hd
    have hopen : d.pc.rolling = none := by rw [hpc]; rfl
    have hhead : (Pc.head rest).rolling = none := rfl
    exact .publishes (publishes_of_log (.inl rfl) rfl) (by rw [hpc]; rfl) rfl (by simp [line, hopen, hhead])
  case busy t rest m hpc hd =>
    subst hd
    have hopen : d.pc.rolling = none := by rw [hpc]; rfl
    have hhead : (Pc.head rest).rolling = none := rfl
    exact .publishes (publishes_of_log (.inr rfl) rfl) (by rw [hpc]; rfl) rfl (by simp [line, hopen, hhead])
  case hardError t rest stop hpc ha =>
    refine same (.of_log [_, _, _] rfl (by simp [Event.hands])) ?_
    simp [line, hpc, Pc.rolling, Job.start, Rollback.start, DrainHeld.line, DrainHeld.start]
  case rollbackLost hpc =>
    refine .stays (.of_log [_] rfl (by simp [Event.hands])) ?_
    simp only [line, hpc, Pc.rolling, concludes, Option.elim_none, List.append_nil, Ctx.note_guarded]
    exact ((List.sublist_append_left _ _).append_left _).append_left _
  case rolledBack v hpc hf =>
    have htodo : v.drain.todo = [] := by
      simp only [Rollback.finished, Bool.and_eq_true, List.isEmpty_iff] at hf
      exact hf.1
    refine same (.of_log [_] rfl (by simp [Event.hands])) ?_
    simp [line, hpc, Pc.rolling, concludes, DrainHeld.line, htodo]
  case lateResult t rest o hpc ho ha =>
    refine same (.of_log [_, _] rfl ?_) (line_congr (by simp) rfl rfl (by rw [hpc]; rfl))
    rcases ho with rfl | ⟨stop, rfl⟩ <;> simp [Event.hands]
  case call tr tr' ht hc =>
    have hq := hc.calls.quiet
    have hheld := hc.calls.held
    cases hc with
    | @rollbackDrains v m rest r c' htodo hc =>
      rcases tracked_cases ht with ⟨hpc, hwith⟩ | ⟨stage, hpc, -⟩
      · have hrec : d.recovery = none := recovery_of_rolling hw (j := v.drain) (by rw [hpc]; rfl)
        refine reorders_fithaw (d.kept ++ c.held) [] htodo hc ?_ ?_ ?_
        · simp [pass, hrec, hpc, Pc.rolling]
        · simp [line, hrec, hpc, Pc.rolling]
        · simp [line, hwith, hrec, Pc.rolling, hheld]
      · have hab := (hw.at hpc).2 _ rfl
        cases hab
    | _ => exact same hq (line_congr hheld rfl rfl (rolling_of_tracked ht rfl))
  case lose tr ht => exact same (.refl _) (line_congr rfl rfl rfl (rolling_of_tracked ht (by cases tr <;> rfl)))
  case drain j m rest r hr htodo hc =>
    have hheld := (Ctx.fithaw_calls hc).held
    refine reorders_fithaw d.kept (c.held ++ d.pc.rolling.elim [] DrainHeld.line) htodo hc ?_ ?_ ?_
    · simp [pass, hr]
    · simp [line, hr]
    · simp [line, hheld]
  case loseDrain j hr => exact same (.refl _) (by simp [line, hr])
  all_goals
    have hpc := ‹d.pc = _›
    refine same ?_ (line_congr (by simp) rfl rfl (by rw [hpc]; rfl))
    first
      | exact .refl _
      | exact .of_log [_] rfl (by simp [Event.hands])
      | exact .of_log [_, _] rfl (by simp [Event.hands])
      | exact .of_log [] (by simp) (by simp)

/-- A worker's handle was there, or has just been opened. -/
theorem Move.opened (hm : Move cfg c i fresh d c' d' new) {m : Mount} (h : m ∈ d'.pc.opened) :
    m ∈ d.pc.opened ∨ m.fd = c.fd := by
  have same : d'.pc.opened = d.pc.opened → m ∈ d.pc.opened ∨ m.fd = c.fd := fun he => .inl (he ▸ h)
  cases hm
  case announce k hpc =>
    refine same ?_
    rw [hpc]
    cases k with
    | boundary b => cases b <;> rfl
    | «await» tr => rfl
  case call tr tr' ht hc =>
    obtain ⟨hold, hnew⟩ := opened_of_tracked ht
    rw [hnew] at h
    rw [hold]
    cases hc with
    | opened t rest path paths attempts =>
      obtain rfl := List.mem_singleton.1 h
      exact .inr rfl
    | fifreeze t rest m' aborted clock r =>
      refine .inl ?_
      rcases Worker.answered_cases m' r with ⟨he, -⟩ | ⟨err, -, he | he | he⟩
      · simpa [Tracked.opened, Worker.opened, he] using h
      · simp [Tracked.opened, Worker.opened, he] at h
      · simpa [Tracked.opened, Worker.opened, he] using h
      · simp [Tracked.opened, Worker.opened, he] at h
    | _ => first
      | exact .inl h
      | cases h
  case lose tr ht =>
    obtain ⟨hold, hnew⟩ := opened_of_tracked ht
    refine same ?_
    rw [hnew, hold]
    cases tr <;> rfl
  case joinDrain => exact .inl h
  case joinDrainRestart => exact .inl h
  case settleDrain => exact .inl h
  case drain => exact .inl h
  case loseDrain => exact .inl h
  case froze hd => subst hd; cases h
  case busy hd => subst hd; cases h
  all_goals first
    | exact same (by rw [‹d.pc = _›]; rfl)
    | cases h

end Steps

end Driver

/-! ### The order in a thaw -/

/-- In the step from `c` to `c'` the task `i`, which drains `visit`, keeps no second handle of an operation. -/
def Lone (c : Ctx) (i : TaskId) (visit : Option Visit) (c' : Ctx) : Prop :=
  ∀ v d r res, visit = some v → .fithaw i d r ∈ news c c' → drainCall v.successes r = .ended res →
    res.incomplete.isSome = true → ∀ x ∈ v.keep, InOrder c.log x v.mount

theorem KeepsApart.lone {a a' : Agent} {act : Action} (h : KeepsApart a act a') {i : TaskId} {t : Task}
    (ht : a.tasks i = some t) {c' : Ctx} (hc : a'.ctx = c') : Lone a.ctx i t.visit c' := by
  subst hc
  intro v d r res hv he hr hres x hx op hxp hmp
  exact absurd hmp (h i t v d r res ht hv he hr hres x hx op hxp)

namespace ThawBlocking

variable {c c' : Ctx} {i : TaskId} {j j' : ThawBlocking} {log : List Event}

/-- The handles that a thaw has yet to drain, and those it keeps, are in order. -/
structure InLine (log : List Event) (j : ThawBlocking) : Prop where
  retained : Ordered log j.retained
  keep : Ordered log j.keep

theorem advance_sublist (j : ThawBlocking) : j.advance.retained.Sublist j.retained ∧ j.advance.keep = j.keep := by
  unfold advance
  split
  · split
    · rename_i htake
      obtain ⟨m, -, he⟩ := Option.map_eq_some_iff.1 htake
      cases he
      exact ⟨List.eraseP_sublist, rfl⟩
    · exact ⟨.refl _, rfl⟩
  · split
    · exact ⟨List.dropLast_sublist _, rfl⟩
    · split <;> exact ⟨.refl _, rfl⟩

theorem InLine.advance (h : j.InLine log) : j.advance.InLine log := by
  obtain ⟨hret, hkeep⟩ := j.advance_sublist
  exact ⟨h.retained.sublist hret, by rw [hkeep]; exact h.keep⟩

theorem start_inLine {held : List Mount} (h : Ordered log held) (discover : Bool) : (start discover held).InLine log := by
  have hstart : InLine log ⟨.table, [], held, 0, none, [], none⟩ := ⟨h, .nil _⟩
  cases discover with
  | true => exact hstart
  | false => exact hstart.advance

theorem Call.inLine (h : j.Call c i c' j') (hl : Lone c i j.visit c') (hj : j.InLine c.log) : j'.InLine c'.log := by
  have hq := h.calls.quiet
  have hj' : j.InLine c'.log := ⟨hj.retained.quiet hq, hj.keep.quiet hq⟩
  cases h with
  | discovered entries hs => exact InLine.advance ⟨hj'.retained, hj'.keep⟩
  | undiscovered message hs => exact InLine.advance ⟨hj'.retained, hj'.keep⟩
  | opened hs => exact ⟨hj'.retained, hj'.keep⟩
  | @notOpened t path paths attempts err hs =>
    cases paths with
    | cons next paths => exact ⟨hj'.retained, hj'.keep⟩
    | nil => exact InLine.advance ⟨hj'.retained, hj'.keep⟩
  | @fithaw m n r c' hs hc =>
    rcases j.fithaw_cases m n r with ⟨n', he⟩ | ⟨res, failure, hcall, hres, he⟩ | ⟨res, -, -, he⟩ <;> rw [he]
    · exact ⟨hj'.retained, hj'.keep⟩
    · refine InLine.advance ⟨hj'.retained, ?_⟩
      have hlone : ∀ x ∈ j.keep, InOrder c.log x m :=
        hl ⟨m, n, j.keep⟩ m.dev r res (by simp only [visit, hs]) (mem_news_of_fithaw hc) hcall hres
      have hsnoc : Ordered c.log (j.keep ++ [m]) :=
        List.pairwise_append.2 ⟨hj.keep, List.pairwise_singleton _ _, fun x hx y hy => by
          obtain rfl := List.mem_singleton.1 hy
          exact hlone x hx⟩
      exact hsnoc.quiet hq
    · exact InLine.advance ⟨hj'.retained, hj'.keep⟩
  | unlinked hs hc =>
    unfold removed
    split <;> exact ⟨hj'.retained, hj'.keep⟩

end ThawBlocking

/-- What a thaw satisfies: between the taking of the handles and their return nothing is held. -/
def ThawPc.InLine (c : Ctx) : ThawPc → Prop
  | .scope _ held => c.held = [] ∧ Ordered c.log held
  | .blocking _ j => c.held = [] ∧ j.val.InLine c.log
  | .lost _ => c.held = []
  | .hold _ _ held => c.held = [] ∧ Ordered c.log held
  | _ => True

theorem Thaw.Move.quiet {cfg : Config} {c c' : Ctx} {i fresh : TaskId} {pc pc' : ThawPc} {new : Option Dog}
    (hm : Thaw.Move cfg c i fresh pc c' pc' new) : Quiet c c' := by
  cases hm
  case call hc => exact hc.calls.quiet
  case cancel => exact .of_log [] (by simp) (by simp)
  case install => exact .of_log [] (by simp) (by simp)
  all_goals exact .refl _

theorem Thaw.Move.inLine {cfg : Config} {c c' : Ctx} {i fresh : TaskId} {w : Bool} {pc pc' : ThawPc} {new : Option Dog}
    (hm : Thaw.Move cfg c i fresh pc c' pc' new) (hlone : Lone c i (Task.thaw w pc).visit c')
    (hg : Ordered c.log c.held) (hl : pc.InLine c) : Ordered c'.log c'.held ∧ pc'.InLine c' := by
  have hq := hm.quiet
  have hg' : c'.held = c.held → Ordered c'.log c'.held := fun hh => by rw [hh]; exact hg.quiet hq
  cases hm
  case take => exact ⟨.nil _, rfl, hg⟩
  case begin => exact ⟨hg' rfl, hl.1, ThawBlocking.start_inLine (hl.2.quiet hq) _⟩
  case lost => exact ⟨hg' rfl, hl.1⟩
  case ended => exact ⟨hg' rfl, hl.1, hl.2.keep⟩
  case uncertain => exact ⟨hg' rfl, hl, .nil _⟩
  case hold token outcome held =>
    have hheld : c.held ++ held = held := by rw [hl.1, List.nil_append]
    refine ⟨?_, ?_⟩
    · show Ordered c.log (c.held ++ held)
      rw [hheld]
      exact hl.2
    · cases outcome with
      | ok n => trivial
      | error failure =>
        simp only [Thaw.settles]
        split <;> trivial
  case call hc => exact ⟨hg' hc.calls.held, hc.calls.held.trans hl.1, hc.inLine hlone hl.2⟩
  case lose => exact ⟨hg' rfl, hl⟩
  all_goals exact ⟨hg' (by simp), trivial⟩

/-! ### The invariant -/

namespace Publication

structure Glob (c : Ctx) (_ : TaskId) : Prop where
  sorted : ∀ op, (publishedBy c.log op).Pairwise fun x y => x.fd < y.fd
  below : ∀ op, ∀ m ∈ publishedBy c.log op, m.fd < c.fd
  held : Ordered c.log c.held

/-- What an operation satisfies until it has settled: its handles are in order, and the one its worker has opened is
newer than those published. -/
structure DriverLoc (c : Ctx) (d : Driver) : Prop where
  line : Ordered c.log (d.line c.held)
  above : ∀ m ∈ d.pc.opened, ∀ op, ∀ x ∈ publishedBy c.log op, x.fd < m.fd

def Loc (c : Ctx) (_ : TaskId) : Task → Prop
  | .driver d => d.pc.published = false → DriverLoc c d
  | .thaw _ pc => pc.InLine c
  | _ => True

section Reach

variable {cfg : Config} {c c' : Ctx} {i j fresh : TaskId} {t t' u : Task} {new : Option Dog}

theorem Glob.quiet {n n' : TaskId} (h : Glob c n) (hq : Quiet c c') (hfd : c.fd ≤ c'.fd)
    (hheld : Ordered c'.log c'.held) : Glob c' n' where
  sorted op := by rw [hq op]; exact h.sorted op
  below op m hm := Nat.lt_of_lt_of_le (h.below op m (hq op ▸ hm)) hfd
  held := hheld

/-- The order of what the other tasks have is not concerned. -/
theorem Loc.other (h : Loc c j u) (hq : Quiet c c') (hheld : c'.held = c.held) : Loc c' j u := by
  cases u with
  | driver d =>
    intro hp
    have hd := h hp
    refine ⟨by rw [hheld]; exact hd.line.quiet hq, fun m hm op x hx => hd.above m hm op x (hq op ▸ hx)⟩
  | thaw w pc =>
    cases pc with
    | scope token held => exact ⟨hheld.trans h.1, h.2.quiet hq⟩
    | blocking token v => exact ⟨hheld.trans h.1, h.2.retained.quiet hq, h.2.keep.quiet hq⟩
    | lost token => exact hheld.trans h
    | hold token outcome held => exact ⟨hheld.trans h.1, h.2.quiet hq⟩
    | _ => trivial
  | _ => trivial

/-- A step of another task does not concern it. -/
theorem Loc.frame (h : Loc c j u) (hm : Task.Move cfg c i fresh t c' t' new) {n : TaskId} (hg : Tokens.Glob c n)
    (hl : Tokens.Loc c i t) (hj : j ≠ i) (hu : Tokens.Loc c j u) : Loc c' j u := by
  cases hu' : u.holdsToken with
  | true =>
    obtain ⟨hguard, new, hn, hnew⟩ := Tokens.bystander hm hg hl hj hu hu'
    exact h.other (.of_log new hn fun e he op => Event.hands_of_unowned (hnew e he).2 op) (by rw [hguard])
  | false =>
    cases u with
    | driver d =>
      intro hp
      have hw : d.WF := hu.wf
      have ht := hw.token_iff
      rw [show (d.token.isSome || d.thawToken.isSome) = false from hu', hp] at ht
      cases ht
    | thaw w pc => cases pc <;> trivial
    | _ => trivial

/-- The handles of an operation were found at its start or returned by its workers. -/
theorem mem_of_mem_line {d : Driver} {held : List Mount} (hb : d.Balanced held) {m : Mount} (hm : m ∈ d.line held) :
    m ∈ d.stale ++ d.returned := by
  refine hb.perm.mem_iff.2 ?_
  simp only [Driver.line, List.mem_append] at hm
  simp only [List.mem_append, Driver.draining, Driver.running, List.mem_flatMap]
  rcases hm with hm | hm | hm | hm
  · exact .inl (.inl (.inr hm))
  · cases hr : d.recovery with
    | none => rw [hr] at hm; cases hm
    | some r =>
      rw [hr] at hm
      exact .inl (.inl (.inl (.inr ⟨r.val, by simp, by simpa [DrainHeld.line, DrainHeld.mounts] using hm⟩)))
  · exact .inl (.inl (.inl (.inl hm)))
  · cases hr : d.pc.rolling with
    | none => rw [hr] at hm; cases hm
    | some r =>
      rw [hr] at hm
      exact .inl (.inl (.inl (.inr ⟨r, by simp, by simpa [DrainHeld.line, DrainHeld.mounts] using hm⟩)))

/-- What a pass has to do is part of them. -/
theorem mem_line_of_todo {d : Driver} (held : List Mount) {p : DrainHeld} (hp : d.pass = some p) {m : Mount}
    (hm : m ∈ p.todo) : m ∈ d.line held := by
  have hline : m ∈ p.line := List.mem_append_left _ (List.mem_reverse.2 hm)
  simp only [Driver.line, List.mem_append]
  rcases Option.or_eq_some_iff.1 hp with hr | ⟨-, hr⟩
  · exact .inr (.inl (by rw [hr]; exact hline))
  · exact .inr (.inr (.inr (by rw [hr]; exact hline)))

theorem ordered_todo {d : Driver} {held : List Mount} {log : List Event} {p : DrainHeld} (hp : d.pass = some p)
    (h : Ordered log (d.line held)) : Ordered log p.todo.reverse := by
  have hsub : p.todo.reverse.Sublist p.line := List.sublist_append_left _ _
  refine h.sublist (hsub.trans ?_)
  unfold Driver.line
  rcases Option.or_eq_some_iff.1 hp with hr | ⟨-, hr⟩
  · rw [hr]
    exact (List.sublist_append_left _ _).trans (List.sublist_append_right _ _)
  · rw [hr]
    exact (List.sublist_append_right _ _).trans ((List.sublist_append_right _ _).trans (List.sublist_append_right _ _))

/-- The worker's handle is not among them. -/
theorem not_mem_line {d : Driver} (hh : Handles.DriverLoc c d) (hp : d.pc.published = false) {m : Mount}
    (hm : m ∈ d.pc.opened) : m ∉ d.line c.held := by
  intro hl
  have hmem := mem_of_mem_line (hh.balanced hp) hl
  have hnodup := hh.fresh.distinct
  exact (List.nodup_append.1 hnodup).2.2 m hmem m hm rfl

/-- The operation publishes a handle that is newer than the others. -/
private theorem Glob.publish {n : TaskId} {m : Mount} (h : Glob c n) (hp : Publishes i m c c')
    (habove : ∀ op, ∀ x ∈ publishedBy c.log op, x.fd < m.fd) (hm : m.fd < c.fd) (hfd : c.fd ≤ c'.fd)
    (hheld : Ordered c'.log c'.held) : Glob c' n where
  sorted op := by
    by_cases hop : op = i
    · subst hop
      rw [hp.self, List.pairwise_append]
      exact ⟨h.sorted op, List.pairwise_singleton _ _, fun x hx y hy => List.mem_singleton.1 hy ▸ habove op x hx⟩
    · rw [hp.other op hop]
      exact h.sorted op
  below op x hx := by
    refine Nat.lt_of_lt_of_le ?_ hfd
    by_cases hop : op = i
    · subst hop
      rw [hp.self, List.mem_append, List.mem_singleton] at hx
      rcases hx with hx | rfl
      · exact h.below op x hx
      · exact hm
    · rw [hp.other op hop] at hx
      exact h.below op x hx
  held := hheld

private theorem move_driver {d d' : Driver} (hm : Driver.Move cfg c i fresh d c' d' new) {n : TaskId} (hw : d.WF)
    (hh : Handles.DriverLoc c d) (hlone : Lone c i (Task.driver d).visit c') (hg : Glob c n)
    (hl : d.pc.published = false → DriverLoc c d) : Glob c' n ∧ (d'.pc.published = false → DriverLoc c' d') := by
  have hfd := hm.grows.fd
  cases hp : d.pc.published with
  | true =>
    obtain ⟨new, hn, hnew⟩ := hm.unowned_of_published hw hp
    have hq : Quiet c c' := .of_log new hn fun e he op => Event.hands_of_unowned (hnew e he).2 op
    refine ⟨hg.quiet hq hfd ?_, fun hp' => ?_⟩
    · rw [hm.guarded_of_published hw hp]
      exact hg.held.quiet hq
    · rw [hm.stays_published hw hp] at hp'
      cases hp'
  | false =>
    have hd := hl hp
    have above : Quiet c c' → ∀ m ∈ d'.pc.opened, ∀ op, ∀ x ∈ publishedBy c'.log op, x.fd < m.fd := by
      intro hq m hmem op x hx
      rw [hq op] at hx
      rcases hm.opened hmem with hold | hnew
      · exact hd.above m hold op x hx
      · rw [hnew]
        exact hg.below op x hx
    have held : Ordered c'.log (d'.line c'.held) → Ordered c'.log c'.held :=
      fun h => h.sublist (Driver.held_sublist_line c'.held d')
    rcases hm.reorders hw with ⟨hq, hline⟩ | ⟨hpub, ho, ho', hline⟩ | ⟨hq, hv, he, hr, hres, hline, hline'⟩
    · have hord := (hd.line.sublist hline).quiet hq
      exact ⟨hg.quiet hq hfd (held hord), fun _ => ⟨hord, above hq⟩⟩
    · rename_i m
      have hmem : m ∈ d.pc.opened := by rw [ho]; exact List.mem_cons_self
      have hord : Ordered c'.log (d'.line c'.held) := by
        rw [hline]
        exact hd.line.snoc hpub (not_mem_line hh hp hmem) (hd.above m hmem)
      have hbelow : m.fd < c.fd := hh.fresh.below m (List.mem_append_right _ hmem)
      exact ⟨hg.publish hpub (hd.above m hmem) hbelow hfd (held hord), fun _ => ⟨hord, by simp [ho']⟩⟩
    · have hkeep := hlone _ _ _ _ hv he hr hres
      have hord : Ordered c.log (d'.line c'.held) := by
        rw [hline']
        exact (hline ▸ hd.line).keeps hkeep
      exact ⟨hg.quiet hq hfd (held (hord.quiet hq)), fun _ => ⟨hord.quiet hq, above hq⟩⟩

private theorem move (hm : Task.Move cfg c i fresh t c' t' new) {n : TaskId} (hw : t.WF) (hh : Handles.Loc c i t)
    (hlone : Lone c i t.visit c') (hg : Glob c n) (hl : Loc c i t) : Glob c' n ∧ Loc c' i t' := by
  have hfd := hm.grows.fd
  have rest : ∀ {c'' : Ctx}, c''.log = c.log → c''.fd = c.fd → c''.held = c.held → Glob c'' n := by
    intro c'' hlog hfd hheld
    have hq : Quiet c c'' := .of_log [] hlog (by simp)
    exact hg.quiet hq (Nat.le_of_eq hfd.symm) (by rw [hheld]; exact hg.held.quiet hq)
  cases hm with
  | driver h => exact move_driver h hw hh hlone hg hl
  | thaw h =>
    obtain ⟨hheld, hl'⟩ := h.inLine hlone hg.held hl
    exact ⟨hg.quiet h.quiet hfd hheld, hl'⟩
  | dogClaims =>
    have hq : Quiet c ({ c with state := .thawing, owner := some i }.note (.claimed i ⟨.frozen⟩)) :=
      .of_log [_] rfl (by simp [Event.hands])
    exact ⟨hg.quiet hq hfd (hg.held.quiet hq), trivial⟩
  | startInstall => exact ⟨rest (by simp) (by simp) (by simp), trivial⟩
  | _ => exact ⟨rest rfl rfl rfl, trivial⟩

/-- The handles are in the order of their publication, in every run whose passes keep the handles of an operation
apart. -/
theorem reach {a : Agent} (h : Machine.Reach (Agent.step cfg) KeepsApart Agent.Initial a) : a.Holds Glob Loc := by
  refine h.invariant (fun a h => ?_) (fun a act a' hr ih hs hok => ?_)
  · obtain ⟨c, n, rfl⟩ := h.booted
    have hlog : (Agent.bootCtx c).log = [] := h.log
    refine Agent.boot_holds ⟨fun op => ?_, fun op m hm => ?_, .nil _⟩ fun _ => trivial
    · rw [hlog]
      exact .nil
    · rw [hlog] at hm
      cases hm
  · have htok := Tokens.reach hr
    have hhand := Handles.reach hr
    refine Agent.holds_step ih hs ?_ ?_ ?_ ?_ ?_
    · intro i t c' t' new ht hm hc
      obtain ⟨hG, hL⟩ := move hm (htok.loc ht).wf (hhand.loc ht) (hok.lone ht hc.1) ih.glob (ih.loc ht)
      refine ⟨hG, fun _ h => ⟨h.sorted, h.below, h.held⟩, hL, fun _ _ => trivial, fun j u hj hu hl => ?_⟩
      exact hl.frame hm htok.glob (htok.loc ht) hj (htok.loc hu)
    · intro restrict hst _
      have hq : Quiet a.ctx (Agent.freezeCtx cfg a.ctx a.next restrict) :=
        .of_log [_, _] rfl (by simp [Event.hands])
      have hheld : Ordered (Agent.freezeCtx cfg a.ctx a.next restrict).log a.ctx.held := ih.glob.held.quiet hq
      refine ⟨ih.glob.quiet hq (Nat.le_refl _) hheld, fun _ => ⟨?_, by simp [Driver.start, Pc.opened, Tracked.opened]⟩,
        fun j u hj hu hl => hl.other hq rfl⟩
      simpa [Driver.line, Driver.start, Pc.rolling, Agent.freezeCtx] using hheld
    · exact ⟨⟨ih.glob.sorted, ih.glob.below, ih.glob.held⟩, trivial, trivial⟩
    · intro c' he _
      have hsame : c'.log = a.ctx.log ∧ c'.fd = a.ctx.fd ∧ c'.held = a.ctx.held := by cases he <;> exact ⟨rfl, rfl, rfl⟩
      have hq : Quiet a.ctx c' := .of_log [] hsame.1 (by simp)
      refine ⟨ih.glob.quiet hq (Nat.le_of_eq hsame.2.1.symm) ?_, fun j u hu hl => hl.other hq hsame.2.2⟩
      rw [hsame.2.2]
      exact ih.glob.held.quiet hq
    · intro _
      exact ⟨⟨ih.glob.sorted, ih.glob.below, .nil _⟩, fun _ => trivial⟩

end Reach

end Publication

end Qeminga
