import Qeminga.Invariant.Publication

/-!
# Drains run forward

A pass over held handles, be it a rollback, a recovery drain or a tracked thaw, drains them last first, so it runs in
forward mount order if they are held in the order of their publication.  An observer writes down on which handles the
pass in progress has called `FITHAW`.  As long as no pass keeps two handles of one operation, every pass visits the
handles of an operation in the reverse order of their publication; but the handles that a pass keeps are put back in
the order in which it drained them, so that the retry after a thaw that kept two of them runs backward.
-/

namespace Qeminga

/-! ### What a pass visits -/

/-- The event begins a pass, is one of its calls, or makes it follow the mount table. -/
def Event.ofPass : Event → Bool
  | .spawned _ .drain => true
  | .spawned _ .rollback => true
  | .began _ _ => true
  | .discovered _ _ => true
  | .fithaw _ _ _ => true
  | _ => false

/-- The handles on which the last pass has called `FITHAW`, one entry for each call; `none` for a drain that follows
the mount table. -/
abbrev Visited := Option (List Mount)

namespace Visited

def observe (v : Visited) (a : Agent) (_ : Action) (a' : Agent) : Visited :=
  match (news a.ctx a'.ctx).head? with
  | some (.spawned _ .drain) => some []
  | some (.spawned _ .rollback) => some []
  | some (.began _ _) => some []
  | some (.discovered _ _) => none
  | some (.fithaw i _ _) => v.map fun ms => ms ++ (((a.tasks i).bind Task.visit).map Visit.mount).toList
  | _ => v

theorem observe_of_quiet {v : Visited} {a a' : Agent} {act : Action} (h : ∀ e ∈ news a.ctx a'.ctx, e.ofPass = false) :
    v.observe a act a' = v := by
  unfold observe
  split <;> first
    | rfl
    | (rename_i he; cases h _ (List.mem_of_mem_head? he))

theorem observe_of_begins {v : Visited} {a a' : Agent} {act : Action} {i : TaskId}
    (h : (news a.ctx a'.ctx).head? = some (.spawned i .drain) ∨ (news a.ctx a'.ctx).head? = some (.spawned i .rollback)) :
    v.observe a act a' = some [] := by
  rcases h with h | h <;> simp only [observe, h]

theorem observe_of_fithaw {v : Visited} {a a' : Agent} {act : Action} {i : TaskId} {t : Task} {w : Visit} {d : Dev}
    {r : Except KernelError Unit} (hn : news a.ctx a'.ctx = [.fithaw i d r]) (ht : a.tasks i = some t)
    (hw : t.visit = some w) : v.observe a act a' = v.map fun ms => ms ++ [w.mount] := by
  simp [observe, hn, ht, hw]

theorem observe_none_of_calls {a a' : Agent} {act : Action} {i : TaskId} (h : a.ctx.Calls i a'.ctx) :
    observe none a act a' = none := by
  obtain ⟨new, hn, hcall⟩ := h.calls
  unfold observe
  rw [news_eq hn]
  split <;> first
    | rfl
    | (rename_i he; cases (hcall _ (List.mem_of_mem_head? he)).2)

end Visited

theorem Event.ofPass_of_unowned {e : Event} (h : e.ofOwner = false) : e.ofPass = false := by
  cases e with
  | requested => rfl
  | replied => rfl
  | claimed => rfl
  | answered => rfl
  | _ => cases h

/-- If one operation published both, it did not publish `y` after `x`. -/
def Forward (log : List Event) (x y : Mount) : Prop :=
  ∀ op, x ∈ publishedBy log op → y ∈ publishedBy log op → y.fd ≤ x.fd

section Forward

variable {c c' : Ctx} {x y m : Mount} {i : TaskId} {log : List Event}

theorem Forward.refl (log : List Event) (x : Mount) : Forward log x x := fun _ _ _ => Nat.le_refl _

theorem InOrder.forward (h : InOrder log y x) : Forward log x y := fun op hx hy => Nat.le_of_lt (h op hy hx)

theorem Forward.quiet (h : Forward c.log x y) (hq : Quiet c c') : Forward c'.log x y := by
  intro op hx hy
  rw [hq op] at hx hy
  exact h op hx hy

theorem Forward.publish (h : Forward c.log x y) (hp : Publishes i m c c') (hx : x ≠ m) (hy : y ≠ m) :
    Forward c'.log x y := by
  intro op hxp hyp
  by_cases hop : op = i
  · subst hop
    rw [hp.self, List.mem_append, List.mem_singleton] at hxp hyp
    exact h op (hxp.resolve_right hx) (hyp.resolve_right hy)
  · rw [hp.other op hop] at hxp hyp
    exact h op hxp hyp

end Forward

/-! ### The passes of an operation -/

namespace Driver

variable {cfg : Config} {c c' : Ctx} {i fresh : TaskId} {d d' : Driver} {new : Option Dog}

/-- What a step of an operation does to its pass: it begins one, makes a call of it, or leaves what it has to do. -/
inductive Passes (c : Ctx) (i : TaskId) (d : Driver) (c' : Ctx) (d' : Driver) : Prop
  | begins (h : (news c c').head? = some (.spawned i .drain) ∨ (news c c').head? = some (.spawned i .rollback))
  | calls {j j' : DrainHeld} {m : Mount} {rest : List Mount} {r : Except KernelError Unit} (hq : Quiet c c')
      (hn : news c c' = [.fithaw i m.dev r]) (hp : d.pass = some j) (hp' : d'.pass = some j') (htodo : j.todo = m :: rest)
      (htodo' : j'.todo = j.todo ∨ j'.todo = rest)
  | leaves (hn : ∀ e ∈ news c c', e.ofPass = false)
      (hp : ∀ j', d'.pass = some j' → ∃ j, d.pass = some j ∧ j'.todo = j.todo)

private theorem passes_fithaw {j j' : DrainHeld} {m : Mount} {rest : List Mount} {r : Except KernelError Unit}
    (htodo : j.todo = m :: rest) (hc : c.fithaw i m.dev r = some c') (hp : d.pass = some j) (hp' : d'.pass = some j')
    (hj : j' = j.fithaw r) : Passes c i d c' d' := by
  refine .calls (Ctx.fithaw_calls hc).quiet (news_of_fithaw hc) hp hp' htodo ?_
  rw [hj]
  rcases DrainHeld.fithaw_cases htodo r with ⟨n, he⟩ | ⟨res, reason, -, -, he⟩ | ⟨res, -, -, he⟩ <;> rw [he]
  · exact .inl rfl
  · exact .inr rfl
  · exact .inr rfl

theorem Move.passes (hm : Move cfg c i fresh d c' d' new) (hw : d.WF) : Passes c i d c' d' := by
  have leaves : ∀ log', c'.log = log' ++ c.log → (∀ e ∈ log', e.ofPass = false) → (∀ j, d'.pass = some j → d.pass = some j) →
      Passes c i d c' d' := fun log' hlog hnew hp => .leaves (by rw [news_eq hlog]; exact hnew) fun j hj => ⟨j, hp j hj, rfl⟩
  have same : ∀ log', c'.log = log' ++ c.log → (∀ e ∈ log', e.ofPass = false) → d'.recovery = d.recovery →
      d'.pc.rolling = d.pc.rolling → Passes c i d c' d' := fun log' hlog hnew hr hp =>
    leaves log' hlog hnew fun j hj => by rw [← hj]; simp only [pass, hr, hp]
  cases hm
  case abort hpc => rcases hpc with hpc | hpc | ⟨hpc, -⟩ <;> exact same [] rfl (by simp) rfl (by rw [hpc]; rfl)
  case interrupt tr cause hpc harm hc =>
    have hlog : c'.log = [] ++ c.log := by rcases hc with rfl | rfl <;> rfl
    refine same [] hlog (by simp) rfl ?_
    cases tr <;> first | (rw [hpc]; rfl) | cases harm
  case announce k hpc =>
    have hk := (hw.at hpc).2
    refine same [] rfl (by simp) rfl ?_
    cases k with
    | boundary b => cases b <;> (rw [hpc]; rfl)
    | «await» tr =>
      have := hk tr rfl
      cases tr <;> first | (rw [hpc]; rfl) | cases this
  case recover k hpc hr hh => exact .begins (.inl (by rw [@news_eq _ _ [_] rfl]; rfl))
  case joinDrainRestart j hpc hr he hh => exact .begins (.inl (by rw [@news_eq _ _ [_, _] rfl]; rfl))
  case settleDrain hpc hr hh => exact .begins (.inl (by rw [@news_eq _ _ [_] rfl]; rfl))
  case hardError t rest stop hpc ha => exact .begins (.inr (by rw [@news_eq _ _ [_, _, _] rfl]; rfl))
  case joinDrain j hpc hr he hh =>
    refine leaves [_] rfl (by simp [Event.ofPass]) fun j' hj => ?_
    cases hroll : d.pc.rolling with
    | none => simp [pass, recorded, hroll] at hj
    | some v =>
      rw [recovery_of_rolling hw hroll] at hr
      cases hr
  case froze hpc hd =>
    subst hd
    exact same [_, _] rfl (by simp [Event.ofPass]) rfl (by rw [hpc]; rfl)
  case busy hpc hd =>
    subst hd
    exact same [_, _] rfl (by simp [Event.ofPass]) rfl (by rw [hpc]; rfl)
  case rollbackLost v hpc =>
    have hrec : d.recovery = none := recovery_of_rolling hw (j := v.drain) (by rw [hpc]; rfl)
    exact leaves [_] rfl (by simp [Event.ofPass]) fun j hj => by simp [pass, hrec, concludes, Pc.rolling] at hj
  case rolledBack v hpc hf =>
    have hrec : d.recovery = none := recovery_of_rolling hw (j := v.drain) (by rw [hpc]; rfl)
    exact leaves [_] rfl (by simp [Event.ofPass]) fun j hj => by simp [pass, hrec, concludes, Pc.rolling] at hj
  case call tr tr' ht hc =>
    cases hc with
    | @rollbackDrains v m rest r c' htodo hc =>
      rcases tracked_cases ht with ⟨hpc, hwith⟩ | ⟨stage, hpc, -⟩
      · have hrec : d.recovery = none := recovery_of_rolling hw (j := v.drain) (by rw [hpc]; rfl)
        refine passes_fithaw htodo hc ?_ ?_ rfl
        · simp [pass, hrec, hpc, Pc.rolling]
        · simp [pass, hwith, hrec, Pc.rolling]
      · have hab := (hw.at hpc).2 _ rfl
        cases hab
    | fifreeze t rest m aborted clock r =>
      have hlog : (c.fifreeze i m.dev aborted clock r).log = [.fifreeze i m.dev aborted clock r] ++ c.log := by
        rcases c.fifreeze_cases i m.dev aborted clock r with ⟨-, he⟩ | ⟨err, -, he⟩ <;> rw [he] <;> rfl
      exact same _ hlog (by simp [Event.ofPass]) rfl (rolling_of_tracked ht rfl)
    | removed k h =>
      have hlog : c'.log = [] ++ c.log := by
        rcases Ctx.unlink_cases h with ⟨-, -, rfl⟩ | ⟨-, -, rfl⟩ | ⟨e, -, rfl⟩ <;> rfl
      exact same [] hlog (by simp) rfl (rolling_of_tracked ht rfl)
    | rollbackUnlinks hj h =>
      have hlog : c'.log = [] ++ c.log := by
        rcases Ctx.unlink_cases h with ⟨-, -, rfl⟩ | ⟨-, -, rfl⟩ | ⟨e, -, rfl⟩ <;> rfl
      exact same [] hlog (by simp) rfl (rolling_of_tracked ht rfl)
    | _ => exact same [] rfl (by simp) rfl (rolling_of_tracked ht rfl)
  case lose tr ht => exact same [] rfl (by simp) rfl (rolling_of_tracked ht (by cases tr <;> rfl))
  case drain j m rest r hr htodo hc =>
    refine passes_fithaw htodo hc ?_ ?_ rfl
    · simp [pass, hr]
    · simp [pass]
  case loseDrain j hr => exact leaves [] rfl (by simp) fun j' hj => by simpa [pass, hr] using hj
  all_goals
    have hpc := ‹d.pc = _›
    first
      | exact same [] rfl (by simp) rfl (by rw [hpc]; rfl)
      | exact same [_] rfl (by simp [Event.ofPass]) rfl (by rw [hpc]; rfl)
      | exact same [_, _] rfl (by simp [Event.ofPass]) rfl (by rw [hpc]; rfl)
      | exact same [_, _, _] rfl (by simp [Event.ofPass]) rfl (by rw [hpc]; rfl)
      | exact same [] (by simp) (by simp) rfl (by rw [hpc]; rfl)

end Driver

/-! ### The pass of a tracked thaw -/

namespace ThawBlocking

variable {c c' : Ctx} {i : TaskId} {j j' : ThawBlocking} {log : List Event} {ms : List Mount}

/-- A thaw that follows no mount table, whose pass has visited `ms`. -/
structure Tracks (log : List Event) (ms : List Mount) (j : ThawBlocking) : Prop where
  rest : j.rest = []
  noOpen : ∀ t path paths attempts, j.stage ≠ .open t path paths attempts
  ordered : Ordered log (j.retained ++ j.stage.mounts)
  forward : ∀ x ∈ ms, ∀ y ∈ j.retained ++ j.stage.mounts, Forward log x y

theorem tracks_advance (hrest : j.rest = []) (hord : Ordered log j.retained)
    (hfwd : ∀ x ∈ ms, ∀ y ∈ j.retained, Forward log x y) : j.advance.Tracks log ms := by
  rcases j.advance_cases with ⟨t, ts, m, retained, hr, -⟩ | ⟨t, ts, hr, -⟩ | ⟨m, retained, -, hret, he⟩ |
    ⟨failure, -, hret, -, he⟩ | ⟨-, hret, -, -, he⟩
  · rw [hrest] at hr
    cases hr
  · rw [hrest] at hr
    cases hr
  · rw [he]
    exact ⟨hrest, by rintro t path paths attempts ⟨⟩, by rw [hret] at hord; exact hord, by rw [hret] at hfwd; exact hfwd⟩
  · rw [he]
    exact ⟨hrest, by rintro t path paths attempts ⟨⟩, by simp [hret, ThawStage.mounts, Ordered], by simp [hret, ThawStage.mounts]⟩
  · rw [he]
    exact ⟨hrest, by rintro t path paths attempts ⟨⟩, by simp [hret, ThawStage.mounts, Ordered], by simp [hret, ThawStage.mounts]⟩

theorem tracks_start {held : List Mount} (h : Ordered log held) (discover : Bool) :
    (start discover held).Tracks log [] := by
  cases discover with
  | true => exact ⟨rfl, by rintro t path paths attempts ⟨⟩, by simpa [start, ThawStage.mounts] using h, by simp⟩
  | false =>
    show (advance ⟨.table, [], held, 0, none, [], none⟩).Tracks log []
    exact tracks_advance rfl h (by simp)

theorem Tracks.quiet (h : j.Tracks c.log ms) (hq : Quiet c c') : j.Tracks c'.log ms :=
  ⟨h.rest, h.noOpen, h.ordered.quiet hq, fun x hx y hy => (h.forward x hx y hy).quiet hq⟩

/-- What a call of a tracked thaw does to its pass: it drains the handle it stands at, or leaves the pass, or it has read
the mount table. -/
theorem Call.tracks (h : j.Call c i c' j') (ht : j.Tracks c.log ms) :
    (∃ m n r, j.stage = .drain m n ∧ news c c' = [.fithaw i m.dev r] ∧ j'.Tracks c'.log (ms ++ [m])) ∨
      ((∀ e ∈ news c c', e.ofPass = false) ∧ j'.Tracks c'.log ms) ∨ ∃ entries, news c c' = [.discovered i entries] := by
  have hq := h.calls.quiet
  have ht' := ht.quiet hq
  have hret : j.stage.mounts = [] → j.retained ++ j.stage.mounts = j.retained := fun h => by rw [h, List.append_nil]
  cases h with
  | discovered entries hs => exact .inr (.inr ⟨entries, news_eq rfl⟩)
  | undiscovered message hs =>
    have hnil : j.retained ++ j.stage.mounts = j.retained := hret (by rw [hs]; rfl)
    refine .inr (.inl ⟨by rw [@news_eq _ _ [] rfl]; simp, ?_⟩)
    exact tracks_advance ht.rest (hnil ▸ ht'.ordered) (hnil ▸ ht'.forward)
  | opened hs => exact absurd hs (ht.noOpen _ _ _ _)
  | notOpened err hs => exact absurd hs (ht.noOpen _ _ _ _)
  | @fithaw m n r c' hs hc =>
    refine .inl ⟨m, n, r, hs, news_of_fithaw hc, ?_⟩
    have hmounts : j.stage.mounts = [m] := by rw [hs]; rfl
    have hord : Ordered c'.log (j.retained ++ [m]) := hmounts ▸ ht'.ordered
    have hfwd : ∀ x ∈ ms, ∀ y ∈ j.retained ++ [m], Forward c'.log x y := hmounts ▸ ht'.forward
    -- the handles left were published before `m`
    have hlast : ∀ y ∈ j.retained, Forward c'.log m y := fun y hy =>
      InOrder.forward ((List.pairwise_append.1 hord).2.2 y hy m List.mem_cons_self)
    have hleft : ∀ x ∈ ms ++ [m], ∀ y ∈ j.retained, Forward c'.log x y := by
      intro x hx y hy
      rcases List.mem_append.1 hx with hx | hx
      · exact hfwd x hx y (List.mem_append_left _ hy)
      · rw [List.mem_singleton.1 hx]
        exact hlast y hy
    have hret : Ordered c'.log j.retained := hord.sublist (List.sublist_append_left _ _)
    rcases j.fithaw_cases m n r with ⟨n', he⟩ | ⟨res, failure, -, -, he⟩ | ⟨res, -, -, he⟩ <;> rw [he]
    · refine ⟨ht.rest, by rintro t path paths attempts ⟨⟩, hord, fun x hx y hy => ?_⟩
      rcases List.mem_append.1 hy with hy | hy
      · exact hleft x hx y hy
      · rw [List.mem_singleton.1 hy]
        rcases List.mem_append.1 hx with hx | hx
        · exact hfwd x hx m (List.mem_append_right _ List.mem_cons_self)
        · rw [List.mem_singleton.1 hx]
          exact .refl _ m
    · exact tracks_advance ht.rest hret hleft
    · exact tracks_advance ht.rest hret hleft
  | @unlinked ans c' r hs hc =>
    have hnews : news c c' = [] := by
      rcases Ctx.unlink_cases hc with ⟨-, -, rfl⟩ | ⟨-, -, rfl⟩ | ⟨e, -, rfl⟩ <;> exact news_eq rfl
    have hnil : j.retained ++ j.stage.mounts = j.retained := hret (by rw [hs]; rfl)
    have hord : Ordered c'.log j.retained := hnil ▸ ht'.ordered
    have hfwd : ∀ x ∈ ms, ∀ y ∈ j.retained, Forward c'.log x y := hnil ▸ ht'.forward
    refine .inr (.inl ⟨by rw [hnews]; simp, ?_⟩)
    unfold removed
    split <;> exact ⟨ht.rest, by rintro t path paths attempts ⟨⟩, by simpa [ThawStage.mounts] using hord, by simpa [ThawStage.mounts] using hfwd⟩

end ThawBlocking

/-- What a step of a thaw does to its pass: it begins one, makes a call of it, or leaves it. -/
inductive Thaw.Passes (c : Ctx) (i : TaskId) (pc : ThawPc) (c' : Ctx) (pc' : ThawPc) : Prop
  | begins {token : ThawToken} {held : List Mount} {discover : Bool} (hn : news c c' = [.began i c.snapshot])
      (hpc : pc = .scope token held) (hpc' : pc' = .blocking token (.start (.start discover held)))
  | calls {token : ThawToken} {b b' : ThawBlocking} (hc : b.Call c i c' b') (hpc : pc = .blocking token ⟨b, false⟩)
      (hpc' : pc' = .blocking token ⟨b', false⟩)
  | leaves (hn : ∀ e ∈ news c c', e.ofPass = false)
      (hpc : ∀ token b', pc' = .blocking token b' → ∃ b, pc = .blocking token b ∧ b'.val = b.val)

theorem Thaw.Move.passes {cfg : Config} {c c' : Ctx} {i fresh : TaskId} {pc pc' : ThawPc} {new : Option Dog}
    (hm : Thaw.Move cfg c i fresh pc c' pc' new) : Thaw.Passes c i pc c' pc' := by
  have leaves : ∀ log', c'.log = log' ++ c.log → (∀ e ∈ log', e.ofPass = false) →
      (∀ token b', pc' = .blocking token b' → ∃ b, pc = .blocking token b ∧ b'.val = b.val) → Thaw.Passes c i pc c' pc' :=
    fun log' hlog hnew hpc => .leaves (by rw [news_eq hlog]; exact hnew) hpc
  cases hm
  case begin token held discover hd => exact .begins (news_eq rfl) rfl rfl
  case call token b b' hcall => exact .calls hcall rfl rfl
  case lose token b lost =>
    refine leaves [] rfl (by simp) fun token' b' he => ?_
    cases he
    exact ⟨_, rfl, rfl⟩
  case hold token outcome held =>
    refine leaves [] rfl (by simp) fun token' b' he => ?_
    cases outcome with
    | ok n => cases he
    | error failure =>
      simp only [Thaw.settles] at he
      split at he <;> cases he
  all_goals first
    | exact leaves [] rfl (by simp) fun _ _ he => by cases he
    | exact leaves [_] rfl (by simp [Event.ofPass]) fun _ _ he => by cases he
    | exact leaves [] (by simp) (by simp) fun _ _ he => by cases he

/-! ### The invariant -/

namespace DrainOrder

/-- The agent beside the observer of its passes. -/
abbrev Observed (cfg : Config) (s : Agent × Visited) : Prop :=
  Machine.Reach (Machine.observed (Agent.step cfg) Visited.observe) (fun s act s' => KeepsApart s.1 act s'.1)
    (fun s => Agent.Initial s.1 ∧ s.2 = none) s

def Glob (v : Visited) (c : Ctx) (_ : TaskId) : Prop :=
  ∀ ms, v = some ms → ms.Pairwise (Forward c.log) ∧ ∀ x ∈ ms, x.fd < c.fd

/-- What the pass of an operation satisfies: what it has to do comes after what it has visited, and the handle that the
worker has opened is not among them. -/
structure DriverLoc (ms : List Mount) (c : Ctx) (d : Driver) : Prop where
  unopened : ∀ x ∈ ms, x ∉ d.pc.opened
  forward : ∀ j, d.pass = some j → ∀ x ∈ ms, ∀ y ∈ j.todo, Forward c.log x y

def Loc (v : Visited) (c : Ctx) (_ : TaskId) : Task → Prop
  | .driver d => ∀ ms, v = some ms → d.pc.published = false → DriverLoc ms c d
  | .thaw _ (.blocking _ j) => ∀ ms, v = some ms → j.val.Tracks c.log ms
  | _ => True

section Reach

variable {cfg : Config} {c c' : Ctx} {i j fresh : TaskId} {t t' u : Task} {new : Option Dog} {v : Visited}

theorem Glob.quiet {n n' : TaskId} (h : Glob v c n) (hq : Quiet c c') (hfd : c.fd ≤ c'.fd) : Glob v c' n' := by
  intro ms hms
  obtain ⟨hp, hb⟩ := h ms hms
  exact ⟨hp.imp fun {x y} hxy => hxy.quiet hq, fun x hx => Nat.lt_of_lt_of_le (hb x hx) hfd⟩

theorem Loc.quiet (h : Loc v c j u) (hq : Quiet c c') : Loc v c' j u := by
  cases u with
  | driver d =>
    intro ms hms hp
    have hd := h ms hms hp
    exact ⟨hd.unopened, fun p hp x hx y hy => (hd.forward p hp x hx y hy).quiet hq⟩
  | thaw w pc =>
    cases pc with
    | blocking token b => exact fun ms hms => (h ms hms).quiet hq
    | _ => trivial
  | _ => trivial

theorem Loc.of_unowned (hw : u.WF) (hu : u.holdsToken = false) : Loc v c j u := by
  cases u with
  | driver d =>
    intro ms hms hp
    have hw : d.WF := hw
    have ht := hw.token_iff
    rw [show (d.token.isSome || d.thawToken.isSome) = false from hu, hp] at ht
    cases ht
  | thaw w pc => cases pc <;> trivial
  | _ => trivial

/-- An operation takes a step in which its pass visits nothing. -/
private theorem move_leaves {d d' : Driver} (hm : Driver.Move cfg c i fresh d c' d' new) {n : TaskId} (hw : d.WF)
    (hh : Handles.DriverLoc c d) (hp : d.pc.published = false)
    (hpass : ∀ p', d'.pass = some p' → ∃ p, d.pass = some p ∧ p'.todo = p.todo) (hg : Glob v c n)
    (hl : Loc v c i (.driver d)) : Glob v c' n ∧ Loc v c' i (.driver d') := by
  have hfd := hm.grows.fd
  have unopened : ∀ ms, v = some ms → ∀ x ∈ ms, x ∉ d'.pc.opened := by
    intro ms hms x hx ho
    rcases hm.opened ho with hold | hnew
    · exact (hl ms hms hp).unopened x hx hold
    · have := (hg ms hms).2 x hx
      omega
  have quiet : Quiet c c' → Glob v c' n ∧ Loc v c' i (.driver d') := by
    intro hq
    refine ⟨hg.quiet hq hfd, fun ms hms _ => ⟨unopened ms hms, fun p' hp' x hx y hy => ?_⟩⟩
    obtain ⟨p, hpp, htodo⟩ := hpass p' hp'
    exact ((hl ms hms hp).forward p hpp x hx y (htodo ▸ hy)).quiet hq
  rcases hm.reorders hw with ⟨hq, -⟩ | ⟨hpub, ho, -, -⟩ | ⟨hq, -⟩
  · exact quiet hq
  · rename_i m
    have hmem : m ∈ d.pc.opened := by rw [ho]; exact List.mem_cons_self
    have hne : ∀ ms, v = some ms → ∀ x ∈ ms, x ≠ m := fun ms hms x hx he =>
      (hl ms hms hp).unopened x hx (he ▸ hmem)
    refine ⟨fun ms hms => ⟨?_, fun x hx => Nat.lt_of_lt_of_le ((hg ms hms).2 x hx) hfd⟩, fun ms hms _ =>
      ⟨unopened ms hms, fun p' hp' x hx y hy => ?_⟩⟩
    · refine List.Pairwise.imp_of_mem (fun {x y} hx hy hxy => ?_) (hg ms hms).1
      exact hxy.publish hpub (hne ms hms x hx) (hne ms hms y hy)
    · obtain ⟨p, hpp, htodo⟩ := hpass p' hp'
      rw [htodo] at hy
      refine ((hl ms hms hp).forward p hpp x hx y hy).publish hpub (hne ms hms x hx) fun he => ?_
      have hline := Publication.mem_line_of_todo (c.held) hpp hy
      exact Publication.not_mem_line hh hp hmem (he ▸ hline)
  · exact quiet hq

/-- The pass of an operation calls `FITHAW` on the next handle. -/
private theorem move_calls {d d' : Driver} {ms : List Mount} (hm : Driver.Move cfg c i fresh d c' d' new) {n : TaskId}
    (hh : Handles.DriverLoc c d) (ho : Publication.DriverLoc c d) (hp : d.pc.published = false) (hq : Quiet c c')
    {p p' : DrainHeld} {m : Mount} {rest : List Mount} (hpass : d.pass = some p) (hpass' : d'.pass = some p')
    (htodo : p.todo = m :: rest) (htodo' : p'.todo = p.todo ∨ p'.todo = rest) (hg : Glob (some ms) c n)
    (hl : Loc (some ms) c i (.driver d)) :
    Glob (some (ms ++ [m])) c' n ∧ Loc (some (ms ++ [m])) c' i (.driver d') := by
  have hfd := hm.grows.fd
  have hd := hl ms rfl hp
  obtain ⟨hpair, hbelow⟩ := hg ms rfl
  have hmem : m ∈ p.todo := by rw [htodo]; exact List.mem_cons_self
  have hline := Publication.mem_line_of_todo c.held hpass hmem
  have hfresh : m ∈ d.stale ++ d.returned := Publication.mem_of_mem_line (hh.balanced hp) hline
  have hforward : ∀ x ∈ ms, Forward c.log x m := fun x hx => hd.forward p hpass x hx m hmem
  -- what is left was published before `m`
  have hleft : ∀ y ∈ p.todo, Forward c.log m y := by
    intro y hy
    have hord : Ordered c.log p.todo.reverse := Publication.ordered_todo hpass ho.line
    rw [htodo] at hy hord
    rw [List.reverse_cons] at hord
    rcases List.mem_cons.1 hy with rfl | hy
    · exact .refl _ y
    · exact InOrder.forward ((List.pairwise_append.1 hord).2.2 y (List.mem_reverse.2 hy) m List.mem_cons_self)
  have hsub : ∀ y ∈ p'.todo, y ∈ p.todo := by
    intro y hy
    rcases htodo' with he | he
    · exact he ▸ hy
    · rw [htodo]
      exact List.mem_cons_of_mem _ (he ▸ hy)
  constructor
  · rintro ms' ⟨⟩
    refine ⟨List.pairwise_append.2 ⟨hpair.imp fun {x y} h => h.quiet hq, List.pairwise_singleton _ _, ?_⟩, fun x hx => ?_⟩
    · intro x hx y hy
      rw [List.mem_singleton.1 hy]
      exact (hforward x hx).quiet hq
    · refine Nat.lt_of_lt_of_le ?_ hfd
      rcases List.mem_append.1 hx with hx | hx
      · exact hbelow x hx
      · rw [List.mem_singleton.1 hx]
        exact hh.fresh.below m (List.mem_append_left _ hfresh)
  · rintro ms' ⟨⟩ -
    refine ⟨fun x hx hopen => ?_, fun p'' hp'' x hx y hy => ?_⟩
    · rcases List.mem_append.1 hx with hx | hx
      · rcases hm.opened hopen with hold | hnew
        · exact hd.unopened x hx hold
        · have := hbelow x hx
          omega
      · rw [List.mem_singleton.1 hx] at hopen
        rcases hm.opened hopen with hold | hnew
        · exact Publication.not_mem_line hh hp hold hline
        · have := hh.fresh.below m (List.mem_append_left _ hfresh)
          omega
    · rw [hpass'] at hp''
      obtain rfl := Option.some.inj hp''
      rcases List.mem_append.1 hx with hx | hx
      · exact (hd.forward p hpass x hx y (hsub y hy)).quiet hq
      · rw [List.mem_singleton.1 hx]
        exact (hleft y (hsub y hy)).quiet hq

variable {a a' : Agent} {act : Action}

private theorem move_driver {d d' : Driver} {n : TaskId} (ht : a.tasks i = some (.driver d))
    (hm : Driver.Move cfg a.ctx i fresh d a'.ctx d' new) (hw : d.WF) (hh : Handles.DriverLoc a.ctx d)
    (ho : d.pc.published = false → Publication.DriverLoc a.ctx d) (hg : Glob v a.ctx n)
    (hl : Loc v a.ctx i (.driver d)) :
    Glob (v.observe a act a') a'.ctx n ∧ Loc (v.observe a act a') a'.ctx i (.driver d') := by
  cases hp : d.pc.published with
  | true =>
    obtain ⟨log', hn, hnew⟩ := hm.unowned_of_published hw hp
    have hq : Quiet a.ctx a'.ctx := .of_log log' hn fun e he op => Event.hands_of_unowned (hnew e he).2 op
    rw [Visited.observe_of_quiet (by rw [news_eq hn]; exact fun e he => Event.ofPass_of_unowned (hnew e he).2)]
    refine ⟨hg.quiet hq hm.grows.fd, fun ms _ hp' => ?_⟩
    rw [hm.stays_published hw hp] at hp'
    cases hp'
  | false =>
    rcases hm.passes hw with h | ⟨hq, hn, hpass, hpass', htodo, htodo'⟩ | ⟨hn, hpass⟩
    · rw [Visited.observe_of_begins h]
      exact ⟨fun ms hms => by cases hms; exact ⟨.nil, by simp⟩, fun ms hms _ => by cases hms; exact ⟨by simp, by simp⟩⟩
    · rename_i p p' m rest r
      have hvisit : (Task.driver d).visit = some ⟨m, p.successes, p.keep⟩ := by
        simp [Task.visit, hpass, DrainHeld.visit, htodo]
      rw [Visited.observe_of_fithaw hn ht hvisit]
      cases v with
      | none => exact ⟨by rintro ms ⟨⟩, fun ms hms => by cases hms⟩
      | some ms => exact move_calls hm hh (ho hp) hp hq hpass hpass' htodo htodo' hg hl
    · rw [Visited.observe_of_quiet hn]
      exact move_leaves hm hw hh hp hpass hg hl

/-- A visit of a thaw. -/
private theorem Glob.visits {ms : List Mount} {m : Mount} {n : TaskId} (hg : Glob (some ms) c n) (hq : Quiet c c')
    (hfd : c.fd ≤ c'.fd) (hforward : ∀ x ∈ ms, Forward c.log x m) (hm : m.fd < c.fd) :
    Glob (some (ms ++ [m])) c' n := by
  obtain ⟨hpair, hbelow⟩ := hg ms rfl
  rintro ms' ⟨⟩
  refine ⟨List.pairwise_append.2 ⟨hpair.imp fun {x y} h => h.quiet hq, List.pairwise_singleton _ _, ?_⟩, fun x hx => ?_⟩
  · intro x hx y hy
    rw [List.mem_singleton.1 hy]
    exact (hforward x hx).quiet hq
  · refine Nat.lt_of_lt_of_le ?_ hfd
    rcases List.mem_append.1 hx with hx | hx
    · exact hbelow x hx
    · rw [List.mem_singleton.1 hx]
      exact hm

private theorem move_thaw {w : Bool} {pc pc' : ThawPc} {n : TaskId} (ht : a.tasks i = some (.thaw w pc))
    (hm : Thaw.Move cfg a.ctx i fresh pc a'.ctx pc' new) (hh : Handles.Loc a.ctx i (.thaw w pc))
    (ho : pc.InLine a.ctx) (hg : Glob v a.ctx n) (hl : Loc v a.ctx i (.thaw w pc)) :
    Glob (v.observe a act a') a'.ctx n ∧ Loc (v.observe a act a') a'.ctx i (.thaw w pc') := by
  have hq := hm.quiet
  have hfd := hm.grows.fd
  rcases hm.passes with ⟨hn, rfl, rfl⟩ | ⟨hcall, rfl, rfl⟩ | ⟨hn, hpc⟩
  · have hobs : v.observe a act a' = some [] := by simp [Visited.observe, hn]
    rw [hobs]
    refine ⟨fun ms hms => by cases hms; exact ⟨.nil, by simp⟩, fun ms hms => ?_⟩
    obtain rfl := Option.some.inj hms
    exact ThawBlocking.tracks_start (ho.2.quiet hq) _
  · rename_i token b b'
    cases v with
    | none =>
      rw [Visited.observe_none_of_calls hcall.calls]
      exact ⟨by rintro ms ⟨⟩, by rintro ms ⟨⟩⟩
    | some ms =>
      have htracks : b.Tracks a.ctx.log ms := hl ms rfl
      rcases hcall.tracks htracks with ⟨m, k, r, hs, hn, htr⟩ | ⟨hn, htr⟩ | ⟨entries, hn⟩
      · have hvisit : (Task.thaw w (.blocking token ⟨b, false⟩)).visit = some ⟨m, k, b.keep⟩ := by
          simp [Task.visit, ThawBlocking.visit, hs]
        have hmem : m ∈ b.retained ++ b.stage.mounts := by simp [hs, ThawStage.mounts]
        have hbelow : m.fd < a.ctx.fd :=
          (hh rfl).below m (List.mem_append_right _ (by simp [ThawPc.mounts, ThawBlocking.mounts, hs, ThawStage.mounts]))
        rw [Visited.observe_of_fithaw hn ht hvisit]
        refine ⟨hg.visits hq hfd (fun x hx => htracks.forward x hx m hmem) hbelow, fun ms' hms => ?_⟩
        obtain rfl := Option.some.inj hms
        exact htr
      · rw [Visited.observe_of_quiet hn]
        refine ⟨hg.quiet hq hfd, fun ms' hms => ?_⟩
        obtain rfl := Option.some.inj hms
        exact htr
      · have hobs : Visited.observe (some ms) a act a' = none := by simp [Visited.observe, hn]
        rw [hobs]
        exact ⟨by rintro ms ⟨⟩, by rintro ms ⟨⟩⟩
  · rw [Visited.observe_of_quiet hn]
    refine ⟨hg.quiet hq hfd, ?_⟩
    cases pc' with
    | blocking token b =>
      obtain ⟨b₀, rfl, hb⟩ := hpc token b rfl
      intro ms hms
      have := (hl ms hms).quiet hq
      rw [hb]
      exact this
    | _ => trivial

private theorem move (act : Action) {n : TaskId} (ht : a.tasks i = some t) (hm : Task.Move cfg a.ctx i fresh t a'.ctx t' new)
    (hw : t.WF) (hh : Handles.Loc a.ctx i t) (ho : Publication.Loc a.ctx i t) (hg : Glob v a.ctx n)
    (hl : Loc v a.ctx i t) : Glob (v.observe a act a') a'.ctx n ∧ Loc (v.observe a act a') a'.ctx i t' := by
  cases t with
  | driver d =>
    cases hm with
    | driver h => exact move_driver ht h hw hh ho hg hl
  | thaw w pc =>
    cases hm with
    | thaw h => exact move_thaw ht h hh ho hg hl
  | _ =>
    obtain ⟨log', hn, hnew⟩ := hm.unowned hw rfl
    have hq : Quiet a.ctx a'.ctx := .of_log log' hn fun e he op => Event.hands_of_unowned (hnew e he).2 op
    rw [Visited.observe_of_quiet (by rw [news_eq hn]; exact fun e he => Event.ofPass_of_unowned (hnew e he).2)]
    refine ⟨hg.quiet hq hm.grows.fd, ?_⟩
    generalize a'.ctx = c' at hm
    cases hm <;> trivial

theorem Observed.agent {s : Agent × Visited} (h : Observed cfg s) :
    Machine.Reach (Agent.step cfg) KeepsApart Agent.Initial s.1 :=
  @Machine.Reach.of_observed _ _ _ _ _ _ _ (fun _ => none) _ h

/-- The visits of every pass go forward. -/
theorem reach {s : Agent × Visited} (h : Observed cfg s) : s.1.Holds (Glob s.2) (Loc s.2) := by
  refine h.invariant (I := fun s => s.1.Holds (Glob s.2) (Loc s.2)) (fun s h => ?_) (fun s act s' hr ih hs hok => ?_)
  · obtain ⟨a, v⟩ := s
    obtain ⟨c, n, hb⟩ := h.1.booted
    obtain rfl : v = none := h.2
    rw [hb]
    exact Agent.boot_holds (by rintro ms ⟨⟩) fun _ => trivial
  · obtain ⟨a, v⟩ := s
    obtain ⟨a', hs', rfl⟩ := Option.map_eq_some_iff.1 hs
    have hra : Machine.Reach (Agent.step cfg) KeepsApart Agent.Initial a := Observed.agent hr
    have htok := Tokens.reach hra
    have hhand := Handles.reach hra
    have hpubl := Publication.reach hra
    have hsame : ∀ log', a'.ctx.log = log' ++ a.ctx.log → (∀ e ∈ log', e.ofPass = false) → v.observe a act a' = v :=
      fun log' hn hnew => Visited.observe_of_quiet (by rw [news_eq hn]; exact hnew)
    refine Agent.holds_step_to ih hs' ?_ ?_ ?_ ?_ ?_ ?_
    · intro i t c' t' new ht hm hc
      obtain ⟨rfl, -⟩ := hc
      obtain ⟨hG, hL⟩ := move act ht hm (htok.loc ht).wf (hhand.loc ht) (hpubl.loc ht) ih.glob (ih.loc ht)
      refine ⟨hG, fun _ h => h, hL, fun _ _ => trivial, fun j u hj hu hl => ?_⟩
      cases hu' : u.holdsToken with
      | true =>
        obtain ⟨-, log', hn, hnew⟩ := Tokens.bystander hm htok.glob (htok.loc ht) hj (htok.loc hu) hu'
        have hq : Quiet a.ctx a'.ctx := .of_log log' hn fun e he op => Event.hands_of_unowned (hnew e he).2 op
        rw [hsame log' hn fun e he => Event.ofPass_of_unowned (hnew e he).2]
        exact hl.quiet hq
      | false => exact Loc.of_unowned (htok.loc hu).wf hu'
    · intro restrict hst hc
      have hn : a'.ctx.log = [.spawned a.next .prep, .started a.next restrict a.ctx.snapshot] ++ a.ctx.log := by rw [hc]; rfl
      have hq : Quiet a.ctx (Agent.freezeCtx cfg a.ctx a.next restrict) := .of_log [_, _] rfl (by simp [Event.hands])
      rw [hsame _ hn (by simp [Event.ofPass])]
      refine ⟨ih.glob.quiet hq (Nat.le_refl _), fun ms _ _ => ⟨?_, ?_⟩, fun j u _ _ hl => hl.quiet hq⟩
      · simp [Driver.start, Pc.opened, Tracked.opened]
      · simp [Driver.start, Driver.pass, Pc.rolling]
    · intro hc
      rw [hsame [] (by rw [hc]; rfl) (by simp)]
      exact ⟨ih.glob, fun _ _ _ hl => hl⟩
    · intro hc
      rw [hsame [] (by rw [hc]; rfl) (by simp)]
      exact ⟨ih.glob, trivial, trivial⟩
    · intro c' he hc
      have hlog : c'.log = a.ctx.log ∧ c'.fd = a.ctx.fd := by cases he <;> exact ⟨rfl, rfl⟩
      have hq : Quiet a.ctx c' := .of_log [] hlog.1 (by simp)
      rw [hsame [] (by rw [hc]; exact hlog.1) (by simp)]
      exact ⟨ih.glob.quiet hq (Nat.le_of_eq hlog.2.symm), fun _ _ _ hl => hl.quiet hq⟩
    · intro hc
      rw [hsame [] (by rw [hc]; rfl) (by simp)]
      exact ⟨ih.glob, fun _ => trivial⟩

end Reach

end DrainOrder

/-! ### The result -/

/-- Of two handles that an operation published, the one with the smaller descriptor was published first. -/
private theorem sublist_of_fd_lt {ms : List Mount} (h : ms.Pairwise fun x y => x.fd < y.fd) {x y : Mount} (hx : x ∈ ms)
    (hy : y ∈ ms) (hlt : x.fd < y.fd) : [x, y].Sublist ms := by
  obtain ⟨as, bs, rfl⟩ := List.append_of_mem hx
  have hyb : y ∈ bs := by
    rcases List.mem_append.1 hy with hya | hyb
    · have := (List.pairwise_append.1 h).2.2 y hya x List.mem_cons_self
      omega
    · rcases List.mem_cons.1 hyb with rfl | hyb
      · omega
      · exact hyb
  exact List.Sublist.trans ((List.singleton_sublist.2 hyb).cons_cons x) (List.sublist_append_right _ _)

private theorem eq_of_fd_eq {ms : List Mount} (h : ms.Pairwise fun x y => x.fd < y.fd) {x y : Mount} (hx : x ∈ ms)
    (hy : y ∈ ms) (heq : x.fd = y.fd) : x = y := by
  have hnodup : (ms.map Mount.fd).Nodup := List.pairwise_map.2 (h.imp fun hlt => Nat.ne_of_lt hlt)
  exact List.inj_on_of_nodup_map hnodup hx hy heq

/-- What comes first in the plan is published last. -/
private theorem sublist_of_planned {ms : List Mount} {plan : FreezePlan} {x y : Mount} (h : [x, y].Sublist ms)
    (hplan : (devs ms).Sublist (FreezePlan.targetDevs plan.freezeOrder)) :
    [y.dev, x.dev].Sublist (FreezePlan.targetDevs plan.targets) := by
  have hdevs : [x.dev, y.dev].Sublist (FreezePlan.targetDevs plan.freezeOrder) := (h.map Mount.dev).trans hplan
  rw [FreezePlan.targetDevs, FreezePlan.freezeOrder, List.map_reverse] at hdevs
  exact List.reverse_sublist.1 (by simpa [FreezePlan.targetDevs] using hdevs)

/-- In every run in which no pass keeps two handles of one operation, under any kernel and any number of failed
attempts: of two handles that one operation published, a rollback, a recovery drain or a tracked thaw, first or retried,
calls `FITHAW` on the one published later before it calls it on the other, so that it follows the plan of the operation
in forward mount order. -/
theorem drains_run_forward {cfg : Config} {a : Agent} {ms : List Mount} (h : DrainOrder.Observed cfg (a, some ms)) :
    ms.Pairwise fun m m' => ∀ op, m ∈ publishedBy a.ctx.log op → m' ∈ publishedBy a.ctx.log op →
      m = m' ∨ ([m', m].Sublist (publishedBy a.ctx.log op) ∧
        ∀ plan, .prepared op (.prepared plan) ∈ a.ctx.log → [m.dev, m'.dev].Sublist (FreezePlan.targetDevs plan.targets)) := by
  have hrun := DrainOrder.Observed.agent h
  have hsorted := (Publication.reach hrun).glob.sorted
  obtain ⟨hpair, -⟩ := (DrainOrder.reach h).glob ms rfl
  refine hpair.imp fun {m m'} hf op hm hm' => ?_
  rcases Nat.lt_or_eq_of_le (hf op hm hm') with hlt | heq
  · have hsub := sublist_of_fd_lt (hsorted op) hm' hm hlt
    exact .inr ⟨hsub, fun plan he => sublist_of_planned hsub ((Planned.reach hrun).glob op plan he)⟩
  · exact .inl (eq_of_fd_eq (hsorted op) hm' hm heq).symm

/-- The handles of the runs below. -/
private def outer : Mount := ⟨[slash], (8, 1), 1⟩

private def inner : Mount := ⟨[slash, 97], (8, 2), 0⟩

/-- A freeze of the superblock at `/` and of the one at `/a`, up to its reply. -/
private def freezeNested : List Action :=
  [.freeze none] ++ Script.prepare 1 [Script.row (8, 1) [slash], Script.row (8, 2) [slash, 97]] ++
    Script.attempt 1 (8, 2) (.ok ()) ++ Script.attempt 1 (8, 1) (.ok ()) ++ Script.drive 1 12

/-- Every drain that is incomplete is the first of its pass. -/
private def keepsFirst (a : Agent) (_ : Action) (a' : Agent) : Bool :=
  (news a.ctx a'.ctx).all fun e =>
    match e with
    | .fithaw i _ _ => ((a.tasks i).bind Task.visit).all fun v => v.keep.isEmpty
    | _ => true

private theorem keepsApart_of_keepsFirst (a : Agent) (act : Action) (a' : Agent) (h : keepsFirst a act a' = true) :
    KeepsApart a act a' := by
  intro i t v d r res ht hv he _ _ x hx
  have hall := List.all_eq_true.1 h _ he
  simp only [ht, Option.bind_some, hv, Option.all_some, List.isEmpty_iff] at hall
  rw [hall] at hx
  cases hx

theorem drains_run_forward_of_nested :
    ∃ a, DrainOrder.Observed ⟨60, 30, 300⟩ (a, some [outer, inner]) ∧
      [inner, outer].Sublist (publishedBy a.ctx.log 1) := by
  obtain ⟨⟨a, v⟩, hr, hp⟩ : ∃ s, DrainOrder.Observed ⟨60, 30, 300⟩ s ∧
      (decide (s.2 = some [outer, inner]) && decide (publishedBy s.1.ctx.log 1 = [inner, outer])) = true :=
    Machine.Reach.of_execute (fun s act s' => keepsFirst s.1 act s'.1)
      (fun s act s' h => keepsApart_of_keepsFirst s.1 act s'.1 h)
      (freezeNested ++ [.thaw] ++ Script.proceed 3 4 ++
        [Script.thaw 3 (.job (.fithaw (.error (.errno .EINVAL)))), Script.thaw 3 (.job (.fithaw (.error (.errno .EPERM))))])
      (fun s => decide (s.2 = some [outer, inner]) && decide (publishedBy s.1.ctx.log 1 = [inner, outer]))
      (s := (Agent.cold false, none)) ⟨Agent.cold_initial false, rfl⟩ (by decide) (by decide)
  simp only [Bool.and_eq_true, decide_eq_true_eq] at hp
  obtain ⟨rfl, hpub⟩ := hp
  have hforward := drains_run_forward hr
  have hpair := (List.pairwise_cons.1 hforward).1 inner List.mem_cons_self 1 (by rw [hpub]; decide) (by rw [hpub]; decide)
  exact ⟨a, hr, (hpair.resolve_left (by decide)).1⟩

/-- Two thaws whose drains are all denied. -/
private def thawDenied : List Action :=
  [.thaw] ++ Script.proceed 3 4 ++ List.replicate 2 (Script.thaw 3 (.job (.fithaw (.error (.errno .EPERM))))) ++
    Script.proceed 3 6 ++ [.thaw] ++ Script.proceed 5 4 ++
    List.replicate 2 (Script.thaw 5 (.job (.fithaw (.error (.errno .EPERM)))))

/-- The second of them drains the superblock at `/a` before the one at `/`. -/
theorem retry_runs_backward :
    ∃ a, Machine.Reach (Machine.observed (Agent.step ⟨60, 30, 300⟩) Visited.observe) (fun _ _ _ => True)
        (fun s => Agent.Initial s.1 ∧ s.2 = none) (a, some [inner, outer]) ∧
      inner ∈ publishedBy a.ctx.log 1 ∧ outer ∈ publishedBy a.ctx.log 1 ∧ inner ≠ outer ∧
      ¬ [outer, inner].Sublist (publishedBy a.ctx.log 1) := by
  obtain ⟨⟨a, v⟩, hr, hp⟩ : ∃ s, Machine.Reach (Machine.observed (Agent.step ⟨60, 30, 300⟩) Visited.observe)
      (fun _ _ _ => True) (fun s => Agent.Initial s.1 ∧ s.2 = none) s ∧
      (decide (s.2 = some [inner, outer]) && decide (publishedBy s.1.ctx.log 1 = [inner, outer])) = true :=
    Machine.Reach.of_execute (fun _ _ _ => true) (fun _ _ _ _ => trivial) (freezeNested ++ thawDenied)
      (fun s => decide (s.2 = some [inner, outer]) && decide (publishedBy s.1.ctx.log 1 = [inner, outer]))
      (s := (Agent.cold false, none)) ⟨Agent.cold_initial false, rfl⟩ (by decide) (by decide)
  simp only [Bool.and_eq_true, decide_eq_true_eq] at hp
  obtain ⟨rfl, hpub⟩ := hp
  exact ⟨a, hr, by rw [hpub]; decide, by rw [hpub]; decide, by decide, by rw [hpub]; decide⟩

end Qeminga
