import Qeminga.Invariant.Handles
import Qeminga.Contract.AbortOrCommit

/-!
# A thaw is refused only by another thaw

A thaw that finds the state machine busy looks up the operation in the slot and joins it, or claims once more if there is
none.  The operation leaves the slot before it publishes its terminal state, so a thaw that looks between the two finds
neither the operation nor a state it can claim, and is refused by no other thaw.  In every run in which no thaw looks there,
and in which no freeze begins between the look-up of a thaw and its next claim, a refused thaw has met another one that held
the token.
-/

namespace Qeminga

/-- The operation has left the slot and not yet published its terminal state. -/
def Pc.retired : Pc → Bool
  | .conclude .scope _ _ => true
  | .conclude .state _ _ => true
  | _ => false

/-- Some thaw other than `i`, of a request or of a watchdog, holds the token. -/
def Agent.drains (a : Agent) (i : TaskId) : Bool :=
  match a.ctx.owner with
  | some j =>
    match a.tasks j with
    | some (.thaw _ _) => decide (j ≠ i)
    | _ => false
  | none => false

/-- The owner of the token is the task that holds it. -/
theorem Agent.drains_iff {cfg : Config} {ok : Agent → Action → Agent → Prop} {a : Agent} {i : TaskId}
    (h : Machine.Reach (Agent.step cfg) ok Agent.Initial a) :
    a.drains i = true ↔ ∃ j b pc, j ≠ i ∧ a.tasks j = some (.thaw b pc) ∧ (Thaw.token pc).isSome = true := by
  have htk := Tokens.reach h
  have hheld : ∀ {b : Bool} {pc : ThawPc}, Task.holdsToken (.thaw b pc) = (Thaw.token pc).isSome := by
    intro b pc
    simp [Task.holdsToken, Task.freezeToken, Task.thawToken]
  constructor
  · intro hd
    unfold Agent.drains at hd
    split at hd
    · rename_i j ho
      split at hd
      · rename_i b pc hj
        exact ⟨j, b, pc, by simpa using hd, hj, hheld ▸ (htk.loc hj).owner.2 ho⟩
      · cases hd
    · cases hd
  · rintro ⟨j, b, pc, hne, hj, hh⟩
    have ho : a.ctx.owner = some j := (htk.loc hj).owner.1 (hheld.trans hh)
    simp [Agent.drains, ho, hj, hne]

/-- What an observer knows of each request: whether another thaw held the token at some instant since it began. -/
abbrev Met := TaskId → Bool

namespace Met

def observe (m : Met) (a : Agent) (_ : Action) (a' : Agent) : Met := fun i => decide (i < a.next) && m i || a'.drains i

/-- A start of the agent, at which nobody holds the token. -/
def initial (_ : Agent) : Met := fun _ => false

end Met

/-- The thaw has looked up the slot and may claim the token again. -/
def ThawPc.looked : ThawPc → Bool
  | .reclaim _ => true
  | .requestAbort _ => true
  | .waitSettled _ => true
  | .joinClaim _ => true
  | _ => false

/-- No freeze begins while a thaw request stands between its look-up of the slot and the claim that follows. -/
def NotOvertaken (a : Agent) (act : Action) : Prop :=
  ∀ restrict, act = .freeze restrict → a.ctx.state = .thawed →
    ∀ i pc, a.tasks i = some (.thaw false pc) → pc.looked = false

/-- No thaw looks up the slot while an operation has left it and not yet published its terminal state. -/
def LooksSettled (a : Agent) (act : Action) : Prop :=
  ∀ i ch err, act = .task i ch → a.tasks i = some (.thaw false (.lookup err)) →
    ∀ j d, a.tasks j = some (.driver d) → d.pc.retired = false

variable {cfg : Config} {c c' : Ctx} {i fresh : TaskId} {t t' : Task} {new : Option Dog} {a a' : Agent}

/-! ### The slot -/

namespace Slots

/-- The operation in the slot owns the token. -/
def Glob (c : Ctx) (_ : TaskId) : Prop := ∀ op, c.slot = some op → c.owner = some op

/-- An operation is in the slot until it retires; no other task is. -/
def Loc (c : Ctx) (i : TaskId) : Task → Prop
  | .driver d => c.slot = some i ↔ d.pc.published = false ∧ d.pc.retired = false
  | _ => c.slot ≠ some i

end Slots

/-- The driver leaves the slot with its own step, and does not come back to it. -/
private theorem Driver.Move.registered {d d' : Driver} (hm : Driver.Move cfg c i fresh d c' d' new)
    (h : c.slot = some i ↔ d.pc.published = false ∧ d.pc.retired = false) :
    c'.slot = some i ↔ d'.pc.published = false ∧ d'.pc.retired = false := by
  -- a step that neither retires nor publishes
  have hsame : c'.slot = c.slot → d'.pc.published = d.pc.published → d'.pc.retired = d.pc.retired →
      (c'.slot = some i ↔ d'.pc.published = false ∧ d'.pc.retired = false) := by
    intro h₁ h₂ h₃
    rw [h₁, h₂, h₃]
    exact h
  cases hm
  case retire hpc =>
    simp only [Ctx.retire_eq]
    refine ⟨fun hs => ?_, fun h => by cases h.2⟩
    split at hs
    · cases hs
    · rename_i hne
      exact absurd hs hne
  case scope hpc =>
    refine ⟨fun hs => ?_, fun h => by cases h.2⟩
    have := (h.1 hs).2
    rw [hpc] at this
    cases this
  case publish terminal reply hpc ht =>
    refine ⟨fun hs => ?_, fun h => by cases terminal <;> cases h.1⟩
    have := (h.1 hs).2
    rw [hpc] at this
    cases this
  case publishNone terminal reply hpc ht hth =>
    refine ⟨fun hs => ?_, fun h => by cases terminal <;> cases h.1⟩
    have := (h.1 hs).2
    rw [hpc] at this
    cases this
  case call tr tr' ht hc =>
    refine hsame hc.calls.slot ?_ ?_ <;>
      rcases tracked_cases ht with ⟨hpc, he⟩ | ⟨stage, hpc, he⟩ <;> rw [he, hpc] <;> rfl
  case lose tr ht =>
    refine hsame rfl ?_ ?_ <;>
      rcases tracked_cases ht with ⟨hpc, he⟩ | ⟨stage, hpc, he⟩ <;> rw [he, hpc] <;> rfl
  case drain h => exact hsame (Ctx.fithaw_calls h).slot rfl rfl
  case abort hpc =>
    rcases hpc with hpc | hpc | ⟨hpc, -⟩ <;> exact hsame rfl (by rw [hpc]; rfl) (by rw [hpc]; rfl)
  case interrupt hpc _ hc =>
    rcases hc with rfl | rfl <;> exact hsame rfl (by rw [hpc]; rfl) (by rw [hpc]; rfl)
  case announce k hpc =>
    have hk : k.pc.published = false ∧ k.pc.retired = false := by
      cases k with
      | boundary b => cases b <;> exact ⟨rfl, rfl⟩
      | «await» tr => exact ⟨rfl, rfl⟩
    exact hsame rfl (by rw [hpc]; exact hk.1) (by rw [hpc]; exact hk.2)
  case joinDrain => exact hsame rfl rfl rfl
  case joinDrainRestart => exact hsame rfl rfl rfl
  case settleDrain => exact hsame rfl rfl rfl
  case loseDrain => exact hsame rfl rfl rfl
  case froze hpc hd =>
    subst hd
    exact hsame rfl (by rw [hpc]; rfl) (by rw [hpc]; rfl)
  case busy hpc hd =>
    subst hd
    exact hsame rfl (by rw [hpc]; rfl) (by rw [hpc]; rfl)
  case commit terminal reply hpc => cases terminal <;> exact hsame rfl (by rw [hpc]; rfl) (by rw [hpc]; rfl)
  case cancel hpc => exact hsame (by simp) (by rw [hpc]; rfl) (by rw [hpc]; rfl)
  case install hpc => exact hsame (by simp) (by rw [hpc]; rfl) (by rw [hpc]; rfl)
  all_goals exact hsame rfl (by rw [‹d.pc = _›]; rfl) (by rw [‹d.pc = _›]; rfl)

namespace Slots

/-- Only whether the slot is this task's matters to it. -/
private theorem Loc.congr (h : Loc c i t) (hs : c'.slot = some i ↔ c.slot = some i) : Loc c' i t := by
  cases t with
  | driver d => exact hs.trans h
  | _ => exact fun hc => h (hs.1 hc)

private theorem move (hm : Task.Move cfg c i fresh t c' t' new) {next : TaskId} (hg : Glob c next) (hl : Loc c i t)
    (htk : Tokens.Glob c next) (htl : Tokens.Loc c i t) : Glob c' next ∧ Loc c' i t' := by
  have hf := hm.frame htk htl
  have hloc : Loc c' i t' := by
    cases hm with
    | driver h => exact h.registered hl
    | thaw h =>
      show _ ≠ _
      rw [h.slot]
      exact hl
    | startInstall => simpa [Loc] using hl
    | _ => exact hl
  refine ⟨fun op ho => ?_, hloc⟩
  have hold : c.slot = some op := by
    rcases hm.slot with h | h
    · rwa [h] at ho
    · rw [h] at ho
      cases ho
  have hown := hg op hold
  by_cases hi : op = i
  · -- the operation in the slot takes the step; it keeps the token as long as it stays there
    subst hi
    cases t with
    | driver d =>
      cases hm with
      | @driver _ d' _ _ h =>
        have hp : Task.holdsToken (.driver d') = true := by
          have := (h.wf htl.wf).token_iff
          rwa [(hloc.1 ho).1] at this
        exact (Tokens.move (.driver h) (htk.bound _ hown) htk htl).2.owner.1 hp
    | _ => exact absurd hold hl
  · rw [hf.guarded op hi hown]
    exact hown

/-- The slot in every reachable state. -/
theorem reach {ok : Agent → Action → Agent → Prop} (h : Machine.Reach (Agent.step cfg) ok Agent.Initial a) :
    a.Holds Glob Loc := by
  refine h.invariant (fun a h => ?_) (fun a act a' hr ih hs _ => ?_)
  · obtain ⟨c, n, rfl⟩ := h.booted
    exact Agent.boot_holds (fun _ h => by cases h) fun _ h => by cases h
  · have htk := Tokens.reach hr
    have hunused : a.ctx.slot ≠ some a.next := fun h => htk.glob.unused (ih.glob _ h)
    refine Agent.holds_step ih hs ?_ ?_ ?_ ?_ ?_
    · intro i t c' t' new ht hm _
      obtain ⟨hG, hL⟩ := move hm ih.glob (ih.loc ht) htk.glob (htk.loc ht)
      have hf := hm.frame htk.glob (htk.loc ht)
      refine ⟨hG, fun _ h => h, hL, fun g _ hs => ?_, fun j u hj hu hl => ?_⟩
      · rcases hm.slot with h | h <;> rw [h] at hs
        · exact hunused hs
        · cases hs
      · refine hl.congr ⟨fun hs => ?_, fun hs => ?_⟩
        · rcases hm.slot with h | h <;> rw [h] at hs
          · exact hs
          · cases hs
        · rw [hf.guarded j hj (ih.glob j hs)]
          exact hs
    · intro restrict hst _
      have hnone : a.ctx.slot = none := by
        cases ho : a.ctx.slot with
        | none => rfl
        | some op => cases (htk.glob.free.2 (.inl hst)).symm.trans (ih.glob op ho)
      refine ⟨fun op ho => ho, ⟨fun _ => ⟨rfl, rfl⟩, fun _ => rfl⟩, fun j u hj _ hl => hl.congr ⟨fun hs => ?_, fun hs => ?_⟩⟩
      · exact absurd (Option.some.inj hs) (Nat.ne_of_gt hj)
      · rw [hnone] at hs
        cases hs
    · exact ⟨ih.glob, hunused, hunused⟩
    · intro c' he _
      cases he <;> exact ⟨ih.glob, fun j u _ hl => by cases u <;> exact hl⟩
    · exact fun _ => ⟨(fun _ h => by cases h), fun _ h => by cases h⟩

end Slots

/-! ### What a request that has met no other thaw knows -/

/-- Who can hold the token while a request that has met no other thaw stands at `pc`. -/
def ThawPc.Unmet (owner : Option TaskId) : ThawPc → Prop
  | .reclaim _ => owner = none
  | .requestAbort op => owner = some op ∨ owner = none
  | .waitSettled op => owner = some op ∨ owner = none
  | .joinClaim _ => owner = none
  | .answer (.error (.cannotThaw _)) _ => False
  | _ => True

private theorem ThawPc.Unmet.free {owner : Option TaskId} {pc : ThawPc} (h : pc.Unmet owner) : pc.Unmet none := by
  cases pc with
  | requestAbort op => exact .inr rfl
  | waitSettled op => exact .inr rfl
  | reclaim err => rfl
  | joinClaim op => rfl
  | answer r joined =>
    cases r with
    | ok n => trivial
    | error err => cases err <;> exact h
  | _ => exact h

/-- Who holds the token matters only between the look-up and the next claim. -/
private theorem ThawPc.Unmet.of_looked {owner owner' : Option TaskId} {pc : ThawPc} (h : pc.Unmet owner)
    (hl : pc.looked = false) : pc.Unmet owner' := by
  cases pc with
  | requestAbort op => cases hl
  | waitSettled op => cases hl
  | reclaim err => cases hl
  | joinClaim op => cases hl
  | answer r joined =>
    cases r with
    | ok n => trivial
    | error err => cases err <;> exact h
  | _ => exact h

/-- The observer has seen the current state, and a request that has met no other thaw knows who can hold the token. -/
structure Meets (a : Agent) (m : Met) : Prop where
  now : ∀ i, i < a.next → a.drains i = true → m i = true
  unmet : ∀ i pc, a.tasks i = some (.thaw false pc) → m i = false → pc.Unmet a.ctx.owner

/-- The owner of the token, for a request that has met no other thaw, is a driver. -/
private theorem Agent.driver_of_owner (hr : a.Holds Tokens.Glob Tokens.Loc)
    (hp : ∀ {j}, a.ctx.owner = some j → (a.tasks j).isSome = true) {pc : ThawPc} {b : Bool}
    (ht : a.tasks i = some (.thaw b pc)) (hpc : Thaw.token pc = none) (hd : a.drains i = false) {j : TaskId}
    (ho : a.ctx.owner = some j) : ∃ d, a.tasks j = some (.driver d) ∧ d.pc.published = false := by
  obtain ⟨u, hu⟩ := Option.isSome_iff_exists.1 (hp ho)
  have hh := (hr.loc hu).owner.2 ho
  cases u with
  | driver d =>
    have := Driver.WF.token_iff (hr.loc hu).wf
    rw [show (d.token.isSome || d.thawToken.isSome) = true from hh] at this
    exact ⟨d, hu, by simpa using this.symm⟩
  | thaw b' pc' =>
    have hji : j ≠ i := by
      rintro rfl
      obtain rfl : pc' = pc := by
        have := hu.symm.trans ht
        cases this
        rfl
      simp [Task.holdsToken, Task.freezeToken, Task.thawToken, hpc] at hh
    simp [Agent.drains, ho, hu, hji] at hd
  | _ => cases hh

private theorem Met.unseen {m : Met} (act : Action) (h : m.observe a act a' i = false) :
    (i < a.next → m i = false) ∧ a'.drains i = false := by
  simp only [Met.observe, Bool.or_eq_false_iff, Bool.and_eq_false_iff, decide_eq_false_iff_not] at h
  exact ⟨fun hi => h.1.resolve_left (not_not_intro hi), h.2⟩

/-- A step of a request that has met no other thaw. -/
private theorem Meets.own {pc pc' : ThawPc} (hr : a.Holds Tokens.Glob Tokens.Loc)
    (hp : ∀ {j}, a.ctx.owner = some j → (a.tasks j).isSome = true) (hslots : a.Holds Slots.Glob Slots.Loc)
    (hset : a.Holds Decided.Glob Decided.Loc) (ht : a.tasks i = some (.thaw false pc))
    (hm : Thaw.Move cfg a.ctx i fresh pc c' pc' new) (hd : a.drains i = false) (hpc : pc.Unmet a.ctx.owner)
    (hlook : ∀ err, pc = .lookup err → ∀ j d, a.tasks j = some (.driver d) → d.pc.retired = false) :
    pc'.Unmet c'.owner := by
  have hbusy : a.ctx.state = .freezing ∨ a.ctx.state = .thawing → a.ctx.owner ≠ none := by
    intro hs ho
    rcases hr.glob.free.1 ho with h | h <;> rw [h] at hs <;> rcases hs with hs | hs <;> cases hs
  cases hm
  case found err op hs => exact .inl (hslots.glob op hs)
  case notFound err hs =>
    -- a driver that holds the token would be in the slot
    cases ho : a.ctx.owner with
    | none => rfl
    | some j =>
      obtain ⟨d, hj, hpub⟩ := Agent.driver_of_owner hr hp ht rfl hd ho
      have hin : a.ctx.slot = some j := (hslots.loc hj).2 ⟨hpub, hlook err rfl j d hj⟩
      rw [hs] at hin
      cases hin
  case refusedAgain err hs => exact absurd hpc (hbusy hs)
  case refusedJoin op err hs => exact absurd hpc (hbusy hs)
  case accepted op ho => trivial
  case committed op ho => exact hpc
  case notify op => trivial
  case settled op hs =>
    rcases hpc with ho | ho
    · -- an operation that has announced its settlement no longer holds the token
      obtain ⟨d, hj, hpub⟩ := Agent.driver_of_owner hr hp ht rfl hd ho
      have hann : d.pc.announced = false := by
        cases hdpc : d.pc with
        | conclude stage terminal reply =>
          rw [hdpc] at hpub
          cases stage <;> first | rfl | cases hpub
        | finished => rw [hdpc] at hpub; cases hpub
        | _ => rfl
      rw [(hset.loc hj : Decided.DriverLoc _ _ _).settled hann] at hs
      cases hs
    · exact ho
  case readProgress op =>
    show ThawPc.Unmet _ (.answer (Thaw.joinAnswer _) _)
    unfold Thaw.joinAnswer
    split <;> trivial
  case hold token outcome held =>
    cases outcome with
    | ok n => trivial
    | error failure =>
      simp only [Thaw.settles]
      split <;> trivial
  case publish token outcome =>
    cases outcome <;> trivial
  all_goals trivial

/-! ### Every run -/

/-- Who drains after a step, if nobody but the task `i` took one and it does not hold the token. -/
private theorem Agent.drains_of_claim {j : TaskId} {u : Task} {b : Bool} {pc : ThawPc} (ho : a.ctx.owner = some j)
    (hj : a.tasks j = some u) (hu : u = .thaw b pc) (hne : j ≠ i) : a.drains i = true := by
  subst hu
  simp [Agent.drains, ho, hj, hne]

/-- The token changes hands by a publication, or by a claim of a thaw or of a watchdog. -/
private theorem Task.Move.owner_cases (hm : Task.Move cfg c i fresh t c' t' new) (hw : t.WF) :
    c'.owner = c.owner ∨ c'.owner = none ∨ (c'.owner = some i ∧ ∃ b pc, t' = .thaw b pc) := by
  cases hm with
  | driver h =>
    rcases h.tokens hw with ⟨-, -, -, h⟩ | ⟨-, -, -, -, h⟩ | ⟨-, -, -, -, h⟩
    · exact .inl h
    · exact .inl h
    · exact .inr (.inl h)
  | thaw h =>
    rcases h.tokens with ⟨-, -, h⟩ | ⟨-, -, -, -, h⟩ | ⟨-, -, -, h⟩
    · exact .inl h
    · exact .inr (.inr ⟨h, _, _, rfl⟩)
    · exact .inr (.inl h)
  | dogClaims => exact .inr (.inr ⟨rfl, _, _, rfl⟩)
  | startInstall => exact .inl (by simp)
  | _ => exact .inl rfl

namespace Meets

/-- The agent beside the observer of its requests. -/
abbrev Observed (cfg : Config) (s : Agent × Met) : Prop :=
  Machine.Reach (Machine.observed (Agent.step cfg) Met.observe)
    (fun s act _ => NotOvertaken s.1 act ∧ LooksSettled s.1 act) (fun s => Agent.Initial s.1 ∧ s.2 = .initial s.1) s

theorem Observed.agent {s : Agent × Met} (h : Observed cfg s) :
    Machine.Reach (Agent.step cfg) (fun a act _ => NotOvertaken a act ∧ LooksSettled a act) Agent.Initial s.1 :=
  Machine.Reach.of_observed h

private theorem apply {m : Met} {ch : Task.Choice} (h : Meets a m)
    (hr : Machine.Reach (Agent.step cfg) (fun a act _ => NotOvertaken a act ∧ LooksSettled a act) Agent.Initial a)
    (ht : a.tasks i = some t) (hm : Task.Move cfg a.ctx i a.next t c' t' new) (hlook : LooksSettled a (.task i ch)) :
    Meets (a.apply i c' t' (new.map .dog)) (m.observe a (.task i ch) (a.apply i c' t' (new.map .dog))) := by
  have htk := Tokens.reach hr
  constructor
  · intro j _ hd
    simp [Met.observe, hd]
  intro j pc hj hmet
  rw [Pool.apply_ctx]
  obtain ⟨hold, hdrain⟩ := Met.unseen _ hmet
  rcases Pool.apply_tasks hj with ⟨-, hn⟩ | ⟨rfl, ht'⟩ | ⟨hne, hj⟩
  · obtain ⟨g, -, hg⟩ := Option.map_eq_some_iff.1 hn
    cases hg
  · -- the request's own step
    subst ht'
    have hnone := hold (htk.bound ht)
    have hd : a.drains j = false := by
      rw [Bool.eq_false_iff]
      intro hd
      rw [h.now j (htk.bound ht) hd] at hnone
      cases hnone
    cases hm with
    | @thaw _ pc₀ _ _ _ hm =>
      refine Meets.own htk (Tokens.present hr) (Slots.reach hr) (Decided.reach hr) ht hm hd (h.unmet j pc₀ ht hnone) ?_
      intro err hpc k d hk
      subst hpc
      exact hlook j ch err rfl ht k d hk
  · have hpc := h.unmet j pc hj (hold (htk.bound hj))
    rcases hm.owner_cases (htk.loc ht).wf with ho | ho | ⟨ho, b, pc', rfl⟩
    · rw [ho]
      exact hpc
    · rw [ho]
      exact hpc.free
    · have hself : (a.apply i c' (.thaw b pc') (new.map .dog)).tasks i = some (.thaw b pc') :=
        Pool.apply_self (Nat.ne_of_lt (htk.bound ht))
      have := Agent.drains_of_claim (i := j) (by rw [Pool.apply_ctx]; exact ho) hself rfl (Ne.symm hne)
      rw [hdrain] at this
      cases this

private theorem spawn {m : Met} (act : Action) {u : Task} (h : Meets a m)
    (hu : ∀ pc, u = .thaw false pc → pc.Unmet c.owner) (htk : a.Holds Tokens.Glob Tokens.Loc)
    (ho : c.owner = a.ctx.owner ∨ ∀ i pc, a.tasks i = some (.thaw false pc) → pc.looked = false) :
    Meets (a.spawn c u) (m.observe a act (a.spawn c u)) := by
  constructor
  · intro j _ hd
    simp [Met.observe, hd]
  intro j pc hj hmet
  obtain ⟨hold, -⟩ := Met.unseen act hmet
  rcases Pool.spawn_tasks hj with ⟨-, he⟩ | ⟨-, hj⟩
  · exact hu pc he.symm
  · have hpc := h.unmet j pc hj (hold (htk.bound hj))
    rcases ho with ho | ho
    · rw [Pool.spawn_ctx, ho]
      exact hpc
    · exact hpc.of_looked (ho j pc hj)

theorem reach {s : Agent × Met} (h : Observed cfg s) : Meets s.1 s.2 := by
  have hboot : ∀ (c : Ctx) (n : TaskId) (m : Met), Meets (Agent.boot c n) m := by
    intro c n m
    constructor
    · intro i _ hd
      cases hd
    · intro i pc hi
      by_cases hn : i = n
      · subst hn
        simp only [Agent.boot, Function.update_self] at hi
        split at hi <;> cases hi
      · simp [Agent.boot, Function.update_of_ne hn] at hi
  refine h.invariant (I := fun s => Meets s.1 s.2) (fun s h => ?_) (fun s act s' hr ih hs hok => ?_)
  · obtain ⟨c, n, hb⟩ := h.1.booted
    rw [hb]
    exact hboot c n _
  · obtain ⟨a, m⟩ := s
    obtain ⟨a', hs', rfl⟩ := Option.map_eq_some_iff.1 hs
    have hra := Observed.agent hr
    have htk : a.Holds Tokens.Glob Tokens.Loc := Tokens.reach hra
    cases Agent.step_move hs' with
    | @task i ch t t' c' new ht hm => exact ih.apply hra ht hm hok.2
    | freeze restrict hst => exact ih.spawn (.freeze restrict) (fun _ h => by cases h) htk (.inr (hok.1 restrict rfl hst))
    | refused restrict =>
      refine ⟨fun j _ hd => by simp [Met.observe, hd], fun j pc hj hmet => ?_⟩
      exact ih.unmet j pc hj ((Met.unseen (.freeze restrict) hmet).1 (htk.bound hj))
    | thaw => exact ih.spawn .thaw (fun pc h => by cases h; trivial) htk (.inl rfl)
    | status => exact ih.spawn .status (fun _ h => by cases h) htk (.inl rfl)
    | @env _ c' he hact =>
      refine ⟨fun j _ hd => by simp [Met.observe, hd], fun j pc hj hmet => ?_⟩
      have hpc := ih.unmet j pc hj ((Met.unseen act hmet).1 (htk.bound hj))
      cases he <;> exact hpc
    | crash => exact hboot _ _ _

end Meets

/-- In every run in which no thaw looks up the slot while an operation has left it and not yet published its terminal state,
and no freeze begins while a thaw request stands between its look-up and its next claim: a thaw request that is answered
"cannot thaw" has met another thaw, of a request or of a watchdog, that held the token. -/
theorem thaw_refused_by_thaw {s : Agent × Met} (h : Meets.Observed cfg s) {err : TransitionError}
    {joined : Option TaskId} (ht : s.1.tasks i = some (.thaw false (.answer (.error (.cannotThaw err)) joined))) :
    s.2 i = true := by
  by_contra hne
  exact (Meets.reach h).unmet i _ ht (by simpa using hne)

/-- The two conditions on a step, among the tasks that there are. -/
private def overtakesNot (s : Agent × Met) (act : Action) (_ : Agent × Met) : Bool :=
  match act with
  | .freeze _ => (List.range s.1.next).all fun i =>
    match s.1.tasks i with
    | some (.thaw false pc) => decide (s.1.ctx.state ≠ .thawed) || !pc.looked
    | _ => true
  | _ => true

private def looksSettled (s : Agent × Met) (act : Action) (_ : Agent × Met) : Bool :=
  match act with
  | .task i _ =>
    match s.1.tasks i with
    | some (.thaw false (.lookup _)) => (List.range s.1.next).all fun j =>
      match s.1.tasks j with
      | some (.driver d) => !d.pc.retired
      | _ => true
    | _ => true
  | _ => true

private theorem of_overtakesNot {s s' : Agent × Met} {act : Action} (hb : ∀ {j u}, s.1.tasks j = some u → j < s.1.next)
    (h : overtakesNot s act s' = true) : NotOvertaken s.1 act := by
  rintro restrict rfl hst i pc hi
  simp only [overtakesNot, List.all_eq_true, List.mem_range] at h
  simpa [hi, hst] using h i (hb hi)

private theorem of_looksSettled {s s' : Agent × Met} {act : Action} (hb : ∀ {j u}, s.1.tasks j = some u → j < s.1.next)
    (h : looksSettled s act s' = true) : LooksSettled s.1 act := by
  rintro i ch err rfl hi j d hj
  simp only [looksSettled, hi, List.all_eq_true, List.mem_range] at h
  simpa [hj] using h j (hb hj)

/-- The request `i` is about to be answered "cannot thaw". -/
private def refused (i : TaskId) (s : Agent × Met) : Bool :=
  match s.1.tasks i with
  | some (.thaw false (.answer (.error (.cannotThaw _)) _)) => true
  | _ => false

/-- A second thaw request while the drain of a first one is running. -/
theorem thaw_refused_by_thaw_of_two :
    ∃ s err joined, Meets.Observed ⟨60, 30, 300⟩ s ∧
      s.1.tasks 4 = some (.thaw false (.answer (.error (.cannotThaw err)) joined)) ∧ s.2 4 = true := by
  obtain ⟨s, hr, hp⟩ : ∃ s, Meets.Observed ⟨60, 30, 300⟩ s ∧ refused 4 s = true :=
    Machine.Reach.of_checked (fun s act s' => overtakesNot s act s' && looksSettled s act s')
      (fun s act s' hs h => by
        obtain ⟨hfreeze, hlook⟩ := Bool.and_eq_true_iff.1 h
        have htk := Tokens.reach (Meets.Observed.agent hs)
        exact ⟨of_overtakesNot htk.bound hfreeze, of_looksSettled htk.bound hlook⟩)
      (Script.freezeOne ++ [.thaw] ++ Script.proceed 3 2 ++ [.thaw] ++ Script.proceed 4 3) (refused 4)
      (s := (Agent.cold false, .initial (Agent.cold false))) ⟨Agent.cold_initial false, rfl⟩ (by decide) (by decide)
  unfold refused at hp
  split at hp
  · rename_i err joined ht
    exact ⟨s, err, joined, hr, ht, thaw_refused_by_thaw hr ht⟩
  · cases hp

/-- A thaw request whose look-up and second claim both come after the operation has left the slot and before it publishes
`Frozen`. -/
private def betweenRetireAndPublish : List Action :=
  [.freeze none] ++ Script.prepare 1 [Script.row (8, 1) [slash]] ++ Script.attempt 1 (8, 1) (.ok ()) ++
    Script.drive 1 7 ++ [.thaw] ++ Script.proceed 2 3

/-- A thaw request that looks up the slot after a freeze has failed and finished, and claims again after a second freeze has
begun. -/
private def afterNextFreeze : List Action :=
  [.freeze none, .thaw] ++ Script.proceed 2 1 ++ [Script.driver 1 (.job (.table (.error ""))), Script.driver 1 .done] ++
    Script.drive 1 7 ++ Script.proceed 2 1 ++ [.freeze none] ++ Script.proceed 2 1

/-- The request `i` is about to be refused and has met no other thaw. -/
private def refusedUnmet (i : TaskId) (s : Agent × Met) : Bool := refused i s && !s.2 i

/-- Such a state refutes the claim for the runs that lead to it. -/
private theorem refuted {ok : Agent × Met → Action → Agent × Met → Prop} {s : Agent × Met} {i : TaskId}
    (hr : Machine.Reach (Machine.observed (Agent.step ⟨60, 30, 300⟩) Met.observe) ok
      (fun s => Agent.Initial s.1 ∧ s.2 = .initial s.1) s) (hp : refusedUnmet i s = true) :
    ¬ ∀ (cfg : Config) (s : Agent × Met) (i : TaskId) (err : TransitionError) (joined : Option TaskId),
      Machine.Reach (Machine.observed (Agent.step cfg) Met.observe) ok (fun s => Agent.Initial s.1 ∧ s.2 = .initial s.1) s →
      s.1.tasks i = some (.thaw false (.answer (.error (.cannotThaw err)) joined)) → s.2 i = true := by
  intro hall
  obtain ⟨hrefused, hmet⟩ := Bool.and_eq_true_iff.1 hp
  unfold refused at hrefused
  split at hrefused
  · next err joined ht =>
    rw [hall _ s i err joined hr ht] at hmet
    cases hmet
  · cases hrefused

/-- Neither condition alone suffices: a thaw is refused that no other thaw has met, in a run in which no freeze comes between
its look-up and its claims, and in a run in which it looks up the slot when no operation is about to publish. -/
theorem thaw_refused_by_freeze :
    (¬ ∀ (cfg : Config) (s : Agent × Met) (i : TaskId) (err : TransitionError) (joined : Option TaskId),
      Machine.Reach (Machine.observed (Agent.step cfg) Met.observe) (fun s act _ => NotOvertaken s.1 act)
        (fun s => Agent.Initial s.1 ∧ s.2 = .initial s.1) s →
      s.1.tasks i = some (.thaw false (.answer (.error (.cannotThaw err)) joined)) → s.2 i = true) ∧
    ¬ ∀ (cfg : Config) (s : Agent × Met) (i : TaskId) (err : TransitionError) (joined : Option TaskId),
      Machine.Reach (Machine.observed (Agent.step cfg) Met.observe) (fun s act _ => LooksSettled s.1 act)
        (fun s => Agent.Initial s.1 ∧ s.2 = .initial s.1) s →
      s.1.tasks i = some (.thaw false (.answer (.error (.cannotThaw err)) joined)) → s.2 i = true := by
  constructor
  · obtain ⟨s, hr, hp⟩ : ∃ s, Machine.Reach (Machine.observed (Agent.step ⟨60, 30, 300⟩) Met.observe)
        (fun s act _ => NotOvertaken s.1 act) (fun s => Agent.Initial s.1 ∧ s.2 = .initial s.1) s ∧
        refusedUnmet 2 s = true :=
      Machine.Reach.of_checked overtakesNot
        (fun s act s' hs h => by
          have ha : Machine.Reach (Agent.step ⟨60, 30, 300⟩) (fun a act _ => NotOvertaken a act) Agent.Initial s.1 :=
            Machine.Reach.of_observed hs
          exact of_overtakesNot (Tokens.reach ha).bound h)
        betweenRetireAndPublish (refusedUnmet 2)
        (s := (Agent.cold false, .initial (Agent.cold false))) ⟨Agent.cold_initial false, rfl⟩ (by decide) (by decide)
    exact refuted hr hp
  · obtain ⟨s, hr, hp⟩ : ∃ s, Machine.Reach (Machine.observed (Agent.step ⟨60, 30, 300⟩) Met.observe)
        (fun s act _ => LooksSettled s.1 act) (fun s => Agent.Initial s.1 ∧ s.2 = .initial s.1) s ∧
        refusedUnmet 2 s = true :=
      Machine.Reach.of_checked looksSettled
        (fun s act s' hs h => by
          have ha : Machine.Reach (Agent.step ⟨60, 30, 300⟩) (fun a act _ => LooksSettled a act) Agent.Initial s.1 :=
            Machine.Reach.of_observed hs
          exact of_looksSettled (Tokens.reach ha).bound h)
        afterNextFreeze (refusedUnmet 2)
        (s := (Agent.cold false, .initial (Agent.cold false))) ⟨Agent.cold_initial false, rfl⟩ (by decide) (by decide)
    exact refuted hr hp

end Qeminga
