import Qeminga.Invariant.Tokens
import Qeminga.Invariant.Drains

/-!
# Every frozen superblock is answered for

A superblock that the agent froze and that is still frozen is reachable through something: a held handle, a handle
that a driver or a drain has, or the mount table, once the thaw scope says that handles may be missing.  The marker
is removed, and `Thawed` is published, only where nothing is left to answer for.  This needs an honest kernel and,
for the discovery drains, a mount table that lists what the agent froze (`Cover.reach`).
-/

namespace Qeminga

/-- No superblock that the agent froze is still frozen. -/
def Ctx.Clean (c : Ctx) : Prop := ∀ x, c.own x = false

/-- What the agent froze is frozen, and the marker says so. -/
structure Ctx.Safe (c : Ctx) : Prop where
  frozen : ∀ x, c.own x = true → 0 < c.depth x
  marked : ∀ x, c.own x = true → c.marker = true

theorem Ctx.Clean.safe {c : Ctx} (h : c.Clean) : c.Safe :=
  ⟨fun x hx => absurd (h x) (by simp [hx]), fun x hx => absurd (h x) (by simp [hx])⟩

theorem Ctx.Clean.mono {c c' : Ctx} (h : c.Clean) (hown : ∀ x, c'.own x = true → c.own x = true) : c'.Clean := by
  intro x
  rw [Bool.eq_false_iff]
  intro hx
  have := hown x hx
  rw [h x] at this
  cases this

theorem Ctx.Safe.fithaw {c c' : Ctx} {i : TaskId} {d : Dev} {r : Except KernelError Unit} (h : c.Safe)
    (hc : c.fithaw i d r = some c') : c'.Safe := by
  have hmark : c'.marker = c.marker := by
    rcases Ctx.fithaw_cases hc with ⟨-, -, rfl⟩ | ⟨err, -, rfl⟩ <;> rfl
  refine ⟨fun x hx => ?_, fun x hx => hmark ▸ h.marked x (Ctx.own_of_fithaw hc hx)⟩
  have hown := Ctx.own_of_fithaw hc hx
  rcases Ctx.fithaw_cases hc with ⟨-, -, rfl⟩ | ⟨err, -, rfl⟩
  · by_cases hxd : x = d
    · subst hxd
      simp only [Function.update_self, Bool.and_eq_true, decide_eq_true_eq] at hx ⊢
      omega
    · simp only [Function.update_of_ne hxd]
      exact h.frozen x hown
  · exact h.frozen x hown

theorem Ctx.own_of_unlink {c c' : Ctx} {ans : UnlinkAnswer} {r : Except MarkerError Unit}
    (h : c.unlink ans = some (c', r)) : c'.own = c.own := by
  rcases Ctx.unlink_cases h with ⟨-, -, rfl⟩ | ⟨-, -, rfl⟩ | ⟨e, -, rfl⟩ <;> rfl

/-! ### The awaited task of a driver -/

namespace Tracked

/-- The task answers for `x`: it has a handle on it, or it was lost. -/
def covers (x : Dev) : Tracked → Prop
  | .worker _ _ j => j.lost = true ∨ ∃ m, j.val = .done (.frozen m) ∧ m.dev = x
  | .rollback j => j.lost = true ∨ x ∈ devs j.val.drain.mounts
  | _ => False

/-- Nothing is frozen while the task runs. -/
def clean : Tracked → Bool
  | .prep _ => true
  | .removal _ _ => true
  | _ => false

/-- The marker is there while the task runs. -/
def marked : Tracked → Bool
  | .prep j => j.val.created
  | .worker _ _ _ => true
  | _ => false

theorem covers_loseJob {tr : Tracked} {x : Dev} (h : tr.covers x) : (Driver.loseJob tr).covers x := by
  cases tr with
  | worker t rest j => exact .inl rfl
  | rollback j => exact .inl rfl
  | _ => exact h

variable {c c' : Ctx} {i : TaskId} {tr tr' : Tracked}

theorem Call.clean_eq (h : tr.Call c i c' tr') : tr'.clean = tr.clean := by cases h <;> rfl

theorem Call.marked (h : tr.Call c i c' tr') (ht : tr.marked = true → c.marker = true) (htr : tr'.marked = true) :
    c'.marker = true := by
  cases h with
  | created => rfl
  | fifreeze t rest m aborted clock r =>
    have := ht rfl
    rcases c.fifreeze_cases i m.dev aborted clock r with ⟨-, h⟩ | ⟨err, -, h⟩ <;> rw [h] <;> exact this
  | planned => cases htr
  | planFailed => cases htr
  | alreadyPresent => cases htr
  | openFailed => cases htr
  | removed => cases htr
  | rollbackDrains => cases htr
  | rollbackUnlinks => cases htr
  | _ => exact ht rfl

theorem Call.safe (h : tr.Call c i c' tr') (hs : c.Safe) (ht : tr.marked = true → c.marker = true)
    (hclean : tr.clean = true → c.Clean) (hroll : ∀ j, tr = .rollback j → j.val.unlinks = true → c.Clean) :
    c'.Safe := by
  cases h with
  | created => exact ⟨hs.frozen, fun _ _ => rfl⟩
  | fifreeze t rest m aborted clock r =>
    have hm := ht rfl
    rcases c.fifreeze_cases i m.dev aborted clock r with ⟨-, h⟩ | ⟨err, -, h⟩ <;> rw [h]
    · refine ⟨fun x hx => ?_, fun _ _ => hm⟩
      by_cases hxd : x = m.dev
      · subst hxd
        simp
      · simp only [Function.update_of_ne hxd] at hx ⊢
        exact hs.frozen x hx
    · exact ⟨hs.frozen, hs.marked⟩
  | removed k h =>
    refine Ctx.Clean.safe fun x => ?_
    rw [Ctx.own_of_unlink h]
    exact hclean rfl x
  | rollbackDrains htodo h => exact hs.fithaw h
  | rollbackUnlinks hj h =>
    refine Ctx.Clean.safe fun x => ?_
    rw [Ctx.own_of_unlink h]
    exact hroll _ rfl hj x
  | _ => exact ⟨hs.frozen, hs.marked⟩

/-- A call freezes at most what the task then has a handle on. -/
theorem Call.own (h : tr.Call c i c' tr') {x : Dev} (hx : c'.own x = true) : c.own x = true ∨ tr'.covers x := by
  cases h with
  | fifreeze t rest m aborted clock r =>
    rcases c.fifreeze_cases i m.dev aborted clock r with ⟨rfl, h⟩ | ⟨err, -, h⟩ <;> rw [h] at hx
    · by_cases hxd : x = m.dev
      · exact .inr (.inr ⟨m, rfl, hxd.symm⟩)
      · exact .inl (by simpa [Function.update_of_ne hxd] using hx)
    · exact .inl hx
  | removed k h => exact .inl (Ctx.own_of_unlink h ▸ hx)
  | rollbackDrains htodo h => exact .inl (Ctx.own_of_fithaw h hx)
  | rollbackUnlinks hj h => exact .inl (Ctx.own_of_unlink h ▸ hx)
  | _ => exact .inl hx

theorem Call.covers (h : tr.Call c i c' tr') (hs : c.Safe) (hon : ∀ e ∈ news c c', honestThaw c e = true) {x : Dev}
    (hx : c'.own x = true) (hcov : tr.covers x) : tr'.covers x := by
  cases h with
  | rollbackDrains htodo h =>
    rcases hcov with hl | hm
    · cases hl
    · exact .inr (DrainHeld.mem_mounts_fithaw htodo hs.frozen h hon hx hm)
  | rollbackUnlinks hj h => exact hcov
  | _ => first | exact hcov.elim | (rcases hcov with hl | ⟨m', hv, -⟩ <;> contradiction)

end Tracked

/-! ### Drivers -/

/-- The driver answers for `x`, with the handles `held` published. -/
def Driver.covers (held : List Mount) (d : Driver) (x : Dev) : Prop :=
  x ∈ devs held ∨ x ∈ devs d.kept ∨ (∃ j, d.recovery = some j ∧ (j.lost = true ∨ x ∈ devs j.val.mounts)) ∨
    (∃ tr, d.tracked = some tr ∧ tr.covers x) ∨ d.uncertain = true

/-- The program points at which nothing is frozen: before the walk, while the marker is removed, and in the
settlement as `Thawed`. -/
def Pc.clean : Pc → Bool
  | .await tr => tr.clean
  | .aborting _ (.await tr) => tr.clean
  | .conclude _ .thawed _ => true
  | _ => false

/-- The program points at which the marker is there: from its creation to the settlement. -/
def Pc.marked : Pc → Bool
  | .head _ => true
  | .decide _ => true
  | .decideClock _ => true
  | .tryCommit => true
  | .aborting _ (.boundary _) => true
  | .aborting _ (.await tr) => tr.marked
  | .await tr => tr.marked
  | _ => false

/-- The program points of which nothing more is said. -/
def Pc.plain (pc : Pc) : Bool :=
  !pc.clean &&
    match pc with
    | .await (.rollback _) => false
    | .conclude .state _ _ => false
    | _ => true

structure Driver.Covered (c : Ctx) (d : Driver) : Prop where
  covers : ∀ x, c.own x = true → d.covers c.held x
  clean : d.pc.clean = true → c.Clean
  marked : d.pc.marked = true → c.marker = true
  emptied : ∀ j, d.pc = .await (.rollback j) → c.held = []
  scope : ∀ terminal reply, d.pc = .conclude .state terminal reply → c.scope = d.scopeLeft terminal

namespace Driver

variable {cfg : Config} {c c' : Ctx} {i fresh : TaskId} {d d' : Driver} {new : Option Dog}

/-- A driver that is not aborted and waits for nothing answers through the held handles only. -/
private theorem Open.mem_held (h : Open d) {x : Dev} {held : List Mount}
    (htr : ∀ tr, d.tracked = some tr → ¬ tr.covers x) (hx : d.covers held x) : x ∈ devs held := by
  rcases hx with hx | hx | ⟨j, hr, -⟩ | ⟨tr, ht, hc⟩ | hu
  · exact hx
  · rw [h.kept] at hx; cases hx
  · rw [h.recovery] at hr; cases hr
  · exact absurd hc (htr tr ht)
  · rw [h.uncertain] at hu; cases hu

/-- Before the publication a settled driver answers through the held handles, or it is uncertain. -/
private theorem Concluding.mem_held (h : Concluding d) {x : Dev} {held : List Mount} (ht : d.tracked = none)
    (hx : d.covers held x) : x ∈ devs held ∨ d.uncertain = true := by
  rcases hx with hx | hx | ⟨j, hr, -⟩ | ⟨tr, htr, -⟩ | hu
  · exact .inl hx
  · rw [h.kept] at hx; cases hx
  · rw [h.recovery] at hr; cases hr
  · rw [ht] at htr; cases htr
  · exact .inr hu

/-- At the marker's removal by a rollback nothing is frozen. -/
private theorem Covered.clean_of_rollback (h : d.Covered c) (hw : d.WF) {j : Job Rollback}
    (hpc : d.pc = .await (.rollback j)) (hm : j.lost = false) (hmounts : j.val.drain.mounts = []) : c.Clean := by
  intro x
  rw [Bool.eq_false_iff]
  intro hx
  have hopen : Open d := hw.at hpc
  have hnot : ∀ tr, d.tracked = some tr → ¬ tr.covers x := by
    intro tr ht hc
    simp only [tracked, hpc, Option.some.injEq] at ht
    subst ht
    rcases hc with hl | hc
    · rw [hm] at hl; cases hl
    · rw [hmounts] at hc; cases hc
  have hheld := hopen.mem_held hnot (h.covers x hx)
  rw [h.emptied j hpc] at hheld
  cases hheld

/-- What a driver answers for depends on its program point and on `kept`, `recovery` and `uncertain` only. -/
private theorem Covered.congr (h : d.Covered c) (hpc : d'.pc = d.pc) (hk : d'.kept = d.kept)
    (hr : d'.recovery = d.recovery) (hu : d'.uncertain = d.uncertain) : d'.Covered c := by
  have hcov : ∀ x, d.covers c.held x → d'.covers c.held x := by
    intro x hx
    simpa only [Driver.covers, tracked, hpc, hk, hr, hu] using hx
  have hscope : ∀ terminal, d'.scopeLeft terminal = d.scopeLeft terminal := by
    intro terminal
    cases terminal <;> simp only [scopeLeft, hu]
  exact ⟨fun x hx => hcov x (h.covers x hx), hpc ▸ h.clean, hpc ▸ h.marked, hpc ▸ h.emptied,
    fun terminal reply hj => (h.scope terminal reply (hpc ▸ hj)).trans (hscope terminal).symm⟩

/-- A move that changes only the program point, in a context where the same is frozen and held. -/
private theorem Covered.withPc (h : d.Covered c) {pc : Pc} (hown : c'.own = c.own) (hheld : c'.held = c.held)
    (htr : ∀ tr x, d.tracked = some tr → tr.covers x → Driver.tracked { d with pc := pc } = some tr)
    (hclean : pc.clean = true → c'.Clean) (hmark : pc.marked = true → c'.marker = true)
    (hroll : ∀ j, pc = .await (.rollback j) → c'.held = [])
    (hscope : ∀ terminal reply, pc = .conclude .state terminal reply → c'.scope = d.scopeLeft terminal) :
    Driver.Covered c' { d with pc := pc } where
  covers := by
    intro x hx
    rw [hown] at hx
    rw [hheld]
    rcases h.covers x hx with hx | hx | hx | ⟨tr, ht, hc⟩ | hx
    · exact .inl hx
    · exact .inr (.inl hx)
    · exact .inr (.inr (.inl hx))
    · exact .inr (.inr (.inr (.inl ⟨tr, htr tr x ht hc, hc⟩)))
    · exact .inr (.inr (.inr (.inr hx)))
  clean := hclean
  marked := hmark
  emptied := hroll
  scope := hscope

/-- A driver at a plain program point. -/
private theorem Covered.plain (hcov : ∀ x, c.own x = true → d.covers c.held x) (hplain : d.pc.plain = true)
    (hmark : d.pc.marked = true → c.marker = true) : d.Covered c where
  covers := hcov
  clean := by
    intro hp
    simp [Pc.plain, hp] at hplain
  marked := hmark
  emptied := by
    intro j hj
    rw [hj] at hplain
    cases hplain
  scope := by
    intro terminal reply hj
    simp [Pc.plain, hj] at hplain

/-- A move between two points of the walk, of the abort or of the settlement, at which nothing is awaited. -/
private theorem Covered.goes (h : d.Covered c) {pc : Pc} (ht : d.tracked = none) (hown : c'.own = c.own)
    (hheld : c'.held = c.held) (hmarker : c'.marker = c.marker) (hplain : pc.plain = true)
    (hmark : pc.marked = true → d.pc.marked = true) : Driver.Covered c' { d with pc := pc } := by
  refine .plain (fun x hx => ?_) hplain fun hp => hmarker ▸ h.marked (hmark hp)
  rw [hown] at hx
  rw [hheld]
  rcases h.covers x hx with hx | hx | hx | ⟨tr, htr, -⟩ | hx
  · exact .inl hx
  · exact .inr (.inl hx)
  · exact .inr (.inr (.inl hx))
  · rw [ht] at htr; cases htr
  · exact .inr (.inr (.inr (.inr hx)))

/-- A step of `commit_abort` keeps the awaited task. -/
private theorem Covered.toStage (h : d.Covered c) {s s' : AbortStage} {k : Resume} (hpc : d.pc = .aborting s k)
    (hown : c'.own = c.own) (hheld : c'.held = c.held) (hmarker : c'.marker = c.marker) :
    Driver.Covered c' { d with pc := .aborting s' k } := by
  refine h.withPc hown hheld (fun tr x htr _ => ?_) (fun hp => ?_) (fun hp => ?_) (by simp) (by simp)
  · cases k with
    | boundary b => simp [tracked, hpc] at htr
    | «await» tr' => simpa [tracked, hpc] using htr
  · refine (h.clean ?_).mono fun x hx => hown ▸ hx
    rw [hpc]
    cases k <;> exact hp
  · refine hmarker ▸ h.marked ?_
    rw [hpc]
    cases k <;> exact hp

/-- A settled driver: what it answers for is held, or it is uncertain. -/
private theorem Covered.concludes (hcov : ∀ x, c'.own x = true → x ∈ devs c'.held ∨ d.uncertain = true)
    {terminal : Terminal} {reply : Except FreezeFailure Nat} (hclean : terminal = .thawed → c'.Clean) :
    (d.concludes terminal reply).Covered c' where
  covers := by
    intro x hx
    rcases hcov x hx with h | h
    · exact .inl h
    · exact .inr (.inr (.inr (.inr h)))
  clean := by
    intro hp
    cases terminal with
    | frozen => cases hp
    | thawed => exact hclean rfl
  marked := by intro hp; cases hp
  emptied := by intro j hj; cases hj
  scope := by intro terminal reply hj; cases hj

/-- A step of `conclude` before the publication. -/
private theorem Covered.concludesTo (h : d.Covered c) {s s' : ConcludeStage} {terminal : Terminal}
    {reply : Except FreezeFailure Nat} (hpc : d.pc = .conclude s terminal reply) (hs : s' ≠ .state)
    (hown : c'.own = c.own) (hheld : c'.held = c.held) :
    Driver.Covered c' { d with pc := .conclude s' terminal reply } := by
  refine h.withPc hown hheld (fun tr x ht => ?_) (fun hp => ?_) (fun hp => by cases hp) (fun _ hj => by cases hj)
    (fun _ _ hj => ?_)
  · simp [tracked, hpc] at ht
  · refine (h.clean ?_).mono fun x hx => hown ▸ hx
    rw [hpc]
    cases terminal with
    | frozen => cases hp
    | thawed => rfl
  · cases hj
    exact absurd rfl hs

/-- Only the calls of the blocking tasks change the kernel and the marker. -/
theorem Move.kernel (hm : Move cfg c i fresh d c' d' new) :
    (c'.depth = c.depth ∧ c'.own = c.own ∧ c'.marker = c.marker) ∨
      (∃ tr tr', d.tracked = some tr ∧ tr.Call c i c' tr') ∨
      ∃ j m rest r, d.recovery = some ⟨j, false⟩ ∧ j.todo = m :: rest ∧ c.fithaw i m.dev r = some c' := by
  cases hm
  case call ht hc => exact .inr (.inl ⟨_, _, ht, hc⟩)
  case drain hr htodo hc => exact .inr (.inr ⟨_, _, _, _, hr, htodo, hc⟩)
  case interrupt hc => rcases hc with rfl | rfl <;> exact .inl ⟨by simp, by simp, by simp⟩
  all_goals exact .inl ⟨by simp, by simp, by simp⟩

theorem Move.safe (hm : Move cfg c i fresh d c' d' new) (hw : d.WF) (hs : c.Safe) (h : d.Covered c) : c'.Safe := by
  rcases hm.kernel with ⟨hdepth, hown, hmark⟩ | ⟨tr, tr', ht, hc⟩ | ⟨j, m, rest, r, -, -, hc⟩
  · exact ⟨by rw [hdepth, hown]; exact hs.frozen, by rw [hmark, hown]; exact hs.marked⟩
  · have hpc : d.pc.clean = tr.clean ∧ d.pc.marked = tr.marked := by
      rcases tracked_cases ht with ⟨hpc, -⟩ | ⟨stage, hpc, -⟩ <;> rw [hpc] <;> exact ⟨rfl, rfl⟩
    refine hc.safe hs (fun hp => h.marked (hpc.2.trans hp)) (fun hp => h.clean (hpc.1.trans hp)) fun j hj hu => ?_
    subst hj
    rcases tracked_cases ht with ⟨hpc, -⟩ | ⟨stage, hpc, -⟩
    · obtain ⟨htodo, hinc, -⟩ := j.val.unlinks_iff.1 hu
      refine h.clean_of_rollback hw hpc ?_ (DrainHeld.mounts_eq_nil (hw.trackedAt hpc).drain htodo hinc)
      cases hc <;> rfl
    · cases (hw.at hpc).2 _ rfl
  · exact hs.fithaw hc

/-- A driver that takes the held handles for a recovery drain. -/
private theorem Covered.drains (h : d.Covered c) (hrec : d.recovery = none) (hpc : d'.pc.clean = true → d.pc.clean = true)
    (hmark : d'.pc.marked = true → d.pc.marked = true) (hd : d'.recovery = some (.start (.start c.held)))
    (hk : d'.kept = d.kept) (hu : d'.uncertain = d.uncertain) (ht : d'.tracked = d.tracked)
    (hroll : ∀ j, d'.pc ≠ .await (.rollback j)) (hstate : ∀ terminal reply, d'.pc ≠ .conclude .state terminal reply)
    (hown : c'.own = c.own) (hmarker : c'.marker = c.marker) : d'.Covered c' where
  covers := by
    intro x hx
    rw [hown] at hx
    rcases h.covers x hx with hx | hx | ⟨j, hr, -⟩ | hx | hx
    · exact .inr (.inr (.inl ⟨_, hd, .inr ((DrainHeld.mem_devs_mounts_start _ _).2 hx)⟩))
    · exact .inr (.inl (hk ▸ hx))
    · rw [hrec] at hr; cases hr
    · exact .inr (.inr (.inr (.inl (ht ▸ hx))))
    · exact .inr (.inr (.inr (.inr (hu ▸ hx))))
  clean := fun hp => (h.clean (hpc hp)).mono fun x hx => hown ▸ hx
  marked := fun hp => hmarker ▸ h.marked (hmark hp)
  emptied := fun j hj => absurd hj (hroll j)
  scope := fun terminal reply hj => absurd hj (hstate terminal reply)

/-- A driver that has the marker removed, where nothing is frozen. -/
private theorem Covered.of_clean (hclean : c'.Clean) {k : RemovalFor}
    (hpc : d.pc = .await (.removal k (.start none))) : d.Covered c' where
  covers := fun x hx => absurd (hclean x) (by simp [hx])
  clean := fun _ => hclean
  marked := by rw [hpc]; intro hp; cases hp
  emptied := by rw [hpc]; intro j hj; cases hj
  scope := by rw [hpc]; intro terminal reply hj; cases hj

/-- A recovery drain that is joined leaves its handles in `kept`, or was lost. -/
private theorem covers_recorded {j : Job DrainHeld} {held : List Mount} {x : Dev} (hr : d.recovery = some j)
    (he : drainEnded j = true) (hx : d.covers held x) : (d.recorded j).covers held x := by
  rcases hx with hx | hx | ⟨j', hr', hx⟩ | ⟨tr, ht, hc⟩ | hx
  · exact .inl hx
  · refine .inr (.inl ?_)
    simp only [recorded]
    split
    · exact hx
    · rw [devs_append]
      exact List.mem_append_left _ hx
  · rw [hr] at hr'
    cases hr'
    cases hl : j.lost with
    | true => exact .inr (.inr (.inr (.inr (by simp [recorded, hl]))))
    | false =>
      have htodo : j.val.todo = [] := by simpa [drainEnded, hl] using he
      rw [hl, DrainHeld.mounts, htodo] at hx
      refine .inr (.inl ?_)
      simp only [recorded, hl, Bool.false_eq_true, ↓reduceIte, devs_append]
      exact List.mem_append_right _ (by simpa using hx)
  · exact .inr (.inr (.inr (.inl ⟨tr, ht, hc⟩)))
  · exact .inr (.inr (.inr (.inr (by simp [recorded, hx]))))

private theorem Covered.recorded (h : d.Covered c) (hpc : d.pc = .settling ∨ ∃ tr, d.pc = .await tr) {j : Job DrainHeld}
    (hr : d.recovery = some j) (he : drainEnded j = true) : (d.recorded j).Covered c where
  covers := fun x hx => covers_recorded hr he (h.covers x hx)
  clean := h.clean
  marked := h.marked
  emptied := h.emptied
  scope := by
    intro terminal reply hj
    have hj : d.pc = .conclude .state terminal reply := hj
    rcases hpc with hpc | ⟨tr, hpc⟩ <;> rw [hpc] at hj <;> cases hj

/-- A step of the awaited task. -/
private theorem Covered.called (h : d.Covered c) {tr tr' : Tracked} (ht : d.tracked = some tr)
    (hown : ∀ x, c'.own x = true → c.own x = true ∨ tr'.covers x)
    (hcov : ∀ x, c'.own x = true → tr.covers x → tr'.covers x) (hheld : c'.held = c.held)
    (hclean : tr'.clean = true → tr.clean = true ∧ ∀ x, c'.own x = true → c.own x = true)
    (hmark : (tr.marked = true → c.marker = true) → tr'.marked = true → c'.marker = true)
    (hsame : tr.Same tr') : (d.withTracked tr').Covered c' := by
  have hpc : d.pc.clean = tr.clean ∧ d.pc.marked = tr.marked ∧ (d.withTracked tr').pc.clean = tr'.clean ∧
      (d.withTracked tr').pc.marked = tr'.marked ∧ (d.withTracked tr').tracked = some tr' := by
    rcases tracked_cases ht with ⟨hpc, he⟩ | ⟨stage, hpc, he⟩ <;> rw [hpc, he] <;> exact ⟨rfl, rfl, rfl, rfl, rfl⟩
  obtain ⟨hcl, hmk, hcl', hmk', ht'⟩ := hpc
  refine ⟨fun x hx => ?_, fun hp => ?_, fun hp => ?_, fun j hj => ?_, fun terminal reply hj => ?_⟩
  · rw [hheld]
    rcases hown x hx with hx' | hx'
    · rcases h.covers x hx' with hx' | hx' | hx' | ⟨tr₁, ht₁, hc⟩ | hx'
      · exact .inl hx'
      · exact .inr (.inl hx')
      · exact .inr (.inr (.inl hx'))
      · rw [ht] at ht₁
        cases ht₁
        exact .inr (.inr (.inr (.inl ⟨tr', ht', hcov x hx hc⟩)))
      · exact .inr (.inr (.inr (.inr hx')))
    · exact .inr (.inr (.inr (.inl ⟨tr', ht', hx'⟩)))
  · rw [hcl'] at hp
    exact (h.clean (hcl.trans (hclean hp).1)).mono (hclean hp).2
  · rw [hmk'] at hp
    exact hmark (fun hm => h.marked (hmk.trans hm)) hp
  · rw [hheld]
    rcases tracked_cases ht with ⟨hpc, he⟩ | ⟨stage, hpc, he⟩ <;> rw [he] at hj
    · cases hj
      cases tr with
      | rollback j' => exact h.emptied j' hpc
      | _ => exact hsame.elim
    · cases hj
  · rcases tracked_cases ht with ⟨hpc, he⟩ | ⟨stage, hpc, he⟩ <;> rw [he] at hj <;> cases hj

/-- A collected worker that returned no handle answers for nothing. -/
private theorem not_covers_of_done {t : Target} {rest : List Target} {o : TargetOutcome} (ho : ∀ m, o ≠ .frozen m)
    {x : Dev} : ¬ (Tracked.worker t rest ⟨.done o, false⟩).covers x := by
  rintro (h | ⟨m, h, -⟩)
  · cases h
  · exact ho m (Worker.done.inj h)

/-- A worker that returned no handle is collected. -/
private theorem Covered.collected (h : d.Covered c) {t : Target} {rest : List Target} {o : TargetOutcome} {pc : Pc}
    (hpc : d.pc = .await (.worker t rest ⟨.done o, false⟩)) (ho : ∀ m, o ≠ .frozen m) (hplain : pc.plain = true)
    (hown : c'.own = c.own) (hheld : c'.held = c.held) (hmarker : c'.marker = c.marker) :
    Driver.Covered c' { d with pc := pc } := by
  refine .plain (fun x hx => ?_) hplain fun _ => hmarker ▸ h.marked (by rw [hpc]; rfl)
  rw [hown] at hx
  rw [hheld]
  rcases h.covers x hx with hx | hx | hx | ⟨tr, ht, hc⟩ | hx
  · exact .inl hx
  · exact .inr (.inl hx)
  · exact .inr (.inr (.inl hx))
  · simp only [tracked, hpc, Option.some.injEq] at ht
    subst ht
    exact absurd hc (not_covers_of_done ho)
  · exact .inr (.inr (.inr (.inr hx)))

/-! ### The moves of a driver, one group after the other -/

/-- At a boundary of the walk an abort awaits no task. -/
private theorem Covered.aborts (h : d.Covered c) {b : Boundary} {cause : AbortCause}
    (hpc : d.pc = .decide b ∨ d.pc = .decideClock b ∨ (d.pc = .tryCommit ∧ b = .commit)) :
    (d.commitAbort cause (.boundary b)).Covered c := by
  have ht : d.tracked = none ∧ d.pc.marked = true := by
    rcases hpc with hpc | hpc | ⟨hpc, -⟩ <;> simp [tracked, hpc, Pc.marked]
  have hg : Driver.Covered c { d with pc := .aborting .mark (.boundary b) } :=
    h.goes ht.1 rfl rfl rfl rfl fun _ => ht.2
  exact hg.congr rfl rfl rfl rfl

/-- An abort during a blocking task leaves the task awaited. -/
private theorem Covered.interrupts (h : d.Covered c) {tr : Tracked} {cause : AbortCause} (hpc : d.pc = .await tr)
    (hc : c' = c ∨ c' = c.modOp i fun op => { op with notified := false }) :
    (d.commitAbort cause (.await tr)).Covered c' := by
  have hg : c'.toGuarded = c.toGuarded := by rcases hc with rfl | rfl <;> rfl
  refine Covered.congr (d := { d with pc := .aborting .mark (.await tr) }) ?_ rfl rfl rfl rfl
  refine h.withPc (by rw [hg]) (by rw [hg]) (fun tr' x ht _ => ?_) (fun hp => ?_) (fun hp => ?_)
    (fun _ hj => by cases hj) (fun _ _ hj => by cases hj)
  · simpa [tracked, hpc] using ht
  · exact (h.clean (by rw [hpc]; exact hp)).mono fun x hx => hg ▸ hx
  · rw [hg]
    exact h.marked (by rw [hpc]; exact hp)

/-- The recovery that an abort starts, at whatever point the abort resumes. -/
private theorem Covered.recovers (h : d.Covered c) {k : Resume} (hpc : d.pc = .aborting .recover k)
    (hr : d.recovery = none) :
    Driver.Covered (c.takeFrozenMounts.note (.spawned i .drain))
      { d with recovery := some (.start (.start c.held)), pc := .aborting .publish k } := by
  refine h.drains hr (fun hp => ?_) (fun hp => ?_) rfl rfl rfl ?_ (fun _ hj => by cases hj)
    (fun _ _ hj => by cases hj) rfl rfl
  · rw [hpc]
    cases k <;> exact hp
  · rw [hpc]
    cases k <;> exact hp
  · simp only [tracked, hpc]
    cases k <;> rfl

/-- An abort is over, and the driver goes on where it was interrupted. -/
private theorem Covered.resumes (h : d.Covered c) (hw : d.WF) {k : Resume} (hpc : d.pc = .aborting .publish k)
    (hown : c'.own = c.own) (hheld : c'.held = c.held) (hmarker : c'.marker = c.marker) :
    Driver.Covered c' { d with pc := k.pc } := by
  cases k with
  | boundary b =>
    have ht : d.tracked = none := by simp [tracked, hpc]
    cases b with
    | next rest => exact h.goes ht hown hheld hmarker rfl (by simp [hpc, Pc.marked])
    | spawn t rest => exact h.goes ht hown hheld hmarker rfl (by simp [Resume.pc, Pc.marked])
    | commit => exact h.goes ht hown hheld hmarker rfl (by simp [Resume.pc, Pc.marked])
  | «await» tr =>
    -- an abort never interrupts a rollback
    have hok := (hw.at hpc).2 tr rfl
    refine h.withPc hown hheld (fun tr' x ht _ => ?_) (fun hp => ?_) (fun hp => ?_) (fun j hj => ?_)
      (fun _ _ hj => by cases hj)
    · simpa [tracked, hpc, Resume.pc] using ht
    · exact (h.clean (by rw [hpc]; exact hp)).mono fun x hx => hown ▸ hx
    · rw [hmarker]
      exact h.marked (by rw [hpc]; exact hp)
    · cases hj
      cases hok

/-- A joined recovery drain is followed by another one where new handles are held. -/
private theorem Covered.redrains (h : d.Covered c) (hw : d.WF) (hpc : d.pc = .settling ∨ ∃ tr, d.pc = .await tr)
    {j : Job DrainHeld} (hr : d.recovery = some j) (he : drainEnded j = true) (hown : c'.own = c.own)
    (hmarker : c'.marker = c.marker) :
    Driver.Covered c' { d.recorded j with recovery := some (.start (.start c.held)) } := by
  have hok := (hw.recovering hpc hr).2
  refine (h.recorded hpc hr he).drains rfl id id rfl rfl rfl rfl (fun j' hj => ?_) (fun _ _ hj => ?_) hown hmarker
  · cases hok _ hj
  · have hj : d.pc = _ := hj
    rcases hpc with hpc | ⟨tr, hpc⟩ <;> rw [hpc] at hj <;> cases hj

/-- A recovery drain started while the operation settles. -/
private theorem Covered.settleDrains (h : d.Covered c) (hpc : d.pc = .settling) (hr : d.recovery = none)
    (hown : c'.own = c.own) (hmarker : c'.marker = c.marker) :
    Driver.Covered c' { d with recovery := some (.start (.start c.held)) } := by
  refine h.drains hr id id rfl rfl rfl rfl (fun j' hj => ?_) (fun _ _ hj => ?_) hown hmarker
  · have hj : d.pc = _ := hj
    rw [hpc] at hj
    cases hj
  · have hj : d.pc = _ := hj
    rw [hpc] at hj
    cases hj

/-- What a settling driver answers for, with no drain under way, is held or kept, or it is uncertain. -/
private theorem Covered.settling (h : d.Covered c) (hpc : d.pc = .settling) (hr : d.recovery = none) {x : Dev}
    (hx : c.own x = true) : x ∈ devs c.held ∨ x ∈ devs d.kept ∨ d.uncertain = true := by
  rcases h.covers x hx with hx | hx | ⟨j, hj, -⟩ | ⟨tr, ht, -⟩ | hx
  · exact .inl hx
  · exact .inr (.inl hx)
  · rw [hr] at hj; cases hj
  · simp [tracked, hpc] at ht
  · exact .inr (.inr hx)

/-- The settlement as `Frozen` puts what is kept back among the held handles. -/
private theorem Covered.settlesFrozen (h : d.Covered c) (hpc : d.pc = .settling) (hr : d.recovery = none)
    {reply : Except FreezeFailure Nat} (hown : c'.own = c.own) (hheld : c'.held = c.held ++ d.kept) :
    ({ d with unrecoverable := none, kept := [] }.concludes .frozen reply).Covered c' := by
  refine Covered.concludes (fun x hx => ?_) (fun ht => by cases ht)
  rw [hown] at hx
  rw [hheld, devs_append, List.mem_append]
  rcases h.settling hpc hr hx with hx | hx | hx
  · exact .inl (.inl hx)
  · exact .inl (.inr hx)
  · exact .inr hx

/-- The settlement removes the marker only where nothing is held, kept or uncertain. -/
private theorem Covered.clean_of_settling (h : d.Covered c) (hw : d.WF) (hpc : d.pc = .settling)
    (hr : d.recovery = none) (hh : c.held = []) (hu : d.unrecoverable = none) : c.Clean := by
  intro x
  rw [Bool.eq_false_iff]
  intro hx
  have hrec : Recovering d := hw.at hpc
  rcases h.settling hpc hr hx with hx | hx | hx
  · rw [hh] at hx; cases hx
  · have := hrec.kept fun hk => by rw [hk] at hx; cases hx
    rw [hu] at this
    cases this
  · have := hrec.uncertain hx
    rw [hu] at this
    cases this

/-- A commit that removes the marker holds nothing. -/
private theorem Covered.clean_of_commit (h : d.Covered c) (hw : d.WF) (hpc : d.pc = .tryCommit) (hh : c.held = []) :
    c.Clean := by
  intro x
  rw [Bool.eq_false_iff]
  intro hx
  have hopen : Open d := hw.at hpc
  have hheld := hopen.mem_held (by simp [tracked, hpc]) (h.covers x hx)
  rw [hh] at hheld
  cases hheld

private theorem Covered.commits (h : d.Covered c) (hw : d.WF) (hpc : d.pc = .tryCommit)
    {reply : Except FreezeFailure Nat} (hown : c'.own = c.own) (hheld : c'.held = c.held) :
    (d.concludes .frozen reply).Covered c' := by
  have hopen : Open d := hw.at hpc
  refine Covered.concludes (fun x hx => .inl ?_) (fun ht => by cases ht)
  rw [hown] at hx
  rw [hheld]
  exact hopen.mem_held (by simp [tracked, hpc]) (h.covers x hx)

/-- Where nothing is frozen, a driver may stand at any plain program point. -/
private theorem Covered.plain_of_clean (hclean : c'.Clean) (hplain : d.pc.plain = true)
    (hmark : d.pc.marked = true → c'.marker = true) : d.Covered c' :=
  .plain (fun x hx => absurd hx (by simp [hclean x])) hplain hmark

private theorem Covered.concludes_of_clean (hclean : c.Clean) {terminal : Terminal} {reply : Except FreezeFailure Nat}
    (hown : c'.own = c.own) : (d.concludes terminal reply).Covered c' :=
  Covered.concludes (fun x hx => absurd hx (by simp [hown, hclean x])) fun _ => hclean.mono fun x hx => hown ▸ hx

/-- A worker that froze its superblock returns the handle, which becomes a held one. -/
private theorem Covered.froze (h : d.Covered c) {t : Target} {rest : List Target} {m : Mount}
    (hpc : d.pc = .await (.worker t rest ⟨.done (.frozen m), false⟩)) (hown : c'.own = c.own)
    (hheld : c'.held = c.held ++ [m]) (hmarker : c'.marker = c.marker) :
    Driver.Covered c' { d with frozen := d.frozen + 1, returned := d.returned ++ [m], pc := .head rest } := by
  refine .plain (fun x hx => ?_) rfl fun _ => hmarker ▸ h.marked (by rw [hpc]; rfl)
  rw [hown] at hx
  rcases h.covers x hx with hx | hx | hx | ⟨tr, ht, hc⟩ | hx
  · exact .inl (by simp [hheld, hx])
  · exact .inr (.inl hx)
  · exact .inr (.inr (.inl hx))
  · simp only [tracked, hpc, Option.some.injEq] at ht
    subst ht
    rcases hc with hl | ⟨m', hv, rfl⟩
    · cases hl
    · cases hv
      exact .inl (by simp [hheld])
  · exact .inr (.inr (.inr (.inr hx)))

/-- A worker that met a frozen superblock returns a handle too, and answers for nothing. -/
private theorem Covered.busy (h : d.Covered c) {t : Target} {rest : List Target} {m : Mount}
    (hpc : d.pc = .await (.worker t rest ⟨.done (.busy m), false⟩)) (hown : c'.own = c.own)
    (hheld : c'.held = c.held ++ [m]) (hmarker : c'.marker = c.marker) :
    Driver.Covered c' { d with returned := d.returned ++ [m], pc := .head rest } := by
  refine .plain (fun x hx => ?_) rfl fun _ => hmarker ▸ h.marked (by rw [hpc]; rfl)
  have hg : Driver.Covered c { d with pc := .head rest } := h.collected hpc (by simp) rfl rfl rfl rfl
  rw [hown] at hx
  rcases hg.covers x hx with hx | hx
  · exact .inl (by simp [hheld, hx])
  · exact .inr hx

/-- A hard error hands every held handle to the rollback. -/
private theorem Covered.rollsBack (h : d.Covered c) (hw : d.WF) {t : Target} {rest : List Target} {stop : FreezeStop}
    (hpc : d.pc = .await (.worker t rest ⟨.done (.failed stop), false⟩)) (ha : d.abort = none)
    (hown : c'.own = c.own) (hheld : c'.held = []) {mountpoint : Path} :
    Driver.Covered c' { d with pc := .await (.rollback (.start (.start c.held mountpoint stop))) } := by
  have hopen : Open d := open_of_abort (hw.at hpc) ha
  refine ⟨fun x hx => ?_, (fun hp => by cases hp), (fun hp => by cases hp), fun _ _ => hheld,
    fun _ _ hj => by cases hj⟩
  rw [hown] at hx
  have hmem : x ∈ devs c.held := by
    refine hopen.mem_held (fun tr ht => ?_) (h.covers x hx)
    simp only [tracked, hpc, Option.some.injEq] at ht
    subst ht
    exact not_covers_of_done (by simp)
  exact .inr (.inr (.inr (.inl ⟨_, rfl, .inr ((DrainHeld.mem_devs_mounts_start _ _).2 hmem)⟩)))

/-- A rollback that has ended gives back what it could not thaw; it settles as `Thawed` where that is nothing. -/
private theorem Covered.rolledBack (h : d.Covered c) (hw : d.WF) {v : Rollback} (hpc : d.pc = .await (.rollback ⟨v, false⟩))
    (hf : v.finished = true) {reply : Except FreezeFailure Nat} (hown : c'.own = c.own)
    (hheld : c'.held = c.held ++ v.drain.keep) :
    ({ d with released := d.released ++ v.drain.released }.concludes v.terminal reply).Covered c' := by
  have hopen : Open d := hw.at hpc
  have hnone := h.emptied _ hpc
  refine Covered.concludes (fun x hx => .inl ?_) fun ht => ?_
  · have htodo : v.drain.todo = [] := by
      simp only [Rollback.finished, Bool.and_eq_true, List.isEmpty_iff] at hf
      exact hf.1
    rw [hown] at hx
    rw [hheld]
    by_contra hkeep
    refine absurd (hopen.mem_held (fun tr ht hc => hkeep ?_) (h.covers x hx)) (by simp [hnone])
    simp only [tracked, hpc, Option.some.injEq] at ht
    subst ht
    rcases hc with hl | hc
    · cases hl
    · simpa [DrainHeld.mounts, htodo, hnone] using hc
  · refine (h.clean_of_rollback hw hpc rfl (Rollback.mounts_of_thawed (hw.trackedAt hpc) hf ht)).mono fun x hx => ?_
    exact hown ▸ hx

/-- The thaw scope is stored before the publication. -/
private theorem Covered.scopes (h : d.Covered c) {terminal : Terminal} {reply : Except FreezeFailure Nat}
    (hpc : d.pc = .conclude .scope terminal reply) :
    Driver.Covered { c with scope := d.scopeLeft terminal } { d with pc := .conclude .state terminal reply } := by
  refine h.withPc rfl rfl (fun tr x ht => ?_) (fun hp => ?_) (fun hp => by cases hp) (fun _ hj => by cases hj)
    (fun _ _ hj => by cases hj; rfl)
  · simp [tracked, hpc] at ht
  · refine h.clean ?_
    rw [hpc]
    cases terminal with
    | frozen => cases hp
    | thawed => rfl

/-- A call of the awaited task, against an honest kernel. -/
private theorem Covered.calls (h : d.Covered c) (hs : c.Safe) {tr tr' : Tracked} (ht : d.tracked = some tr)
    (hc : tr.Call c i c' tr') (hon : ∀ e ∈ news c c', honestThaw c e = true) : (d.withTracked tr').Covered c' := by
  refine h.called ht (fun x => hc.own) (fun x hx => hc.covers hs hon hx) hc.calls.held (fun hcl => ?_) hc.marked hc.same
  refine ⟨hc.clean_eq ▸ hcl, fun x hx => (hc.own hx).resolve_right fun hcov => ?_⟩
  cases tr' with
  | prep j => exact hcov
  | removal k j => exact hcov
  | _ => cases hcl

/-- A lost task is answered for by the driver from then on. -/
private theorem Covered.loses (h : d.Covered c) {tr : Tracked} (ht : d.tracked = some tr) :
    (d.withTracked (loseJob tr)).Covered c := by
  refine h.called ht (fun x => .inl) (fun x _ => Tracked.covers_loseJob) rfl (fun hcl => ?_) (fun hm hp => ?_)
    (Tracked.loseJob_same tr)
  · cases tr <;> first | exact ⟨rfl, fun _ => id⟩ | cases hcl
  · cases tr <;> exact hm hp

/-- One `FITHAW` of the recovery drain, against an honest kernel. -/
private theorem Covered.drained (h : d.Covered c) (hs : c.Safe) {j : DrainHeld} {m : Mount} {rest : List Mount}
    {r : Except KernelError Unit} (hr : d.recovery = some ⟨j, false⟩) (htodo : j.todo = m :: rest)
    (hc : c.fithaw i m.dev r = some c') (hon : ∀ e ∈ news c c', honestThaw c e = true) :
    Driver.Covered c' { d with recovery := some ⟨j.fithaw r, false⟩ } := by
  refine ⟨fun x hx => ?_, fun hp => (h.clean hp).mono fun x => Ctx.own_of_fithaw hc, fun hp => ?_, fun j' hj => ?_,
    fun terminal reply hj => ?_⟩
  · rw [(Ctx.fithaw_calls hc).held]
    rcases h.covers x (Ctx.own_of_fithaw hc hx) with hx' | hx' | ⟨j', hr', hx'⟩ | hx' | hx'
    · exact .inl hx'
    · exact .inr (.inl hx')
    · rw [hr] at hr'
      cases hr'
      rcases hx' with hl | hx'
      · cases hl
      · exact .inr (.inr (.inl ⟨_, rfl, .inr (DrainHeld.mem_mounts_fithaw htodo hs.frozen hc hon hx hx')⟩))
    · exact .inr (.inr (.inr (.inl hx')))
    · exact .inr (.inr (.inr (.inr hx')))
  · have hm := h.marked hp
    rcases Ctx.fithaw_cases hc with ⟨-, -, rfl⟩ | ⟨err, -, rfl⟩ <;> exact hm
  · rw [(Ctx.fithaw_calls hc).held]
    exact h.emptied j' hj
  · rw [(Ctx.fithaw_calls hc).scope]
    exact h.scope terminal reply hj

private theorem Covered.losesDrain (h : d.Covered c) {j : DrainHeld} :
    Driver.Covered c { d with recovery := some ⟨j, true⟩ } := by
  refine ⟨fun x hx => ?_, h.clean, h.marked, h.emptied, h.scope⟩
  rcases h.covers x hx with hx' | hx' | hx' | hx' | hx'
  · exact .inl hx'
  · exact .inr (.inl hx')
  · exact .inr (.inr (.inl ⟨_, rfl, .inl rfl⟩))
  · exact .inr (.inr (.inr (.inl hx')))
  · exact .inr (.inr (.inr (.inr hx')))

/-- Every step of a driver keeps what it answers for, until it publishes. -/
theorem Move.covered (hm : Move cfg c i fresh d c' d' new) (hw : d.WF) (hs : c.Safe) (h : d.Covered c)
    (hon : ∀ e ∈ news c c', honestThaw c e = true) (hp : d'.pc.published = false) : d'.Covered c' := by
  cases hm
  -- the walk over the targets
  case leave hpc ha => exact h.goes (by simp [tracked, hpc]) rfl rfl rfl rfl (by simp [Pc.marked])
  case exhaust hpc ha => exact h.goes (by simp [tracked, hpc]) rfl rfl rfl rfl (by simp [hpc, Pc.marked])
  case advance hpc ha => exact h.goes (by simp [tracked, hpc]) rfl rfl rfl rfl (by simp [hpc, Pc.marked])
  case decide hpc ho => exact h.goes (by simp [tracked, hpc]) rfl rfl rfl rfl (by simp [hpc, Pc.marked])
  case resume hpc hd => exact h.goes (by simp [tracked, hpc]) rfl rfl rfl rfl (by simp [hpc, Pc.marked])
  case ready hpc hd => exact h.goes (by simp [tracked, hpc]) rfl rfl rfl rfl (by simp [hpc, Pc.marked])
  case spawn hpc hd => exact h.goes (by simp [tracked, hpc]) rfl rfl rfl rfl (by simp [hpc, Pc.marked])
  -- the abort
  case abort hpc => exact h.aborts hpc
  case interrupt hpc harm hc => exact h.interrupts hpc hc
  case mark hpc => exact h.toStage hpc rfl rfl rfl
  case store hpc => exact h.toStage hpc rfl rfl rfl
  case swap k token hpc ht =>
    have hg : Driver.Covered { c with state := .thawing } { d with pc := .aborting .watchdog k } :=
      h.toStage hpc rfl rfl rfl
    exact hg.congr rfl rfl rfl rfl
  case swapNone hpc ht => exact h.toStage hpc rfl rfl rfl
  case cancel hpc => exact h.toStage hpc (by simp) (by simp) (by simp)
  case replyAborted k failure hf hpc hr =>
    have hg : Driver.Covered (c.note (.replied i (.error failure))) { d with pc := .aborting .recover k } :=
      h.toStage hpc rfl rfl rfl
    exact hg.congr rfl rfl rfl rfl
  case replyAbortedNone hpc hr => exact h.toStage hpc rfl rfl rfl
  case recover hpc hr hh => exact h.recovers hpc hr
  case recoverNone hpc hh => exact h.toStage hpc rfl rfl rfl
  case announce hpc => exact h.resumes hw hpc (by simp) (by simp) (by simp)
  -- the recovery
  case joinDrain hpc hr he hh =>
    have := h.recorded hpc hr he
    exact ⟨this.covers, this.clean, this.marked, this.emptied, this.scope⟩
  case joinDrainRestart hpc hr he hh => exact h.redrains hw hpc hr he (by simp) (by simp)
  case settleDrain hpc hr hh => exact h.settleDrains hpc hr (by simp) (by simp)
  case settleFrozen hpc hr hh hu => exact h.settlesFrozen hpc hr (by simp) (by simp)
  case settleRemove hpc hr hh hu => exact .of_clean (h.clean_of_settling hw hpc hr hh hu) rfl
  -- the commit
  case commitNothing hpc ho hf hh hu => exact .of_clean (h.clean_of_commit hw hpc hh) rfl
  case commitFrozen hpc ho hz => exact h.commits hw hpc (by simp) (by simp)
  -- the awaited task has ended
  case prepared hpc =>
    exact .plain_of_clean (h.clean (by rw [hpc]; rfl)) rfl fun _ => h.marked (by rw [hpc]; rfl)
  case prepAborted hpc hj ha => exact .plain_of_clean (h.clean (by rw [hpc]; rfl)) rfl (by simp [Pc.marked])
  case prepLost hpc hj ha => exact .of_clean (h.clean (by rw [hpc]; rfl)) rfl
  case prepFailed hpc hf ha => exact .concludes_of_clean (h.clean (by rw [hpc]; rfl)) rfl
  case workerLostAborted hpc ha => exact .plain (fun _ _ => .inr (.inr (.inr (.inr rfl)))) rfl (by simp [Pc.marked])
  case workerLost hpc ha =>
    exact .plain (fun _ _ => .inr (.inr (.inr (.inr rfl)))) rfl fun _ => h.marked (by rw [hpc]; rfl)
  case froze hpc hd => exact hd ▸ h.froze hpc (by simp) (by simp) (by simp)
  case busy hpc hd => exact hd ▸ h.busy hpc (by simp) (by simp) (by simp)
  case skipped hpc => exact h.collected hpc (by simp) rfl rfl rfl rfl
  case notAuthorized hpc ha => exact h.collected hpc (by simp) rfl rfl rfl rfl
  case lateResult hpc ho ha =>
    refine h.collected hpc (fun m hm => ?_) rfl rfl rfl rfl
    rcases ho with rfl | ⟨stop, rfl⟩ <;> cases hm
  case hardError hpc ha => exact h.rollsBack hw hpc ha (by simp) (by simp)
  case removed hpc hk => exact .concludes_of_clean (h.clean (by rw [hpc]; rfl)) rfl
  case rollbackLost hpc => exact Covered.concludes (fun _ _ => .inr rfl) fun ht => by cases ht
  case rolledBack hpc hf => exact h.rolledBack hw hpc hf (by simp) (by simp)
  -- the settlement
  case commit terminal reply hpc =>
    exact h.concludesTo hpc (by cases terminal <;> simp [ConcludeStage.afterCommit]) rfl rfl
  case finalise hpc => exact h.concludesTo hpc (by simp) rfl rfl
  case retire hpc => exact h.concludesTo hpc (by simp) (by simp) (by simp)
  case scope hpc => exact h.scopes hpc
  case publish terminal reply hpc ht => cases terminal <;> cases hp
  case publishNone terminal reply hpc ht hth => cases terminal <;> cases hp
  case arm => cases hp
  case install => cases hp
  case settle => cases hp
  case reply => cases hp
  case replied => cases hp
  -- the blocking tasks
  case call ht hc => exact h.calls hs ht hc hon
  case lose ht => exact h.loses ht
  case drain hr htodo hc => exact h.drained hs hr htodo hc hon
  case loseDrain hr => exact h.losesDrain

/-- What a driver publishes: `Thawed` with nothing frozen, or `Frozen` with a scope that reaches everything. -/
theorem Move.publishes (hm : Move cfg c i fresh d c' d' new) (hw : d.WF) (h : d.Covered c)
    (hp : d.pc.published = false) (hp' : d'.pc.published = true) :
    (c'.state = .thawed ∧ c'.Clean) ∨
      (c'.state = .frozen ∧ (c'.scope = .tracked → ∀ x, c'.own x = true → x ∈ devs c'.held)) := by
  obtain ⟨terminal, reply, hpc, rfl, -⟩ := hm.publication hw hp hp'
  cases terminal with
  | thawed => exact .inl ⟨rfl, h.clean (by rw [hpc]; rfl)⟩
  | frozen =>
    refine .inr ⟨rfl, fun hs x hx => ?_⟩
    have hconcl : Concluding d := hw.at hpc
    refine (hconcl.mem_held (by simp [tracked, hpc]) (h.covers x hx)).resolve_right fun hu => ?_
    have hs : c.scope = .tracked := hs
    rw [h.scope _ _ hpc] at hs
    simp [scopeLeft, hu] at hs

end Driver

/-! ### Thaws -/

namespace Thaw

/-- What the handles `held` cover, as far as the scope relies on them. -/
def Tracks (c : Ctx) (held : List Mount) : Prop := c.scope = .tracked → ∀ x, c.own x = true → x ∈ devs held

/-- What a thaw answers for.  A recovery drain, claimed from `Thawed`, finds nothing frozen. -/
def Covered (c : Ctx) : ThawPc → Prop
  | .claimed token => (token.isRecoveryDrain = true → c.Clean) ∧ Tracks c c.held
  | .take token => (token.isRecoveryDrain = true → c.Clean) ∧ Tracks c c.held
  | .scope token held => (token.isRecoveryDrain = true → c.Clean) ∧ Tracks c held
  | .blocking token j =>
    (token.isRecoveryDrain = true → c.Clean) ∧ j.val.WF ∧
      (c.scope = .tracked → ∀ x, c.own x = true → j.val.drains x) ∧
      ∀ x, c.own x = true → j.val.drains x ∨ j.val.finds x
  | .lost token => token.isRecoveryDrain = true → c.Clean
  | .hold token outcome held => (token.isRecoveryDrain = true ∨ outcome.isOk = true → c.Clean) ∧ Tracks c held
  | .finalise _ _ => c.Clean
  | .rescope _ _ => c.Clean
  | .publish _ _ => c.Clean
  | .fail _ _ => Tracks c c.held
  | _ => True

theorem Covered.of_token {c : Ctx} {pc : ThawPc} (h : token pc = none) : Covered c pc := by
  cases pc <;> trivial

/-- It depends on what is frozen, held and in scope only, and is kept if less is frozen. -/
theorem Covered.mono {c c' : Ctx} (hown : ∀ x, c'.own x = true → c.own x = true) (hheld : c'.held = c.held)
    (hscope : c'.scope = c.scope) {pc : ThawPc} (h : Covered c pc) : Covered c' pc := by
  have htracks : ∀ {held}, Tracks c held → Tracks c' held := fun ht hs x hx => ht (hscope ▸ hs) x (hown x hx)
  have hclean : c.Clean → c'.Clean := fun hc => hc.mono hown
  cases pc with
  | claimed token => exact ⟨fun ht => hclean (h.1 ht), by rw [hheld]; exact htracks h.2⟩
  | take token => exact ⟨fun ht => hclean (h.1 ht), by rw [hheld]; exact htracks h.2⟩
  | scope token held => exact ⟨fun ht => hclean (h.1 ht), htracks h.2⟩
  | blocking token j =>
    exact ⟨fun ht => hclean (h.1 ht), h.2.1, fun hs x hx => h.2.2.1 (hscope ▸ hs) x (hown x hx),
      fun x hx => h.2.2.2 x (hown x hx)⟩
  | lost token => exact fun ht => hclean (h ht)
  | hold token outcome held => exact ⟨fun ht => hclean (h.1 ht), htracks h.2⟩
  | finalise token outcome => exact hclean h
  | rescope token outcome => exact hclean h
  | publish token outcome => exact hclean h
  | fail token failure =>
    show Tracks c' c'.held
    rw [hheld]
    exact htracks h
  | _ => trivial

variable {cfg : Config} {c c' : Ctx} {i fresh : TaskId} {pc pc' : ThawPc} {new : Option Dog}

theorem call_own {j j' : ThawBlocking} (h : j.Call c i c' j') {x : Dev} (hx : c'.own x = true) : c.own x = true := by
  cases h with
  | fithaw hs hc => exact Ctx.own_of_fithaw hc hx
  | unlinked hs hc => exact Ctx.own_of_unlink hc ▸ hx
  | _ => exact hx

theorem call_safe {j j' : ThawBlocking} (h : j.Call c i c' j') (hs : c.Safe) (hw : j.WF)
    (hcov : ∀ x, c.own x = true → j.drains x ∨ j.finds x) : c'.Safe := by
  cases h with
  | fithaw hstage hc => exact hs.fithaw hc
  | unlinked hstage hc =>
    refine Ctx.Clean.safe fun x => ?_
    rw [Ctx.own_of_unlink hc, Bool.eq_false_iff]
    exact fun hx => hw.settled (.inl hstage) x (hcov x hx)
  | _ => exact ⟨hs.frozen, hs.marked⟩

/-- Only the calls of the drain change the kernel and the marker. -/
theorem Move.safe (hm : Move cfg c i fresh pc c' pc' new) (hs : c.Safe) (h : Covered c pc) : c'.Safe := by
  cases hm
  case call hc => exact call_safe hc hs h.2.1 h.2.2.2
  case cancel => exact ⟨by simpa using hs.frozen, by simpa using hs.marked⟩
  case install => exact ⟨by simpa using hs.frozen, by simpa using hs.marked⟩
  all_goals exact ⟨hs.frozen, hs.marked⟩

/-- Every step of a thaw keeps what it answers for. -/
theorem Move.covered (hm : Move cfg c i fresh pc c' pc' new) (hs : c.Safe) (h : Covered c pc)
    (hthawed : c.state = .thawed → c.Clean) (hfrozen : c.state = .frozen → Tracks c c.held)
    {handles : TaskId → List Mount} (hhandles : ∀ token j, pc = .blocking token j → handles i = j.val.retained)
    (hE : ∀ e ∈ news c c', honestThaw c e = true ∧ TableListsOwn handles c e) : Covered c' pc' := by
  cases hm
  case win hs' hpc =>
    refine ⟨fun ht => hthawed ?_, ?_⟩
    · simpa [ThawToken.isRecoveryDrain] using ht
    · rcases hs' with hs' | hs'
      · exact hfrozen hs'
      · exact fun _ x hx => absurd (hthawed hs' x) (by simpa using hx)
  case cancel token => exact Covered.mono (fun x hx => by simpa using hx) (by simp) (by simp) h
  case take token => exact h
  case begin token held discover hd =>
    refine ⟨h.1, ThawBlocking.start_wf _ _, fun ht x hx => ThawBlocking.drains_start (h.2 ht x hx), fun x hx => ?_⟩
    cases discover with
    | true => exact .inr (ThawBlocking.finds_start held x)
    | false =>
      have ht : c.scope = .tracked := by
        cases hsc : c.scope with
        | tracked => rfl
        | discovery => simp [hsc] at hd
      exact .inl (ThawBlocking.drains_start (h.2 ht x hx))
  case lost token v => exact h.1
  case ended token v r hstage =>
    refine ⟨fun ht => ?_, fun hsc x hx => h.2.1.keeps hstage (h.2.2.1 hsc x hx)⟩
    rcases ht with ht | ht
    · exact h.1 ht
    · cases r with
      | error failure => cases ht
      | ok n =>
        intro x
        rw [Bool.eq_false_iff]
        exact fun hx => h.2.1.settled (.inr ⟨n, hstage⟩) x (h.2.2.2 x hx)
  case uncertain token => exact ⟨fun ht => h (ht.resolve_right (by simp [Except.isOk, Except.toBool])), fun hsc => by cases hsc⟩
  case hold token outcome held =>
    cases outcome with
    | ok n => exact h.1 (.inr rfl)
    | error failure =>
      simp only [settles]
      split
      · rename_i ht
        exact h.1 (.inl ht)
      · intro hsc x hx
        simp [h.2 hsc x hx]
  case finalise => exact h
  case rescope => exact h
  case call token v v' hc =>
    refine ⟨fun ht => (h.1 ht).mono fun x => call_own hc, hc.wf h.2.1, fun hsc x hx => ?_, fun x hx => ?_⟩
    · rw [hc.calls.scope] at hsc
      exact hc.drains hs.frozen (fun e he => (hE e he).1) hx (h.2.2.1 hsc x (call_own hc hx))
    · rcases h.2.2.2 x (call_own hc hx) with hd | hf
      · exact .inl (hc.drains hs.frozen (fun e he => (hE e he).1) hx hd)
      · exact hc.finds (hhandles _ _ rfl) (fun e he => (hE e he).2) (call_own hc hx) hf
  case lose token v b => exact h
  all_goals trivial

end Thaw

/-! ### The invariant -/

namespace Cover

/-- `Thawed` means that nothing is frozen, and `Frozen` in the tracked scope that the held handles reach everything. -/
structure Glob (c : Ctx) (_ : TaskId) : Prop extends c.Safe where
  thawed : c.state = .thawed → c.Clean
  tracked : c.state = .frozen → Thaw.Tracks c c.held

def Loc (c : Ctx) (_ : TaskId) : Task → Prop
  | .driver d => d.pc.published = false → d.Covered c
  | .thaw _ pc => Thaw.Covered c pc
  | _ => True

/-- The context as the kernel, the marker and the holder of the token leave it to the others. -/
theorem Loc.mono {c c' : Ctx} {i : TaskId} {t : Task} (hown : ∀ x, c'.own x = true → c.own x = true)
    (hmarker : c'.marker = c.marker) (hheld : c'.held = c.held) (hscope : c'.scope = c.scope) (h : Loc c i t) :
    Loc c' i t := by
  cases t with
  | driver d =>
    intro hp
    have h : d.Covered c := h hp
    refine ⟨fun x hx => hheld ▸ h.covers x (hown x hx), fun hp => (h.clean hp).mono hown, fun hp => hmarker ▸ h.marked hp,
      fun j hj => hheld ▸ h.emptied j hj, fun terminal reply hj => hscope ▸ h.scope terminal reply hj⟩
  | thaw w pc => exact Thaw.Covered.mono hown hheld hscope h
  | _ => trivial

/-- Nothing is said of a task without a token. -/
theorem Loc.of_token {c : Ctx} {i : TaskId} {t : Task} (hw : t.WF) (h : t.holdsToken = false) : Loc c i t := by
  cases t with
  | driver d =>
    intro hp
    have := hw.token_iff
    rw [show (d.token.isSome || d.thawToken.isSome) = false from h, hp] at this
    cases this
  | thaw w pc =>
    exact Thaw.Covered.of_token (by simpa [Task.holdsToken, Task.freezeToken, Task.thawToken] using h)
  | _ => trivial

/-- What is assumed of the kernel and of the mount table. -/
def Assumed (a : Agent) (_ : Action) (a' : Agent) : Prop :=
  ∀ e ∈ news a.ctx a'.ctx, honestThaw a.ctx e = true ∧ TableListsOwn a.drained a.ctx e

/-- A check for runs without a discovery drain. -/
def assumed (c : Ctx) : Event → Bool
  | .discovered _ _ => false
  | e => honestThaw c e

theorem Assumed.of_check (a : Agent) (act : Action) (a' : Agent) (h : allows assumed a act a' = true) :
    Assumed a act a' := by
  intro e he
  have hchk := List.all_eq_true.1 h e he
  cases e <;> first | exact ⟨hchk, trivial⟩ | cases hchk

variable {cfg : Config} {c c' : Ctx} {i fresh : TaskId} {t t' : Task} {new : Option Dog}

/-- A context in which what the token guards is unchanged. -/
private theorem Glob.congr {n m : TaskId} (h : Glob c n) (hg : c'.toGuarded = c.toGuarded) : Glob c' m := by
  refine ⟨⟨?_, ?_⟩, ?_, ?_⟩
  · rw [hg]; exact h.frozen
  · rw [hg]; exact h.marked
  · intro hs
    rw [hg] at hs
    intro x
    rw [hg]
    exact h.thawed hs x
  · intro hs
    rw [hg] at hs
    intro hsc
    rw [hg] at hsc ⊢
    exact h.tracked hs hsc

/-- While a task holds the token, only what is frozen and marked matters. -/
private theorem Glob.busy {n : TaskId} (hs : c.Safe) (h : c.state = .freezing ∨ c.state = .thawing) : Glob c n := by
  refine ⟨hs, fun hst => ?_, fun hst => ?_⟩ <;> rcases h with h | h <;> rw [h] at hst <;> cases hst

private theorem move_driver {d d' : Driver} (hm : Driver.Move cfg c i fresh d c' d' new) {n : TaskId}
    (hw : d.WF) (htok' : Tokens.Loc c' i (.driver d')) (hg : Glob c n) (hl : Loc c i (.driver d))
    (hon : ∀ e ∈ news c c', honestThaw c e = true) : Glob c' n ∧ Loc c' i (.driver d') := by
  have hhold : ∀ {e : Driver}, e.WF → (Task.driver e).holdsToken = !e.pc.published := fun he => he.token_iff
  cases hp : d.pc.published with
  | true =>
    have hg' := hm.guarded_of_published hw hp
    have hno : (Task.driver d).holdsToken = false := by rw [hhold hw, hp]; rfl
    refine ⟨hg.congr hg', .of_token htok'.wf ?_⟩
    rcases hm.tokens hw with ⟨h₁, h₂, -⟩ | ⟨h₁, -⟩ | ⟨h₁, -⟩
    · rw [← hno]
      simp only [Task.holdsToken, Task.freezeToken, Task.thawToken, h₁, h₂]
    · simp [Task.holdsToken, Task.freezeToken, h₁] at hno
    · rw [show (Task.driver d).holdsToken = true from h₁] at hno
      cases hno
  | false =>
    have hcov : d.Covered c := hl hp
    have hs := hm.safe hw hg.toSafe hcov
    cases hp' : d'.pc.published with
    | true =>
      refine ⟨?_, fun h => by rw [hp'] at h; cases h⟩
      rcases hm.publishes hw hcov hp hp' with ⟨hst, hclean⟩ | ⟨hst, htr⟩
      · exact ⟨hs, fun _ => hclean, fun h => by rw [hst] at h; cases h⟩
      · exact ⟨hs, (fun h => by rw [hst] at h; cases h), fun _ => htr⟩
    | false =>
      have hhold' := hhold htok'.wf
      rw [hp'] at hhold'
      exact ⟨.busy hs (htok'.busy hhold'), fun _ => hm.covered hw hg.toSafe hcov hon hp'⟩

private theorem move_thaw {w : Bool} {pc pc' : ThawPc} (hm : Thaw.Move cfg c i fresh pc c' pc' new) {n : TaskId}
    (htok' : Tokens.Loc c' i (.thaw w pc')) (hg : Glob c n) (hl : Thaw.Covered c pc) {handles : TaskId → List Mount}
    (hhandles : ∀ token j, pc = .blocking token j → handles i = j.val.retained)
    (hE : ∀ e ∈ news c c', honestThaw c e = true ∧ TableListsOwn handles c e) : Glob c' n ∧ Thaw.Covered c' pc' := by
  have hs := hm.safe hg.toSafe hl
  refine ⟨?_, hm.covered hg.toSafe hl hg.thawed hg.tracked hhandles hE⟩
  cases ht : Thaw.token pc' with
  | some token => exact .busy hs (.inr (htok'.thawing (by simp [Task.thawToken, ht])))
  | none =>
    cases hm
    case publish => exact ⟨hs, fun _ => hl, by rintro ⟨⟩⟩
    case fail => exact ⟨hs, by rintro ⟨⟩, fun _ => hl⟩
    case win => cases ht
    case call => cases ht
    case hold token outcome held =>
      cases outcome with
      | ok n => cases ht
      | error failure =>
        simp only [Thaw.settles] at ht
        split at ht <;> cases ht
    case install => exact hg.congr (by simp)
    all_goals first
      | exact hg.congr rfl
      | cases ht

private theorem move (hm : Task.Move cfg c i fresh t c' t' new) {n : TaskId} (hw : t.WF) (htok' : Tokens.Loc c' i t')
    (hg : Glob c n) (hl : Loc c i t) {handles : TaskId → List Mount}
    (hhandles : ∀ w token j, t = .thaw w (.blocking token j) → handles i = j.val.retained)
    (hE : ∀ e ∈ news c c', honestThaw c e = true ∧ TableListsOwn handles c e) : Glob c' n ∧ Loc c' i t' := by
  cases hm with
  | driver h => exact move_driver h hw htok' hg hl fun e he => (hE e he).1
  | thaw h => exact move_thaw h htok' hg hl (fun token j hpc => hhandles _ token j (by rw [hpc])) hE
  | dogClaims hs hc =>
    exact ⟨.busy ⟨hg.frozen, hg.marked⟩ (.inr rfl), (fun ht => by cases ht), hg.tracked hc⟩
  | startInstall => exact ⟨hg.congr (by simp), trivial⟩
  | _ => exact ⟨hg.congr rfl, trivial⟩

/-- A step of the environment freezes nothing for the agent. -/
private theorem env (he : c.Env c') {n : TaskId} (hg : Glob c n) :
    Glob c' n ∧ (∀ x, c'.own x = true → c.own x = true) ∧ c'.marker = c.marker ∧ c'.held = c.held ∧ c'.scope = c.scope := by
  cases he with
  | tick m => exact ⟨hg.congr rfl, fun _ => id, rfl, rfl, rfl⟩
  | foreignFreeze d =>
    refine ⟨⟨⟨fun x hx => ?_, hg.marked⟩, hg.thawed, hg.tracked⟩, fun _ => id, rfl, rfl, rfl⟩
    have := hg.frozen x hx
    by_cases hxd : x = d
    · subst hxd
      simp
    · simpa [Function.update_of_ne hxd] using this
  | foreignThaw d hd =>
    have hown : ∀ x, Function.update c.own d (c.own d && decide (1 < c.depth d)) x = true →
        c.own x = true ∧ (x = d → 1 < c.depth d) := by
      intro x hx
      by_cases hxd : x = d
      · subst hxd
        simpa using hx
      · exact ⟨by simpa [Function.update_of_ne hxd] using hx, fun h => absurd h hxd⟩
    refine ⟨⟨⟨fun x hx => ?_, fun x hx => hg.marked x (hown x hx).1⟩, fun hs => ?_, fun hs hsc x hx => ?_⟩,
      fun x hx => (hown x hx).1, rfl, rfl, rfl⟩
    · have := hg.frozen x (hown x hx).1
      by_cases hxd : x = d
      · subst hxd
        have := (hown x hx).2 rfl
        simp only [Function.update_self]
        omega
      · simpa [Function.update_of_ne hxd] using this
    · exact (hg.thawed hs).mono fun x hx => (hown x hx).1
    · exact hg.tracked hs hsc x (hown x hx).1

private theorem boot (hs : c.Safe) (n : TaskId) : Glob (Agent.bootCtx c) n where
  frozen := hs.frozen
  marked := hs.marked
  thawed := by
    intro hst x
    rw [Bool.eq_false_iff]
    intro hx
    simp [Agent.bootCtx, hs.marked x hx] at hst
  tracked := by
    intro _ hsc
    cases hsc

/-- Everything frozen is answered for in every reachable state. -/
theorem reach {a : Agent} (h : Machine.Reach (Agent.step cfg) Assumed Agent.Initial a) : a.Holds Glob Loc := by
  refine h.invariant (fun a h => ?_) (fun a act a' hr ih hs hok => ?_)
  · obtain ⟨c, n, rfl⟩ := h.booted
    exact Agent.boot_holds (boot ⟨h.frozen, h.marked⟩ _) fun _ => trivial
  · have htok := Tokens.reach hr
    have hsucc : ∀ {c : Ctx} (n : TaskId), Glob c n → Glob c (n + 1) := fun _ hG => ⟨hG.toSafe, hG.thawed, hG.tracked⟩
    refine Agent.holds_step ih hs ?_ ?_ ?_ ?_ ?_
    · rintro i t c' t' new ht hm ⟨rfl, -⟩
      obtain ⟨-, htok'⟩ := Tokens.move hm (htok.bound ht) htok.glob (htok.loc ht)
      have hhandles : ∀ w token j, t = .thaw w (.blocking token j) → a.drained i = j.val.retained := by
        rintro w token j rfl
        simp only [Agent.drained, ht]
      obtain ⟨hG, hL⟩ := move hm (htok.loc ht).wf htok' ih.glob (ih.loc ht) hhandles hok
      refine ⟨hG, hsucc, hL, fun _ _ => trivial, fun j u hj hu hl => ?_⟩
      rcases Tokens.undisturbed (hm.frame htok.glob (htok.loc ht)) hj (htok.loc hu) with hg | hno
      · exact hl.mono (fun x hx => by rwa [hg] at hx) (by rw [hg]) (by rw [hg]) (by rw [hg])
      · exact .of_token (htok.loc hu).wf hno
    · intro restrict hst _
      have hclean := ih.glob.thawed hst
      refine ⟨.busy ⟨ih.glob.frozen, ih.glob.marked⟩ (.inl rfl), fun _ => ?_, fun j u _ hu hl => ?_⟩
      · exact ⟨fun x hx => absurd hx (by simp [Agent.freezeCtx, hclean x]), fun _ => hclean, (fun hp => by cases hp),
          (fun _ hj => by cases hj), fun _ _ hj => by cases hj⟩
      · exact Loc.mono (c := a.ctx) (fun _ => id) rfl rfl rfl hl
    · exact ⟨hsucc _ ih.glob, trivial, trivial⟩
    · intro c' he _
      obtain ⟨hG, hown, hmarker, hheld, hscope⟩ := env he ih.glob
      exact ⟨hG, fun j u _ hl => hl.mono hown hmarker hheld hscope⟩
    · intro _
      exact ⟨boot ih.glob.toSafe _, fun _ => trivial⟩

end Cover

end Qeminga
