import Qeminga.Invariant.Cover
import Qeminga.Invariant.Watchdogs

/-!
# The ring is in use while anything is frozen

The audit output goes to the ring from the begin of an operation (or from a start with the marker) to the hook
`on_thawed`, which a driver or a thaw runs under its token, before it publishes `Thawed`.  There nothing is frozen
any more, so a frozen superblock means that the ring is in use (`Ring.reach`).
-/

namespace Qeminga

variable {cfg : Config} {c c' : Ctx} {i fresh : TaskId} {t t' : Task} {new : Option Dog}

/-- The program points of a driver at which the ring is in use: up to the hook `on_thawed`, or to the publication of
`Frozen`. -/
def Pc.ringed : Pc → Bool
  | .conclude .commit _ _ => true
  | .conclude .finalise _ _ => true
  | .conclude .retire terminal _ => terminal = .frozen
  | .conclude .scope terminal _ => terminal = .frozen
  | .conclude .state terminal _ => terminal = .frozen
  | .conclude _ _ _ => false
  | .finished => false
  | _ => true

/-! ### What the steps of the tasks do to the ring -/

private theorem install_ring (c : Ctx) (w : TaskId) : (c.install w).ring = c.ring := by
  obtain ⟨cancelled, h⟩ := c.install_eq w
  rw [h]

private theorem onThawClaimed_ring (c : Ctx) : c.onThawClaimed.ring = c.ring := by
  obtain ⟨cancelled, h⟩ := c.onThawClaimed_eq
  rw [h]

namespace Driver

variable {d d' : Driver}

private theorem ringed_of_tracked {tr : Tracked} (h : d.tracked = some tr) : d.pc.ringed = true := by
  rcases tracked_cases h with ⟨hpc, -⟩ | ⟨stage, hpc, -⟩ <;> rw [hpc] <;> rfl

/-- A driver leaves the ring alone, but for the hook `on_thawed`; it does not come back to it. -/
private theorem Move.ring (hm : Move cfg c i fresh d c' d' new) :
    (∃ terminal reply, d.pc = .conclude .finalise terminal reply ∧ c' = c.onThawed ∧
      d'.pc = .conclude .retire terminal reply) ∨
    (c'.ring = c.ring ∧ (d'.pc.ringed = true → d.pc.ringed = true) ∧
      ∀ terminal reply, d'.pc = .conclude .finalise terminal reply → terminal = .thawed ∨ d'.pc = d.pc) := by
  cases hm
  case finalise terminal reply hpc => exact .inl ⟨terminal, reply, hpc, rfl, rfl⟩
  all_goals refine .inr ?_
  case call tr tr' ht hc =>
    refine ⟨hc.unhooked.ring, fun _ => ringed_of_tracked ht, fun terminal reply hpc => ?_⟩
    rcases tracked_cases ht with ⟨-, he⟩ | ⟨stage, -, he⟩ <;> rw [he] at hpc <;> cases hpc
  case lose tr ht =>
    refine ⟨rfl, fun _ => ringed_of_tracked ht, fun terminal reply hpc => ?_⟩
    rcases tracked_cases ht with ⟨-, he⟩ | ⟨stage, -, he⟩ <;> rw [he] at hpc <;> cases hpc
  case drain h => exact ⟨(Ctx.fithaw_unhooked h).ring, id, fun _ _ _ => .inr rfl⟩
  case loseDrain => exact ⟨rfl, id, fun _ _ _ => .inr rfl⟩
  case joinDrain => exact ⟨rfl, id, fun _ _ _ => .inr rfl⟩
  case joinDrainRestart => exact ⟨rfl, id, fun _ _ _ => .inr rfl⟩
  case settleDrain => exact ⟨rfl, id, fun _ _ _ => .inr rfl⟩
  case abort hpc =>
    refine ⟨rfl, fun _ => ?_, fun _ _ h => by cases h⟩
    rcases hpc with hpc | hpc | ⟨hpc, -⟩ <;> rw [hpc] <;> rfl
  case interrupt hpc _ hc =>
    refine ⟨?_, fun _ => by rw [hpc]; rfl, fun _ _ h => by cases h⟩
    rcases hc with rfl | rfl <;> rfl
  case announce k hpc =>
    refine ⟨rfl, fun _ => by rw [hpc]; rfl, fun _ _ h => ?_⟩
    cases k with
    | boundary b => cases b <;> cases h
    | «await» tr => cases h
  case froze hpc hd =>
    subst hd
    exact ⟨rfl, fun _ => by rw [hpc]; rfl, fun _ _ h => by cases h⟩
  case busy hpc hd =>
    subst hd
    exact ⟨rfl, fun _ => by rw [hpc]; rfl, fun _ _ h => by cases h⟩
  case commit terminal reply hpc =>
    refine ⟨rfl, fun _ => by rw [hpc]; rfl, fun terminal' reply' h => ?_⟩
    cases terminal with
    | thawed =>
      cases h
      exact .inl rfl
    | frozen => cases h
  case retire terminal reply hpc =>
    refine ⟨by simp, fun h => ?_, fun _ _ h => by cases h⟩
    rw [hpc]
    exact h
  case scope terminal reply hpc =>
    refine ⟨rfl, fun h => ?_, fun _ _ h => by cases h⟩
    rw [hpc]
    exact h
  case publish terminal reply hpc ht =>
    refine ⟨rfl, fun h => ?_, fun _ _ h => ?_⟩ <;> cases terminal <;> cases h
  case publishNone terminal reply hpc ht hth =>
    refine ⟨rfl, fun h => ?_, fun _ _ h => ?_⟩ <;> cases terminal <;> cases h
  case arm => exact ⟨rfl, fun h => (by cases h), fun _ _ h => by cases h⟩
  case install w hpc => exact ⟨install_ring c w, fun h => (by cases h), fun _ _ h => by cases h⟩
  case settle => exact ⟨rfl, fun h => (by cases h), fun _ _ h => by cases h⟩
  case reply => exact ⟨rfl, fun h => (by cases h), fun _ _ h => by cases h⟩
  case replied => exact ⟨rfl, fun h => (by cases h), fun _ _ h => by cases h⟩
  case cancel hpc => exact ⟨onThawClaimed_ring c, fun _ => by rw [hpc]; rfl, fun _ _ h => by cases h⟩
  all_goals exact ⟨rfl, fun _ => by rw [‹d.pc = _›]; rfl, fun _ _ h => by cases h⟩

end Driver

/-- A thaw leaves the ring alone, but for the hook `on_thawed`. -/
private theorem Thaw.Move.ring {pc pc' : ThawPc} (hm : Thaw.Move cfg c i fresh pc c' pc' new) :
    (∃ token outcome, pc = .finalise token outcome ∧ c' = c.onThawed) ∨ c'.ring = c.ring := by
  cases hm
  case finalise token outcome => exact .inl ⟨token, outcome, rfl, rfl⟩
  case call hc => exact .inr hc.unhooked.ring
  case cancel => exact .inr (onThawClaimed_ring c)
  case install w failure => exact .inr (install_ring c w)
  all_goals exact .inr rfl

/-- A thaw freezes nothing. -/
private theorem Thaw.Move.own {pc pc' : ThawPc} (hm : Thaw.Move cfg c i fresh pc c' pc' new) {x : Dev}
    (hx : c'.own x = true) : c.own x = true := by
  cases hm
  case call hc => exact Thaw.call_own hc hx
  case cancel =>
    obtain ⟨cancelled, h⟩ := c.onThawClaimed_eq
    rwa [h] at hx
  case install w failure =>
    obtain ⟨cancelled, h⟩ := c.install_eq w
    rwa [h] at hx
  all_goals exact hx

/-! ### The invariant -/

namespace Ring

/-- What is frozen is frozen with the ring in use. -/
def Glob (c : Ctx) (_ : TaskId) : Prop := ∀ x, c.own x = true → c.ring = true

/-- A driver uses the ring up to the hook `on_thawed`, which only a settlement as `Thawed` runs. -/
def Loc (c : Ctx) (_ : TaskId) : Task → Prop
  | .driver d => (d.pc.ringed = true → c.ring = true) ∧
      ∀ terminal reply, d.pc = .conclude .finalise terminal reply → terminal = .thawed
  | _ => True

private theorem Loc.mono {j : TaskId} {u : Task} (h : c.ring = true → c'.ring = true) (hl : Loc c j u) : Loc c' j u := by
  cases u with
  | driver d => exact ⟨fun hr => h (hl.1 hr), hl.2⟩
  | _ => trivial

private theorem ringed_unpublished {pc : Pc} (h : pc.ringed = true) : pc.published = false := by
  cases pc with
  | conclude stage terminal reply => cases stage <;> first | rfl | cases h
  | finished => cases h
  | _ => rfl

/-- Only a task with the token stops the use of the ring. -/
private theorem stops (hm : Task.Move cfg c i fresh t c' t' new) (hw : t.WF) :
    c'.ring = c.ring ∨ c'.ring = true ∨ t.holdsToken = true := by
  cases hm with
  | @driver d d' c' new h =>
    rcases h.ring with ⟨terminal, reply, hpc, -, -⟩ | ⟨hr, -⟩
    · refine .inr (.inr ?_)
      have ht := Driver.WF.token_iff (d := d) hw
      rw [hpc] at ht
      exact ht
    · exact .inl hr
  | thaw h =>
    rcases h.ring with ⟨token, outcome, rfl, -⟩ | hr
    · exact .inr (.inr rfl)
    · exact .inl hr
  | startRing => exact .inr (.inl rfl)
  | startInstall => exact .inl (install_ring c _)
  | _ => exact .inl rfl

private theorem move_driver {d d' : Driver} (hm : Driver.Move cfg c i fresh d c' d' new) {n : TaskId} (hg : Glob c n)
    (hl : Loc c i (.driver d)) (hclean : ∀ reply, d.pc = .conclude .finalise .thawed reply → c.Clean) :
    Glob c' n ∧ Loc c' i (.driver d') := by
  rcases hm.ring with ⟨terminal, reply, hpc, rfl, hpc'⟩ | ⟨hring, hback, hfin⟩
  · obtain rfl := hl.2 terminal reply hpc
    refine ⟨fun x hx => ?_, ?_, ?_⟩
    · have hx : c.own x = true := hx
      rw [hclean reply hpc x] at hx
      cases hx
    · rw [hpc']
      exact fun h => by cases h
    · rw [hpc']
      exact fun _ _ h => by cases h
  · refine ⟨fun x hx => ?_, fun hr => hring ▸ hl.1 (hback hr), fun terminal reply hpc => ?_⟩
    · rw [hring]
      rcases hm.kernel with ⟨-, hown, -⟩ | ⟨tr, tr', ht, -⟩ | ⟨j, m, rest, r, -, -, hc⟩
      · exact hg x (hown ▸ hx)
      · exact hl.1 (Driver.ringed_of_tracked ht)
      · exact hg x (Ctx.own_of_fithaw hc hx)
    · rcases hfin terminal reply hpc with h | h
      · exact h
      · exact hl.2 terminal reply (h ▸ hpc)

private theorem move_thaw {pc pc' : ThawPc} (hm : Thaw.Move cfg c i fresh pc c' pc' new) {n : TaskId} (hg : Glob c n)
    (hcov : Thaw.Covered c pc) : Glob c' n := by
  intro x hx
  have hown := hm.own hx
  rcases hm.ring with ⟨token, outcome, rfl, rfl⟩ | hring
  · rw [hcov x] at hown
    cases hown
  · exact hring ▸ hg x hown

private theorem move (hm : Task.Move cfg c i fresh t c' t' new) {n : TaskId} (hw : t.WF) (hg : Glob c n) (hl : Loc c i t)
    (hcov : Cover.Loc c i t) : Glob c' n ∧ Loc c' i t' := by
  cases hm with
  | @driver d d' c' new h =>
    exact move_driver h hg hl fun reply hpc => (hcov (by rw [hpc]; rfl)).clean (by rw [hpc]; rfl)
  | thaw h => exact ⟨move_thaw h hg hcov, trivial⟩
  | startRing => exact ⟨fun _ _ => rfl, trivial⟩
  | startInstall =>
    refine ⟨fun x hx => ?_, trivial⟩
    obtain ⟨cancelled, h⟩ := c.install_eq _
    rw [install_ring]
    rw [h] at hx
    exact hg x hx
  | _ => exact ⟨hg, trivial⟩

/-- What is frozen is frozen with the ring in use, in every reachable state. -/
theorem reach {a : Agent} (h : Machine.Reach (Agent.step cfg) Cover.Assumed Agent.Initial a) :
    a.Holds Glob Loc := by
  refine h.invariant (fun a h => ?_) (fun a act a' hr ih hs hok => ?_)
  · obtain ⟨c, n, rfl⟩ := h.booted
    exact Agent.boot_holds (fun x hx => h.marked x hx) fun _ => trivial
  · have htok := Tokens.reach hr
    have hcov := Cover.reach hr
    refine Agent.holds_step ih hs ?_ ?_ ?_ ?_ ?_
    · intro i t c' t' new ht hm _
      obtain ⟨hG, hL⟩ := move hm (htok.loc ht).wf ih.glob (ih.loc ht) (hcov.loc ht)
      refine ⟨hG, fun _ h => h, hL, fun _ _ => trivial, fun j u hj hu hl => ?_⟩
      rcases stops hm (htok.loc ht).wf with hr | hr | hhold
      · exact hl.mono fun h => hr ▸ h
      · exact hl.mono fun _ => hr
      · -- the task has the token, so no other driver is in its operation
        cases u with
        | driver d =>
          refine ⟨fun hringed => ?_, hl.2⟩
          have hd := Driver.WF.token_iff (d := d) (htok.loc hu).wf
          rw [ringed_unpublished hringed] at hd
          have hown := (htok.loc hu).owner.1 hd
          exact absurd (Option.some.inj (hown.symm.trans ((htok.loc ht).owner.1 hhold))) hj
        | _ => trivial
    · intro restrict hst _
      exact ⟨fun _ _ => rfl, ⟨fun _ => rfl, fun _ _ h => by cases h⟩, fun j u _ _ hl => hl.mono fun _ => rfl⟩
    · exact ⟨ih.glob, trivial, trivial⟩
    · intro c' he _
      cases he with
      | tick => exact ⟨ih.glob, fun j u _ hl => hl.mono id⟩
      | foreignFreeze => exact ⟨ih.glob, fun j u _ hl => hl.mono id⟩
      | foreignThaw d hd =>
        refine ⟨fun x hx => ih.glob x ?_, fun j u _ hl => hl.mono id⟩
        by_cases hxd : x = d
        · subst hxd
          simp only [Function.update_self, Bool.and_eq_true] at hx
          exact hx.1
        · simpa [Function.update_of_ne hxd] using hx
    · intro _
      exact ⟨fun x hx => hcov.glob.marked x hx, fun _ => trivial⟩

end Ring

end Qeminga
