import Qeminga.Invariant.WellFormed

/-!
# Tokens and the part of the context they protect

The state machine hands out one token at a time, and a task holds it exactly while it is the `owner` of the context
(`Tokens.reach`).  Only the owner changes the state, the marker, the held handles, the thaw scope, the slot of the
operation and the freeze depths: this is the frame `Frame` that every step of a task respects
(`Task.Move.frame`), and what lets the invariants of the other tasks survive it.
-/

namespace Qeminga

/-! ### The frame of a step -/

/-- What others may do to an operation: leave a notification and mark it as aborting. -/
structure FreezeOp.Observed (o o' : FreezeOp) : Prop where
  deadline : o'.deadline = o.deadline
  aborted : o'.aborted = o.aborted
  progress : o'.progress = o.progress
  outcome : o'.outcome = o.outcome ∨ (o.outcome = .open ∧ o'.outcome = .aborting)

theorem FreezeOp.Observed.refl (o : FreezeOp) : o.Observed o := ⟨rfl, rfl, rfl, .inl rfl⟩

/-- The task that records the event; any thaw may record an abort request. -/
def Event.author : Event → Option TaskId
  | .started op _ _ => some op
  | .spawned op _ => some op
  | .joined op _ => some op
  | .prepared op _ => some op
  | .removal op _ _ => some op
  | .fifreeze op _ _ _ _ => some op
  | .attempted op _ _ => some op
  | .fithaw task _ _ => some task
  | .discovered task _ => some task
  | .requested _ _ => none
  | .replied op _ => some op
  | .claimed task _ => some task
  | .began task _ => some task
  | .published task _ _ => some task
  | .answered task _ _ => some task

def Event.By (i : TaskId) (e : Event) : Prop := ∀ j, e.author = some j → j = i

/-- The events of `c'` that are not in `c` are recorded by the task `i`. -/
def Ctx.Adds (i : TaskId) (c c' : Ctx) : Prop := ∃ new, c'.log = new ++ c.log ∧ ∀ e ∈ new, e.By i

/-- What a step of the task `i` leaves alone, whoever holds the token. -/
structure Grows (i : TaskId) (c c' : Ctx) : Prop where
  now : c'.now = c.now
  fd : c.fd ≤ c'.fd
  ops : ∀ j, j ≠ i → (c.ops j).Observed (c'.ops j)
  log : c.Adds i c'

/-- What a step of the task `i` leaves alone. -/
structure Frame (i : TaskId) (c c' : Ctx) : Prop extends Grows i c c' where
  guarded : ∀ j, j ≠ i → c.owner = some j → c'.toGuarded = c.toGuarded
  owner : c'.owner = c.owner ∨ c'.owner = some i ∨ c'.owner = none

/-- The event is a system call. -/
def Event.isCall : Event → Bool
  | .fifreeze _ _ _ _ _ => true
  | .fithaw _ _ _ => true
  | .discovered _ _ => true
  | _ => false

/-- The event is one that only the holder of the token records. -/
def Event.ofOwner : Event → Bool
  | .requested _ _ => false
  | .replied _ _ => false
  | .claimed _ _ => false
  | .answered _ _ _ => false
  | _ => true

/-- A system call of the task `i`. -/
structure Ctx.Calls (i : TaskId) (c c' : Ctx) : Prop where
  now : c'.now = c.now
  fd : c.fd ≤ c'.fd
  ops : c'.ops = c.ops
  calls : ∃ new, c'.log = new ++ c.log ∧ ∀ e ∈ new, e.By i ∧ e.isCall = true
  state : c'.state = c.state
  owner : c'.owner = c.owner
  held : c'.held = c.held
  scope : c'.scope = c.scope
  slot : c'.slot = c.slot

theorem Ctx.Calls.log {i : TaskId} {c c' : Ctx} (h : c.Calls i c') : c.Adds i c' := by
  obtain ⟨new, hn, he⟩ := h.calls
  exact ⟨new, hn, fun e h => (he e h).1⟩

theorem Ctx.Calls.grows {i : TaskId} {c c' : Ctx} (h : c.Calls i c') : Grows i c c' :=
  ⟨h.now, h.fd, fun _ _ => h.ops ▸ .refl _, h.log⟩

theorem Ctx.Calls.refl (i : TaskId) (c : Ctx) : c.Calls i c := ⟨rfl, Nat.le_refl _, rfl, ⟨[], rfl, by simp⟩, rfl, rfl, rfl, rfl, rfl⟩

theorem Ctx.fithaw_calls {c c' : Ctx} {i : TaskId} {d : Dev} {r : Except KernelError Unit}
    (h : c.fithaw i d r = some c') : c.Calls i c' := by
  rcases Ctx.fithaw_cases h with ⟨-, -, rfl⟩ | ⟨err, -, rfl⟩ <;>
    exact ⟨rfl, Nat.le_refl _, rfl, ⟨[_], rfl, by simp [Event.By, Event.author, Event.isCall]⟩, rfl, rfl, rfl, rfl, rfl⟩

theorem Ctx.unlink_calls {c c' : Ctx} {i : TaskId} {ans : UnlinkAnswer} {r : Except MarkerError Unit}
    (h : c.unlink ans = some (c', r)) : c.Calls i c' := by
  rcases Ctx.unlink_cases h with ⟨-, -, rfl⟩ | ⟨-, -, rfl⟩ | ⟨e, -, rfl⟩
  · exact ⟨rfl, Nat.le_refl _, rfl, ⟨[], rfl, by simp⟩, rfl, rfl, rfl, rfl, rfl⟩
  · exact .refl i _
  · exact .refl i _

theorem Ctx.fifreeze_cases (c : Ctx) (i : TaskId) (d : Dev) (aborted : Bool) (clock : Nat)
    (r : Except KernelError Unit) :
    (r = .ok () ∧ c.fifreeze i d aborted clock r =
        { c with depth := Function.update c.depth d (c.depth d + 1), own := Function.update c.own d true
                 log := .fifreeze i d aborted clock r :: c.log }) ∨
      ∃ err, r = .error err ∧ c.fifreeze i d aborted clock r = c.note (.fifreeze i d aborted clock r) := by
  cases r with
  | ok _ => exact .inl ⟨rfl, rfl⟩
  | error err => exact .inr ⟨err, rfl, rfl⟩

theorem Tracked.Call.calls {c c' : Ctx} {i : TaskId} {tr tr' : Tracked} (h : tr.Call c i c' tr') : c.Calls i c' := by
  cases h with
  | fifreeze t rest m aborted clock r =>
    rcases c.fifreeze_cases i m.dev aborted clock r with ⟨-, h⟩ | ⟨err, -, h⟩ <;> rw [h] <;>
      exact ⟨rfl, Nat.le_refl _, rfl, ⟨[_], rfl, by simp [Event.By, Event.author, Event.isCall]⟩, rfl, rfl, rfl, rfl, rfl⟩
  | removed k h => exact Ctx.unlink_calls h
  | rollbackDrains htodo h => exact Ctx.fithaw_calls h
  | rollbackUnlinks hj h => exact Ctx.unlink_calls h
  | created => exact ⟨rfl, Nat.le_refl _, rfl, ⟨[], rfl, by simp⟩, rfl, rfl, rfl, rfl, rfl⟩
  | opened => exact ⟨rfl, Nat.le_succ _, rfl, ⟨[], rfl, by simp⟩, rfl, rfl, rfl, rfl, rfl⟩
  | _ => exact .refl i _

theorem ThawBlocking.Call.calls {c c' : Ctx} {i : TaskId} {j j' : ThawBlocking} (h : j.Call c i c' j') :
    c.Calls i c' := by
  cases h with
  | discovered entries hs => exact ⟨rfl, Nat.le_refl _, rfl, ⟨[_], rfl, by simp [Event.By, Event.author, Event.isCall]⟩, rfl, rfl, rfl, rfl, rfl⟩
  | opened hs => exact ⟨rfl, Nat.le_succ _, rfl, ⟨[], rfl, by simp⟩, rfl, rfl, rfl, rfl, rfl⟩
  | fithaw hs h => exact Ctx.fithaw_calls h
  | unlinked hs h => exact Ctx.unlink_calls h
  | _ => exact .refl i _

/-- The program points of a driver after the publication of its terminal state. -/
def Pc.published : Pc → Bool
  | .conclude .arm _ _ => true
  | .conclude (.install _) _ _ => true
  | .conclude .settled _ _ => true
  | .conclude .reply _ _ => true
  | .finished => true
  | _ => false

namespace Driver

variable {cfg : Config} {c c' : Ctx} {i fresh : TaskId} {d d' : Driver} {new : Option Dog}

/-- A driver holds a token until it publishes its terminal state. -/
theorem WF.token_iff (h : d.WF) : (d.token.isSome || d.thawToken.isSome) = !d.pc.published := by
  have hp := h.phase
  have hopen : Open d → (d.token.isSome || d.thawToken.isSome) = true := fun h => by simp [h.token]
  have hrec : Recovering d → (d.token.isSome || d.thawToken.isSome) = true := fun h => by simp [h.thawToken]
  have hconcl : Concluding d → (d.token.isSome || d.thawToken.isSome) = true := fun h => by
    rcases h.tokens with ⟨-, ht, -⟩ | ⟨-, -, ht, -⟩ <;> simp [ht]
  have hdone : Concluded d → (d.token.isSome || d.thawToken.isSome) = false := fun h => by
    simp [h.token, h.thawToken]
  cases hpc : d.pc with
  | head rest => rw [hpc] at hp; exact hp.elim hopen hrec
  | decide b => rw [hpc] at hp; exact hopen hp
  | decideClock b => rw [hpc] at hp; exact hopen hp
  | tryCommit => rw [hpc] at hp; exact hopen hp
  | aborting stage k =>
    rw [hpc] at hp
    cases stage with
    | publish => exact hrec hp.1
    | _ => simp [Aborting.token hp.1, Aborting.thawToken hp.1, Pc.published]
  | «await» tr =>
    rw [hpc] at hp
    cases tr with
    | prep j => exact hp.elim hopen hrec
    | worker t rest j => exact hp.elim hopen hrec
    | removal k j =>
      cases k with
      | aborted => exact hrec hp.1
      | _ => exact hopen hp
    | rollback j => exact hopen hp
  | settling => rw [hpc] at hp; exact hrec hp
  | conclude stage terminal reply =>
    rw [hpc] at hp
    cases stage <;> first | exact hconcl hp | exact hdone hp
  | finished => rw [hpc] at hp; simp [hp.1, hp.2.1, Pc.published]

/-- What a step of a driver does to the tokens: nothing, the swap of an abort, or the publication. -/
theorem Move.tokens (hm : Move cfg c i fresh d c' d' new) (hw : d.WF) :
    (d'.token = d.token ∧ d'.thawToken = d.thawToken ∧ c'.state = c.state ∧ c'.owner = c.owner) ∨
      (d.token.isSome ∧ d'.token = none ∧ d'.thawToken = some ⟨.freezing⟩ ∧ c'.state = .thawing ∧
        c'.owner = c.owner) ∨
      ((d.token.isSome || d.thawToken.isSome) = true ∧ d'.token = none ∧ d'.thawToken = none ∧
        (c'.state = .thawed ∨ c'.state = .frozen) ∧ c'.owner = none) := by
  cases hm
  case swap ht => exact .inr (.inl ⟨by simp [ht], rfl, rfl, rfl, rfl⟩)
  case publish terminal reply hpc ht =>
    refine .inr (.inr ⟨by rcases ht with ht | ⟨-, ht⟩ <;> simp [ht], rfl, ?_,
      by cases terminal <;> simp [Terminal.state], rfl⟩)
    rcases (Driver.WF.at hw hpc : Concluding d).tokens with ⟨-, -, hth, -⟩ | ⟨-, ht, -, -⟩
    · simp [hth]
    · simp [ht]
  case publishNone hpc ht hth =>
    have h := hw.token_iff
    simp [Pc.published, hpc, ht, hth] at h
  case froze hd => subst hd; exact .inl ⟨rfl, rfl, by simp, by simp⟩
  case busy hd => subst hd; exact .inl ⟨rfl, rfl, by simp, by simp⟩
  case call ht hc => exact .inl ⟨rfl, rfl, hc.calls.state, hc.calls.owner⟩
  case drain hc => exact .inl ⟨rfl, rfl, (Ctx.fithaw_calls hc).state, (Ctx.fithaw_calls hc).owner⟩
  case interrupt hc => rcases hc with rfl | rfl <;> exact .inl ⟨rfl, rfl, by simp, by simp⟩
  all_goals exact .inl ⟨rfl, rfl, by simp, by simp⟩

private theorem Move.adds (hm : Move cfg c i fresh d c' d' new) : c.Adds i c' := by
  cases hm
  case call hc => exact hc.calls.log
  case drain hc => exact (Ctx.fithaw_calls hc).log
  case interrupt hc => rcases hc with rfl | rfl <;> exact ⟨[], rfl, by simp⟩
  case cancel => exact ⟨[], by simp, by simp⟩
  case install => exact ⟨[], by simp, by simp⟩
  case retire => exact ⟨[], by simp, by simp⟩
  all_goals first
    | exact ⟨[], rfl, by simp⟩
    | exact ⟨[_], rfl, by simp [Event.By, Event.author]⟩
    | exact ⟨[_, _], rfl, by simp [Event.By, Event.author]⟩
    | exact ⟨[_, _, _], rfl, by simp [Event.By, Event.author]⟩

private theorem Move.clock (hm : Move cfg c i fresh d c' d' new) : c'.now = c.now ∧ c.fd ≤ c'.fd := by
  cases hm
  case call hc => exact ⟨hc.calls.now, hc.calls.fd⟩
  case drain hc => exact ⟨(Ctx.fithaw_calls hc).now, (Ctx.fithaw_calls hc).fd⟩
  case interrupt hc => rcases hc with rfl | rfl <;> exact ⟨by simp, by simp⟩
  all_goals exact ⟨by simp, by simp⟩

/-- A driver touches no other operation. -/
theorem Move.ops (hm : Move cfg c i fresh d c' d' new) {j : TaskId} (hj : j ≠ i) : c'.ops j = c.ops j := by
  cases hm
  case call hc => rw [hc.calls.ops]
  case drain hc => rw [(Ctx.fithaw_calls hc).ops]
  case interrupt hc => rcases hc with rfl | rfl <;> simp [hj]
  all_goals simp [hj]

theorem Move.grows (hm : Move cfg c i fresh d c' d' new) : Grows i c c' :=
  ⟨hm.clock.1, hm.clock.2, fun _ hj => hm.ops hj ▸ .refl _, hm.adds⟩

theorem not_published_of_tracked {tr : Tracked} (h : d.tracked = some tr) : d.pc.published = false := by
  rcases tracked_cases h with ⟨hpc, -⟩ | ⟨stage, hpc, -⟩ <;> simp [Pc.published, hpc]

theorem WF.not_published_of_recovery (h : d.WF) {j : Job DrainHeld} (hr : d.recovery = some j) :
    d.pc.published = false := by
  have hp := h.phase
  cases hpc : d.pc with
  | conclude stage terminal reply =>
    rw [hpc] at hp
    cases stage <;> first | rfl | (rw [Concluded.recovery hp] at hr; cases hr)
  | finished =>
    rw [hpc] at hp
    rw [hp.2.2.2] at hr
    cases hr
  | _ => rfl

/-- Once it has published its terminal state, a driver no longer touches what the token guards. -/
theorem Move.guarded_of_published (hm : Move cfg c i fresh d c' d' new) (hw : d.WF) (hp : d.pc.published = true) :
    c'.toGuarded = c.toGuarded := by
  cases hm
  case abort hpc => rcases hpc with hpc | hpc | ⟨hpc, -⟩ <;> simp [Pc.published, hpc] at hp
  case joinDrain hr _ _ => rw [hw.not_published_of_recovery hr] at hp; cases hp
  case joinDrainRestart hr _ _ => rw [hw.not_published_of_recovery hr] at hp; cases hp
  case drain hr _ _ => rw [hw.not_published_of_recovery hr] at hp; cases hp
  case call ht _ => rw [not_published_of_tracked ht] at hp; cases hp
  case arm => simp
  case install => simp
  case settle => simp
  case reply => simp
  all_goals first
    | rfl
    | (rw [‹d.pc = _›] at hp; cases hp)

theorem Move.unowned_of_published (hm : Move cfg c i fresh d c' d' new) (hw : d.WF) (hp : d.pc.published = true) :
    ∃ new, c'.log = new ++ c.log ∧ ∀ e ∈ new, e.By i ∧ e.ofOwner = false := by
  cases hm
  case abort hpc => rcases hpc with hpc | hpc | ⟨hpc, -⟩ <;> simp [Pc.published, hpc] at hp
  case joinDrain hr _ _ => rw [hw.not_published_of_recovery hr] at hp; cases hp
  case joinDrainRestart hr _ _ => rw [hw.not_published_of_recovery hr] at hp; cases hp
  case drain hr _ _ => rw [hw.not_published_of_recovery hr] at hp; cases hp
  case loseDrain hr => rw [hw.not_published_of_recovery hr] at hp; cases hp
  case call ht _ => rw [not_published_of_tracked ht] at hp; cases hp
  case lose ht => rw [not_published_of_tracked ht] at hp; cases hp
  case install => exact ⟨[], by simp, by simp⟩
  case reply => exact ⟨[_], rfl, by simp [Event.By, Event.author, Event.ofOwner]⟩
  all_goals first
    | exact ⟨[], rfl, by simp⟩
    | (rw [‹d.pc = _›] at hp; cases hp)

/-- The one step with which a driver publishes its terminal state. -/
theorem Move.publication (hm : Move cfg c i fresh d c' d' new) (hw : d.WF) (hp : d.pc.published = false)
    (hp' : d'.pc.published = true) :
    ∃ terminal reply, d.pc = .conclude .state terminal reply ∧
      c' = { c with state := terminal.state, owner := none }.note (.published i terminal.state c.snapshot) ∧
      d' = { d with token := none, thawToken := none, pc := .conclude (.afterState terminal) terminal reply } := by
  have hstay : d.pc.published = true → False := fun h => by rw [hp] at h; cases h
  cases hm
  case publish terminal reply hpc ht =>
    refine ⟨terminal, reply, hpc, rfl, ?_⟩
    rcases (Driver.WF.at hw hpc : Concluding d).tokens with ⟨-, -, hth, -⟩ | ⟨-, ht, -, -⟩
    · simp [hth]
    · simp [ht]
  case publishNone hpc ht hth =>
    have h := hw.token_iff
    simp [Pc.published, hpc, ht, hth] at h
  case announce k hpc =>
    cases k with
    | boundary b => cases b <;> cases hp'
    | «await» tr => cases hp'
  case commit terminal reply hpc => cases terminal <;> cases hp'
  case froze hd => subst hd; cases hp'
  case busy hd => subst hd; cases hp'
  case joinDrain => exact (hstay hp').elim
  case joinDrainRestart => exact (hstay hp').elim
  case settleDrain => exact (hstay hp').elim
  case drain => exact (hstay hp').elim
  case loseDrain => exact (hstay hp').elim
  case call ht hc =>
    rcases tracked_cases ht with ⟨-, he⟩ | ⟨stage, -, he⟩ <;> rw [he] at hp' <;> cases hp'
  case lose ht =>
    rcases tracked_cases ht with ⟨-, he⟩ | ⟨stage, -, he⟩ <;> rw [he] at hp' <;> cases hp'
  case arm hpc => rw [hpc] at hp; cases hp
  case install hpc => rw [hpc] at hp; cases hp
  case settle hpc => rw [hpc] at hp; cases hp
  case reply hpc hr => rw [hpc] at hp; cases hp
  case replied hpc hr => rw [hpc] at hp; cases hp
  all_goals cases hp'

end Driver

namespace Thaw

variable {cfg : Config} {c c' : Ctx} {i fresh : TaskId} {pc pc' : ThawPc} {new : Option Dog}

theorem token_of_claiming (h : claiming pc = true) : token pc = none := by
  cases pc <;> first | rfl | cases h

/-- What a step of a thaw does to the token: it may win it, keep it or give it back with the publication. -/
theorem Move.tokens (hm : Move cfg c i fresh pc c' pc' new) :
    (token pc' = token pc ∧ c'.state = c.state ∧ c'.owner = c.owner) ∨
      (token pc = none ∧ token pc' = some ⟨c.state⟩ ∧ (c.state = .frozen ∨ c.state = .thawed) ∧ c'.state = .thawing ∧
        c'.owner = some i) ∨
      ((token pc).isSome ∧ token pc' = none ∧ (c'.state = .thawed ∨ c'.state = .frozen) ∧ c'.owner = none) := by
  cases hm
  case win hs hpc => exact .inr (.inl ⟨token_of_claiming hpc, rfl, hs, rfl, rfl⟩)
  case publish => exact .inr (.inr ⟨rfl, rfl, .inl rfl, rfl⟩)
  case fail => exact .inr (.inr ⟨rfl, rfl, .inr rfl, rfl⟩)
  case call hc => exact .inl ⟨rfl, hc.calls.state, hc.calls.owner⟩
  case hold tk outcome held =>
    refine .inl ⟨?_, by simp, by simp⟩
    cases outcome with
    | ok n => rfl
    | error failure =>
      simp only [settles]
      split <;> rfl
  all_goals exact .inl ⟨rfl, by simp, by simp⟩

theorem Move.grows (hm : Move cfg c i fresh pc c' pc' new) : Grows i c c' := by
  cases hm
  case call hc => exact hc.calls.grows
  case accepted op ho =>
    refine ⟨rfl, Nat.le_refl _, fun j _ => ?_, [_], rfl, by simp [Event.By, Event.author]⟩
    by_cases hj : j = op
    · subst hj
      cases h : (c.ops j).outcome <;> simp [FreezeOp.markAborting, h] <;> exact ⟨rfl, rfl, rfl, by simp [h]⟩
    · simpa [hj] using FreezeOp.Observed.refl (c.ops j)
  case notify op =>
    refine ⟨rfl, Nat.le_refl _, fun j _ => ?_, [], rfl, by simp⟩
    by_cases hj : j = op
    · subst hj
      simp only [Ctx.modOp_ops, Function.update_self]
      exact ⟨rfl, rfl, rfl, .inl rfl⟩
    · simpa [hj] using FreezeOp.Observed.refl (c.ops j)
  all_goals refine ⟨by simp, by simp, fun j _ => by simpa using FreezeOp.Observed.refl (c.ops j), ?_⟩
  case cancel => exact ⟨[], by simp, by simp⟩
  case install => exact ⟨[], by simp, by simp⟩
  all_goals first
    | exact ⟨[], rfl, by simp⟩
    | exact ⟨[_], rfl, by simp [Event.By, Event.author]⟩

/-- Without the token a thaw touches nothing that the token guards, unless it wins the token. -/
theorem Move.guarded (hm : Move cfg c i fresh pc c' pc' new) (ht : token pc = none) :
    c'.toGuarded = c.toGuarded ∨ (c.state = .frozen ∨ c.state = .thawed) := by
  cases hm
  case win hs _ => exact .inr hs
  case cancel => cases ht
  case install => exact .inl (by simp)
  all_goals first
    | exact .inl rfl
    | cases ht

/-- Without the token a thaw records nothing that belongs to the owner. -/
theorem Move.unowned (hm : Move cfg c i fresh pc c' pc' new) (ht : token pc = none) :
    ∃ new, c'.log = new ++ c.log ∧ ∀ e ∈ new, e.By i ∧ e.ofOwner = false := by
  cases hm
  case cancel => cases ht
  case call => cases ht
  case begin => cases ht
  case publish => cases ht
  case fail => cases ht
  case install => exact ⟨[], by simp, by simp⟩
  all_goals first
    | exact ⟨[], rfl, by simp⟩
    | exact ⟨[_], rfl, by simp [Event.By, Event.author, Event.ofOwner]⟩

end Thaw

/-! ### The frame of every task -/

def Task.WF : Task → Prop
  | .driver d => d.WF
  | _ => True

theorem Task.Move.wf {cfg : Config} {c c' : Ctx} {i fresh : TaskId} {t t' : Task} {new : Option Dog}
    (hm : Task.Move cfg c i fresh t c' t' new) (hw : t.WF) : t'.WF := by
  cases hm with
  | driver h => exact h.wf hw
  | _ => trivial

section Frame

variable {cfg : Config} {c c' : Ctx} {i fresh : TaskId} {t t' : Task} {new : Option Dog}

theorem Task.Move.grows (hm : Task.Move cfg c i fresh t c' t' new) : Grows i c c' := by
  cases hm with
  | driver h => exact h.grows
  | thaw h => exact h.grows
  | dogClaims hs hc => exact ⟨rfl, Nat.le_refl _, fun _ _ => .refl _, [_], rfl, by simp [Event.By, Event.author]⟩
  | startInstall => exact ⟨by simp, by simp, fun j _ => by simpa using FreezeOp.Observed.refl (c.ops j), [], by simp, by simp⟩
  | _ => exact ⟨rfl, Nat.le_refl _, fun _ _ => .refl _, [], rfl, by simp⟩

/-- A task that holds no token makes no system call. -/
theorem Task.Move.unowned (hm : Task.Move cfg c i fresh t c' t' new) (hw : t.WF) (ht : t.holdsToken = false) :
    ∃ new, c'.log = new ++ c.log ∧ ∀ e ∈ new, e.By i ∧ e.ofOwner = false := by
  cases hm with
  | @driver d d' c' new h =>
    have hp : d.pc.published = true := by
      have := hw.token_iff
      rw [show (d.token.isSome || d.thawToken.isSome) = false from ht] at this
      simpa using this.symm
    exact h.unowned_of_published hw hp
  | @thaw w pc pc' c' new h =>
    exact h.unowned (by simpa [Task.holdsToken, Task.freezeToken, Task.thawToken] using ht)
  | dogClaims hs hc => exact ⟨[_], rfl, by simp [Event.By, Event.author, Event.ofOwner]⟩
  | startInstall => exact ⟨[], by simp, by simp⟩
  | _ => exact ⟨[], rfl, by simp⟩

/-- What the invariant of the tokens says of the state machine. -/
structure Tokens.Glob (c : Ctx) (next : TaskId) : Prop where
  free : c.owner = none ↔ c.state = .thawed ∨ c.state = .frozen
  bound : ∀ i, c.owner = some i → i < next

/-- What the invariant of the tokens says of a task. -/
structure Tokens.Loc (c : Ctx) (i : TaskId) (t : Task) : Prop where
  owner : t.holdsToken = true ↔ c.owner = some i
  freezing : t.freezeToken.isSome → c.state = .freezing
  thawing : t.thawToken.isSome → c.state = .thawing
  wf : t.WF

/-- What a step of a task does to the tokens: nothing, the swap of an abort, a claim, or a publication. -/
theorem Task.Move.tokens (hm : Task.Move cfg c i fresh t c' t' new) (hw : t.WF) :
    (t'.freezeToken = t.freezeToken ∧ t'.thawToken = t.thawToken ∧ c'.state = c.state ∧ c'.owner = c.owner) ∨
      (t.freezeToken.isSome ∧ t'.freezeToken = none ∧ t'.thawToken.isSome ∧ c'.state = .thawing ∧
        c'.owner = c.owner) ∨
      (t.holdsToken = false ∧ (c.state = .frozen ∨ c.state = .thawed) ∧ t'.freezeToken = none ∧
        t'.thawToken.isSome ∧ c'.state = .thawing ∧ c'.owner = some i) ∨
      (t.holdsToken = true ∧ t'.holdsToken = false ∧ (c'.state = .thawed ∨ c'.state = .frozen) ∧
        c'.owner = none) := by
  cases hm with
  | driver h =>
    rcases h.tokens hw with h | ⟨h₁, h₂, h₃, h₄⟩ | ⟨h₁, h₂, h₃, h₄⟩
    · exact .inl h
    · exact .inr (.inl ⟨h₁, h₂, by simp [Task.thawToken, h₃], h₄⟩)
    · exact .inr (.inr (.inr ⟨h₁, by simp [Task.holdsToken, Task.freezeToken, Task.thawToken, h₂, h₃], h₄⟩))
  | thaw h =>
    rcases h.tokens with ⟨h₁, h₂⟩ | ⟨h₁, h₂, h₃, h₄⟩ | ⟨h₁, h₂, h₃⟩
    · exact .inl ⟨rfl, h₁, h₂⟩
    · exact .inr (.inr (.inl ⟨by simp [Task.holdsToken, Task.freezeToken, Task.thawToken, h₁], h₃, rfl,
        by simp [Task.thawToken, h₂], h₄⟩))
    · exact .inr (.inr (.inr ⟨by simp [Task.holdsToken, Task.thawToken, h₁],
        by simp [Task.holdsToken, Task.freezeToken, Task.thawToken, h₂], h₃⟩))
  | dogClaims hs hc => exact .inr (.inr (.inl ⟨rfl, .inl hc, rfl, rfl, rfl, rfl⟩))
  | startInstall => exact .inl ⟨rfl, rfl, by simp, by simp⟩
  | _ => exact .inl ⟨rfl, rfl, rfl, rfl⟩

/-- A step of a task respects the frame. -/
theorem Task.Move.frame (hm : Task.Move cfg c i fresh t c' t' new) {next : TaskId} (hg : Tokens.Glob c next)
    (hl : Tokens.Loc c i t) : Frame i c c' := by
  refine ⟨hm.grows, fun j hj ho => ?_, ?_⟩
  swap
  · rcases hm.tokens hl.wf with ⟨-, -, -, h⟩ | ⟨-, -, -, -, h⟩ | ⟨-, -, -, -, -, h⟩ | ⟨-, -, -, h⟩
    · exact .inl h
    · exact .inl h
    · exact .inr (.inl h)
    · exact .inr (.inr h)
  have hno : t.holdsToken = false := by
    rw [Bool.eq_false_iff]
    intro ht
    rw [hl.owner.1 ht] at ho
    exact hj (Option.some.inj ho).symm
  have hbusy : ¬ (c.state = .frozen ∨ c.state = .thawed) := fun hs => by
    rw [hg.free.2 hs.symm] at ho
    cases ho
  cases hm with
  | @driver d d' c' new h =>
    have hw : d.WF := hl.wf
    refine h.guarded_of_published hw ?_
    have := hw.token_iff
    rw [show (d.token.isSome || d.thawToken.isSome) = false from hno] at this
    simpa using this.symm
  | @thaw w pc pc' c' new h =>
    have ht : Thaw.token pc = none := by simpa [Task.holdsToken, Task.freezeToken, Task.thawToken] using hno
    exact (h.guarded ht).resolve_right hbusy
  | dogClaims hs hc => exact absurd (.inl hc) hbusy
  | startInstall => simp
  | _ => rfl

namespace Tokens

/-- A step keeps the tokens of the task that takes it. -/
theorem move (hm : Task.Move cfg c i fresh t c' t' new) {next : TaskId} (hi : i < next) (hg : Glob c next)
    (hl : Loc c i t) : Glob c' next ∧ Loc c' i t' := by
  have hw := hm.wf hl.wf
  rcases hm.tokens hl.wf with ⟨h₁, h₂, h₃, h₄⟩ | ⟨h₁, h₂, h₃, h₄, h₅⟩ | ⟨h₁, h₂, h₃, h₄, h₅, h₆⟩ | ⟨h₁, h₂, h₃, h₄⟩
  · refine ⟨⟨by rw [h₃, h₄]; exact hg.free, by rw [h₄]; exact hg.bound⟩, ⟨?_, ?_, ?_, hw⟩⟩
    · rw [h₄, ← hl.owner, Task.holdsToken, h₁, h₂, Task.holdsToken]
    · rw [h₁, h₃]; exact hl.freezing
    · rw [h₂, h₃]; exact hl.thawing
  · have ho : c.owner = some i := hl.owner.1 (by simp [Task.holdsToken, h₁])
    refine ⟨⟨by simp [h₄, h₅, ho], by rw [h₅]; exact hg.bound⟩, ⟨?_, ?_, fun _ => h₄, hw⟩⟩
    · simp [Task.holdsToken, h₃, h₅, ho]
    · simp [h₂]
  · refine ⟨⟨by simp [h₅, h₆], ?_⟩, ⟨by simp [Task.holdsToken, h₄, h₆], by simp [h₃], fun _ => h₅, hw⟩⟩
    intro j hj
    rw [h₆] at hj
    cases hj
    exact hi
  · have hno : t'.freezeToken = none ∧ t'.thawToken = none := by
      simpa [Task.holdsToken] using h₂
    exact ⟨⟨by simp [h₃, h₄], by simp [h₄]⟩, ⟨by simp [h₂, h₄], by simp [hno.1], by simp [hno.2], hw⟩⟩

/-- What the token guards stays as it is for the other tasks that hold it. -/
theorem undisturbed (hf : Frame i c c') {j : TaskId} (hj : j ≠ i) {u : Task} (hu : Loc c j u) :
    c'.toGuarded = c.toGuarded ∨ u.holdsToken = false := by
  by_cases ho : c.owner = some j
  · exact .inl (hf.guarded j hj ho)
  · exact .inr (Bool.eq_false_iff.2 fun h => ho (hu.owner.1 h))

/-- While another task holds the token, a step leaves what the token guards and records nothing of the owner's. -/
theorem bystander (hm : Task.Move cfg c i fresh t c' t' new) {n : TaskId} (hg : Glob c n) (hl : Loc c i t) {j : TaskId}
    (hj : j ≠ i) {u : Task} (hu : Loc c j u) (ht : u.holdsToken = true) :
    c'.toGuarded = c.toGuarded ∧ ∃ new, c'.log = new ++ c.log ∧ ∀ e ∈ new, e.By i ∧ e.ofOwner = false := by
  have ho := hu.owner.1 ht
  refine ⟨(hm.frame hg hl).guarded j hj ho, hm.unowned hl.wf (Bool.eq_false_iff.2 fun h => ?_)⟩
  rw [hl.owner.1 h] at ho
  exact hj (Option.some.inj ho).symm

/-- A task that holds a token keeps the state machine busy. -/
theorem Loc.busy (h : Loc c i t) (ht : t.holdsToken = true) : c.state = .freezing ∨ c.state = .thawing := by
  simp only [Task.holdsToken, Bool.or_eq_true] at ht
  exact ht.imp h.freezing h.thawing

theorem Loc.driver_busy {d : Driver} (h : Loc c i (.driver d)) (hp : d.pc.published = false) :
    c.state = .freezing ∨ c.state = .thawing := by
  have hw : d.WF := h.wf
  have ht := hw.token_iff
  rw [hp] at ht
  exact h.busy ht

theorem Loc.not_thawed {d : Driver} (h : Loc c i (.driver d)) (hp : d.pc.published = false) : c.state ≠ .thawed := by
  rcases h.driver_busy hp with hs | hs <;> rw [hs] <;> rintro ⟨⟩

/-- The tokens of the other tasks are not concerned. -/
theorem other (hf : Frame i c c') {j : TaskId} (hj : j ≠ i) {u : Task} (hu : Loc c j u) : Loc c' j u := by
  by_cases ho : c.owner = some j
  · have hg := hf.guarded j hj ho
    refine ⟨?_, fun h => ?_, fun h => ?_, hu.wf⟩
    · rw [hg]; exact hu.owner
    · rw [hg]; exact hu.freezing h
    · rw [hg]; exact hu.thawing h
  · have hno : u.holdsToken = false := Bool.eq_false_iff.2 fun h => ho (hu.owner.1 h)
    have ho' : c'.owner ≠ some j := by
      rcases hf.owner with h | h | h <;> rw [h]
      · exact ho
      · exact fun h => hj (Option.some.inj h).symm
      · rintro ⟨⟩
    have hnone : u.freezeToken = none ∧ u.thawToken = none := by simpa [Task.holdsToken] using hno
    exact ⟨by simp [hno, ho'], by simp [hnone.1], by simp [hnone.2], hu.wf⟩

/-- A task that holds no token, where nobody else holds one under its identity. -/
private theorem loc_of_none {j : TaskId} {u : Task} (hu : u.holdsToken = false) (hw : u.WF) (ho : c.owner ≠ some j) :
    Loc c j u := by
  have hnone : u.freezeToken = none ∧ u.thawToken = none := by simpa [Task.holdsToken] using hu
  exact ⟨by simp [hu, ho], by simp [hnone.1], by simp [hnone.2], hw⟩

private theorem Glob.succ {n : TaskId} (h : Glob c n) : Glob c (n + 1) :=
  ⟨h.free, fun i hi => Nat.lt_succ_of_lt (h.bound i hi)⟩

theorem Glob.unused {n : TaskId} (h : Glob c n) : c.owner ≠ some n := fun ho => Nat.lt_irrefl _ (h.bound n ho)

private theorem boot (c : Ctx) (n : TaskId) :
    Glob (Agent.bootCtx c) (n + 1) ∧ (c.marker = true → Loc (Agent.bootCtx c) n (.startup .ring)) := by
  refine ⟨⟨?_, by simp [Agent.bootCtx]⟩, fun _ => loc_of_none rfl trivial (by simp [Agent.bootCtx])⟩
  simp only [Agent.bootCtx]
  split <;> simp

/-- The tokens in every reachable state of the agent, whatever its environment does. -/
theorem reach {ok : Agent → Action → Agent → Prop} {a : Agent}
    (h : Machine.Reach (Agent.step cfg) ok Agent.Initial a) : a.Holds Glob Loc := by
  refine h.invariant (fun a h => ?_) (fun a act a' _ ih hs _ => ?_)
  · obtain ⟨c, n, rfl⟩ := h.booted
    exact Agent.boot_holds (boot c n).1 (boot c n).2
  · have hfresh := ih.glob.unused
    refine Agent.holds_step ih hs ?_ ?_ ?_ ?_ fun _ => boot _ _
    · intro i t c' t' new ht hm _
      have hf := hm.frame ih.glob (ih.loc ht)
      obtain ⟨hG, hL⟩ := move hm (ih.bound ht) ih.glob (ih.loc ht)
      exact ⟨hG, fun _ => Glob.succ, hL, fun g _ => loc_of_none rfl trivial hG.unused,
        fun j u hj _ hu => other hf hj hu⟩
    · intro restrict hst _
      have hfree : a.ctx.owner = none := ih.glob.free.2 (.inl hst)
      refine ⟨⟨by simp [Agent.freezeCtx], fun j hj => ?_⟩, ⟨?_, fun _ => rfl, by rintro ⟨⟩, Driver.start_wf _ _ _⟩, ?_⟩
      · cases hj
        exact Nat.lt_succ_self _
      · simp [Agent.freezeCtx, Task.holdsToken, Task.freezeToken, Driver.start]
      · intro j u hj hu hl
        refine loc_of_none ?_ hl.wf ?_
        · rw [Bool.eq_false_iff]
          intro ht
          rw [hl.owner.1 ht] at hfree
          cases hfree
        · intro ho
          cases ho
          exact Nat.lt_irrefl _ hj
    · exact ⟨ih.glob.succ, loc_of_none rfl trivial hfresh, loc_of_none rfl trivial hfresh⟩
    · intro c' he _
      cases he <;> exact ⟨⟨ih.glob.free, ih.glob.bound⟩, fun j u _ hl => ⟨hl.owner, hl.freezing, hl.thawing, hl.wf⟩⟩

/-- The owner of the token is one of the tasks. -/
theorem present {ok : Agent → Action → Agent → Prop} {a : Agent}
    (h : Machine.Reach (Agent.step cfg) ok Agent.Initial a) {i : TaskId} (ho : a.ctx.owner = some i) :
    (a.tasks i).isSome = true := by
  revert i
  refine h.invariant (I := fun a => ∀ {i}, a.ctx.owner = some i → (a.tasks i).isSome = true) ?_ ?_
  · intro a h i ho
    obtain ⟨c, n, rfl⟩ := h.booted
    cases ho
  · intro a act a' hr ih hs _ i ho
    have htk := reach hr
    cases Agent.step_move hs with
    | @task j ch t t' c' new ht hm =>
      rw [Pool.apply_ctx] at ho
      apply Pool.apply_present
      rcases (hm.frame htk.glob (htk.loc ht)).owner with h | h | h <;> rw [h] at ho
      · exact .inr (ih ho)
      · exact .inl (Option.some.inj ho).symm
      · cases ho
    | freeze => exact Pool.spawn_present (.inl (Option.some.inj ho).symm)
    | refused => exact ih ho
    | thaw => exact Pool.spawn_present (.inr (ih ho))
    | status => exact Pool.spawn_present (.inr (ih ho))
    | env he => cases he <;> exact ih ho
    | crash => cases ho

end Tokens

end Frame

end Qeminga
