import Qeminga.Invariant.Serving
import Qeminga.Reconnect

/-!
# The pace of the channel loop

However the port behaves, the loop does not call `open` in a tight circle: between two calls it sleeps for a second at
least, unless a stop is requested.  Nor does it sleep for more than half a minute.  With its clock the loop is still the
loop of the daemon, so that what holds of the daemon holds of it.
-/

namespace Qeminga

theorem Agent.now_le_of_step {cfg : Config} {a a' : Agent} {act : Action} (h : Agent.step cfg a act = some a') :
    a.ctx.now ≤ a'.ctx.now := by
  cases Agent.step_move h with
  | task ht hm =>
    rw [Pool.apply_ctx]
    exact Nat.le_of_eq hm.grows.now.symm
  | env he hact => cases he <;> simp
  | crash => exact Nat.le_refl _
  | _ => exact Nat.le_refl _

namespace Reconnect

variable {cfg : Config} {f : Features} {p p' q : Reconnect} {d d' : Daemon} {act : ReconnectAction} {ans : ServeAnswer}

/-! ### The steps beside the loop -/

/-- What a step of the daemon leaves to the loop. -/
structure Beside (d d' : Daemon) : Prop where
  now : d.agent.ctx.now ≤ d'.agent.ctx.now
  initial : d'.initial = d.initial
  reopened : d'.reopened = d.reopened
  cancelLive : d'.cancelLive = d.cancelLive
  pc : d'.pc = d.pc ∨ ∃ s s', d.pc = .session s ∧ d'.pc = .session s'

private theorem Beside.agent {a : Agent} (h : d.agent.ctx.now ≤ a.ctx.now) : Beside d { d with agent := a } :=
  ⟨h, rfl, rfl, rfl, .inl rfl⟩

theorem beside {act : DaemonAction} (h : Daemon.step cfg f d act = some d') (hserve : ∀ ans, act ≠ .serve ans)
    (hcrash : ∀ initial, act ≠ .crash initial) : Beside d d' := by
  cases act with
  | serve ans => exact absurd rfl (hserve ans)
  | crash initial => exact absurd rfl (hcrash initial)
  | background act =>
    simp only [Daemon.step] at h
    split at h
    · obtain ⟨a, ha, rfl⟩ := Option.map_eq_some_iff.1 h
      exact .agent (Agent.now_le_of_step ha)
    · cases h
  | handler n st =>
    simp only [Daemon.step] at h
    split at h
    · split at h
      · rcases Daemon.handle_cases h with ⟨req, limited, -, -, -, rfl⟩ | ⟨reply, rfl, -⟩ | ⟨req, act, a, h', -, -, ha, rfl, -⟩
        · exact ⟨Nat.le_refl _, rfl, rfl, rfl, .inl rfl⟩
        · exact ⟨Nat.le_refl _, rfl, rfl, rfl, .inl rfl⟩
        · exact ⟨Agent.now_le_of_step ha, rfl, rfl, rfl, .inl rfl⟩
      · cases h
    · cases h
  | session ans =>
    simp only [Daemon.step] at h
    split at h
    · next s hpc =>
      obtain ⟨s', -, rfl⟩ := Option.map_eq_some_iff.1 h
      exact ⟨Nat.le_refl _, rfl, rfl, rfl, .inr ⟨s, s', hpc, rfl⟩⟩
    · cases h
  | signal =>
    simp only [Daemon.step] at h
    split at h <;> cases h
    exact ⟨Nat.le_refl _, rfl, rfl, rfl, .inl rfl⟩
  | stopper =>
    simp only [Daemon.step, Daemon.stop] at h
    split at h
    · split at h
      · cases h
      · split at h <;> cases h
        exact ⟨Nat.le_refl _, rfl, rfl, rfl, .inl rfl⟩
      · cases h
        exact ⟨Nat.le_refl _, rfl, rfl, rfl, .inl rfl⟩
      · cases h
        exact ⟨Nat.le_refl _, rfl, rfl, rfl, .inl rfl⟩
    · cases h

/-- What a step of the daemon does beside the loop. -/
structure BesideMove (p p' : Reconnect) : Prop where
  beside : Beside p.daemon p'.daemon
  reopenDelay : p'.reopenDelay = p.reopenDelay
  wake : p'.wake = p.wake
  paused : p'.paused = p.paused
  retry : p'.retry = p.retry
  attempts : p'.attempts = p.attempts
  quiet : p'.quiet = p.quiet
  /-- A value of the stop channel is one that was sent. -/
  unseen : p'.unseen.toNat + p.sends ≤ p.unseen.toNat + p'.sends
  sends : p.sends ≤ p'.sends

theorem daemonTo_cases {act : DaemonAction} (hd : Daemon.step cfg f p.daemon act = some d)
    (h : p.daemonTo d act = some p') :
    p'.daemon = d ∧ ((∃ initial, act = .crash initial ∧ p' = start d) ∨ BesideMove p p') := by
  have hplain : ∀ {act : DaemonAction}, Daemon.step cfg f p.daemon act = some d → (∀ ans, act ≠ .serve ans) →
      (∀ initial, act ≠ .crash initial) → BesideMove p { p with daemon := d } := fun hd hserve hcrash =>
    ⟨beside hd hserve hcrash, rfl, rfl, rfl, rfl, rfl, rfl, Nat.le_refl _, Nat.le_refl _⟩
  cases act with
  | serve ans => cases h
  | crash initial =>
    obtain rfl := Option.some.inj h
    exact ⟨rfl, .inl ⟨initial, rfl, rfl⟩⟩
  | session ans =>
    simp only [daemonTo] at h
    split at h
    · split at h <;> cases h
      have hb := beside hd (by rintro _ ⟨⟩) (by rintro _ ⟨⟩)
      refine ⟨rfl, .inr ⟨hb, rfl, rfl, rfl, rfl, rfl, rfl, ?_, Nat.le_refl _⟩⟩
      exact Nat.add_le_add_right (Bool.toNat_le_toNat fun hu => (Bool.and_eq_true_iff.1 hu).1) _
    · cases h
  | stopper =>
    simp only [daemonTo] at h
    have hb := beside hd (by rintro _ ⟨⟩) (by rintro _ ⟨⟩)
    split at h <;> cases h
    · refine ⟨rfl, .inr ⟨hb, rfl, rfl, rfl, rfl, rfl, rfl, ?_, Nat.le_succ _⟩⟩
      simp only [Bool.toNat_true]
      omega
    · exact ⟨rfl, .inr (hplain hd (by rintro _ ⟨⟩) (by rintro _ ⟨⟩))⟩
  | background act =>
    obtain rfl := Option.some.inj h
    exact ⟨rfl, .inr (hplain hd (by rintro _ ⟨⟩) (by rintro _ ⟨⟩))⟩
  | handler n st =>
    obtain rfl := Option.some.inj h
    exact ⟨rfl, .inr (hplain hd (by rintro _ ⟨⟩) (by rintro _ ⟨⟩))⟩
  | signal =>
    obtain rfl := Option.some.inj h
    exact ⟨rfl, .inr (hplain hd (by rintro _ ⟨⟩) (by rintro _ ⟨⟩))⟩

/-! ### The steps of the loop -/

/-- Where a call of `open_with_retry` begins. -/
def fresh (p : Reconnect) : Retry := ⟨channelBackoff.initial, none, p.now, 0, []⟩

/-- Everything a step of the loop can do; `u` is what it leaves of an unseen stop. -/
inductive LoopMove (p : Reconnect) : Reconnect → Prop
  | pauses (hpc : p.daemon.pc = .top) (hr : p.daemon.reopened = true) :
    LoopMove p { p with
      daemon := { p.daemon with pc := .pause }
      unseen := false
      wake := p.now + p.reopenDelay
      paused := p.now }
  | opens (hpc : p.daemon.pc = .top) (hr : p.daemon.reopened = false) :
    LoopMove p { p with daemon := { p.daemon with pc := .opening }, unseen := false, retry := p.fresh }
  | rested (hpc : p.daemon.pc = .pause) (hw : p.wake ≤ p.now) :
    LoopMove p { p with daemon := { p.daemon with pc := .opening }, retry := p.fresh }
  | cut (live : Bool) (hpc : p.daemon.pc = .pause) (hlive : p.daemon.cancelLive = true) (hu : live = true → p.unseen = true) :
    LoopMove p { p with
      daemon := { p.daemon with cancelLive := live, pc := .opening }
      unseen := false
      retry := p.fresh }
  | registered (hpc : p.daemon.pc = .opening) : LoopMove p { p with daemon := p.daemon.opens }
  | unregistered (hpc : p.daemon.pc = .opening) (hi : p.daemon.initial = true) :
    LoopMove p { p with daemon := { p.daemon with initial := false, pc := .top } }
  | opened (hpc : p.daemon.pc = .opening) (hw : p.retry.wake = none) :
    LoopMove p { p.tried with daemon := p.daemon.opens }
  | lost (hpc : p.daemon.pc = .opening) (hw : p.retry.wake = none) :
    LoopMove p { p.tried with daemon := { p.daemon with pc := .returned true } }
  | refused (u : Bool) (hpc : p.daemon.pc = .opening) (hu : u = true → p.unseen = true) :
    LoopMove p { p with daemon := { p.daemon with pc := .refused }, unseen := u }
  | sleeps (hpc : p.daemon.pc = .refused) :
    LoopMove p { p with daemon := { p.daemon with pc := .sleeping }, wake := p.now + channelBackoff.initial }
  | slept (hpc : p.daemon.pc = .sleeping) (hw : p.wake ≤ p.now) : LoopMove p { p with daemon := { p.daemon with pc := .top } }
  | closed {s : Session DecodeEvent} (hpc : p.daemon.pc = .session s) :
    LoopMove p { p.closed s.received with daemon := { p.daemon with reopened := true, pc := .top } }
  | returned (u lost live : Bool) (hu : u = true → p.unseen = true) (hlive : live = true → p.daemon.cancelLive = true) :
    LoopMove p { p with daemon := { p.daemon with cancelLive := live, pc := .returned lost }, unseen := u }
  | exited (lost : Bool) : LoopMove p { p with daemon := { p.daemon with pc := .exited lost } }

@[simp] theorem enter_daemon (p : Reconnect) (d : Daemon) : (p.enter d).daemon = d := by
  unfold enter
  split <;> rfl

theorem serveTo_daemon (h : p.serveTo d ans = some p') : p'.daemon = d := by
  unfold serveTo at h
  split at h
  all_goals
    repeat' split at h
  all_goals
    cases h
    try exact enter_daemon _ _

theorem loopMove_of_serveTo (hd : p.daemon.serve ans = some d) (h : p.serveTo d ans = some p') : LoopMove p p' := by
  unfold Daemon.serve at hd
  split at hd
  case h_1 hpc =>
    simp only [serveTo, hpc] at h
    obtain rfl := Option.some.inj h
    obtain rfl := Option.some.inj hd
    unfold Daemon.stopNow
    split
    · exact .returned false false _ (by rintro ⟨⟩) id
    split
    · next hr => exact .pauses hpc hr
    · next hr => exact .opens hpc (Bool.eq_false_iff.2 hr)
  case h_2 hpc =>
    obtain rfl := Option.some.inj hd
    simp only [serveTo, hpc] at h
    split at h <;> cases h
    next hw => exact .rested hpc hw
  case h_3 live hpc =>
    split at hd <;> cases hd
    next hlive =>
    simp only [serveTo, hpc] at h
    split at h <;> cases h
    next hu =>
    have hu : live = true → p.unseen = true := by
      rintro rfl
      simpa using hu
    unfold Daemon.stopNow
    split
    · exact .returned false false live (by rintro ⟨⟩) fun _ => hlive
    · exact .cut live hpc hlive hu
  case h_4 ok hpc =>
    split at hd <;> cases hd
    next hi =>
    simp only [serveTo, hpc] at h
    obtain rfl := Option.some.inj h
    cases ok with
    | true => exact .registered hpc
    | false => exact .unregistered hpc hi
  case h_5 hpc =>
    split at hd <;> cases hd
    simp only [serveTo, hpc] at h
    split at h <;> cases h
    next hw => exact .opened hpc hw
  case h_6 hpc =>
    split at hd <;> cases hd
    simp only [serveTo, hpc] at h
    split at h <;> cases h
    next hw => exact .lost hpc hw
  case h_7 gone hpc =>
    split at hd <;> cases hd
    simp only [serveTo, hpc] at h
    split at h
    · split at h
      · obtain rfl := Option.some.inj h
        exact .refused false hpc (by rintro ⟨⟩)
      · split at h <;> cases h
        exact .refused _ hpc id
    · cases h
  case h_8 hpc =>
    obtain rfl := Option.some.inj hd
    simp only [serveTo, hpc] at h
    obtain rfl := Option.some.inj h
    split
    · exact .returned _ false _ id id
    · exact .sleeps hpc
  case h_9 hpc =>
    obtain rfl := Option.some.inj hd
    simp only [serveTo, hpc] at h
    split at h <;> cases h
    next hw => exact .slept hpc hw
  case h_10 s hpc =>
    simp only [serveTo, hpc] at h
    obtain rfl := Option.some.inj h
    split at hd <;> cases hd
    · next hend =>
      rw [if_pos hend]
      exact .returned _ false _ id id
    · next hend =>
      rw [if_neg (by rw [hend]; rintro ⟨⟩; exact absurd rfl ‹_›)]
      exact .closed hpc
  case h_11 lost hpc =>
    split at hd <;> cases hd
    simp only [serveTo, hpc] at h
    obtain rfl := Option.some.inj h
    exact .exited lost
  case h_12 => cases hd

theorem failed_eq_some (h : p.failed = some p') :
    p.daemon.pc = .opening ∧ p.daemon.initial = false ∧ p.retry.wake = none ∧
      p' = { p with
        attempts := p.attempts ++ [p.now]
        retry := { p.retry with wake := some (p.now + p.retry.delay), tries := p.retry.tries ++ [p.now] } } := by
  unfold failed at h
  split at h <;> cases h
  next hr =>
  simp only [retries, Bool.and_eq_true, decide_eq_true_eq] at hr
  obtain ⟨hr, hw⟩ := hr
  split at hr
  · next hpc => exact ⟨hpc, by simpa using hr, hw, rfl⟩
  · cases hr

theorem again_eq_some (h : p.again = some p') :
    p.daemon.pc = .opening ∧ p.daemon.initial = false ∧ ∃ wake, p.retry.wake = some wake ∧ wake ≤ p.now ∧
      p' = { p with retry := { p.retry with
        delay := min (p.retry.delay * 2) channelBackoff.max
        wake := none
        slept := p.retry.slept + 1 } } := by
  unfold again at h
  split at h
  · next wake hwake =>
    split at h <;> cases h
    next hr =>
    simp only [retries, Bool.and_eq_true, decide_eq_true_eq] at hr
    obtain ⟨⟨hr, hw⟩, -⟩ := hr
    split at hr
    · next hpc => exact ⟨hpc, by simpa using hr, wake, hwake, hw, rfl⟩
    · cases hr
  · cases h

/-! ### The delays -/

/-- A call of `open_with_retry`: its delay has doubled with each sleep, and none of the sleeps was cut. -/
structure Retrying (p : Reconnect) : Prop where
  delay : p.retry.delay = channelBackoff.after p.retry.slept
  awake : p.retry.wake = none → p.retry.since + channelBackoff.elapsed p.retry.slept ≤ p.now
  asleep : ∀ wake, p.retry.wake = some wake →
    p.retry.since + channelBackoff.elapsed (p.retry.slept + 1) ≤ wake ∧ wake ≤ p.now + channelBackoff.max

structure Inv (p : Reconnect) : Prop where
  delay : p.reopenDelay = p.quiet.elim 0 channelBackoff.after
  /-- The loop pauses from the end of the first session on. -/
  reopened : p.daemon.reopened = p.quiet.isSome
  retry : p.daemon.pc = .opening → p.Retrying
  rest : p.daemon.pc = .pause ∨ p.daemon.pc = .sleeping → p.wake ≤ p.now + channelBackoff.max

theorem channelBackoff_le : channelBackoff.initial ≤ channelBackoff.max := by decide

theorem one_le_after (k : Nat) : 1 ≤ channelBackoff.after k := Backoff.initial_le_after channelBackoff_le

theorem inv_start (h : d.reopened = false) (hpc : d.pc = .top) : Inv (start d) where
  delay := rfl
  reopened := h
  retry := fun hopening => by cases hpc.symm.trans hopening
  rest := fun hrest => by rcases hrest with hrest | hrest <;> cases hpc.symm.trans hrest

/-- A call of `open_with_retry` that begins. -/
private theorem retrying_fresh (h : p'.retry = p.fresh) (hnow : p'.now = p.now) : p'.Retrying where
  delay := by
    rw [h]
    rfl
  awake := fun _ => by
    rw [h, hnow]
    exact Nat.le_refl _
  asleep := fun wake hw => by
    rw [h] at hw
    cases hw

private theorem closed_delay (h : Inv p) (received : Nat) :
    (p.closed received).reopenDelay = (p.closed received).quiet.elim 0 channelBackoff.after ∧
      (p.closed received).quiet.isSome = true := by
  unfold closed
  split
  · exact ⟨rfl, rfl⟩
  · refine ⟨?_, rfl⟩
    rw [h.delay]
    cases p.quiet with
    | none => exact Backoff.clamp_zero channelBackoff_le
    | some k => exact Backoff.clamp_after channelBackoff_le

theorem Inv.loop (h : Inv p) (hm : LoopMove p p') : Inv p' := by
  cases hm with
  | pauses hpc hr =>
    refine ⟨h.delay, h.reopened, fun he => (by cases he), fun _ => ?_⟩
    obtain ⟨k, hk⟩ := Option.isSome_iff_exists.1 (h.reopened.symm.trans hr)
    have hdelay := h.delay
    rw [hk] at hdelay
    have hle : p.reopenDelay ≤ channelBackoff.max := hdelay ▸ Backoff.after_le_max
    exact Nat.add_le_add_left hle _
  | opens hpc hr => exact ⟨h.delay, h.reopened, fun _ => retrying_fresh rfl rfl, by rintro (he | he) <;> cases he⟩
  | rested hpc hw => exact ⟨h.delay, h.reopened, fun _ => retrying_fresh rfl rfl, by rintro (he | he) <;> cases he⟩
  | cut live hpc hlive hu =>
    exact ⟨h.delay, h.reopened, fun _ => retrying_fresh rfl rfl, by rintro (he | he) <;> cases he⟩
  | sleeps hpc =>
    exact ⟨h.delay, h.reopened, fun he => (by cases he), fun _ => Nat.add_le_add_left channelBackoff_le _⟩
  | @closed s hpc =>
    obtain ⟨hdelay, hquiet⟩ := closed_delay h s.received
    exact ⟨hdelay, hquiet.symm, fun he => (by cases he), by rintro (he | he) <;> cases he⟩
  | _ => exact ⟨h.delay, h.reopened, fun he => (by cases he), by rintro (he | he) <;> cases he⟩

theorem Inv.beside (h : Inv p) (hm : BesideMove p p') : Inv p' := by
  have hnow : p.now ≤ p'.now := hm.beside.now
  have hpc : ∀ {pc : ServePc}, (∀ s, pc ≠ .session s) → p'.daemon.pc = pc → p.daemon.pc = pc := by
    intro pc hs he
    rcases hm.beside.pc with heq | ⟨s, s', -, heq⟩
    · exact heq.symm.trans he
    · exact absurd (he.symm.trans heq) (hs s')
  refine ⟨?_, ?_, fun he => ?_, fun he => ?_⟩
  · rw [hm.reopenDelay, hm.quiet]
    exact h.delay
  · rw [hm.beside.reopened, hm.quiet]
    exact h.reopened
  · have hr := h.retry (hpc (by rintro _ ⟨⟩) he)
    refine ⟨hm.retry ▸ hr.delay, fun hw => ?_, fun wake hw => ?_⟩
    · rw [hm.retry] at hw ⊢
      exact (hr.awake hw).trans hnow
    · rw [hm.retry] at hw ⊢
      obtain ⟨hlo, hhi⟩ := hr.asleep wake hw
      exact ⟨hlo, hhi.trans (Nat.add_le_add_right hnow _)⟩
  · rw [hm.wake]
    have hrest := h.rest (he.imp (hpc (by rintro _ ⟨⟩)) (hpc (by rintro _ ⟨⟩)))
    exact hrest.trans (Nat.add_le_add_right hnow _)

theorem Inv.step (h : Inv p) (hs : step cfg f p act = some p') : Inv p' := by
  cases act with
  | daemon act =>
    obtain ⟨d, hd, hto⟩ := Option.bind_eq_some_iff.1 hs
    obtain ⟨-, ⟨initial, rfl, rfl⟩ | hm⟩ := daemonTo_cases hd hto
    · obtain rfl := Option.some.inj hd
      exact inv_start rfl rfl
    · exact h.beside hm
  | serve ans =>
    obtain ⟨d, hd, hto⟩ := Option.bind_eq_some_iff.1 hs
    exact h.loop (loopMove_of_serveTo hd hto)
  | failed =>
    obtain ⟨hpc, -, hw, rfl⟩ := failed_eq_some hs
    have hr := h.retry hpc
    refine ⟨h.delay, h.reopened, fun _ => ⟨hr.delay, fun hn => (by cases hn), ?_⟩, h.rest⟩
    rintro _ ⟨⟩
    have hawake := hr.awake hw
    have hmax : channelBackoff.after p.retry.slept ≤ channelBackoff.max := Backoff.after_le_max
    have hdelay := hr.delay
    simp only [Backoff.elapsed]
    exact ⟨by omega, Nat.add_le_add_left (by omega) _⟩
  | again =>
    obtain ⟨hpc, -, wake, hwake, hle, rfl⟩ := again_eq_some hs
    have hr := h.retry hpc
    refine ⟨h.delay, h.reopened, fun _ => ⟨?_, fun _ => ((hr.asleep wake hwake).1.trans hle), fun _ hn => (by cases hn)⟩, h.rest⟩
    show min (p.retry.delay * 2) channelBackoff.max = _
    rw [hr.delay]
    exact Backoff.after_succ

/-- The times of the calls of `open`, and of the pause. -/
structure Spacing (p : Reconnect) : Prop where
  spaced : channelBackoff.Spaced p.retry.tries
  recent : p.retry.tries <:+ p.attempts
  count : p.daemon.pc = .opening → p.retry.tries.length = p.retry.slept + p.retry.wake.isSome.toNat
  /-- The last call and the sleep after it. -/
  last : p.daemon.pc = .opening → ∀ i t, p.retry.tries.length = i + 1 → p.retry.tries[i]? = some t →
    (p.retry.wake = none → t + channelBackoff.after i ≤ p.now) ∧
      ∀ wake, p.retry.wake = some wake → wake = t + channelBackoff.after i
  paused : p.daemon.pc = .pause → p.wake = p.paused + p.reopenDelay ∧ p.paused ≤ p.now

theorem spacing_start (hpc : d.pc = .top) : Spacing (start d) where
  spaced := Backoff.spaced_nil
  recent := List.suffix_refl _
  count := fun he => by cases hpc.symm.trans he
  last := fun he => by cases hpc.symm.trans he
  paused := fun he => by cases hpc.symm.trans he

/-- A step that begins no call and no pause, after which none is under way. -/
private theorem Spacing.leave (h : Spacing p) (hretry : p'.retry = p.retry) (hatt : p'.attempts = p.attempts)
    (hopening : p'.daemon.pc ≠ .opening) (hpause : p'.daemon.pc ≠ .pause) : Spacing p' where
  spaced := hretry ▸ h.spaced
  recent := hretry ▸ hatt ▸ h.recent
  count := fun he => absurd he hopening
  last := fun he => absurd he hopening
  paused := fun he => absurd he hpause

/-- A call of `open_with_retry` that begins. -/
private theorem Spacing.fresh (hretry : p'.retry = p.fresh) (hpc : p'.daemon.pc = .opening) : Spacing p' where
  spaced := by
    rw [hretry]
    exact Backoff.spaced_nil
  recent := by
    rw [hretry]
    exact List.nil_suffix
  count := fun _ => by
    rw [hretry]
    rfl
  last := fun _ i t hlen => by
    rw [hretry] at hlen
    cases hlen
  paused := fun he => by cases hpc.symm.trans he

/-- A call of `open`. -/
private theorem Spacing.tried (h : Spacing p) (hpc : p.daemon.pc = .opening) (hw : p.retry.wake = none) :
    channelBackoff.Spaced (p.retry.tries ++ [p.now]) ∧ p.retry.tries ++ [p.now] <:+ p.attempts ++ [p.now] := by
  refine ⟨h.spaced.concat fun i t hlen ht => (h.last hpc i t hlen ht).1 hw, ?_⟩
  obtain ⟨earlier, hearlier⟩ := h.recent
  exact ⟨earlier, by rw [← hearlier, List.append_assoc]⟩

theorem Spacing.loop (h : Spacing p) (hm : LoopMove p p') : Spacing p' := by
  cases hm with
  | pauses hpc hr =>
    exact ⟨h.spaced, h.recent, fun he => (by cases he), fun he => (by cases he), fun _ => ⟨rfl, Nat.le_refl _⟩⟩
  | opens hpc hr => exact .fresh rfl rfl
  | rested hpc hw => exact .fresh rfl rfl
  | cut live hpc hlive hu => exact .fresh rfl rfl
  | opened hpc hw =>
    obtain ⟨hspaced, hrecent⟩ := h.tried hpc hw
    exact ⟨hspaced, hrecent, fun he => (by cases he), fun he => (by cases he), fun he => (by cases he)⟩
  | lost hpc hw =>
    obtain ⟨hspaced, hrecent⟩ := h.tried hpc hw
    exact ⟨hspaced, hrecent, fun he => (by cases he), fun he => (by cases he), fun he => (by cases he)⟩
  | @closed s hpc =>
    have hc : (p.closed s.received).retry = p.retry ∧ (p.closed s.received).attempts = p.attempts := by
      unfold Reconnect.closed
      split <;> exact ⟨rfl, rfl⟩
    exact h.leave hc.1 hc.2 (by rintro ⟨⟩) (by rintro ⟨⟩)
  | _ => exact h.leave rfl rfl (by rintro ⟨⟩) (by rintro ⟨⟩)

theorem Spacing.beside (h : Spacing p) (hm : BesideMove p p') : Spacing p' := by
  have hnow : p.now ≤ p'.now := hm.beside.now
  have hpc : ∀ {pc : ServePc}, (∀ s, pc ≠ .session s) → p'.daemon.pc = pc → p.daemon.pc = pc := by
    intro pc hs he
    rcases hm.beside.pc with heq | ⟨s, s', -, heq⟩
    · exact heq.symm.trans he
    · exact absurd (he.symm.trans heq) (hs s')
  exact {
    spaced := hm.retry ▸ h.spaced
    recent := hm.retry ▸ hm.attempts ▸ h.recent
    count := fun he => hm.retry ▸ h.count (hpc (by rintro _ ⟨⟩) he)
    last := fun he i t hlen ht => by
      rw [hm.retry] at hlen ht ⊢
      obtain ⟨hawake, hasleep⟩ := h.last (hpc (by rintro _ ⟨⟩) he) i t hlen ht
      exact ⟨fun hw => (hawake hw).trans hnow, hasleep⟩
    paused := fun he => by
      rw [hm.wake, hm.paused, hm.reopenDelay]
      obtain ⟨hwake, hle⟩ := h.paused (hpc (by rintro _ ⟨⟩) he)
      exact ⟨hwake, hle.trans hnow⟩ }

theorem Spacing.step (h : Spacing p) (hi : Inv p) (hs : Reconnect.step cfg f p act = some p') : Spacing p' := by
  cases act with
  | daemon act =>
    obtain ⟨d, hd, hto⟩ := Option.bind_eq_some_iff.1 hs
    obtain ⟨-, ⟨initial, rfl, rfl⟩ | hm⟩ := daemonTo_cases hd hto
    · obtain rfl := Option.some.inj hd
      exact spacing_start rfl
    · exact h.beside hm
  | serve ans =>
    obtain ⟨d, hd, hto⟩ := Option.bind_eq_some_iff.1 hs
    exact h.loop (loopMove_of_serveTo hd hto)
  | failed =>
    obtain ⟨hpc, -, hw, rfl⟩ := failed_eq_some hs
    obtain ⟨hspaced, hrecent⟩ := h.tried hpc hw
    have hcount : p.retry.tries.length = p.retry.slept := by simpa [hw] using h.count hpc
    refine ⟨hspaced, hrecent, fun _ => ?_, fun _ i t hlen ht => ⟨fun hn => (by cases hn), ?_⟩, fun he => ?_⟩
    · show (p.retry.tries ++ [p.now]).length = p.retry.slept + 1
      rw [List.length_append, hcount]
      rfl
    · -- The call is the last one, and the delay has doubled with each sleep.
      rintro wake hwake
      obtain rfl := Option.some.inj hwake
      replace hlen : (p.retry.tries ++ [p.now]).length = i + 1 := hlen
      replace ht : (p.retry.tries ++ [p.now])[i]? = some t := ht
      rw [List.length_append, List.length_singleton, Nat.add_right_cancel_iff] at hlen
      rw [← hlen, List.getElem?_concat_length] at ht
      obtain rfl := Option.some.inj ht
      rw [← hlen, hcount, ← (hi.retry hpc).delay]
    · exact absurd (hpc.symm.trans he) (by rintro ⟨⟩)
  | again =>
    obtain ⟨hpc, -, wake, hwake, hle, rfl⟩ := again_eq_some hs
    have hcount : p.retry.tries.length = p.retry.slept + 1 := by simpa [hwake] using h.count hpc
    refine ⟨h.spaced, h.recent, fun _ => hcount, fun _ i t hlen ht => ⟨fun _ => ?_, fun _ hn => (by cases hn)⟩, fun he => ?_⟩
    · rw [← (h.last hpc i t hlen ht).2 wake hwake]
      exact hle
    · exact absurd (hpc.symm.trans he) (by rintro ⟨⟩)

/-- A pause is left when it is over, or when the stop channel says something new. -/
theorem pause_left (h : Spacing p) (hpc : p.daemon.pc = .pause) (hs : Reconnect.step cfg f p act = some p')
    (hopening : p'.daemon.pc = .opening) : p.paused + p.reopenDelay ≤ p.now ∨ p.unseen = true ∨
      (p.daemon.cancelLive = true ∧ p'.daemon.cancelLive = false) := by
  rw [← (h.paused hpc).1]
  cases act with
  | daemon act =>
    obtain ⟨d, hd, hto⟩ := Option.bind_eq_some_iff.1 hs
    obtain ⟨-, ⟨initial, rfl, rfl⟩ | hm⟩ := daemonTo_cases hd hto
    · obtain rfl := Option.some.inj hd
      cases hopening
    · rcases hm.beside.pc with heq | ⟨s, s', hsession, -⟩
      · cases hopening.symm.trans (heq.trans hpc)
      · cases hsession.symm.trans hpc
  | serve ans =>
    obtain ⟨d, hd, hto⟩ := Option.bind_eq_some_iff.1 hs
    cases loopMove_of_serveTo hd hto with
    | rested _ hw => exact .inl hw
    | cut live _ hlive hu =>
      cases live with
      | true => exact .inr (.inl (hu rfl))
      | false => exact .inr (.inr ⟨hlive, rfl⟩)
    | opens hpc' => cases hpc'.symm.trans hpc
    | _ => cases hopening
  | failed =>
    obtain ⟨hpc', -⟩ := failed_eq_some hs
    cases hpc'.symm.trans hpc
  | again =>
    obtain ⟨hpc', -⟩ := again_eq_some hs
    cases hpc'.symm.trans hpc

/-! ### The rate -/

/-- The loop may come to a call of `open` before any time has passed. -/
def ready (p : Reconnect) : Bool :=
  match p.daemon.pc with
  | .top => !p.daemon.reopened
  | .pause => decide (p.wake ≤ p.now)
  | .opening => p.daemon.initial || p.retry.wake.all fun wake => decide (wake ≤ p.now)
  | .sleeping => decide (p.wake ≤ p.now)
  | _ => false

/-- The calls of `open`, with those that may come before any time has passed. -/
def charge (p : Reconnect) : Nat :=
  p.attempts.length + p.ready.toNat + p.unseen.toNat + p.daemon.cancelLive.toNat

theorem attempts_le_charge : p.attempts.length ≤ p.charge := by
  unfold charge
  omega

theorem charge_le : p.charge ≤ p.attempts.length + 3 := by
  have hready := Bool.toNat_le p.ready
  have hunseen := Bool.toNat_le p.unseen
  have hlive := Bool.toNat_le p.daemon.cancelLive
  unfold charge
  omega

/-- A step that calls nothing. -/
private theorem charge_le_of_quiet (hatt : p'.attempts = p.attempts) (hr : p'.ready = true → p.ready = true)
    (hu : p'.unseen = true → p.unseen = true) (hl : p'.daemon.cancelLive = true → p.daemon.cancelLive = true) :
    p'.charge ≤ p.charge := by
  have hready : p'.ready.toNat ≤ p.ready.toNat := Bool.toNat_le_toNat hr
  have hunseen : p'.unseen.toNat ≤ p.unseen.toNat := Bool.toNat_le_toNat hu
  have hlive : p'.daemon.cancelLive.toNat ≤ p.daemon.cancelLive.toNat := Bool.toNat_le_toNat hl
  unfold charge
  rw [hatt]
  omega

/-- A call of `open`, after which time has to pass. -/
private theorem charge_le_of_call {t : Nat} (hatt : p'.attempts = p.attempts ++ [t]) (hr : p.ready = true)
    (hr' : p'.ready = false) (hu : p'.unseen = p.unseen) (hl : p'.daemon.cancelLive = p.daemon.cancelLive) :
    p'.charge ≤ p.charge := by
  unfold charge
  rw [hatt, hr, hr', hu, hl, List.length_append, List.length_singleton, Bool.toNat_true, Bool.toNat_false]

private theorem ready_of_awake (hpc : p.daemon.pc = .opening) (hw : p.retry.wake = none) : p.ready = true := by
  simp [ready, hpc, hw]

/-- What a pause that is cut costs is the stop that cut it. -/
private theorem LoopMove.charge_cut {live : Bool} (hlive : p.daemon.cancelLive = true) (hu : live = true → p.unseen = true) :
    charge { p with
      daemon := { p.daemon with cancelLive := live, pc := .opening }
      unseen := false
      retry := p.fresh } ≤ p.charge := by
  have hready := Bool.toNat_le (ready { p with
    daemon := { p.daemon with cancelLive := live, pc := .opening }
    unseen := false
    retry := p.fresh })
  simp only [charge, hlive, Bool.toNat_true, Bool.toNat_false] at hready ⊢
  cases live with
  | true =>
    rw [hu rfl, Bool.toNat_true]
    omega
  | false =>
    rw [Bool.toNat_false]
    omega

theorem LoopMove.charge (h : LoopMove p p') (hi : Inv p) : p'.charge ≤ p.charge := by
  cases h with
  | pauses hpc hr =>
    obtain ⟨k, hk⟩ := Option.isSome_iff_exists.1 (hi.reopened.symm.trans hr)
    have hdelay : p.reopenDelay = channelBackoff.after k := by
      rw [hi.delay, hk]
      rfl
    have hone : 1 ≤ p.reopenDelay := hdelay ▸ one_le_after k
    refine charge_le_of_quiet rfl (fun he => ?_) (by rintro ⟨⟩) id
    have hle : p.now + p.reopenDelay ≤ p.now := of_decide_eq_true he
    omega
  | opens hpc hr => exact charge_le_of_quiet rfl (fun _ => by simp [ready, hpc, hr]) (by rintro ⟨⟩) id
  | rested hpc hw => exact charge_le_of_quiet rfl (fun _ => by simp [ready, hpc, hw]) id id
  | cut live hpc hlive hu => exact charge_cut hlive hu
  | registered hpc => exact charge_le_of_quiet rfl (by rintro ⟨⟩) id id
  | unregistered hpc hi => exact charge_le_of_quiet rfl (fun _ => by simp [ready, hpc, hi]) id id
  | opened hpc hw => exact charge_le_of_call rfl (ready_of_awake hpc hw) rfl rfl rfl
  | lost hpc hw => exact charge_le_of_call rfl (ready_of_awake hpc hw) rfl rfl rfl
  | refused u hpc hu => exact charge_le_of_quiet rfl (by rintro ⟨⟩) hu id
  | sleeps hpc =>
    refine charge_le_of_quiet rfl (fun he => ?_) id id
    have hle : p.now + channelBackoff.initial ≤ p.now := of_decide_eq_true he
    exact absurd hle (by simp [channelBackoff])
  | slept hpc hw => exact charge_le_of_quiet rfl (fun _ => by simp [ready, hpc, hw]) id id
  | @closed s hpc =>
    have hc : (p.closed s.received).attempts = p.attempts ∧ (p.closed s.received).unseen = p.unseen := by
      unfold Reconnect.closed
      split <;> exact ⟨rfl, rfl⟩
    exact charge_le_of_quiet hc.1 (by rintro ⟨⟩) (fun he => hc.2 ▸ he) id
  | returned u lost live hu hlive => exact charge_le_of_quiet rfl (by rintro ⟨⟩) hu hlive
  | exited lost => exact charge_le_of_quiet rfl (by rintro ⟨⟩) id id

private theorem decide_le_toNat {w n n' : Nat} (hn : n ≤ n') :
    (decide (w ≤ n')).toNat + n ≤ (decide (w ≤ n)).toNat + n' := by
  by_cases h : w ≤ n
  · simp only [h, h.trans hn, decide_true, Bool.toNat_true]
    omega
  · have hle := Bool.toNat_le (decide (w ≤ n'))
    rw [decide_eq_false h, Bool.toNat_false]
    by_cases h' : n = n'
    · subst h'
      simp [h]
    · omega

/-- A second makes the loop ready at most. -/
private theorem BesideMove.ready (hm : BesideMove p p') : p'.ready.toNat + p.now ≤ p.ready.toNat + p'.now := by
  have hnow : p.now ≤ p'.now := hm.beside.now
  have hcases : ∀ b : Bool, b.toNat + p.now ≤ b.toNat + p'.now := fun b => Nat.add_le_add_left hnow _
  rcases hm.beside.pc with hpc | ⟨s, s', hs, hs'⟩
  · unfold Reconnect.ready
    rw [hpc, hm.beside.reopened, hm.beside.initial, hm.wake, hm.retry]
    cases hd : p.daemon.pc with
    | opening =>
      cases hw : p.retry.wake with
      | none => simpa using hnow
      | some wake =>
        cases hi : p.daemon.initial with
        | true => simpa using hnow
        | false => simpa using decide_le_toNat hnow
    | pause => exact decide_le_toNat hnow
    | sleeping => exact decide_le_toNat hnow
    | _ => exact hcases _
  · have hready : p'.ready = false := by simp [Reconnect.ready, hs']
    rw [hready, Bool.toNat_false]
    omega

theorem LoopMove.now (h : LoopMove p p') : p'.now = p.now := by
  cases h <;> rfl

theorem LoopMove.sends (h : LoopMove p p') : p'.sends = p.sends := by
  cases h with
  | closed hpc =>
    unfold Reconnect.closed
    split <;> rfl
  | _ => rfl

/-- Time goes on. -/
theorem now_le_of_step (hs : Reconnect.step cfg f p act = some p') (hcrash : ∀ initial, act ≠ .daemon (.crash initial)) :
    p.now ≤ p'.now ∧ p.sends ≤ p'.sends := by
  cases act with
  | daemon act =>
    obtain ⟨d, hd, hto⟩ := Option.bind_eq_some_iff.1 hs
    obtain ⟨-, ⟨initial, rfl, -⟩ | hm⟩ := daemonTo_cases hd hto
    · exact absurd rfl (hcrash initial)
    · exact ⟨hm.beside.now, hm.sends⟩
  | serve ans =>
    obtain ⟨d, hd, hto⟩ := Option.bind_eq_some_iff.1 hs
    have hm := loopMove_of_serveTo hd hto
    exact ⟨Nat.le_of_eq hm.now.symm, Nat.le_of_eq hm.sends.symm⟩
  | failed =>
    obtain ⟨-, -, -, rfl⟩ := failed_eq_some hs
    exact ⟨Nat.le_refl _, Nat.le_refl _⟩
  | again =>
    obtain ⟨-, -, -, -, -, rfl⟩ := again_eq_some hs
    exact ⟨Nat.le_refl _, Nat.le_refl _⟩

/-- No step makes more calls than the time and the stop requests that it brings allow. -/
theorem Inv.charge (h : Inv p) (hs : Reconnect.step cfg f p act = some p') (hcrash : ∀ initial, act ≠ .daemon (.crash initial)) :
    p'.charge + (p.now + p.sends) ≤ p.charge + (p'.now + p'.sends) := by
  cases act with
  | daemon act =>
    obtain ⟨d, hd, hto⟩ := Option.bind_eq_some_iff.1 hs
    obtain ⟨-, ⟨initial, rfl, -⟩ | hm⟩ := daemonTo_cases hd hto
    · exact absurd rfl (hcrash initial)
    · have hready := hm.ready
      have hunseen := hm.unseen
      unfold Reconnect.charge
      rw [hm.attempts, hm.beside.cancelLive]
      omega
  | serve ans =>
    obtain ⟨d, hd, hto⟩ := Option.bind_eq_some_iff.1 hs
    have hm := loopMove_of_serveTo hd hto
    have hcharge := hm.charge h
    rw [hm.now, hm.sends]
    omega
  | failed =>
    obtain ⟨hpc, hi, hw, rfl⟩ := failed_eq_some hs
    have hone : 1 ≤ p.retry.delay := (h.retry hpc).delay ▸ one_le_after _
    refine Nat.add_le_add_right ?_ (p.now + p.sends)
    refine charge_le_of_call rfl (ready_of_awake hpc hw) ?_ rfl rfl
    simp only [Reconnect.ready, hpc, hi, Bool.false_or, Option.all_some, decide_eq_false_iff_not]
    show ¬ p.now + p.retry.delay ≤ p.now
    omega
  | again =>
    obtain ⟨hpc, hi, wake, hwake, hle, rfl⟩ := again_eq_some hs
    refine Nat.add_le_add_right ?_ (p.now + p.sends)
    exact charge_le_of_quiet rfl (fun _ => by simp [Reconnect.ready, hpc, hwake, hle]) id id

/-! ### The contract -/

/-- Any step, in any order. -/
def Anyhow : Reconnect → ReconnectAction → Reconnect → Prop := fun _ _ _ => True

/-- The process lives on. -/
def Alive : Reconnect → ReconnectAction → Reconnect → Prop := fun _ act _ => ∀ initial, act ≠ .daemon (.crash initial)

/-- The loop sleeps. -/
def asleep (p : Reconnect) : Bool :=
  match p.daemon.pc with
  | .pause => true
  | .sleeping => true
  | .opening => !p.daemon.initial && p.retry.wake.isSome
  | _ => false

/-- The pace of the loop in a reachable state. -/
structure Pacing (cfg : Config) (f : Features) (p : Reconnect) : Prop where
  /-- With its clock the loop is a run of the loop of the daemon. -/
  daemon : Machine.Reach (Daemon.step cfg f) (fun _ _ _ => True) Daemon.Initial p.daemon
  /-- The pause is a second after the first session and after one that carried data, and doubles up to half a minute with
  each session in a row after that one that receives nothing. -/
  pause : p.daemon.reopened = true → ∃ k, p.quiet = some k ∧ p.reopenDelay = min (1 * 2 ^ k) 30
  /-- The loop opens the channel only when the pause is over, unless a stop is requested or the stop channel closed. -/
  rest : p.daemon.pc = .pause → p.paused ≤ p.now ∧ ∀ act q, step cfg f p act = some q → q.daemon.pc = .opening →
    p.paused + p.reopenDelay ≤ p.now ∨ p.unseen = true ∨ (p.daemon.cancelLive = true ∧ q.daemon.cancelLive = false)
  /-- So does the delay of `open_with_retry` with each attempt. -/
  retry : p.daemon.pc = .opening → p.retry.delay = min (1 * 2 ^ p.retry.slept) 30 ∧
    p.retry.tries.length = p.retry.slept + p.retry.wake.isSome.toNat ∧
    (p.retry.wake = none → p.retry.since + channelBackoff.elapsed p.retry.slept ≤ p.now)
  /-- Its attempts are the last calls of `open`, and each is its delay after the one before. -/
  spaced : p.retry.tries <:+ p.attempts ∧ ∀ i t t', p.retry.tries[i]? = some t → p.retry.tries[i + 1]? = some t' →
    t + min (1 * 2 ^ i) 30 ≤ t'
  /-- No sleep outlasts half a minute: the loop can go on then. -/
  wakes : p.asleep = true → ∃ q act q', step cfg f p (.daemon (.background (.tick 30))) = some q ∧
    (∀ act', act ≠ .daemon act') ∧ step cfg f q act = some q'
  /-- In any stretch of time there is at most one call of `open` for each second and each stop request in it, and three. -/
  rate : ∀ q, Machine.Steps (step cfg f) Alive p q → p.now ≤ q.now ∧
    q.attempts.length ≤ p.attempts.length + (q.now - p.now) + (q.sends - p.sends) + 3

theorem inv_of_reach (h : Machine.Reach (step cfg f) Anyhow Initial p) : Inv p ∧ Spacing p := by
  refine h.invariant (I := fun p => Inv p ∧ Spacing p) (fun p h => ?_) fun _ _ _ _ hi hs _ =>
    ⟨hi.1.step hs, hi.2.step hi.1 hs⟩
  obtain ⟨d, ⟨a, initial, -, rfl⟩, rfl⟩ := h
  exact ⟨inv_start rfl rfl, spacing_start rfl⟩

theorem daemon_reach (h : Machine.Reach (step cfg f) Anyhow Initial p) :
    Machine.Reach (Daemon.step cfg f) (fun _ _ _ => True) Daemon.Initial p.daemon := by
  refine h.invariant (I := fun p => Machine.Reach (Daemon.step cfg f) (fun _ _ _ => True) Daemon.Initial p.daemon)
    (fun p h => ?_) fun p act p' _ hr hs _ => ?_
  · obtain ⟨d, hd, rfl⟩ := h
    exact .init hd
  · cases act with
    | daemon act =>
      obtain ⟨d, hd, hto⟩ := Option.bind_eq_some_iff.1 hs
      rw [(daemonTo_cases hd hto).1]
      exact hr.tail hd trivial
    | serve ans =>
      obtain ⟨d, hd, hto⟩ := Option.bind_eq_some_iff.1 hs
      rw [serveTo_daemon hto]
      exact hr.tail (a := .serve ans) hd trivial
    | failed =>
      obtain ⟨-, -, -, rfl⟩ := failed_eq_some hs
      exact hr
    | again =>
      obtain ⟨-, -, -, -, -, rfl⟩ := again_eq_some hs
      exact hr

/-- The loop goes on once its sleep has ended. -/
private theorem goes_on (h : p.asleep = true) (hready : p.ready = true) :
    ∃ act q', (∀ act', act ≠ .daemon act') ∧ step cfg f p act = some q' := by
  unfold asleep at h
  unfold ready at hready
  split at h
  · next hpc =>
    simp only [hpc, decide_eq_true_eq] at hready
    exact ⟨.serve .slept, _, by rintro _ ⟨⟩, by simp only [step, serve, Daemon.serve, serveTo, hpc, if_pos hready]; rfl⟩
  · next hpc =>
    simp only [hpc, decide_eq_true_eq] at hready
    exact ⟨.serve .slept, _, by rintro _ ⟨⟩, by simp only [step, serve, Daemon.serve, serveTo, hpc, if_pos hready]; rfl⟩
  · next hpc =>
    simp only [Bool.and_eq_true, Bool.not_eq_true'] at h
    obtain ⟨hi, hw⟩ := h
    obtain ⟨wake, hwake⟩ := Option.isSome_iff_exists.1 hw
    simp only [hpc, hi, hwake, Bool.false_or, Option.all_some, decide_eq_true_eq] at hready
    cases hc : p.daemon.cancel with
    | true =>
      -- the value of the stop channel is looked at after the sleep
      have hserve : p.daemon.serve (.cancelled false) = some { p.daemon with pc := .refused } := by
        simp [Daemon.serve, hpc, hi, hc]
      have hsome : (p.serve (.cancelled false)).isSome = true := by
        simp only [serve, hserve, Option.bind_some, serveTo, hpc, hwake]
        cases p.unseen with
        | true => rfl
        | false => simp [hready]
      obtain ⟨p', hp'⟩ := Option.isSome_iff_exists.1 hsome
      exact ⟨.serve (.cancelled false), p', by rintro _ ⟨⟩, hp'⟩
    | false =>
      have hsome : p.again.isSome = true := by simp [again, hwake, retries, hpc, hi, hc, hready]
      obtain ⟨p', hp'⟩ := Option.isSome_iff_exists.1 hsome
      exact ⟨.again, p', by rintro _ ⟨⟩, hp'⟩
  · cases h

/-- The state half a minute later. -/
private theorem tick_asleep (hi : Inv p) (h : p.asleep = true) :
    ∃ q, step cfg f p (.daemon (.background (.tick 30))) = some q ∧ q.asleep = true ∧ q.ready = true := by
  refine ⟨_, rfl, h, ?_⟩
  unfold asleep at h
  unfold ready
  split at h
  · next hpc =>
    have hle := hi.rest (.inl hpc)
    simp only [hpc, decide_eq_true_eq]
    exact hle
  · next hpc =>
    have hle := hi.rest (.inr hpc)
    simp only [hpc, decide_eq_true_eq]
    exact hle
  · next hpc =>
    simp only [Bool.and_eq_true, Bool.not_eq_true'] at h
    obtain ⟨wake, hwake⟩ := Option.isSome_iff_exists.1 h.2
    have hle := ((hi.retry hpc).asleep wake hwake).2
    simp only [hpc, h.1, hwake, Bool.false_or, Option.all_some, decide_eq_true_eq]
    exact hle
  · cases h

/-- The calls of a stretch of a run. -/
private theorem charge_of_steps (hi : Inv p) (hs : Machine.Steps (step cfg f) Alive p q) :
    Inv q ∧ q.charge + (p.now + p.sends) ≤ p.charge + (q.now + q.sends) ∧ p.now ≤ q.now ∧ p.sends ≤ q.sends := by
  induction hs with
  | refl => exact ⟨hi, Nat.le_refl _, Nat.le_refl _, Nat.le_refl _⟩
  | tail hrun hstep halive ih =>
    obtain ⟨hi, hcharge, hnow, hsends⟩ := ih
    have hmore := hi.charge hstep halive
    obtain ⟨hnow', hsends'⟩ := now_le_of_step hstep halive
    exact ⟨hi.step hstep, by omega, hnow.trans hnow', hsends.trans hsends'⟩

theorem reopen_pacing (cfg : Config) (f : Features) {p : Reconnect}
    (h : Machine.Reach (step cfg f) Anyhow Initial p) : Pacing cfg f p where
  daemon := daemon_reach h
  pause := fun hr => by
    have hi := (inv_of_reach h).1
    obtain ⟨k, hk⟩ := Option.isSome_iff_exists.1 (hi.reopened.symm.trans hr)
    refine ⟨k, hk, ?_⟩
    rw [hi.delay, hk]
    rfl
  rest := fun hpc => ⟨((inv_of_reach h).2.paused hpc).2, fun _ _ hs hopening => pause_left (inv_of_reach h).2 hpc hs hopening⟩
  retry := fun hpc => by
    have hr := (inv_of_reach h).1.retry hpc
    exact ⟨hr.delay, (inv_of_reach h).2.count hpc, hr.awake⟩
  spaced := ⟨(inv_of_reach h).2.recent, (inv_of_reach h).2.spaced⟩
  wakes := fun hasleep => by
    obtain ⟨q, hq, hasleep, hready⟩ : ∃ q, step cfg f p (.daemon (.background (.tick 30))) = some q ∧
        q.asleep = true ∧ q.ready = true := tick_asleep (inv_of_reach h).1 hasleep
    obtain ⟨act, q', hact, hq'⟩ := goes_on hasleep hready
    exact ⟨q, act, q', hq, hact, hq'⟩
  rate := fun q hs => by
    obtain ⟨-, hcharge, hnow, hsends⟩ := charge_of_steps (inv_of_reach h).1 hs
    have hle := attempts_le_charge (p := q)
    have hge := charge_le (p := p)
    exact ⟨hnow, by omega⟩

/-- The port hangs up at once, and then cannot be opened twice. -/
private def hangsUp : List ReconnectAction :=
  [.serve .check, .serve (.registered true), .daemon (.session .top), .daemon (.session (.stop ⟨[], none⟩)),
    .daemon (.session .admission), .daemon (.session (.select none ⟨[], none⟩ (some .eof))), .daemon (.session .top),
    .daemon (.session (.stop ⟨[], none⟩)), .daemon (.session .admission), .serve .closed, .serve .check,
    .daemon (.background (.tick 1)), .serve .slept, .failed, .daemon (.background (.tick 1)), .again, .failed]

private def waits (p : Reconnect) : Bool :=
  p.asleep && decide (p.attempts = [1, 2] ∧ p.retry = ⟨2, some 4, 1, 1, [1, 2]⟩ ∧ p.daemon.reopened = true)

/-- After the second failure the loop sleeps for two seconds. -/
theorem reopen_pacing_hangs_up :
    ∃ p, Machine.Reach (step ⟨10, 10, 100⟩ ⟨true, true, true, true⟩) Anyhow Initial p ∧ p.attempts = [1, 2] ∧
      p.retry.wake = some 4 ∧ Pacing ⟨10, 10, 100⟩ ⟨true, true, true, true⟩ p := by
  have hinitial : Initial (start (.start (.cold false) true)) := ⟨_, ⟨_, _, Agent.cold_initial false, rfl⟩, rfl⟩
  obtain ⟨p, hp, hw⟩ := @Machine.Reach.of_execute _ _ (step ⟨10, 10, 100⟩ ⟨true, true, true, true⟩) Anyhow
    (fun _ _ _ => true) (fun _ _ _ _ => trivial) hangsUp waits _ _ hinitial (by decide) (by decide)
  simp only [waits, Bool.and_eq_true, decide_eq_true_eq] at hw
  obtain ⟨-, hatt, hretry, -⟩ := hw
  exact ⟨p, hp, hatt, by rw [hretry], reopen_pacing ⟨10, 10, 100⟩ ⟨true, true, true, true⟩ hp⟩

end Reconnect

end Qeminga
