import Qeminga.Daemon
import Qeminga.Invariant.Registry
import Qeminga.Contract.SessionEnding

/-!
# What the daemon is serving

The session under way is one that `run_session_until` reaches, and the agent is in a state that it reaches, so that
what is known of either holds.  Between them: a handler that has passed its gates belongs to a running command of the
session, and a thaw of the host that may still claim the token belongs to such a handler.
-/

namespace Qeminga

/-! ### Running commands of a session -/

namespace Session

variable {ε : Type} {classify : ε → Kind} {s s' : Session ε} {n : Nat} {kind : Kind} {event : ε}

theorem slotOf_eq_some {slot : Slot ε} : s.slotOf n = some slot ↔
    ∃ i, n = s.history.departed.length + i ∧ s.slots[i]? = some slot := by
  unfold slotOf
  split
  · next h =>
    constructor
    · rintro ⟨⟩
    · rintro ⟨i, rfl, -⟩
      omega
  · next h =>
    constructor
    · exact fun hs => ⟨n - s.history.departed.length, by omega, hs⟩
    · rintro ⟨i, rfl, hi⟩
      rwa [Nat.add_sub_cancel_left]

private theorem slotOf_congr (hslots : s'.slots = s.slots) (hdep : s'.history.departed = s.history.departed)
    (h : s.slotOf n = some (.pending kind event)) : s'.slotOf n = some (.pending kind event) := by
  unfold slotOf at h ⊢
  rw [hslots, hdep]
  exact h

/-- A running command stays where it is when finished ones leave the queue. -/
private theorem slotOf_collect (slots : List (Slot ε)) (s : Session ε) (hs : s.slots = slots)
    (h : s.slotOf n = some (.pending kind event)) : (s.collect slots).slotOf n = some (.pending kind event) := by
  induction slots generalizing s with
  | nil => exact h
  | cons slot slots ih =>
    cases slot with
    | waiting => exact h
    | pending => exact h
    | done reply =>
      refine ih _ rfl ?_
      obtain ⟨i, rfl, hi⟩ := slotOf_eq_some.1 h
      rw [hs] at hi
      cases i with
      | zero => cases hi
      | succ i => exact slotOf_eq_some.2 ⟨i, by simp [Session.depart]; omega, hi⟩

private theorem slotOf_admits (h : s.slotOf n = some (.pending kind event)) :
    s.admits.slotOf n = some (.pending kind event) := by
  obtain ⟨i, rfl, hi⟩ := slotOf_eq_some.1 h
  unfold admits
  simp only
  split
  · exact slotOf_eq_some.2 ⟨i, rfl, admitWaiting_pending hi _⟩
  · exact h

private theorem slotOf_drive (replies : Nat → Option (Option Bytes)) (slots : List (Slot ε)) {first i : Nat}
    (hi : slots[i]? = some (.pending kind event)) (hr : replies (first + i) = none) :
    (driveFrom replies first slots)[i]? = some (.pending kind event) := by
  induction slots generalizing first i with
  | nil => cases hi
  | cons slot slots ih =>
    cases i with
    | zero =>
      cases hi
      simp only [Nat.add_zero] at hr
      simp [driveFrom, hr]
    | succ i =>
      have hr' : replies (first + 1 + i) = none := by
        rw [← hr]
        congr 1
        omega
      have hnext := ih hi hr'
      cases slot <;> simpa [driveFrom] using hnext

/-- A command that is running stays in its slot, unless it has finished. -/
theorem Move.pending {turn : Turn ε} (h : Move classify s turn s') (hslot : s.slotOf n = some (.pending kind event)) :
    s'.slotOf n = some (.pending kind event) ∨ ∃ p r, turn = .select p ∧ p.replies n = some r := by
  have hwritten : ∀ {s₁ : Session ε} {w : Bool}, s.Written s₁ w →
      s₁.slots = s.slots ∧ s₁.history.departed = s.history.departed := by
    intro s₁ w hw
    cases w with
    | true =>
      obtain ⟨ans, ha⟩ := hw
      obtain ⟨o, bytes, rfl, -⟩ := drain_rest ha
      exact ⟨rfl, rfl⟩
    | false =>
      obtain rfl : s₁ = s := hw
      exact ⟨rfl, rfl⟩
  cases h with
  | top => exact .inl (slotOf_collect s.slots s rfl hslot)
  | cancelDrain hpc hd hr hw h =>
    obtain ⟨o, bytes, rfl, -⟩ := drain_rest h
    exact .inl hslot
  | cancelPanicked hpc hw h =>
    obtain ⟨o, bytes, rfl, -⟩ := drain_rest h
    exact .inl hslot
  | admission =>
    rcases s.admission_cases with ⟨reason, -, -, h⟩ | ⟨-, h⟩ <;> rw [h] <;> exact .inl (slotOf_admits hslot)
  | @drive w c p hpc =>
    obtain ⟨i, rfl, hi⟩ := slotOf_eq_some.1 hslot
    cases hr : p.replies (s.history.departed.length + i) with
    | some r => exact .inr ⟨p, r, rfl, hr⟩
    | none => exact .inl (slotOf_eq_some.2 ⟨i, rfl, slotOf_drive p.replies s.slots hi hr⟩)
  | panicked hpc h =>
    obtain ⟨o, bytes, rfl, -⟩ := drain_rest h
    exact .inl hslot
  | drained hpc h =>
    obtain ⟨o, bytes, rfl, -⟩ := drain_rest h
    refine .inl ?_
    unfold Session.drained
    split <;> exact hslot
  | @read r w s₁ p ans hpc h =>
    obtain ⟨hs, hd⟩ := hwritten h
    have h₁ : s₁.slotOf n = some (.pending kind event) := slotOf_congr hs hd hslot
    refine .inl ?_
    cases ans with
    | eof => exact h₁
    | failed e => exact h₁
    | bytes k events =>
      obtain ⟨i, rfl, hi⟩ := slotOf_eq_some.1 h₁
      refine slotOf_eq_some.2 ⟨i, rfl, ?_⟩
      exact (List.getElem?_append_left (List.getElem?_eq_some_iff.1 hi).1).trans hi
  | pend hpc h => exact .inl (slotOf_congr (hwritten h).1 (hwritten h).2 hslot)
  | _ => exact .inl hslot

/-- A session that has ended runs nothing. -/
theorem not_pending_of_ended (h : Reachable classify s) {reason : SessionEnd} (hpc : s.pc = .ended reason) :
    s.slotOf n ≠ some (.pending kind event) := by
  intro hslot
  obtain ⟨i, rfl, hi⟩ := slotOf_eq_some.1 hslot
  have hrun := (Reachable.closes h).idle hpc
  rw [running, List.any_eq_false] at hrun
  exact hrun _ (List.mem_of_getElem? hi) rfl

/-- A command runs in the lane that the handler chose for it. -/
theorem Reachable.classified (h : Reachable classify s) (hslot : s.slotOf n = some (.pending kind event)) :
    kind = classify event := by
  have hall : ∀ x ∈ s.history.decoded, x.1 = classify x.2 := by
    refine Reachable.keeps (P := fun s => ∀ x ∈ s.history.decoded, x.1 = classify x.2) (fun x hx => by cases hx)
      (fun s s' he hs => ?_) h
    cases he with
    | control _ _ _ hh => rw [hh]; exact hs
    | read events hroom =>
      intro x hx
      rcases List.mem_append.1 hx with hx | hx
      · exact hs x hx
      · obtain ⟨e, -, rfl⟩ := List.mem_map.1 hx
        rfl
    | _ => exact hs
  obtain ⟨i, rfl, hi⟩ := slotOf_eq_some.1 hslot
  have hcmd := (Reachable.numbered h).command hi rfl
  exact hall _ (List.mem_of_getElem? hcmd)

theorem Reachable.exclusive (h : Reachable classify s) : Exclusive s :=
  h.keeps ⟨by simp [runningOf, start, maxControls], by simp [runningOf, start], by simp [runningOf, start],
    by simp [runningOf, start]⟩ fun _ _ he hs => he.exclusive hs

private theorem runningOf_pos (hslot : s.slotOf n = some (.pending kind event)) : 0 < s.runningOf kind := by
  obtain ⟨i, rfl, hi⟩ := slotOf_eq_some.1 hslot
  exact List.countP_pos_iff.2 ⟨_, List.mem_of_getElem? hi, by simp [Slot.runs]⟩

/-- Beside an ordinary command nothing runs that could freeze or thaw. -/
theorem Reachable.alone (h : Reachable classify s) (hslot : s.slotOf n = some (.pending .ordinary event)) {m : Nat}
    {kind' : Kind} {event' : ε} (hother : s.slotOf m = some (.pending kind' event')) : kind' ≠ .freeze ∧ kind' ≠ .thaw := by
  have he := Reachable.exclusive h
  have hn := runningOf_pos hslot
  have hm := runningOf_pos hother
  refine ⟨?_, ?_⟩
  · rintro rfl
    have := he.alone hm
    omega
  · rintro rfl
    have := he.other
    omega

end Session

/-! ### The agent while it is thawed -/

/-- The program points of a thaw before it holds the token or is refused. -/
def ThawPc.early : ThawPc → Bool
  | .claim => true
  | .lookup _ => true
  | .reclaim _ => true
  | .requestAbort _ => true
  | .notify _ => true
  | .waitSettled _ => true
  | .joinClaim _ => true
  | .readProgress _ => true
  | _ => false

/-- The event is a `FIFREEZE` or a `FITHAW`. -/
def Event.isIoctl : Event → Bool
  | .fifreeze _ _ _ _ _ => true
  | .fithaw _ _ _ => true
  | _ => false

/-- A `FIFREEZE` or a `FITHAW` of the task may be outstanding. -/
def Task.outstanding : Task → Bool
  | .driver d =>
    (match d.tracked with
      | some (.worker _ _ ⟨.ioctl _ _ _, _⟩) => true
      | some (.rollback j) => !j.val.drain.todo.isEmpty
      | _ => false) || d.recovery.any fun j => !j.val.todo.isEmpty
  | .thaw _ (.blocking _ j) => match j.val.stage with | .drain _ _ => true | _ => false
  | _ => false

section Thawed

variable {cfg : Config} {c c' : Ctx} {i fresh : TaskId} {t t' : Task} {new : Option Dog}

/-- A thaw does not go back to its claims. -/
theorem Thaw.Move.early {pc pc' : ThawPc} (hm : Thaw.Move cfg c i fresh pc c' pc' new) (h : pc'.early = true) :
    pc.early = true := by
  cases hm
  case win => cases h
  case hold token outcome held =>
    cases outcome with
    | ok n => cases h
    | error failure =>
      simp only [Thaw.settles] at h
      split at h <;> cases h
  all_goals first
    | rfl
    | cases h

/-- A thaw wins the token at one of its claims. -/
theorem Thaw.Move.claims {pc pc' : ThawPc} (hm : Thaw.Move cfg c i fresh pc c' pc' new) (ht : Thaw.token pc = none)
    (ht' : Thaw.token pc' ≠ none) : pc.early = true := by
  cases hm
  case win hs hpc => cases pc <;> first | rfl | cases hpc
  all_goals first
    | exact absurd rfl ht'
    | cases ht

/-- A thaw that may still claim the token. -/
def Task.early : Task → Bool
  | .thaw _ pc => pc.early
  | _ => false

theorem Task.Move.early (hm : Task.Move cfg c i fresh t c' t' new) (h : t'.early = true) : t.early = true := by
  cases hm with
  | thaw hm => exact Thaw.Move.early hm h
  | _ => cases h

/-- While the state is `Thawed` nobody holds a token. -/
theorem Tokens.Loc.idle (hl : Tokens.Loc c i t) (hs : c.state = .thawed) : t.holdsToken = false := by
  rw [Bool.eq_false_iff]
  intro h
  rcases Bool.or_eq_true _ _ ▸ h with h | h
  · have := hl.freezing h
    rw [hs] at this
    cases this
  · have := hl.thawing h
    rw [hs] at this
    cases this

/-- Only a thaw that claims the token leaves `Thawed`. -/
theorem Task.Move.thawed (hm : Task.Move cfg c i fresh t c' t' new) (hl : Tokens.Loc c i t) (hs : c.state = .thawed)
    (he : t.early = false) : c'.state = .thawed := by
  have hidle := hl.idle hs
  cases hm with
  | driver h =>
    rcases h.tokens hl.wf with ⟨-, -, hst, -⟩ | ⟨ht, -⟩ | ⟨ht, -⟩
    · exact hst.trans hs
    · simp [Task.holdsToken, Task.freezeToken, ht] at hidle
    · rw [show Task.holdsToken (.driver _) = true from ht] at hidle
      cases hidle
  | thaw h =>
    rcases h.tokens with ⟨-, hst, -⟩ | ⟨ht, ht', -⟩ | ⟨ht, -⟩
    · exact hst.trans hs
    · rw [show Task.early (.thaw _ _) = true from h.claims ht (by rw [ht']; rintro ⟨⟩)] at he
      cases he
    · simp [Task.holdsToken, Task.thawToken, ht] at hidle
  | dogClaims _ hf =>
    rw [hs] at hf
    cases hf
  | startInstall => simpa using hs
  | _ => exact hs

/-- While the state is `Thawed` no ioctl is under way. -/
theorem Tokens.Loc.not_outstanding (hl : Tokens.Loc c i t) (hs : c.state = .thawed) : t.outstanding = false := by
  cases t with
  | driver d =>
    have hp : d.pc.published = true := by
      rw [← Bool.not_eq_false]
      exact fun hp => hl.not_thawed hp hs
    have htracked : d.tracked = none := by
      cases ht : d.tracked with
      | none => rfl
      | some tr => rw [Driver.not_published_of_tracked ht] at hp; cases hp
    have hrecovery : d.recovery = none := by
      cases hr : d.recovery with
      | none => rfl
      | some j => rw [Driver.WF.not_published_of_recovery hl.wf hr] at hp; cases hp
    simp [Task.outstanding, htracked, hrecovery]
  | thaw w pc =>
    have hidle := hl.idle hs
    cases pc <;> first | rfl | cases hidle
  | _ => rfl

private theorem Event.not_isIoctl {e : Event} (h : e.ofOwner = false) : e.isIoctl = false := by
  cases e <;> first | rfl | cases h

/-- While the state is `Thawed` no task calls `FIFREEZE` or `FITHAW`. -/
theorem Task.Move.quiet (hm : Task.Move cfg c i fresh t c' t' new) (hl : Tokens.Loc c i t) (hs : c.state = .thawed) :
    ∃ new, c'.log = new ++ c.log ∧ ∀ e ∈ new, e.isIoctl = false := by
  obtain ⟨new, hlog, he⟩ := hm.unowned hl.wf (hl.idle hs)
  exact ⟨new, hlog, fun e h => Event.not_isIoctl (he e h).2⟩

end Thawed

namespace Agent

variable {cfg : Config} {a a' : Agent} {act : Action} {since : Nat}

/-- The thaws that may still claim the token were there before, unless a request has arrived. -/
theorem early_of_background (hs : Agent.step cfg a act = some a') (hb : act.isBackground = true) {i : TaskId} {t : Task}
    (ht : a'.tasks i = some t) (he : t.early = true) : ∃ t, a.tasks i = some t ∧ t.early = true := by
  cases Agent.step_move hs with
  | @task j ch u u' c' new hu hm =>
    rcases Pool.apply_tasks ht with ⟨-, hn⟩ | ⟨rfl, rfl⟩ | ⟨-, ht⟩
    · obtain ⟨g, -, rfl⟩ := Option.map_eq_some_iff.1 hn
      cases he
    · exact ⟨u, hu, hm.early he⟩
    · exact ⟨t, ht, he⟩
  | env => exact ⟨t, ht, he⟩
  | refused => exact ⟨t, ht, he⟩
  | _ => cases hb

/-- The state is `Thawed`, and there was no `FIFREEZE` and no `FITHAW` since the log had the length `since`. -/
structure Quiet (a : Agent) (since : Nat) : Prop where
  state : a.ctx.state = .thawed
  recorded : since ≤ a.ctx.log.length
  calls : ∀ e ∈ a.ctx.log.take (a.ctx.log.length - since), e.isIoctl = false

theorem Quiet.now (hs : a.ctx.state = .thawed) : Quiet a a.ctx.log.length := by
  refine ⟨hs, Nat.le_refl _, fun e he => ?_⟩
  simp at he

private theorem Quiet.grows (h : Quiet a since) (hs : a'.ctx.state = .thawed) {new : List Event}
    (hlog : a'.ctx.log = new ++ a.ctx.log) (hnew : ∀ e ∈ new, e.isIoctl = false) : Quiet a' since := by
  refine ⟨hs, ?_, fun e he => ?_⟩
  · rw [hlog, List.length_append]
    exact Nat.le_add_left_of_le h.recorded
  · have hlen : a'.ctx.log.length - since = new.length + (a.ctx.log.length - since) := by
      rw [hlog, List.length_append]
      have := h.recorded
      omega
    rw [hlen, hlog, List.take_length_add_append] at he
    rcases List.mem_append.1 he with he | he
    · exact hnew e he
    · exact h.calls e he

/-- While the state is `Thawed` and no thaw may claim the token, the agent by itself stays `Thawed` and calls neither
`FIFREEZE` nor `FITHAW`. -/
theorem thawed_of_background (htk : a.Holds Tokens.Glob Tokens.Loc) (hst : a.ctx.state = .thawed)
    (hu : ∀ i t, a.tasks i = some t → t.early = false) (hs : Agent.step cfg a act = some a')
    (hb : act.isBackground = true) :
    a'.ctx.state = .thawed ∧ ∃ new, a'.ctx.log = new ++ a.ctx.log ∧ ∀ e ∈ new, e.isIoctl = false := by
  cases Agent.step_move hs with
  | @task j ch t t' c' new ht hm =>
    rw [Pool.apply_ctx]
    exact ⟨hm.thawed (htk.loc ht) hst (hu j t ht), hm.quiet (htk.loc ht) hst⟩
  | env he => cases he <;> exact ⟨hst, [], rfl, fun _ h => by cases h⟩
  | refused => exact ⟨hst, [], rfl, fun _ h => by cases h⟩
  | _ => cases hb

theorem Quiet.background (h : Quiet a since) (htk : a.Holds Tokens.Glob Tokens.Loc)
    (hu : ∀ i t, a.tasks i = some t → t.early = false) (hs : Agent.step cfg a act = some a')
    (hb : act.isBackground = true) : Quiet a' since := by
  obtain ⟨hst, new, hlog, hnew⟩ := thawed_of_background htk h.state hu hs hb
  exact h.grows hst hlog hnew

end Agent

/-! ### The daemon -/

/-- The loop is neither in a session nor has the process exited. -/
def ServePc.between : ServePc → Bool
  | .session _ => false
  | .exited _ => false
  | _ => true

namespace Daemon

variable {cfg : Config} {f : Features} {d d' : Daemon} {n : Nat}

/-- The handler of `req` gives `act` to the agent and waits for it as `h'`. -/
inductive Submits (d : Daemon) (req : Request) : Action → Handler → Prop
  | freeze (hl : lane req.method = .freeze) (restrict : Option (List Path)) :
      Submits d req (.freeze restrict) (.freezing d.agent.next)
  | thaw (hl : lane req.method = .thaw) : Submits d req .thaw (.thawing d.agent.next)
  | status : Submits d req .status (.status d.agent.next)

/-- What the handler of a command does past its gates: it returns, or it gives its command to the agent. -/
private theorem runHandler_cases (cfg : Config) (d : Daemon) (n : Nat) (req : Request) (reply : Option Bytes) :
    d.runHandler cfg n req reply = d.withHandler n (.finished reply) ∨
      ∃ act a' h', Agent.step cfg d.agent act = some a' ∧
        d.runHandler cfg n req reply = { d with agent := a' }.withHandler n h' ∧
        Submits d req act h' := by
  have hfreeze : ∀ restrict, lane req.method = .freeze →
      d.runFreeze cfg n restrict reply = d.withHandler n (.finished reply) ∨
        ∃ act a' h', Agent.step cfg d.agent act = some a' ∧
          d.runFreeze cfg n restrict reply = { d with agent := a' }.withHandler n h' ∧
          Submits d req act h' := by
    intro restrict hlane
    unfold runFreeze
    split
    · exact .inl rfl
    · exact .inr ⟨.freeze restrict, _, _, rfl, rfl, .freeze hlane restrict⟩
  unfold runHandler
  split
  · next hm =>
    split
    · exact hfreeze none (by simp [lane, hm])
    · exact .inl rfl
  split
  · next hm =>
    split
    · exact hfreeze _ (by simp [lane, hm])
    · exact .inl rfl
  split
  · next hm =>
    split
    · exact .inr ⟨.thaw, _, _, rfl, rfl, .thaw (by simp [lane, hm])⟩
    · exact .inl rfl
  split
  · split
    · exact .inr ⟨.status, _, _, rfl, rfl, .status⟩
    · exact .inl rfl
  · exact .inl rfl

/-- What a step of a handler can be: it passes its gates, it returns, or it gives its command to the agent. -/
theorem handle_cases {event : DecodeEvent} {st : HandlerStep} (h : d.handle cfg f n event st = some d') :
    (∃ req limited, event = .frame (some req) ∧ d.handlers n = .fresh ∧
        gates f d.agent.ctx.state limited req = .ok () ∧ d' = d.withHandler n (.passed d.agent.ctx.log.length)) ∨
      (∃ reply, d' = d.withHandler n (.finished reply) ∧
        ∀ i, d.handlers n = .thawing i → ∃ w, d.agent.tasks i = some (.thaw w .finished)) ∨
      ∃ req act a' h', event = .frame (some req) ∧ (∀ i, d.handlers n ≠ .thawing i) ∧
        Agent.step cfg d.agent act = some a' ∧ d' = { d with agent := a' }.withHandler n h' ∧
        Submits d req act h' := by
  cases st with
  | gates limited reply =>
    simp only [handle] at h
    split at h
    · next hfresh =>
      split at h <;> cases h
      · next hg => exact .inl ⟨_, limited, rfl, hfresh, hg, rfl⟩
      · exact .inr (.inl ⟨reply, rfl, fun i hi => by rw [hfresh] at hi; cases hi⟩)
    · next hfresh _ =>
      cases h
      exact .inr (.inl ⟨reply, rfl, fun i hi => by rw [hfresh] at hi; cases hi⟩)
    · cases h
  | run reply =>
    simp only [handle] at h
    split at h
    · next since req hpassed =>
      have hthaw : ∀ i, d.handlers n ≠ .thawing i := fun i hi => by rw [hpassed] at hi; cases hi
      obtain rfl := Option.some.inj h
      rcases runHandler_cases cfg d n req reply with hr | ⟨act, a', h', hs, hr, hact⟩
      · exact .inr (.inl ⟨reply, hr, fun i hi => absurd hi (hthaw i)⟩)
      · exact .inr (.inr ⟨req, act, a', h', rfl, hthaw, hs, hr, hact⟩)
    · cases h
  | finish reply =>
    simp only [handle] at h
    split at h <;> cases h
    next hw =>
    refine .inr (.inl ⟨reply, rfl, fun i hi => ?_⟩)
    rw [hi] at hw
    simp only [awaited] at hw
    split at hw
    · next w ht => exact ⟨w, ht⟩
    · cases hw

/-- What a step of the loop leaves, if it does not open a session. -/
structure Leaves (d d' : Daemon) : Prop where
  agent : d'.agent = d.agent
  handlers : d'.handlers = d.handlers
  pc : ∀ s, d'.pc ≠ .session s
  exited : ∀ lost, d'.pc = .exited lost → d.agent.ctx.state = .thawed

private theorem leaves_of_between (ha : d'.agent = d.agent) (hh : d'.handlers = d.handlers) (hb : d'.pc.between = true) :
    d.Leaves d' := by
  refine ⟨ha, hh, fun s hs => ?_, fun lost hl => ?_⟩
  · rw [hs] at hb
    cases hb
  · rw [hl] at hb
    cases hb

private theorem stopNow_between (d : Daemon) {pc : ServePc} (hb : pc.between = true) :
    (d.stopNow pc).agent = d.agent ∧ (d.stopNow pc).handlers = d.handlers ∧ (d.stopNow pc).pc.between = true := by
  unfold stopNow
  split
  · exact ⟨rfl, rfl, rfl⟩
  · exact ⟨rfl, rfl, hb⟩

/-- What a step of the loop can be: it opens a session, or there is none after it; a session is left when it has ended. -/
theorem serve_cases {ans : ServeAnswer} (h : d.serve ans = some d') :
    (∀ s, d.pc = .session s → ∃ reason, s.pc = .ended reason) ∧ (d' = d.opens ∨ d.Leaves d') := by
  have hpc : d.pc.between = true → ∀ s, d.pc = .session s → ∃ reason, s.pc = .ended reason := by
    intro hb s hs
    rw [hs] at hb
    cases hb
  unfold serve at h
  split at h
  case h_1 htop =>
    obtain rfl := Option.some.inj h
    have hb : (if d.reopened then ServePc.pause else .opening).between = true := by split <;> rfl
    have hl := d.stopNow_between hb
    exact ⟨hpc (by rw [htop]; rfl), .inr (leaves_of_between hl.1 hl.2.1 hl.2.2)⟩
  case h_2 hpause =>
    obtain rfl := Option.some.inj h
    exact ⟨hpc (by rw [hpause]; rfl), .inr (leaves_of_between rfl rfl rfl)⟩
  case h_3 live hpause =>
    split at h <;> cases h
    have hl := @stopNow_between { d with cancelLive := live } .opening rfl
    exact ⟨hpc (by rw [hpause]; rfl), .inr (leaves_of_between hl.1 hl.2.1 hl.2.2)⟩
  case h_4 ok hopening =>
    refine ⟨hpc (by rw [hopening]; rfl), ?_⟩
    split at h <;> cases h
    split
    · exact .inl rfl
    · exact .inr (leaves_of_between rfl rfl rfl)
  case h_5 hopening =>
    split at h <;> cases h
    exact ⟨hpc (by rw [hopening]; rfl), .inl rfl⟩
  case h_6 hopening =>
    split at h <;> cases h
    exact ⟨hpc (by rw [hopening]; rfl), .inr (leaves_of_between rfl rfl rfl)⟩
  case h_7 hopening =>
    split at h <;> cases h
    exact ⟨hpc (by rw [hopening]; rfl), .inr (leaves_of_between rfl rfl rfl)⟩
  case h_8 hrefused =>
    obtain rfl := Option.some.inj h
    refine ⟨hpc (by rw [hrefused]; rfl), .inr ?_⟩
    split <;> exact leaves_of_between rfl rfl rfl
  case h_9 hsleeping =>
    obtain rfl := Option.some.inj h
    exact ⟨hpc (by rw [hsleeping]; rfl), .inr (leaves_of_between rfl rfl rfl)⟩
  case h_10 s hsession =>
    have hend : ∀ reason, s.pc = .ended reason → ∀ s', d.pc = .session s' → ∃ reason, s'.pc = .ended reason := by
      intro reason hr s' hs'
      obtain rfl : s = s' := ServePc.session.inj (hsession.symm.trans hs')
      exact ⟨reason, hr⟩
    split at h <;> cases h
    · next hr => exact ⟨hend _ hr, .inr (leaves_of_between rfl rfl rfl)⟩
    · next hr => exact ⟨hend _ hr, .inr (leaves_of_between rfl rfl rfl)⟩
  case h_11 lost hreturned =>
    split at h <;> cases h
    next hs =>
    exact ⟨hpc (by rw [hreturned]; rfl), .inr ⟨rfl, rfl, fun _ h => (by cases h), fun _ _ => of_decide_eq_true hs⟩⟩
  case h_12 => cases h

/-- The invariant of the daemon. -/
structure Serving (cfg : Config) (d : Daemon) : Prop where
  agent : Machine.Reach (Agent.step cfg) (fun _ _ _ => True) Agent.Initial d.agent
  session : ∀ {s}, d.pc = .session s → Session.Reachable classify s
  active : ∀ {n}, (d.handlers n).active = true → ∃ s kind event, d.pc = .session s ∧
    s.slotOf n = some (.pending kind event) ∧ ∀ i, d.handlers n = .thawing i → kind = .thaw
  early : ∀ {i t}, d.agent.tasks i = some t → t.early = true → ∃ n, d.handlers n = .thawing i
  ordinary : ∀ {s n event since}, d.pc = .session s → s.slotOf n = some (.pending .ordinary event) →
    d.handlers n = .passed since → Agent.Quiet d.agent since
  exited : ∀ {lost}, d.pc = .exited lost → d.agent.ctx.state = .thawed

namespace Serving

/-- Beside an ordinary command no thaw may claim the token. -/
theorem unclaimed_of_ordinary (h : Serving cfg d) {s : Session DecodeEvent} {event : DecodeEvent}
    (hpc : d.pc = .session s) (hslot : s.slotOf n = some (.pending .ordinary event)) {i : TaskId} {t : Task}
    (ht : d.agent.tasks i = some t) : t.early = false := by
  rw [Bool.eq_false_iff]
  intro he
  obtain ⟨m, hm⟩ := h.early ht he
  obtain ⟨s', kind, event', hpc', hslot', hkind⟩ := h.active (n := m) (by rw [hm]; rfl)
  obtain rfl : s' = s := ServePc.session.inj (hpc'.symm.trans hpc)
  exact (Session.Reachable.alone (h.session hpc) hslot hslot').2 (hkind i hm)

/-- Without a running command no thaw may claim the token. -/
theorem unclaimed_of_idle (h : Serving cfg d) (hidle : ∀ n, (d.handlers n).active = false) {i : TaskId} {t : Task}
    (ht : d.agent.tasks i = some t) : t.early = false := by
  rw [Bool.eq_false_iff]
  intro he
  obtain ⟨m, hm⟩ := h.early ht he
  have := hidle m
  rw [hm] at this
  cases this

/-- Outside of a session, and after it has ended, no command is running. -/
theorem idle (h : Serving cfg d) (hs : ∀ s, d.pc = .session s → ∃ reason, s.pc = .ended reason) (n : Nat) :
    (d.handlers n).active = false := by
  rw [Bool.eq_false_iff]
  intro ha
  obtain ⟨s, kind, event, hpc, hslot, -⟩ := h.active ha
  obtain ⟨reason, hend⟩ := hs s hpc
  exact Session.not_pending_of_ended (h.session hpc) hend hslot

private theorem withHandler_self (d : Daemon) (n : Nat) (h : Handler) : (d.withHandler n h).handlers n = h :=
  Function.update_self ..

private theorem withHandler_of_ne (d : Daemon) {n m : Nat} (hm : m ≠ n) (h : Handler) :
    (d.withHandler n h).handlers m = d.handlers m := Function.update_of_ne hm ..

private theorem background (h : Serving cfg d) {act : Action} {a' : Agent} (hb : act.isBackground = true)
    (hs : Agent.step cfg d.agent act = some a') : Serving cfg { d with agent := a' } where
  agent := h.agent.tail hs trivial
  session := h.session
  active := h.active
  early ht he := by
    obtain ⟨t, ht, he⟩ := Agent.early_of_background hs hb ht he
    exact h.early ht he
  ordinary hpc hslot hn :=
    (h.ordinary hpc hslot hn).background (Tokens.reach h.agent) (fun _ _ ht => h.unclaimed_of_ordinary hpc hslot ht) hs hb
  exited hpc := by
    have hidle := h.idle fun s hs => by cases hpc.symm.trans hs
    have hu : ∀ i t, d.agent.tasks i = some t → t.early = false := fun _ _ ht => h.unclaimed_of_idle hidle ht
    exact (Agent.thawed_of_background (Tokens.reach h.agent) (h.exited hpc) hu hs hb).1

/-- A handler that passes its gates, or returns. -/
private theorem withHandler (h : Serving cfg d) {s : Session DecodeEvent} {kind : Kind} {event : DecodeEvent} {h' : Handler}
    (hpc : d.pc = .session s) (hslot : s.slotOf n = some (.pending kind event)) (hth : ∀ i, h' ≠ .thawing i)
    (hearly : ∀ i, d.handlers n = .thawing i → ∃ w, d.agent.tasks i = some (.thaw w .finished))
    (hord : ∀ since, h' = .passed since → kind = .ordinary → Agent.Quiet d.agent since) : Serving cfg (d.withHandler n h') where
  agent := h.agent
  session := h.session
  active {m} hm := by
    by_cases hmn : m = n
    · subst hmn
      refine ⟨s, kind, event, hpc, hslot, fun i hi => ?_⟩
      rw [withHandler_self] at hi
      exact absurd hi (hth i)
    · rw [withHandler_of_ne d hmn] at hm ⊢
      exact h.active hm
  early {i t} ht he := by
    obtain ⟨m, hm⟩ := h.early ht he
    by_cases hmn : m = n
    · subst hmn
      obtain ⟨w, hfin⟩ := hearly i hm
      obtain rfl : t = .thaw w .finished := Option.some.inj (ht.symm.trans hfin)
      cases he
    · exact ⟨m, by rw [withHandler_of_ne d hmn]; exact hm⟩
  ordinary {s' m event' since} hpc' hslot' hm := by
    by_cases hmn : m = n
    · subst hmn
      obtain rfl : s = s' := ServePc.session.inj (hpc.symm.trans hpc')
      rw [withHandler_self] at hm
      rw [hslot] at hslot'
      cases hslot'
      exact hord since hm rfl
    · rw [withHandler_of_ne d hmn] at hm
      exact h.ordinary hpc' hslot' hm
  exited hpc' := h.exited hpc'

/-- The thaws that may still claim the token once a handler has given its command to the agent. -/
private theorem early_of_submits {req : Request} {act : Action} {h' : Handler} (hsub : Submits d req act h') {a' : Agent}
    (hs : Agent.step cfg d.agent act = some a') {i : TaskId} {t : Task} (ht : a'.tasks i = some t) (he : t.early = true) :
    d.agent.tasks i = some t ∨ h' = .thawing i := by
  cases hsub with
  | freeze _ restrict =>
    cases Agent.step_move hs with
    | freeze =>
      rcases Pool.spawn_tasks ht with ⟨-, rfl⟩ | ⟨-, ht⟩
      · cases he
      · exact .inl ht
    | refused => exact .inl ht
    | env => exact .inl ht
  | thaw =>
    obtain rfl := Option.some.inj hs
    rcases Pool.spawn_tasks ht with ⟨rfl, -⟩ | ⟨-, ht⟩
    · exact .inr rfl
    · exact .inl ht
  | status =>
    obtain rfl := Option.some.inj hs
    rcases Pool.spawn_tasks ht with ⟨-, rfl⟩ | ⟨-, ht⟩
    · cases he
    · exact .inl ht

/-- A handler that gives its command to the agent. -/
private theorem submit (h : Serving cfg d) {s : Session DecodeEvent} {kind : Kind} {req : Request} {act : Action}
    {h' : Handler} {a' : Agent} (hpc : d.pc = .session s) (hslot : s.slotOf n = some (.pending kind (.frame (some req))))
    (hn : ∀ i, d.handlers n ≠ .thawing i) (hsub : Submits d req act h') (hs : Agent.step cfg d.agent act = some a') :
    Serving cfg ({ d with agent := a' }.withHandler n h') where
  agent := h.agent.tail hs trivial
  session := h.session
  active {m} hm := by
    by_cases hmn : m = n
    · subst hmn
      refine ⟨s, kind, _, hpc, hslot, fun i hi => ?_⟩
      rw [withHandler_self] at hi
      rw [Session.Reachable.classified (h.session hpc) hslot]
      cases hsub with
      | thaw hl => exact hl
      | freeze => cases hi
      | status => cases hi
    · rw [withHandler_of_ne _ hmn] at hm ⊢
      exact h.active hm
  early {i t} ht he := by
    rcases early_of_submits hsub hs ht he with ht | rfl
    · obtain ⟨m, hm⟩ := h.early ht he
      have hmn : m ≠ n := fun hmn => hn i (hmn ▸ hm)
      exact ⟨m, by rw [withHandler_of_ne _ hmn]; exact hm⟩
    · exact ⟨n, withHandler_self ..⟩
  ordinary {s' m event' since} hpc' hslot' hm := by
    have hmn : m ≠ n := by
      rintro rfl
      rw [withHandler_self] at hm
      cases hsub <;> cases hm
    rw [withHandler_of_ne _ hmn] at hm
    have hq := h.ordinary hpc' hslot' hm
    obtain rfl : s = s' := ServePc.session.inj (hpc.symm.trans hpc')
    -- a freeze or a thaw does not run beside the ordinary command `m`
    have halone := Session.Reachable.alone (h.session hpc) hslot' hslot
    rw [Session.Reachable.classified (h.session hpc) hslot] at halone
    cases hsub with
    | freeze hl => exact absurd hl halone.1
    | thaw hl => exact absurd hl halone.2
    | status =>
      obtain rfl := Option.some.inj hs
      exact ⟨hq.state, hq.recorded, hq.calls⟩
  exited hpc' := by cases hpc.symm.trans hpc'

/-- A step of the session. -/
private theorem turn (h : Serving cfg d) {s s' : Session DecodeEvent} {ans : SessionAnswer} (hpc : d.pc = .session s)
    (hs : s.step classify (d.turn ans) = some s') : Serving cfg { d with pc := .session s' } := by
  -- a command leaves the session only with the reply of its handler
  have hstays : ∀ {m kind event}, (d.handlers m).active = true → s.slotOf m = some (.pending kind event) →
      s'.slotOf m = some (.pending kind event) := by
    intro m kind event ha hslot
    rcases (Session.step_move hs).pending hslot with h | ⟨p, r, hp, hr⟩
    · exact h
    · cases ans <;> cases hp
      simp only [replies] at hr
      split at hr
      · next hfin => rw [hfin] at ha; cases ha
      · cases hr
  refine ⟨h.agent, ?_, ?_, h.early, ?_, fun hpc' => by cases hpc'⟩
  · rintro _ ⟨⟩
    exact (h.session hpc).tail hs trivial
  · intro m hm
    obtain ⟨s₀, kind, event, hpc₀, hslot, hkind⟩ := h.active hm
    obtain rfl : s = s₀ := ServePc.session.inj (hpc.symm.trans hpc₀)
    exact ⟨s', kind, event, rfl, hstays hm hslot, hkind⟩
  · rintro _ m event since ⟨⟩ hslot hm
    have ha : (d.handlers m).active = true := by rw [hm]; rfl
    obtain ⟨s₀, kind, event₀, hpc₀, hslot₀, -⟩ := h.active ha
    obtain rfl : s = s₀ := ServePc.session.inj (hpc.symm.trans hpc₀)
    have hsame := hstays ha hslot₀
    rw [hslot] at hsame
    cases hsame
    exact h.ordinary hpc hslot₀ hm

/-- Where no command is running nothing is asked of the handlers. -/
private theorem of_idle (ha : Machine.Reach (Agent.step cfg) (fun _ _ _ => True) Agent.Initial d.agent)
    (hearly : ∀ {i t}, d.agent.tasks i = some t → t.early = false) (hidle : ∀ n, (d.handlers n).active = false)
    (hsession : ∀ {s}, d.pc = .session s → s = .start) (hexited : ∀ {lost}, d.pc = .exited lost → d.agent.ctx.state = .thawed) :
    Serving cfg d where
  agent := ha
  session hpc := by
    obtain rfl := hsession hpc
    exact .init rfl
  active {n} hn := by
    rw [hidle n] at hn
    cases hn
  early ht he := by
    rw [hearly ht] at he
    cases he
  ordinary {s n event since} _ _ hn := by
    have := hidle n
    rw [hn] at this
    cases this
  exited := hexited

private theorem serve (h : Serving cfg d) {ans : ServeAnswer} (hs : d.serve ans = some d') : Serving cfg d' := by
  obtain ⟨hend, hd⟩ := serve_cases hs
  have hidle := h.idle hend
  have hearly : ∀ {i t}, d.agent.tasks i = some t → t.early = false := fun ht => h.unclaimed_of_idle hidle ht
  rcases hd with rfl | hl
  · exact of_idle h.agent hearly (fun _ => rfl) (fun hpc => (ServePc.session.inj hpc).symm) fun hpc => by cases hpc
  · refine of_idle (hl.agent ▸ h.agent) (fun ht => hearly (hl.agent ▸ ht)) (fun n => by rw [hl.handlers]; exact hidle n)
      (fun hpc => absurd hpc (hl.pc _)) fun hpc => ?_
    rw [hl.agent]
    exact hl.exited _ hpc

/-- A start of the process. -/
private theorem start {c : Ctx} {next : TaskId} {initial : Bool}
    (ha : Machine.Reach (Agent.step cfg) (fun _ _ _ => True) Agent.Initial (Agent.boot c next)) :
    Serving cfg (.start (.boot c next) initial) := by
  refine of_idle ha (fun {i t} ht => ?_) (fun _ => rfl) (fun hpc => by cases hpc) fun hpc => by cases hpc
  have hboot : (Agent.boot c next).Holds (fun _ _ => True) fun _ _ t => t.early = false :=
    Agent.boot_holds trivial fun _ => rfl
  exact hboot.loc ht

/-- The invariant in every reachable state of the daemon. -/
theorem reach (h : Machine.Reach (Daemon.step cfg f) (fun _ _ _ => True) Daemon.Initial d) : Serving cfg d := by
  refine h.invariant (fun d h => ?_) (fun d act d' _ ih hs _ => ?_)
  · obtain ⟨a, initial, ha, rfl⟩ := h
    obtain ⟨c, next, rfl⟩ := ha.booted
    exact start (.init ha)
  cases act with
  | background act =>
    simp only [Daemon.step] at hs
    split at hs
    · next hb =>
      obtain ⟨a', ha, rfl⟩ := Option.map_eq_some_iff.1 hs
      exact ih.background hb ha
    · cases hs
  | handler n st =>
    simp only [Daemon.step] at hs
    split at hs
    · next s hpc =>
      split at hs
      · next kind event hslot =>
        rcases handle_cases hs with ⟨req, limited, rfl, hfresh, hg, rfl⟩ | ⟨reply, rfl, hfin⟩ |
          ⟨req, act, a', h', rfl, hn, ha, rfl, hsub⟩
        · refine ih.withHandler hpc hslot (fun _ h => by cases h) (fun i hi => by rw [hfresh] at hi; cases hi) ?_
          rintro _ ⟨⟩ rfl
          have hlane : .ordinary = classify (.frame (some req)) := Session.Reachable.classified (ih.session hpc) hslot
          exact .now (thawed_of_gates hg (not_isFrozenSafe_of_ordinary hlane.symm))
        · exact ih.withHandler hpc hslot (fun _ h => by cases h) hfin fun _ h => by cases h
        · exact ih.submit hpc hslot hn hsub ha
      · cases hs
    · cases hs
  | session ans =>
    simp only [Daemon.step] at hs
    split at hs
    · next s hpc =>
      obtain ⟨s', hs', rfl⟩ := Option.map_eq_some_iff.1 hs
      exact ih.turn hpc hs'
    · cases hs
  | serve ans => exact ih.serve hs
  | signal =>
    simp only [Daemon.step] at hs
    split at hs <;> cases hs
    exact ⟨ih.agent, ih.session, ih.active, ih.early, ih.ordinary, ih.exited⟩
  | stopper =>
    have hd : d'.agent = d.agent ∧ d'.pc = d.pc ∧ d'.handlers = d.handlers := by
      simp only [Daemon.step, stop] at hs
      split at hs
      · split at hs
        · cases hs
        · split at hs <;> cases hs
          exact ⟨rfl, rfl, rfl⟩
        · cases hs
          exact ⟨rfl, rfl, rfl⟩
        · cases hs
          exact ⟨rfl, rfl, rfl⟩
      · cases hs
    obtain ⟨ha, hpc, hh⟩ := hd
    constructor <;> simp only [ha, hpc, hh]
    exacts [ih.agent, ih.session, ih.active, ih.early, ih.ordinary, ih.exited]
  | crash initial =>
    obtain rfl := Option.some.inj hs
    exact start (ih.agent.tail (a := .crash) rfl trivial)

end Serving

end Daemon

end Qeminga
