import Qeminga.Invariant.Registry

/-!
# Abort and commit exclude each other

The outcome of an operation is decided once, by the first of an abort request, the driver's own abort and its commit
(`Outcome`).  What the history says of an operation follows from its outcome: the answers to the abort requests, and
that a successful reply goes out only after the commit.  The reply itself goes out once, from the abort or from the
settlement.
-/

namespace Qeminga

/-- The event is the reply to the freeze request of the operation `op`. -/
def Event.isReply (op : TaskId) : Event → Bool
  | .replied i _ => i = op
  | _ => false

/-- The number of replies to the freeze request of `op`. -/
def replies (op : TaskId) (log : List Event) : Nat := log.countP (Event.isReply op)

/-- The outcome that an answer to an abort request reports. -/
def AbortRequest.outcome : AbortRequest → Outcome
  | .accepted => .aborting
  | .committed => .committed

/-- The program points from which an operation replies a success. -/
def Pc.commits : Pc → Bool
  | .await (.removal .nothingFrozen _) => true
  | .conclude _ _ reply => reply.isOk
  | _ => false

/-- The program points at which the settlement is published to the observers. -/
def Pc.announced : Pc → Bool
  | .conclude .reply _ _ => true
  | .finished => true
  | _ => false

/-- The events `new` say nothing of the operation `op` to its observers. -/
def Silent (op : TaskId) (new : List Event) : Prop :=
  ∀ e ∈ new, (∀ r, e ≠ .replied op r) ∧ ∀ ans, e ≠ .requested op ans

theorem Ctx.Calls.silent {i : TaskId} {c c' : Ctx} (h : c.Calls i c') :
    ∃ new, c'.log = new ++ c.log ∧ ∀ op, Silent op new := by
  obtain ⟨new, hn, hcall⟩ := h.calls
  refine ⟨new, hn, fun op e he => ⟨?_, ?_⟩⟩
  · rintro r rfl
    cases (hcall _ he).2
  · rintro ans rfl
    cases (hcall _ he).2

namespace Driver

variable {cfg : Config} {c c' : Ctx} {i fresh : TaskId} {d d' : Driver} {new : Option Dog}

/-- The outcome is decided once. -/
theorem Move.outcome (hm : Move cfg c i fresh d c' d' new) :
    (c'.ops i).outcome = (c.ops i).outcome ∨ (c.ops i).outcome = .open := by
  cases hm
  case call hc => rw [hc.calls.ops]; exact .inl rfl
  case drain hc => rw [(Ctx.fithaw_calls hc).ops]; exact .inl rfl
  case interrupt hc => rcases hc with rfl | rfl <;> exact .inl (by simp)
  case mark => cases h : (c.ops i).outcome <;> simp [FreezeOp.markAborting, h]
  case commit => cases h : (c.ops i).outcome <;> simp [FreezeOp.tryCommit, h]
  case commitNothing ho _ _ _ => exact .inr ho
  case commitFrozen ho _ => exact .inr ho
  all_goals exact .inl (by simp)


/-- A driver records no abort request, and it replies as long as its reply has not gone out. -/
theorem Move.records (hm : Move cfg c i fresh d c' d' new) :
    (∃ r, d.reply = true ∧ d'.reply = false ∧ c'.log = .replied i r :: c.log ∧
        ((∃ failure, r = .error failure) ∨ (d'.pc = .finished ∧ ∃ terminal, d.pc = .conclude .reply terminal r))) ∨
      (d'.reply = d.reply ∧ ∃ new, c'.log = new ++ c.log ∧ ∀ op, Silent op new) := by
  cases hm
  case replyAborted failure hpc hr => exact .inl ⟨_, hr, rfl, rfl, .inl ⟨_, rfl⟩⟩
  case reply hpc hr => exact .inl ⟨_, hr, rfl, rfl, .inr ⟨rfl, _, hpc⟩⟩
  case call hc => exact .inr ⟨rfl, hc.calls.silent⟩
  case drain hc => exact .inr ⟨rfl, (Ctx.fithaw_calls hc).silent⟩
  case interrupt hc => rcases hc with rfl | rfl <;> exact .inr ⟨rfl, [], rfl, by simp [Silent]⟩
  case froze hd => subst hd; exact .inr ⟨rfl, [_, _], rfl, by simp [Silent]⟩
  case busy hd => subst hd; exact .inr ⟨rfl, [_, _], rfl, by simp [Silent]⟩
  case cancel => exact .inr ⟨rfl, [], by simp, by simp [Silent]⟩
  case install => exact .inr ⟨rfl, [], by simp, by simp [Silent]⟩
  case retire => exact .inr ⟨rfl, [], by simp, by simp [Silent]⟩
  all_goals first
    | exact .inr ⟨rfl, [], rfl, by simp [Silent]⟩
    | exact .inr ⟨rfl, [_], rfl, by simp [Silent]⟩
    | exact .inr ⟨rfl, [_, _], rfl, by simp [Silent]⟩
    | exact .inr ⟨rfl, [_, _, _], rfl, by simp [Silent]⟩

/-- A step of the awaited task does not change whether a success is on its way. -/
private theorem withTracked_commits {tr tr' : Tracked} (ht : d.tracked = some tr) (hs : tr.Same tr')
    (h : (d.withTracked tr').pc.commits = true) : d.pc.commits = true := by
  rcases tracked_cases ht with ⟨hpc, he⟩ | ⟨stage, hpc, he⟩ <;> rw [he] at h
  · rw [hpc]
    cases tr' with
    | removal k' j' =>
      cases tr with
      | removal k j =>
        obtain rfl : k = k' := hs
        cases k with
        | nothingFrozen => rfl
        | _ => cases h
      | _ => exact hs.elim
    | _ => cases h
  · cases h

/-- A success is on its way only once the operation has committed. -/
theorem Move.commits (hm : Move cfg c i fresh d c' d' new) (hw : d.WF) (h : d'.pc.commits = true) :
    (c'.ops i).outcome = .committed ∨ d.pc.commits = true := by
  cases hm
  case commitNothing ho _ _ _ => exact .inl (by simp [FreezeOp.tryCommit, ho])
  case commitFrozen ho _ => exact .inl (by simp [FreezeOp.tryCommit, ho])
  case froze hd => subst hd; cases h
  case busy hd => subst hd; cases h
  case call ht hc => exact .inr (withTracked_commits ht hc.same h)
  case lose ht => exact .inr (withTracked_commits ht (Tracked.loseJob_same _) h)
  case announce k hpc =>
    cases k with
    | boundary b => cases b <;> cases h
    | «await» tr =>
      have hab := (hw.at hpc).2 tr rfl
      cases tr <;> first | cases h | cases hab
  case removed reply hpc hk =>
    cases reply with
    | error failure => cases h
    | ok n =>
      obtain ⟨rfl, -, -⟩ := removedFor_ok hk
      exact .inr (by rw [hpc]; rfl)
  all_goals first
    | cases h
    | exact .inr h
    | (rw [‹d.pc = _›]; exact .inr h)

private theorem not_announced {tr : Tracked} (ht : d.tracked = some tr) {p : Prop} (h : d.pc.announced = true) : p := by
  rcases tracked_cases ht with ⟨hpc, -⟩ | ⟨stage, hpc, -⟩ <;> rw [hpc] at h <;> cases h

/-- The settlement is announced by its own step, and never taken back. -/
theorem Move.settled (hm : Move cfg c i fresh d c' d' new) :
    ((c'.ops i).progress.settled = (c.ops i).progress.settled ∧ (d.pc.announced = true → d'.pc.announced = true)) ∨
      d'.pc.announced = true := by
  cases hm
  case call ht hc => rw [hc.calls.ops]; exact .inl ⟨rfl, not_announced ht⟩
  case lose ht => exact .inl ⟨rfl, not_announced ht⟩
  case drain hc => rw [(Ctx.fithaw_calls hc).ops]; exact .inl ⟨rfl, fun h => h⟩
  case interrupt hc => rcases hc with rfl | rfl <;> exact .inl ⟨by simp, by simp [‹d.pc = _›, Pc.announced]⟩
  case abort hpc => rcases hpc with hpc | hpc | ⟨hpc, -⟩ <;> exact .inl ⟨rfl, by simp [hpc, Pc.announced]⟩
  case froze hd => subst hd; exact .inl ⟨by simp, by simp [‹d.pc = _›, Pc.announced]⟩
  case busy hd => subst hd; exact .inl ⟨by simp, by simp [‹d.pc = _›, Pc.announced]⟩
  case joinDrain => exact .inl ⟨by simp, fun h => h⟩
  case joinDrainRestart => exact .inl ⟨by simp, fun h => h⟩
  case loseDrain => exact .inl ⟨rfl, fun h => h⟩
  case settle => exact .inr rfl
  case reply => exact .inr rfl
  case replied => exact .inr rfl
  all_goals exact .inl ⟨by simp, by simp [‹d.pc = _›, Pc.announced]⟩

end Driver

/-- Beside its abort requests, a thaw changes no outcome and records nothing about an operation. -/
theorem Thaw.Move.records {cfg : Config} {c c' : Ctx} {i fresh : TaskId} {pc pc' : ThawPc} {new : Option Dog}
    (hm : Thaw.Move cfg c i fresh pc c' pc' new) :
    (∃ op, pc = .requestAbort op ∧ (c.ops op).outcome ≠ .committed ∧
        c' = (c.modOp op .markAborting).note (.requested op .accepted)) ∨
      (∃ op, pc = .requestAbort op ∧ (c.ops op).outcome = .committed ∧ c' = c.note (.requested op .committed)) ∨
      ∀ op, (c'.ops op).outcome = (c.ops op).outcome ∧ ∃ new, c'.log = new ++ c.log ∧ Silent op new := by
  cases hm
  case accepted op ho => exact .inl ⟨op, rfl, ho, rfl⟩
  case committed op ho => exact .inr (.inl ⟨op, rfl, ho, rfl⟩)
  case notify op' =>
    refine .inr (.inr fun op => ⟨?_, [], rfl, by simp [Silent]⟩)
    by_cases h : op = op'
    · subst h; simp
    · simp [h]
  case call hc =>
    obtain ⟨new, hn, hs⟩ := hc.calls.silent
    exact .inr (.inr fun op => ⟨by rw [hc.calls.ops], new, hn, hs op⟩)
  case cancel => exact .inr (.inr fun op => ⟨by simp, [], by simp, by simp [Silent]⟩)
  case install => exact .inr (.inr fun op => ⟨by simp, [], by simp, by simp [Silent]⟩)
  all_goals first
    | exact .inr (.inr fun op => ⟨rfl, [], rfl, by simp [Silent]⟩)
    | exact .inr (.inr fun op => ⟨rfl, [_], rfl, by simp [Silent]⟩)

/-! ### The invariant -/

namespace Decided

/-- What the history says of an operation agrees with its outcome. -/
structure Agrees (c : Ctx) (op : TaskId) : Prop where
  requested : ∀ ans, .requested op ans ∈ c.log → (c.ops op).outcome = ans.outcome
  replied : ∀ n, .replied op (.ok n) ∈ c.log → (c.ops op).outcome = .committed
  once : replies op c.log ≤ 1

structure Glob (c : Ctx) (_ : TaskId) : Prop where
  agrees : ∀ op, Agrees c op
  requested : ∀ op ans, .requested op ans ∈ c.log → Started c op
  replied : ∀ op r, .replied op r ∈ c.log → Started c op

structure DriverLoc (c : Ctx) (i : TaskId) (d : Driver) : Prop where
  replies : replies i c.log = if d.reply then 0 else 1
  commits : d.pc.commits = true → (c.ops i).outcome = .committed
  settled : d.pc.announced = false → (c.ops i).progress.settled = none

def Loc (c : Ctx) (i : TaskId) : Task → Prop
  | .driver d => DriverLoc c i d
  | _ => True

variable {cfg : Config} {c c' : Ctx} {i j op fresh : TaskId} {d d' : Driver} {new : Option Dog}

theorem replies_append_silent {new log : List Event} (h : Silent op new) : replies op (new ++ log) = replies op log := by
  have hzero : new.countP (Event.isReply op) = 0 := by
    rw [List.countP_eq_zero]
    intro e he hr
    cases e <;> first
      | cases hr
      | (simp only [Event.isReply, decide_eq_true_eq] at hr; subst hr; exact (h _ he).1 _ rfl)
  rw [replies, List.countP_append, hzero, Nat.zero_add, replies]

theorem Agrees.silent (h : Agrees c op)
    (ho : (c'.ops op).outcome = (c.ops op).outcome ∨ (c.ops op).outcome = .open)
    {new : List Event} (hn : c'.log = new ++ c.log) (hs : Silent op new) : Agrees c' op := by
  refine ⟨fun ans he => ?_, fun n he => ?_, ?_⟩
  · rw [hn] at he
    have hr := h.requested ans ((List.mem_append.1 he).resolve_left fun he => (hs _ he).2 _ rfl)
    rcases ho with ho | ho
    · rw [ho, hr]
    · rw [ho] at hr; cases ans <;> cases hr
  · rw [hn] at he
    have hr := h.replied n ((List.mem_append.1 he).resolve_left fun he => (hs _ he).1 _ rfl)
    rcases ho with ho | ho
    · rw [ho, hr]
    · rw [ho] at hr; cases hr
  · rw [hn, replies_append_silent hs]
    exact h.once

private theorem DriverLoc.other (hg : Grows i c c') (hj : j ≠ i) (h : DriverLoc c j d) : DriverLoc c' j d := by
  obtain ⟨new, hn, hby⟩ := hg.log
  have hops := hg.ops j hj
  refine ⟨?_, fun hc => ?_, fun ha => by rw [hops.progress]; exact h.settled ha⟩
  · have hzero : new.countP (Event.isReply j) = 0 := by
      rw [List.countP_eq_zero]
      intro e he hr
      have := hby e he
      cases e <;> first
        | cases hr
        | (simp only [Event.isReply, decide_eq_true_eq] at hr; exact hj (hr.symm.trans (this _ rfl)))
    rw [hn, Qeminga.replies, List.countP_append, hzero, Nat.zero_add]
    exact h.replies
  · rcases hops.outcome with ho | ⟨ho, -⟩
    · rw [ho]; exact h.commits hc
    · rw [h.commits hc] at ho; cases ho

private theorem Loc.other (hg : Grows i c c') (hj : j ≠ i) {u : Task} (h : Loc c j u) : Loc c' j u := by
  cases u with
  | driver d => exact DriverLoc.other hg hj h
  | _ => trivial

private theorem driver_move (hm : Driver.Move cfg c i fresh d c' d' new) (hw : d.WF) (hst : Started c i) {n : TaskId}
    (hg : Glob c n) (hl : DriverLoc c i d) : Glob c' n ∧ DriverLoc c' i d' := by
  have ha := hm.grows.log
  have hcommits : d'.pc.commits = true → (c'.ops i).outcome = .committed := fun h => by
    rcases hm.commits hw h with h | h
    · exact h
    · rcases hm.outcome with ho | ho
      · rw [ho]; exact hl.commits h
      · rw [hl.commits h] at ho; cases ho
  have hsettled : d'.pc.announced = false → (c'.ops i).progress.settled = none := fun h => by
    rcases hm.settled with ⟨hs, hann⟩ | hann
    · rw [hs]
      refine hl.settled (Bool.eq_false_iff.2 fun hd => ?_)
      rw [hann hd] at h
      cases h
    · rw [h] at hann; cases hann
  rcases hm.records with ⟨r, hr, hr', hlog, hk⟩ | ⟨hr, new, hlog, hs⟩
  · have hzero : replies i c.log = 0 := by rw [hl.replies, hr]; rfl
    have hone : replies i c'.log = 1 := by
      rw [hlog, replies, List.countP_cons_of_pos (by simp [Event.isReply]), ← replies, hzero]
    refine ⟨⟨fun op => ?_, fun op ans he => ?_, fun op r' he => ?_⟩, ⟨by rw [hone, hr']; rfl, hcommits, hsettled⟩⟩
    · by_cases hop : op = i
      · subst hop
        refine ⟨fun ans he => ?_, fun n he => ?_, Nat.le_of_eq hone⟩
        · rw [hlog] at he
          have hq := (hg.agrees op).requested ans ((List.mem_cons.1 he).resolve_left (by rintro ⟨⟩))
          rcases hm.outcome with ho | ho
          · rw [ho]; exact hq
          · rw [hq] at ho; cases ans <;> cases ho
        · rw [hlog] at he
          rcases List.mem_cons.1 he with he | he
          · -- the success goes out from the settlement of a committed operation
            cases he
            rcases hk with ⟨failure, hf⟩ | ⟨-, terminal, hpc⟩
            · cases hf
            · have hc : (c.ops op).outcome = .committed := hl.commits (by rw [hpc]; rfl)
              rcases hm.outcome with ho | ho
              · rw [ho]; exact hc
              · rw [hc] at ho; cases ho
          · have hpos : 0 < replies op c.log := List.countP_pos_iff.2 ⟨_, he, by simp [Event.isReply]⟩
            rw [hzero] at hpos
            cases hpos
      · have hlog : c'.log = [.replied i r] ++ c.log := hlog
        refine (hg.agrees op).silent (.inl (by rw [hm.ops hop])) hlog fun e he => ?_
        obtain rfl := List.mem_singleton.1 he
        exact ⟨fun r' h => hop (by cases h; rfl), fun ans h => by cases h⟩
    · rw [hlog] at he
      exact (hg.requested op ans ((List.mem_cons.1 he).resolve_left (by rintro ⟨⟩))).mono ha
    · rw [hlog] at he
      rcases List.mem_cons.1 he with he | he
      · cases he; exact hst.mono ha
      · exact (hg.replied op r' he).mono ha
  · refine ⟨⟨fun op => ?_, fun op ans he => ?_, fun op r' he => ?_⟩, ⟨?_, hcommits, hsettled⟩⟩
    · by_cases hop : op = i
      · subst hop
        exact (hg.agrees op).silent hm.outcome hlog (hs op)
      · exact (hg.agrees op).silent (.inl (by rw [hm.ops hop])) hlog (hs op)
    · rw [hlog] at he
      exact (hg.requested op ans ((List.mem_append.1 he).resolve_left fun he => (hs op _ he).2 _ rfl)).mono ha
    · rw [hlog] at he
      exact (hg.replied op r' ((List.mem_append.1 he).resolve_left fun he => (hs op _ he).1 _ rfl)).mono ha
    · rw [hlog, replies_append_silent (hs i), hr]
      exact hl.replies

/-- An abort request decides an undecided outcome, and is answered by it. -/
private theorem requested (ans : AbortRequest) {n : TaskId} (hst : Started c op) (hg : Glob c n)
    (hout : (c'.ops op).outcome = ans.outcome)
    (hdec : (c.ops op).outcome = ans.outcome ∨ (c.ops op).outcome = .open)
    (hops : ∀ j, j ≠ op → c'.ops j = c.ops j) (hlog : c'.log = .requested op ans :: c.log) : Glob c' n := by
  have ha : c.Adds op c' := ⟨[_], hlog, by simp [Event.By, Event.author]⟩
  have hdec : (c'.ops op).outcome = (c.ops op).outcome ∨ (c.ops op).outcome = .open := by rwa [hout, eq_comm (a := ans.outcome)]
  refine ⟨fun op' => ?_, fun op' ans' he => ?_, fun op' r he => ?_⟩
  · by_cases hop : op' = op
    · subst hop
      have h := hg.agrees op'
      refine ⟨fun ans' he => ?_, fun m he => ?_, ?_⟩
      · rw [hlog] at he
        rcases List.mem_cons.1 he with he | he
        · cases he; exact hout
        · have hr := h.requested ans' he
          rcases hdec with ho | ho
          · rw [ho, hr]
          · rw [ho] at hr; cases ans' <;> cases hr
      · rw [hlog] at he
        have hr := h.replied m ((List.mem_cons.1 he).resolve_left (by rintro ⟨⟩))
        rcases hdec with ho | ho
        · rw [ho, hr]
        · rw [ho] at hr; cases hr
      · rw [hlog, replies, List.countP_cons_of_neg (by simp [Event.isReply])]
        exact h.once
    · have hlog : c'.log = [.requested op ans] ++ c.log := hlog
      refine (hg.agrees op').silent (.inl (by rw [hops op' hop])) hlog fun e he => ?_
      obtain rfl := List.mem_singleton.1 he
      exact ⟨fun r h => (by cases h), fun ans' h => hop (by cases h; rfl)⟩
  · rw [hlog] at he
    rcases List.mem_cons.1 he with he | he
    · cases he; exact hst.mono ha
    · exact (hg.requested op' ans' he).mono ha
  · rw [hlog] at he
    exact (hg.replied op' r ((List.mem_cons.1 he).resolve_left (by rintro ⟨⟩))).mono ha

private theorem Glob.silent {n : TaskId} (hg : Glob c n) (ha : c.Adds i c')
    (hs : ∀ op, (c'.ops op).outcome = (c.ops op).outcome ∧ ∃ new, c'.log = new ++ c.log ∧ Silent op new) :
    Glob c' n := by
  refine ⟨fun op => ?_, fun op ans he => ?_, fun op r he => ?_⟩ <;> obtain ⟨ho, new, hn, hsil⟩ := hs op
  · exact (hg.agrees op).silent (.inl ho) hn hsil
  · rw [hn] at he
    exact (hg.requested op ans ((List.mem_append.1 he).resolve_left fun he => (hsil _ he).2 _ rfl)).mono ha
  · rw [hn] at he
    exact (hg.replied op r ((List.mem_append.1 he).resolve_left fun he => (hsil _ he).1 _ rfl)).mono ha

private theorem move {t t' : Task} (hm : Task.Move cfg c i fresh t c' t' new) {n : TaskId} (htok : Tokens.Loc c i t)
    (hreg : Registry.Loc c i t) (hg : Glob c n) (hl : Loc c i t) : Glob c' n ∧ Loc c' i t' := by
  have ha := hm.grows.log
  cases hm with
  | driver h => exact driver_move h htok.wf (hreg.driver _ rfl) hg hl
  | thaw h =>
    refine ⟨?_, trivial⟩
    rcases h.records with ⟨op, rfl, ho, rfl⟩ | ⟨op, rfl, ho, rfl⟩ | hs
    · refine requested .accepted (hreg.joins op rfl) hg ?_ ?_ (fun j hj => by simp [hj]) rfl <;>
        cases h : (c.ops op).outcome <;> simp_all [FreezeOp.markAborting, AbortRequest.outcome]
    · exact requested .committed (hreg.joins op rfl) hg ho (.inl ho) (fun j hj => by simp) rfl
    · exact hg.silent ha hs
  | dogClaims hs hc => exact ⟨hg.silent ha fun op => ⟨rfl, [_], rfl, by simp [Silent]⟩, trivial⟩
  | startInstall => exact ⟨hg.silent ha fun op => ⟨by simp, [], by simp, by simp [Silent]⟩, trivial⟩
  | _ => exact ⟨hg.silent ha fun op => ⟨rfl, [], rfl, by simp [Silent]⟩, trivial⟩

theorem reach {ok : Agent → Action → Agent → Prop} {a : Agent}
    (h : Machine.Reach (Agent.step cfg) ok Agent.Initial a) : a.Holds Glob Loc := by
  refine h.invariant (fun a h => ?_) (fun a act a' hr ih hs _ => ?_)
  · obtain ⟨c, n, rfl⟩ := h.booted
    have hlog : (Agent.bootCtx c).log = [] := h.log
    refine Agent.boot_holds ⟨fun op => ⟨fun ans he => ?_, fun n he => ?_, ?_⟩, fun op ans he => ?_, fun op r he => ?_⟩
      fun _ => trivial
    · rw [hlog] at he; cases he
    · rw [hlog] at he; cases he
    · rw [hlog]; exact Nat.zero_le _
    · rw [hlog] at he; cases he
    · rw [hlog] at he; cases he
  · have htok := Tokens.reach hr
    have hreg := Registry.reach hr
    refine Agent.holds_step ih hs ?_ ?_ ?_ ?_ ?_
    · intro i t c' t' new ht hm _
      obtain ⟨hG, hL⟩ := move hm (htok.loc ht) (hreg.loc ht) ih.glob (ih.loc ht)
      exact ⟨hG, fun _ hg => ⟨hg.agrees, hg.requested, hg.replied⟩, hL, fun _ _ => trivial,
        fun j u hj _ hu => hu.other hm.grows hj⟩
    · intro restrict _ _
      have hlog : (Agent.freezeCtx cfg a.ctx a.next restrict).log =
          [.spawned a.next .prep, .started a.next restrict a.ctx.snapshot] ++ a.ctx.log := rfl
      have hunused : ¬ Started a.ctx a.next := fun h => Nat.lt_irrefl _ (hreg.glob.started _ h)
      have hg : Grows a.next a.ctx (Agent.freezeCtx cfg a.ctx a.next restrict) :=
        ⟨rfl, Nat.le_refl _, fun j hj => by simpa [Agent.freezeCtx, hj] using FreezeOp.Observed.refl (a.ctx.ops j),
          _, hlog, by simp [Event.By, Event.author]⟩
      refine ⟨⟨fun op => ?_, fun op ans he => ?_, fun op r he => ?_⟩, ⟨?_, by rintro ⟨⟩, fun _ => ?_⟩, fun j u hj _ hu =>
        hu.other hg (Nat.ne_of_lt hj)⟩
      · by_cases hop : op = a.next
        · subst hop
          refine ⟨fun ans he => ?_, fun n he => ?_, ?_⟩
          · rw [hlog] at he
            exact absurd (ih.glob.requested _ _ (by simpa using he)) hunused
          · rw [hlog] at he
            exact absurd (ih.glob.replied _ _ (by simpa using he)) hunused
          · rw [hlog, replies_append_silent (by simp [Silent])]
            exact (ih.glob.agrees _).once
        · exact (ih.glob.agrees op).silent (.inl (by simp [Agent.freezeCtx, hop])) hlog (by simp [Silent])
      · rw [hlog] at he
        exact (ih.glob.requested op ans (by simpa using he)).mono hg.log
      · rw [hlog] at he
        exact (ih.glob.replied op r (by simpa using he)).mono hg.log
      · rw [hlog, replies_append_silent (by simp [Silent])]
        refine List.countP_eq_zero.2 fun e he hr => hunused ?_
        cases e <;> first
          | cases hr
          | (simp only [Event.isReply, decide_eq_true_eq] at hr; subst hr; exact ih.glob.replied _ _ he)
      · simp [Agent.freezeCtx, FreezeOp.start, Progress.initial]
    · exact ⟨⟨ih.glob.agrees, ih.glob.requested, ih.glob.replied⟩, trivial, trivial⟩
    · intro c' he _
      refine ⟨?_, fun j u _ hu => ?_⟩
      · cases he <;> exact ⟨fun op => ⟨(ih.glob.agrees op).requested, (ih.glob.agrees op).replied, (ih.glob.agrees op).once⟩,
          ih.glob.requested, ih.glob.replied⟩
      · cases u with
        | driver d =>
          have hu : DriverLoc a.ctx j d := hu
          cases he <;> exact ⟨hu.replies, hu.commits, hu.settled⟩
        | _ => trivial
    · intro _
      exact ⟨⟨fun op => ⟨(ih.glob.agrees op).requested, (ih.glob.agrees op).replied, (ih.glob.agrees op).once⟩,
        ih.glob.requested, ih.glob.replied⟩, fun _ => trivial⟩

end Decided

/-! ### The result -/

/-- In every run of the agent, under any environment: an accepted abort request excludes a successful reply, before
and after it; all abort requests on an operation get the same answer; and an operation that has settled has sent
exactly one reply (the one that has announced its settlement and not yet sent one sends it in its next step). -/
theorem abort_excludes_commit {cfg : Config} {ok : Agent → Action → Agent → Prop} {a : Agent}
    (h : Machine.Reach (Agent.step cfg) ok Agent.Initial a) (op : TaskId) :
    (∀ n, .requested op .accepted ∈ a.ctx.log → .replied op (.ok n) ∉ a.ctx.log) ∧
    (∀ n ans, .replied op (.ok n) ∈ a.ctx.log → .requested op ans ∈ a.ctx.log → ans = .committed) ∧
    (∀ x y, .requested op x ∈ a.ctx.log → .requested op y ∈ a.ctx.log → x = y) ∧
    replies op a.ctx.log ≤ 1 ∧
    (∀ d, a.tasks op = some (.driver d) → (a.ctx.ops op).progress.settled.isSome →
      replies op a.ctx.log = 1 ∨
        ∃ a', Agent.step cfg a (.task op (.driver .go)) = some a' ∧ replies op a'.ctx.log = 1) ∧
    (∀ d, a.tasks op = some (.driver d) → d.pc = .finished → replies op a.ctx.log = 1) := by
  have hdec := Decided.reach h
  have hagr := hdec.glob.agrees op
  refine ⟨fun n hreq hrep => ?_, fun n ans hrep hreq => ?_, fun x y hx hy => ?_, hagr.once, fun d hd hs => ?_,
    fun d hd hpc => ?_⟩
  · have h := hagr.requested _ hreq
    rw [hagr.replied n hrep] at h
    cases h
  · have h := hagr.requested _ hreq
    rw [hagr.replied n hrep] at h
    cases ans with
    | accepted => cases h
    | committed => rfl
  · have h := (hagr.requested x hx).symm.trans (hagr.requested y hy)
    cases x <;> cases y <;> first | rfl | cases h
  · have hl : Decided.DriverLoc a.ctx op d := hdec.loc hd
    have hann : d.pc.announced = true := by
      by_contra hne
      rw [hl.settled (by simpa using hne)] at hs
      cases hs
    cases hr : d.reply with
    | false =>
      left
      rw [hl.replies, hr]
      rfl
    | true =>
      right
      have hw : d.WF := (Tokens.reach h).loc hd |>.wf
      cases hpc : d.pc with
      | conclude stage terminal r =>
        cases stage with
        | reply =>
          refine ⟨_, by simp [Agent.step, hd, Task.step, Driver.step, Driver.go, hpc, Driver.concludeStep]; rfl, ?_⟩
          rw [Pool.apply_ctx]
          simp only [Driver.sends, hr, ↓reduceIte, Ctx.note_log]
          rw [replies, List.countP_cons_of_pos (by simp [Event.isReply]), ← replies, hl.replies, hr]
          rfl
        | _ => rw [hpc] at hann; cases hann
      | finished =>
        have hp : d.reply = false := (hw.at hpc).2.2.1
        rw [hr] at hp
        cases hp
      | _ => rw [hpc] at hann; cases hann
  · have hl : Decided.DriverLoc a.ctx op d := hdec.loc hd
    have hw : d.WF := (Tokens.reach h).loc hd |>.wf
    have hp : d.phase .finished := hw.at hpc
    rw [hl.replies, hp.2.2.1]
    rfl

/-- A thaw request that arrives during the preparation. -/
private def requestInPreparation : List Action :=
  [.freeze none, .thaw] ++ Script.proceed 2 6 ++
    [Script.driver 1 (.job (.table (.ok []))), Script.driver 1 .abortRequested] ++ Script.drive 1 7 ++
    [Script.driver 1 (.job (.create (.ok ()))), Script.driver 1 (.job (.fsync (.ok ()))), Script.driver 1 .done] ++
    Script.drive 1 2 ++ [Script.driver 1 (.job (.unlink .ok)), Script.driver 1 .done] ++ Script.drive 1 7

private def Event.isAccepted (op : TaskId) : Event → Bool
  | .requested i .accepted => i = op
  | _ => false

private theorem mem_of_any_isAccepted {op : TaskId} {log : List Event} (h : log.any (Event.isAccepted op) = true) :
    .requested op .accepted ∈ log := by
  obtain ⟨e, he, hp⟩ := List.any_eq_true.1 h
  cases e <;> first
    | cases hp
    | (rename_i i ans; cases ans <;> first
        | cases hp
        | (obtain rfl : i = op := by simpa [Event.isAccepted] using hp
           exact he))

theorem abort_excludes_commit_on_request :
    ∃ a, Machine.Reach (Agent.step ⟨60, 30, 300⟩) (fun _ _ _ => True) Agent.Initial a ∧
      .requested 1 .accepted ∈ a.ctx.log ∧ (∀ n, .replied 1 (.ok n) ∉ a.ctx.log) ∧ replies 1 a.ctx.log ≤ 1 ∧
      a.ctx.state = .thawed := by
  obtain ⟨a, hr, hp⟩ : ∃ a, Machine.Reach (Agent.step ⟨60, 30, 300⟩) (fun _ _ _ => True) Agent.Initial a ∧
      (a.ctx.log.any (Event.isAccepted 1) && decide (a.ctx.state = .thawed)) = true :=
    Machine.Reach.of_execute (fun _ _ _ => true) (fun _ _ _ _ => trivial) requestInPreparation
      (fun a => a.ctx.log.any (Event.isAccepted 1) && decide (a.ctx.state = .thawed)) (Agent.cold_initial false)
      (by decide) (by decide)
  rw [Bool.and_eq_true, decide_eq_true_eq] at hp
  have hreq := mem_of_any_isAccepted hp.1
  obtain ⟨h₁, -, -, h₄, -⟩ := abort_excludes_commit hr 1
  exact ⟨a, hr, hreq, fun n => h₁ n hreq, h₄, hp.2⟩

end Qeminga
