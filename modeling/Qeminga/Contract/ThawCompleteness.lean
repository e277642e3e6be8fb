import Qeminga.Lib.History
import Qeminga.Invariant.Cover

/-!
# Thaw completeness

A thaw answers a count only after `Thawed` was published, by itself or by the aborted operation that it joined, and
when `Thawed` is published nothing that the agent froze is still frozen.
-/

namespace Qeminga

/-- The event is a publication of the state or the answer to a thaw. -/
def Event.isVerdict : Event → Bool
  | .published _ _ _ => true
  | .answered _ _ _ => true
  | _ => false

/-- The task `i` published `Thawed`, with nothing frozen. -/
def PublishedThawed (log : List Event) (i : TaskId) : Prop :=
  ∃ now : Snapshot, .published i .thawed now ∈ log ∧ ∀ d, now.own d = false

/-- What publications and answers rest on. -/
def Event.Complete (e : Event) (older : List Event) : Prop :=
  match e with
  | .published _ .thawed now => ∀ d, now.own d = false
  | .answered i (.ok _) op => PublishedThawed older (op.getD i)
  | _ => True

theorem Event.complete_of_not_isVerdict {e : Event} (h : e.isVerdict = false) (older : List Event) :
    e.Complete older := by
  cases e <;> trivial

theorem PublishedThawed.mono {log new : List Event} {i : TaskId} (h : PublishedThawed log i) :
    PublishedThawed (new ++ log) i := by
  obtain ⟨now, he, hn⟩ := h
  exact ⟨now, List.mem_append_right _ he, hn⟩

/-- The terminal of a settlement whose state is published and not yet announced. -/
def Pc.settlesAs : Pc → Option Terminal
  | .conclude .arm terminal _ => some terminal
  | .conclude (.install _) terminal _ => some terminal
  | .conclude .settled terminal _ => some terminal
  | _ => none

theorem Ctx.Calls.noVerdict {i : TaskId} {c c' : Ctx} (h : c.Calls i c') :
    ∃ new, c'.log = new ++ c.log ∧ ∀ e ∈ new, e.isVerdict = false := by
  obtain ⟨new, hn, hcall⟩ := h.calls
  refine ⟨new, hn, fun e he => ?_⟩
  have := (hcall e he).2
  cases e <;> first | rfl | cases this

/-- A driver gives no verdict but its publication. -/
theorem Driver.Move.verdict {cfg : Config} {c c' : Ctx} {i fresh : TaskId} {d d' : Driver} {new : Option Dog}
    (hm : Driver.Move cfg c i fresh d c' d' new) :
    (d.pc.published = false ∧ d'.pc.published = true) ∨ ∃ new, c'.log = new ++ c.log ∧ ∀ e ∈ new, e.isVerdict = false := by
  cases hm
  case publish terminal reply hpc ht => exact .inl ⟨by rw [hpc]; rfl, by cases terminal <;> rfl⟩
  case publishNone terminal reply hpc ht hth => exact .inl ⟨by rw [hpc]; rfl, by cases terminal <;> rfl⟩
  case call hc => exact .inr hc.calls.noVerdict
  case drain hc => exact .inr (Ctx.fithaw_calls hc).noVerdict
  case interrupt hc => rcases hc with rfl | rfl <;> exact .inr ⟨[], rfl, by simp⟩
  case cancel => exact .inr ⟨[], by simp, by simp⟩
  case install => exact .inr ⟨[], by simp, by simp⟩
  case retire => exact .inr ⟨[], by simp, by simp⟩
  all_goals first
    | exact .inr ⟨[], rfl, by simp⟩
    | exact .inr ⟨[_], rfl, by simp [Event.isVerdict]⟩
    | exact .inr ⟨[_, _], rfl, by simp [Event.isVerdict]⟩
    | exact .inr ⟨[_, _, _], rfl, by simp [Event.isVerdict]⟩

/-- The settlement is announced as it was published. -/
theorem Driver.Move.announces {cfg : Config} {c c' : Ctx} {i fresh : TaskId} {d d' : Driver} {new : Option Dog}
    (hm : Driver.Move cfg c i fresh d c' d' new) :
    (c'.ops i).progress.settled = (c.ops i).progress.settled ∨
      ∃ terminal, d.pc.settlesAs = some terminal ∧ (c'.ops i).progress.settled = some terminal.state := by
  cases hm
  case call hc => rw [hc.calls.ops]; exact .inl rfl
  case drain hc => rw [(Ctx.fithaw_calls hc).ops]; exact .inl rfl
  case interrupt hc => rcases hc with rfl | rfl <;> exact .inl (by simp)
  case settle terminal reply hpc => exact .inr ⟨terminal, by rw [hpc]; rfl, by simp⟩
  all_goals exact .inl (by simp)

theorem Driver.Move.settlesAs {cfg : Config} {c c' : Ctx} {i fresh : TaskId} {d d' : Driver} {new : Option Dog}
    (hm : Driver.Move cfg c i fresh d c' d' new) {terminal : Terminal} (h : d'.pc.settlesAs = some terminal) :
    d.pc.settlesAs = some terminal ∨ (d.pc.published = false ∧ d'.pc.published = true) := by
  cases hm
  case publish terminal' reply hpc ht => exact .inr ⟨by rw [hpc]; rfl, by cases terminal' <;> rfl⟩
  case publishNone terminal' reply hpc ht hth => exact .inr ⟨by rw [hpc]; rfl, by cases terminal' <;> rfl⟩
  case arm hpc => exact .inl (by rw [hpc]; exact h)
  case install hpc => exact .inl (by rw [hpc]; exact h)
  case joinDrain => exact .inl h
  case joinDrainRestart => exact .inl h
  case settleDrain => exact .inl h
  case drain => exact .inl h
  case loseDrain => exact .inl h
  case froze hd => subst hd; cases h
  case busy hd => subst hd; cases h
  case announce k hpc =>
    cases k with
    | boundary b => cases b <;> cases h
    | «await» tr => cases h
  case call ht hc => rcases tracked_cases ht with ⟨-, he⟩ | ⟨stage, -, he⟩ <;> rw [he] at h <;> cases h
  case lose ht => rcases tracked_cases ht with ⟨-, he⟩ | ⟨stage, -, he⟩ <;> rw [he] at h <;> cases h
  case commit terminal' reply hpc => cases terminal' <;> cases h
  all_goals cases h

/-- A thaw changes the progress of no operation. -/
theorem Thaw.Move.progress {cfg : Config} {c c' : Ctx} {i fresh : TaskId} {pc pc' : ThawPc} {new : Option Dog}
    (hm : Thaw.Move cfg c i fresh pc c' pc' new) (op : TaskId) : (c'.ops op).progress = (c.ops op).progress := by
  cases hm
  case call hc => rw [hc.calls.ops]
  case accepted op' ho => by_cases h : op = op' <;> simp [h]
  case notify op' => by_cases h : op = op' <;> simp [h]
  all_goals simp

/-- A thaw gives no verdict but its publication and its answer. -/
theorem Thaw.Move.verdict {cfg : Config} {c c' : Ctx} {i fresh : TaskId} {pc pc' : ThawPc} {new : Option Dog}
    (hm : Thaw.Move cfg c i fresh pc c' pc' new) :
    (∃ token outcome, pc = .publish token outcome ∧ c'.log = .published i .thawed c.snapshot :: c.log ∧
        pc' = .answer (reply outcome) none) ∨
      (∃ token failure, pc = .fail token failure ∧ c'.log = .published i .frozen c.snapshot :: c.log ∧
        pc' = .arm failure) ∨
      (∃ r op, pc = .answer r op ∧ c'.log = .answered i r op :: c.log ∧ pc' = .finished) ∨
      ((∃ new, c'.log = new ++ c.log ∧ ∀ e ∈ new, e.isVerdict = false) ∧
        ∀ n op, pc' = .answer (.ok n) op → ∃ j, op = some j ∧ (c.ops j).progress.settled = some .thawed) := by
  cases hm
  case publish token outcome => exact .inl ⟨token, outcome, rfl, rfl, rfl⟩
  case fail token failure => exact .inr (.inl ⟨token, failure, rfl, rfl, rfl⟩)
  case answer r op => exact .inr (.inr (.inl ⟨r, op, rfl, rfl, rfl⟩))
  case readProgress op =>
    refine .inr (.inr (.inr ⟨⟨[], rfl, by simp⟩, fun n op' h => ?_⟩))
    simp only [ThawPc.answer.injEq, joinAnswer] at h
    refine ⟨op, h.2.symm, ?_⟩
    have h := h.1
    split at h <;> first | assumption | cases h
  case call hc => exact .inr (.inr (.inr ⟨hc.calls.noVerdict, fun n op h => by cases h⟩))
  case hold token outcome held =>
    refine .inr (.inr (.inr ⟨⟨[], rfl, by simp⟩, fun n op h => ?_⟩))
    cases outcome with
    | ok n => cases h
    | error failure =>
      simp only [settles] at h
      split at h <;> cases h
  case cancel => exact .inr (.inr (.inr ⟨⟨[], by simp, by simp⟩, fun n op h => by cases h⟩))
  case install => exact .inr (.inr (.inr ⟨⟨[], by simp, by simp⟩, fun n op h => by cases h⟩))
  all_goals first
    | exact .inr (.inr (.inr ⟨⟨[], rfl, by simp⟩, fun n op h => by cases h⟩))
    | exact .inr (.inr (.inr ⟨⟨[_], rfl, by simp [Event.isVerdict]⟩, fun n op h => by cases h⟩))

namespace Completeness

structure Glob (c : Ctx) (_ : TaskId) : Prop where
  log : Justified Event.Complete c.log
  settled : ∀ op, (c.ops op).progress.settled = some .thawed → PublishedThawed c.log op

def Loc (c : Ctx) (i : TaskId) : Task → Prop
  | .driver d => d.pc.settlesAs = some .thawed → PublishedThawed c.log i
  | .thaw _ (.answer (.ok _) op) => PublishedThawed c.log (op.getD i)
  | _ => True

variable {cfg : Config} {c c' : Ctx} {i fresh : TaskId} {t t' : Task} {new : Option Dog}

theorem Loc.mono {j : TaskId} {u : Task} (hlog : ∃ new, c'.log = new ++ c.log) (h : Loc c j u) : Loc c' j u := by
  obtain ⟨new, hn⟩ := hlog
  cases u with
  | driver d => exact fun hs => hn ▸ (h hs).mono
  | thaw w pc =>
    cases pc with
    | answer r op =>
      cases r with
      | ok n =>
        have h : PublishedThawed c.log (op.getD j) := h
        show PublishedThawed c'.log (op.getD j)
        rw [hn]
        exact h.mono
      | error err => trivial
    | _ => trivial
  | _ => trivial

/-- The observers' view of every operation after a step that gives no verdict on one. -/
private theorem Glob.quiet {n m : TaskId} (h : Glob c n) {new : List Event} (hn : c'.log = new ++ c.log)
    (hq : ∀ e ∈ new, e.isVerdict = false)
    (hs : ∀ op, (c'.ops op).progress.settled = some .thawed → PublishedThawed c.log op) : Glob c' m where
  log := by
    rw [hn]
    exact h.log.append fun e he => Event.complete_of_not_isVerdict (hq e he)
  settled := by
    intro op ho
    rw [hn]
    exact (hs op ho).mono

private theorem settled_of_grows (hm : Grows i c c') {n : TaskId} (h : Glob c n)
    (hi : (c'.ops i).progress.settled = some .thawed → PublishedThawed c.log i) (op : TaskId)
    (ho : (c'.ops op).progress.settled = some .thawed) : PublishedThawed c.log op := by
  by_cases hop : op = i
  · subst hop
    exact hi ho
  · rw [(hm.ops op hop).progress] at ho
    exact h.settled op ho

private theorem move_driver {d d' : Driver} (hm : Driver.Move cfg c i fresh d c' d' new) {n : TaskId} (hw : d.WF)
    (hcov : Cover.Loc c i (.driver d)) (hg : Glob c n) (hl : Loc c i (.driver d)) :
    Glob c' n ∧ Loc c' i (.driver d') := by
  have hset : (c'.ops i).progress.settled = some .thawed → PublishedThawed c.log i := by
    intro ho
    rcases hm.announces with h | ⟨terminal, ht, h⟩
    · rw [h] at ho
      exact hg.settled i ho
    · rw [h] at ho
      cases terminal with
      | thawed => exact hl ht
      | frozen => cases ho
  have hset := settled_of_grows hm.grows hg hset
  rcases hm.verdict with ⟨hp, hp'⟩ | ⟨new, hn, hq⟩
  · obtain ⟨terminal, reply, hpc, rfl, rfl⟩ := hm.publication hw hp hp'
    have hclean : terminal = .thawed → c.Clean := by
      rintro rfl
      exact (hcov hp).clean (by rw [hpc]; rfl)
    have hmono : ∀ {j}, PublishedThawed c.log j → PublishedThawed (.published i terminal.state c.snapshot :: c.log) j := by
      rintro j ⟨now, he, hn⟩
      exact ⟨now, List.mem_cons_of_mem _ he, hn⟩
    refine ⟨⟨⟨?_, hg.log⟩, fun op ho => hmono (hset op ho)⟩, fun ht => ?_⟩
    · cases terminal with
      | thawed => exact hclean rfl
      | frozen => trivial
    · cases terminal with
      | thawed => exact ⟨c.snapshot, List.mem_cons_self, hclean rfl⟩
      | frozen => cases ht
  · refine ⟨hg.quiet hn hq hset, fun ht => ?_⟩
    rcases hm.settlesAs ht with ht | ⟨hp, hp'⟩
    · rw [hn]
      exact (hl ht).mono
    · -- the publication is itself a verdict
      obtain ⟨terminal, reply, -, rfl, -⟩ := hm.publication hw hp hp'
      have hlog : new ++ c.log = [.published i terminal.state c.snapshot] ++ c.log := hn.symm
      obtain rfl := List.append_cancel_right hlog
      cases hq _ List.mem_cons_self

private theorem move (hm : Task.Move cfg c i fresh t c' t' new) {n : TaskId} (hw : t.WF) (hcov : Cover.Loc c i t)
    (hg : Glob c n) (hl : Loc c i t) : Glob c' n ∧ Loc c' i t' := by
  cases hm with
  | driver h => exact move_driver h hw hcov hg hl
  | @thaw w pc pc' c' new h =>
    have hset : ∀ op, (c'.ops op).progress.settled = some .thawed → PublishedThawed c.log op := by
      intro op ho
      exact hg.settled op (by rw [← h.progress]; exact ho)
    rcases h.verdict with ⟨token, outcome, rfl, hlog, rfl⟩ | ⟨token, failure, rfl, hlog, rfl⟩ |
      ⟨r, op, rfl, hlog, rfl⟩ | ⟨⟨new, hn, hq⟩, hans⟩
    · have hclean : c.Clean := hcov
      refine ⟨⟨?_, fun op ho => ?_⟩, ?_⟩
      · rw [hlog]
        exact ⟨hclean, hg.log⟩
      · obtain ⟨now, he, hn⟩ := hset op ho
        exact ⟨now, by rw [hlog]; exact List.mem_cons_of_mem _ he, hn⟩
      · cases outcome with
        | ok m => exact ⟨c.snapshot, by rw [hlog]; exact List.mem_cons_self, hclean⟩
        | error failure => trivial
    · refine ⟨⟨?_, fun op ho => ?_⟩, trivial⟩
      · rw [hlog]
        exact ⟨trivial, hg.log⟩
      · obtain ⟨now, he, hn⟩ := hset op ho
        exact ⟨now, by rw [hlog]; exact List.mem_cons_of_mem _ he, hn⟩
    · refine ⟨⟨?_, fun op ho => ?_⟩, trivial⟩
      · rw [hlog]
        cases r with
        | ok m => exact ⟨hl, hg.log⟩
        | error err => exact ⟨trivial, hg.log⟩
      · obtain ⟨now, he, hn⟩ := hset op ho
        exact ⟨now, by rw [hlog]; exact List.mem_cons_of_mem _ he, hn⟩
    · refine ⟨hg.quiet hn hq hset, ?_⟩
      cases pc' with
      | answer r op =>
        cases r with
        | ok m =>
          obtain ⟨j, rfl, hj⟩ := hans m op rfl
          show PublishedThawed c'.log j
          rw [hn]
          exact (hg.settled j hj).mono
        | error err => trivial
      | _ => trivial
  | dogClaims hs hc =>
    refine ⟨hg.quiet (List.singleton_append.symm : _ = [.claimed i ⟨.frozen⟩] ++ c.log) ?_ hg.settled, trivial⟩
    simp [Event.isVerdict]
  | startInstall =>
    refine ⟨hg.quiet ?_ (fun e he => absurd he List.not_mem_nil) (by simpa using hg.settled), trivial⟩
    simp
  | _ => exact ⟨hg.quiet (List.nil_append c.log).symm (fun e he => absurd he List.not_mem_nil) hg.settled, trivial⟩

/-- Every publication of `Thawed` and every counted answer is justified, in every reachable state. -/
theorem reach {a : Agent} (h : Machine.Reach (Agent.step cfg) Cover.Assumed Agent.Initial a) :
    a.Holds Glob Loc := by
  refine h.invariant (fun a h => ?_) (fun a act a' hr ih hs hok => ?_)
  · obtain ⟨c, n, rfl⟩ := h.booted
    have hlog : (Agent.bootCtx c).log = [] := h.log
    refine Agent.boot_holds ⟨by rw [hlog]; trivial, fun op ho => ?_⟩ fun _ => trivial
    have := h.ops op
    rw [show (Agent.boot c n).ctx = Agent.bootCtx c from rfl, ho] at this
    cases this
  · have htok := Tokens.reach hr
    have hcov := Cover.reach hr
    refine Agent.holds_step ih hs ?_ ?_ ?_ ?_ ?_
    · rintro i t c' t' new ht hm ⟨hc, -⟩
      obtain ⟨hG, hL⟩ := move hm (htok.loc ht).wf (hcov.loc ht) ih.glob (ih.loc ht)
      obtain ⟨new, hn, -⟩ := hm.grows.log
      exact ⟨hG, fun _ hG => ⟨hG.log, hG.settled⟩, hL, fun _ _ => trivial, fun j u _ _ hl => hl.mono ⟨new, hn⟩⟩
    · intro restrict hst _
      have hn : (Agent.freezeCtx cfg a.ctx a.next restrict).log =
          [.spawned a.next .prep, .started a.next restrict a.ctx.snapshot] ++ a.ctx.log := rfl
      refine ⟨ih.glob.quiet hn (by simp [Event.isVerdict]) fun op ho => ih.glob.settled op ?_, (fun hs => by cases hs),
        fun j u _ _ hl => hl.mono ⟨_, hn⟩⟩
      by_cases hop : op = a.next
      · subst hop
        simp [Agent.freezeCtx, FreezeOp.start, Progress.initial] at ho
      · simpa [Agent.freezeCtx, Function.update_of_ne hop] using ho
    · exact ⟨⟨ih.glob.log, ih.glob.settled⟩, trivial, trivial⟩
    · intro c' he _
      cases he <;> exact ⟨⟨ih.glob.log, ih.glob.settled⟩, fun j u _ hl => hl.mono ⟨[], rfl⟩⟩
    · intro _
      exact ⟨⟨ih.glob.log, ih.glob.settled⟩, fun _ => trivial⟩

end Completeness

/-! ### The result -/

/-- In every run on an honest kernel whose mount table lists what the agent froze: when a thaw answered a count, then
before it `Thawed` had been published, by the thaw or by the operation it joined, at an instant at which nothing that
the agent froze was still frozen; and in the state `Frozen` with the tracked scope the held handles cover everything
that the agent left frozen. -/
theorem thaw_answers_complete {cfg : Config} {a : Agent}
    (h : Machine.Reach (Agent.step cfg) Cover.Assumed Agent.Initial a) :
    (∀ newer i n op older, a.ctx.log = newer ++ .answered i (.ok n) op :: older →
      ∃ now : Snapshot, .published (op.getD i) .thawed now ∈ older ∧ ∀ d, now.own d = false) ∧
    (a.ctx.state = .frozen → a.ctx.scope = .tracked → ∀ d, a.ctx.own d = true → d ∈ devs a.ctx.held) := by
  refine ⟨fun newer i n op older hlog => ?_, (Cover.reach h).glob.tracked⟩
  have hj := (Completeness.reach h).glob.log
  rw [hlog] at hj
  exact hj.of_append

/-- The latest event is the answer of `i` to a thaw, with the count `n`. -/
private def answersCount (i : TaskId) (n : Nat) : List Event → Bool
  | .answered j (.ok m) none :: _ => j = i && m = n
  | _ => false

private theorem eq_of_answersCount {i : TaskId} {n : Nat} {log : List Event} (h : answersCount i n log = true) :
    ∃ older, log = [] ++ .answered i (.ok n) none :: older := by
  unfold answersCount at h
  split at h
  · simp only [Bool.and_eq_true, decide_eq_true_eq] at h
    exact ⟨_, by rw [h.1, h.2]; rfl⟩
  · cases h

theorem thaw_answers_complete_after_freeze :
    ∃ a, Machine.Reach (Agent.step ⟨60, 30, 300⟩) Cover.Assumed Agent.Initial a ∧
      .answered 3 (.ok 1) none ∈ a.ctx.log ∧
      ∃ now : Snapshot, .published 3 .thawed now ∈ a.ctx.log ∧ ∀ d, now.own d = false := by
  obtain ⟨a, hr, hp⟩ : ∃ a, Machine.Reach (Agent.step ⟨60, 30, 300⟩) Cover.Assumed Agent.Initial a ∧
      answersCount 3 1 a.ctx.log = true :=
    Machine.Reach.of_execute (allows Cover.assumed) Cover.Assumed.of_check
      (Script.freezeOne ++ Script.thawOne) (fun a => answersCount 3 1 a.ctx.log) (Agent.cold_initial false) (by decide)
      (by decide)
  obtain ⟨older, hlog⟩ := eq_of_answersCount hp
  obtain ⟨now, he, hn⟩ := (thaw_answers_complete hr).1 [] 3 1 none older hlog
  exact ⟨a, hr, by rw [hlog]; exact List.mem_cons_self, now, by rw [hlog]; exact List.mem_cons_of_mem _ he, hn⟩

end Qeminga
