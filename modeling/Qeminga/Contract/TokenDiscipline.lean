import Qeminga.Invariant.Handles

/-!
# The discipline of the tokens

The state machine sets its state without looking at it when a token is given back, so it is only as safe as the use of
the tokens.  There is one token at a time, its kind is that of the state, each change of the state is an edge of the
machine taken with the token of that edge, and a task gives back the token it obtained exactly once.
-/

namespace Qeminga

/-- A token of the state machine. -/
inductive Token
  | freeze (t : FreezeToken)
  | thaw (t : ThawToken)
  deriving DecidableEq, Repr

/-- The edges of the state machine, with the token before and after. -/
inductive Edge : FreezeState → Option Token → FreezeState → Option Token → Prop
  | beginFreeze : Edge .thawed none .freezing (some (.freeze ⟨⟩))
  | freezeSucceeded (t : FreezeToken) : Edge .freezing (some (.freeze t)) .frozen none
  | freezeFailed (t : FreezeToken) : Edge .freezing (some (.freeze t)) .thawed none
  | abortFreeze (t : FreezeToken) : Edge .freezing (some (.freeze t)) .thawing (some (.thaw ⟨.freezing⟩))
  | claimThaw : Edge .frozen none .thawing (some (.thaw ⟨.frozen⟩))
  | claimRecovery : Edge .thawed none .thawing (some (.thaw ⟨.thawed⟩))
  | thawSucceeded (t : ThawToken) : Edge .thawing (some (.thaw t)) .thawed none
  | thawFailed (t : ThawToken) : Edge .thawing (some (.thaw t)) .frozen none

/-- The token a task holds. -/
def Task.token? (t : Task) : Option Token := (t.freezeToken.map Token.freeze).or (t.thawToken.map Token.thaw)

/-- The token that the task `i` of the agent holds. -/
def Agent.token? (a : Agent) (i : TaskId) : Option Token := (a.tasks i).bind Task.token?

/-- The event is the receipt of a token by the task `i`. -/
def Event.obtains (i : TaskId) : Event → Bool
  | .started j _ _ => j = i
  | .claimed j _ => j = i
  | _ => false

/-- The event is the return of a token by the task `i`. -/
def Event.returns (i : TaskId) : Event → Bool
  | .published j _ _ => j = i
  | _ => false

variable {cfg : Config} {c c' : Ctx} {i fresh : TaskId} {t t' : Task} {new : Option Dog}

/-! ### One step -/

theorem Task.token?_isSome (t : Task) : t.token?.isSome = t.holdsToken := by
  simp [Task.token?, Task.holdsToken, Option.isSome_or]

theorem Task.token?_freeze {tk : FreezeToken} (h : t.token? = some (.freeze tk)) : t.freezeToken = some tk := by
  unfold Task.token? at h
  cases hf : t.freezeToken with
  | some tk' => rfl
  | none => cases ht : t.thawToken <;> rw [hf, ht] at h <;> cases h

theorem Task.token?_thaw {tk : ThawToken} (h : t.token? = some (.thaw tk)) : t.thawToken = some tk := by
  unfold Task.token? at h
  cases hf : t.freezeToken with
  | some tk' => rw [hf] at h; cases h
  | none => cases ht : t.thawToken <;> rw [hf, ht] at h <;> cases h; rfl

/-- A driver holds one token, and swaps the freeze token for the thaw token at an abort. -/
theorem Driver.WF.one_token {d : Driver} (h : d.WF) : d.token = none ∨ d.thawToken = none := by
  have hp := h.phase
  cases hpc : d.pc with
  | head rest => rw [hpc] at hp; exact hp.elim (fun h => .inr h.thawToken) fun h => .inl h.token
  | decide b => rw [hpc] at hp; exact .inr (Open.thawToken hp)
  | decideClock b => rw [hpc] at hp; exact .inr (Open.thawToken hp)
  | tryCommit => rw [hpc] at hp; exact .inr (Open.thawToken hp)
  | settling => rw [hpc] at hp; exact .inl (Recovering.token hp)
  | finished => rw [hpc] at hp; exact .inl hp.1
  | aborting stage k =>
    rw [hpc] at hp
    have hp := hp.1
    cases stage
    case publish => exact .inl (Recovering.token hp)
    case recover => exact .inl (by simpa using Aborting.token hp)
    case watchdog => exact .inl (by simpa using Aborting.token hp)
    case reply => exact .inl (by simpa using Aborting.token hp)
    all_goals exact .inr (by simpa using Aborting.thawToken hp)
  | «await» tr =>
    rw [hpc] at hp
    cases tr with
    | prep j => exact hp.elim (fun h => .inr h.thawToken) fun h => .inl h.token
    | worker t rest j => exact hp.elim (fun h => .inr h.thawToken) fun h => .inl h.token
    | rollback j => exact .inr (Open.thawToken hp)
    | removal k j =>
      cases k with
      | aborted => exact .inl hp.1.token
      | nothingFrozen => exact .inr (Open.thawToken hp)
      | beforeIoctl failure => exact .inr (Open.thawToken hp)
  | conclude stage terminal reply =>
    rw [hpc] at hp
    have hconcl : Concluding d → d.token = none ∨ d.thawToken = none := fun h =>
      h.tokens.elim (fun h => .inr h.2.2.1) fun h => .inl h.2.1
    cases stage <;> first | exact hconcl hp | exact .inl (Concluded.token hp)

/-- Every step of a task leaves the state and its token alone, or takes an edge of the state machine. -/
theorem Task.Move.edge (hm : Task.Move cfg c i fresh t c' t' new) (hl : Tokens.Loc c i t) :
    (t'.token? = t.token? ∧ c'.state = c.state) ∨ Edge c.state t.token? c'.state t'.token? := by
  have hw := hl.wf
  cases hm with
  | @driver d d' c' new h =>
    have hw : d.WF := hw
    have htoken : ∀ {tk : FreezeToken}, d.token = some tk → c.state = .freezing := fun hd =>
      hl.freezing (by simp [Task.freezeToken, hd])
    rcases h.tokens hw with ⟨h₁, h₂, h₃, -⟩ | ⟨h₁, h₂, h₃, h₄, -⟩ | ⟨h₁, h₂, h₃, h₄, -⟩
    · exact .inl ⟨by simp [Task.token?, Task.freezeToken, Task.thawToken, h₁, h₂], h₃⟩
    · obtain ⟨tk, hd⟩ := Option.isSome_iff_exists.1 h₁
      right
      rw [htoken hd, h₄]
      simpa [Task.token?, Task.freezeToken, Task.thawToken, hd, h₂, h₃] using Edge.abortFreeze tk
    · right
      cases hd : d.token with
      | some tk =>
        rw [htoken hd]
        rcases h₄ with h₄ | h₄ <;> rw [h₄] <;>
          simp only [Task.token?, Task.freezeToken, Task.thawToken, hd, h₂, h₃, Option.map_some, Option.map_none,
            Option.some_or, Option.none_or]
        · exact .freezeFailed tk
        · exact .freezeSucceeded tk
      | none =>
        rw [hd, Option.isSome_none, Bool.false_or] at h₁
        obtain ⟨tk, hth⟩ := Option.isSome_iff_exists.1 h₁
        rw [hl.thawing h₁]
        rcases h₄ with h₄ | h₄ <;> rw [h₄] <;>
          simp only [Task.token?, Task.freezeToken, Task.thawToken, hd, hth, h₂, h₃, Option.map_some, Option.map_none,
            Option.none_or]
        · exact .thawSucceeded tk
        · exact .thawFailed tk
  | @thaw w pc pc' c' new h =>
    rcases h.tokens with ⟨h₁, h₂, -⟩ | ⟨h₁, h₂, h₃, h₄, -⟩ | ⟨h₁, h₂, h₃, -⟩
    · exact .inl ⟨by simp [Task.token?, Task.freezeToken, Task.thawToken, h₁], h₂⟩
    · right
      rw [h₄]
      simp only [Task.token?, Task.freezeToken, Task.thawToken, h₁, h₂, Option.map_some, Option.map_none, Option.none_or]
      rcases h₃ with h₃ | h₃ <;> rw [h₃]
      · exact .claimThaw
      · exact .claimRecovery
    · right
      obtain ⟨tk, hpc⟩ := Option.isSome_iff_exists.1 h₁
      rw [hl.thawing h₁]
      rcases h₃ with h₃ | h₃ <;> rw [h₃] <;>
        simp only [Task.token?, Task.freezeToken, Task.thawToken, hpc, h₂, Option.map_some, Option.map_none,
          Option.none_or]
      · exact .thawSucceeded tk
      · exact .thawFailed tk
  | dogClaims hs hc =>
    right
    rw [hc]
    exact .claimThaw
  | startInstall => exact .inl ⟨rfl, by simp⟩
  | _ => exact .inl ⟨rfl, rfl⟩

/-! ### The uses of a token -/

/-- The event neither obtains nor returns a token for the task `i`. -/
def Event.Tokenless (i : TaskId) (e : Event) : Prop := e.obtains i = false ∧ e.returns i = false

/-- The task has claimed no token yet. -/
def Task.unclaimed : Task → Bool
  | .thaw _ .claim => true
  | .thaw _ (.lookup _) => true
  | .thaw _ (.reclaim _) => true
  | .thaw _ (.requestAbort _) => true
  | .thaw _ (.notify _) => true
  | .thaw _ (.waitSettled _) => true
  | .thaw _ (.joinClaim _) => true
  | .thaw _ (.readProgress _) => true
  | .thaw _ _ => false
  | .driver _ => false
  | _ => true

/-- What a step of a task records of its token: nothing, the claim, or the return. -/
inductive Task.Uses (c : Ctx) (i : TaskId) (t : Task) (c' : Ctx) (t' : Task) : Prop
  | none (hh : t'.holdsToken = t.holdsToken) (hu : t'.unclaimed = true → t.unclaimed = true)
      (hlog : ∃ log', c'.log = log' ++ c.log ∧ ∀ e ∈ log', e.Tokenless i)
  | claim (hh : t.holdsToken = false) (hu : t.unclaimed = true) (hh' : t'.holdsToken = true) (hu' : t'.unclaimed = false)
      (hlog : ∃ tk, c'.log = .claimed i tk :: c.log)
  | give (hh : t.holdsToken = true) (hh' : t'.holdsToken = false) (hu' : t'.unclaimed = false)
      (hlog : ∃ s now, c'.log = .published i s now :: c.log)

private theorem tokenless_of_calls (h : c.Calls i c') : ∃ log', c'.log = log' ++ c.log ∧ ∀ e ∈ log', e.Tokenless i := by
  obtain ⟨log', hn, he⟩ := h.calls
  refine ⟨log', hn, fun e hm => ?_⟩
  have := (he e hm).2
  cases e <;> first | exact ⟨rfl, rfl⟩ | cases this

/-- A driver records its token only with the publication. -/
private theorem Driver.Move.tokenless {d d' : Driver} (hm : Driver.Move cfg c i fresh d c' d' new)
    (h : d'.pc.published = d.pc.published) : ∃ log', c'.log = log' ++ c.log ∧ ∀ e ∈ log', e.Tokenless i := by
  cases hm
  case publish terminal reply hpc ht => rw [hpc] at h; cases terminal <;> cases h
  case publishNone terminal reply hpc _ _ => rw [hpc] at h; cases terminal <;> cases h
  case call hc => exact tokenless_of_calls hc.calls
  case drain hc => exact tokenless_of_calls (Ctx.fithaw_calls hc)
  case interrupt hc => rcases hc with rfl | rfl <;> exact ⟨[], rfl, by simp⟩
  case cancel => exact ⟨[], by simp, by simp⟩
  case install => exact ⟨[], by simp, by simp⟩
  case retire => exact ⟨[], by simp, by simp⟩
  all_goals first
    | exact ⟨[], rfl, by simp⟩
    | exact ⟨[_], rfl, by simp [Event.Tokenless, Event.obtains, Event.returns]⟩
    | exact ⟨[_, _], rfl, by simp [Event.Tokenless, Event.obtains, Event.returns]⟩
    | exact ⟨[_, _, _], rfl, by simp [Event.Tokenless, Event.obtains, Event.returns]⟩

private theorem Driver.Move.uses {d d' : Driver} (hm : Driver.Move cfg c i fresh d c' d' new) (hw : d.WF) :
    Task.Uses c i (.driver d) c' (.driver d') := by
  have hh : Task.holdsToken (.driver d) = !d.pc.published := hw.token_iff
  have hh' : Task.holdsToken (.driver d') = !d'.pc.published := (hm.wf hw).token_iff
  by_cases hp : d'.pc.published = d.pc.published
  · exact .none (by rw [hh, hh', hp]) id (hm.tokenless hp)
  · obtain ⟨hd, hd'⟩ : d.pc.published = false ∧ d'.pc.published = true := by
      cases hd : d.pc.published with
      | false => exact ⟨rfl, by simpa [hd] using hp⟩
      | true => exact absurd ((hm.stays_published hw hd).trans hd.symm) hp
    obtain ⟨terminal, reply, -, rfl, rfl⟩ := hm.publication hw hd hd'
    exact .give (by rw [hh, hd]; rfl) (by rw [hh', hd']; rfl) rfl ⟨_, _, rfl⟩

private theorem Thaw.Move.uses {pc pc' : ThawPc} {w : Bool} (hm : Thaw.Move cfg c i fresh pc c' pc' new) :
    Task.Uses c i (.thaw w pc) c' (.thaw w pc') := by
  cases hm
  case win hs hpc =>
    refine .claim ?_ ?_ rfl rfl ⟨_, rfl⟩
    · simp [Task.holdsToken, Task.freezeToken, Task.thawToken, Thaw.token_of_claiming hpc]
    · clear hs
      cases pc <;> first | rfl | cases hpc
  case publish => exact .give rfl rfl rfl ⟨_, _, rfl⟩
  case fail => exact .give rfl rfl rfl ⟨_, _, rfl⟩
  case call hc => exact .none rfl id (tokenless_of_calls hc.calls)
  case hold tk outcome held =>
    have hsettles : Thaw.token (Thaw.settles tk outcome) = some tk ∧
        Task.unclaimed (.thaw w (Thaw.settles tk outcome)) = false := by
      cases outcome with
      | ok n => exact ⟨rfl, rfl⟩
      | error failure =>
        simp only [Thaw.settles]
        split <;> exact ⟨rfl, rfl⟩
    refine .none ?_ (fun h => ?_) ⟨[], rfl, by simp⟩
    · simp only [Task.holdsToken, Task.freezeToken, Task.thawToken, hsettles.1]
      rfl
    · rw [hsettles.2] at h
      cases h
  case cancel => exact .none rfl id ⟨[], by simp, by simp⟩
  case install => exact .none rfl id ⟨[], by simp, by simp⟩
  all_goals first
    | exact .none rfl id ⟨[], rfl, by simp⟩
    | exact .none rfl (fun _ => rfl) ⟨[], rfl, by simp⟩
    | exact .none rfl id ⟨[_], rfl, by simp [Event.Tokenless, Event.obtains, Event.returns]⟩

theorem Task.Move.uses (hm : Task.Move cfg c i fresh t c' t' new) (hw : t.WF) : Task.Uses c i t c' t' := by
  cases hm with
  | driver h => exact h.uses hw
  | thaw h => exact h.uses
  | dogClaims hs hc => exact .claim rfl rfl rfl rfl ⟨_, rfl⟩
  | startInstall => exact .none rfl id ⟨[], by simp, by simp⟩
  | _ => exact .none rfl id ⟨[], rfl, by simp⟩

/-! ### The holder of a token is never stuck -/

namespace Driver

/-- The awaited task can be joined, or its next call answered. -/
private theorem await_progress {d : Driver} {tr : Tracked} (hpc : d.pc = .await tr) :
    ∃ ch, ch ≠ .loseJob ∧ ch ≠ .loseDrain ∧ (d.step cfg c i fresh ch).isSome = true := by
  have hjoin : (join c i d tr).isSome = true →
      ∃ ch, ch ≠ .loseJob ∧ ch ≠ .loseDrain ∧ (d.step cfg c i fresh ch).isSome = true := fun h =>
    ⟨.done, by rintro ⟨⟩, by rintro ⟨⟩, by simpa [step, hpc] using h⟩
  have hcall : ∀ ans, (jobCall c i ans tr).isSome = true →
      ∃ ch, ch ≠ .loseJob ∧ ch ≠ .loseDrain ∧ (d.step cfg c i fresh ch).isSome = true := fun ans h =>
    ⟨.job ans, by rintro ⟨⟩, by rintro ⟨⟩, by simpa [step, tracked, hpc] using h⟩
  cases tr with
  | prep j =>
    obtain ⟨v, lost⟩ := j
    cases lost with
    | true => exact hjoin rfl
    | false =>
      cases v with
      | table restrict => exact hcall (.table (.error "")) rfl
      | create plan => exact hcall (.create (.error .EPERM)) rfl
      | fsync plan => exact hcall (.fsync (.ok ())) rfl
      | done r => cases r <;> exact hjoin rfl
  | worker t rest j =>
    obtain ⟨v, lost⟩ := j
    cases lost with
    | true =>
      apply hjoin
      simp only [join, joinWorker, ↓reduceIte]
      split <;> rfl
    | false =>
      cases v with
      | opening path paths attempts => cases paths <;> exact hcall (.opened (.failed .ENOENT)) rfl
      | checkAborted m =>
        apply hcall .check
        cases ha : (c.ops i).aborted <;> simp [jobCall, workerCall, ha]
      | checkClock m aborted =>
        apply hcall .check
        by_cases hd : c.now < (c.ops i).deadline <;> simp [jobCall, workerCall, hd]
      | ioctl m aborted clock => exact hcall (.fifreeze (.ok ())) rfl
      | done o => exact hjoin rfl
  | removal k j =>
    obtain ⟨v, lost⟩ := j
    cases lost with
    | true => cases k <;> exact hjoin rfl
    | false =>
      cases v with
      | none => exact hcall (.unlink (.failed .EPERM)) rfl
      | some r =>
        cases r with
        | ok _ => cases k <;> exact hjoin rfl
        | error err => cases k <;> cases err <;> exact hjoin rfl
  | rollback j =>
    obtain ⟨v, lost⟩ := j
    cases lost with
    | true => exact hjoin rfl
    | false =>
      cases htodo : v.drain.todo with
      | cons m rest =>
        apply hcall (.fithaw (.error (.errno .EINVAL)))
        simp [jobCall, rollbackCall, htodo, Ctx.fithaw]
      | nil =>
        cases hu : v.unlinks with
        | true =>
          apply hcall (.unlink (.failed .EPERM))
          simp [jobCall, rollbackCall, hu, Ctx.unlink]
        | false =>
          apply hjoin
          have hf : v.finished = true := by
            cases hi : v.drain.incomplete <;> cases hr : v.removed <;>
              simp [Rollback.finished, Rollback.unlinks, htodo, hi, hr] at hu ⊢
          simp [join, joinRollback, hf]

private theorem progress (d : Driver) (hp : d.pc ≠ .finished) :
    ∃ ch, ch ≠ .loseJob ∧ ch ≠ .loseDrain ∧ (d.step cfg c i fresh ch).isSome = true := by
  have hgo : (d.go cfg c i fresh).isSome = true →
      ∃ ch, ch ≠ .loseJob ∧ ch ≠ .loseDrain ∧ (d.step cfg c i fresh ch).isSome = true := fun h => ⟨.go, by rintro ⟨⟩, by rintro ⟨⟩, h⟩
  cases hpc : d.pc with
  | head rest =>
    apply hgo
    simp only [go, hpc]
    split
    · rfl
    · cases rest <;> rfl
  | decide b =>
    apply hgo
    simp only [go, hpc]
    split <;> rfl
  | decideClock b =>
    apply hgo
    simp only [go, hpc]
    split <;> rfl
  | aborting stage k =>
    apply hgo
    simp only [go, hpc, Option.isSome_some]
  | tryCommit =>
    apply hgo
    simp only [go, hpc, Option.isSome_some]
  | conclude stage terminal reply =>
    apply hgo
    simp only [go, hpc, Option.isSome_some]
  | «await» tr => exact await_progress hpc
  | finished => exact absurd hpc hp
  | settling =>
    cases hr : d.recovery with
    | none =>
      apply hgo
      simp only [go, hpc, hr]
      split <;> rfl
    | some j =>
      -- the drain has ended and is joined, or its next `FITHAW` can be answered
      cases he : drainEnded j with
      | true =>
        apply hgo
        simp only [go, hpc, hr, he, ↓reduceIte, Option.isSome_some]
      | false =>
        obtain ⟨v, lost⟩ := j
        simp only [drainEnded, Bool.or_eq_false_iff, List.isEmpty_eq_false_iff] at he
        obtain ⟨m, rest, htodo⟩ := List.exists_cons_of_ne_nil he.2
        refine ⟨.drain (.fithaw (.error (.errno .EINVAL))), by rintro ⟨⟩, by rintro ⟨⟩, ?_⟩
        simp [step, hr, drainCall, he.1, htodo, Ctx.fithaw]

end Driver

private theorem Thaw.progress {pc : ThawPc} (hp : (Thaw.token pc).isSome = true) :
    ∃ ch, ch ≠ .lose ∧ (Thaw.step cfg c i fresh pc ch).isSome = true := by
  cases pc with
  | blocking token j =>
    obtain ⟨v, lost⟩ := j
    cases lost with
    | true => exact ⟨.go, by rintro ⟨⟩, rfl⟩
    | false =>
      cases hs : v.stage with
      | table => exact ⟨.job (.table (.error "")), by rintro ⟨⟩, by simp [Thaw.step, Thaw.call, hs]⟩
      | «open» t path paths attempts =>
        exact ⟨.job (.opened (.failed .ENOENT)), by rintro ⟨⟩, by simp [Thaw.step, Thaw.call, hs, openMount]⟩
      | drain m n =>
        exact ⟨.job (.fithaw (.error (.errno .EINVAL))), by rintro ⟨⟩, by simp [Thaw.step, Thaw.call, hs, Ctx.fithaw]⟩
      | unlink => exact ⟨.job (.unlink (.failed .EPERM)), by rintro ⟨⟩, by simp [Thaw.step, Thaw.call, hs, Ctx.unlink]⟩
      | done r => exact ⟨.go, by rintro ⟨⟩, by simp [Thaw.step, Thaw.go, hs]⟩
  | _ => first | exact ⟨.go, by rintro ⟨⟩, rfl⟩ | cases hp

/-- The choice is the loss of a blocking task. -/
def Task.Choice.loses : Task.Choice → Bool
  | .driver .loseJob => true
  | .driver .loseDrain => true
  | .thaw .lose => true
  | _ => false

/-- A task that holds a token has a step to take, other than the loss of a blocking task. -/
private theorem Task.progress (hw : t.WF) (ht : t.holdsToken = true) :
    ∃ ch, ch.loses = false ∧ (t.step cfg c i fresh ch).isSome = true := by
  cases t with
  | driver d =>
    have hfin : d.pc ≠ .finished := by
      intro hpc
      have hp : d.pc.published = false := by simpa using (hw.token_iff.symm.trans ht)
      rw [hpc] at hp
      cases hp
    obtain ⟨ch, h₁, h₂, h⟩ := d.progress hfin
    refine ⟨.driver ch, ?_, by simpa [Task.step] using h⟩
    cases ch <;> first | rfl | exact absurd rfl h₁ | exact absurd rfl h₂
  | thaw w pc =>
    obtain ⟨ch, h₁, h⟩ := Thaw.progress (by simpa [Task.holdsToken, Task.freezeToken, Task.thawToken] using ht)
    refine ⟨.thaw ch, ?_, by simpa [Task.step] using h⟩
    cases ch <;> first | rfl | exact absurd rfl h₁
  | _ => cases ht

/-! ### Every token is given back once -/

private theorem countP_append_of_false {log new : List Event} {p : Event → Bool} (h : ∀ e ∈ new, p e = false) :
    (new ++ log).countP p = log.countP p := by
  rw [List.countP_append, List.countP_eq_zero.2 fun e he => by simp [h e he], Nat.zero_add]

private theorem Event.tokenless_of_author {e : Event} (h : e.author ≠ some i) : e.Tokenless i := by
  cases e <;> first
    | exact ⟨rfl, rfl⟩
    | exact ⟨by simpa [Event.obtains, Event.author] using h, rfl⟩
    | exact ⟨rfl, by simpa [Event.returns, Event.author] using h⟩

private theorem Event.tokenless_of_by {e : Event} {j : TaskId} (h : e.By i) (hj : j ≠ i) : e.Tokenless j :=
  Event.tokenless_of_author fun ha => hj (h j ha)

namespace TokenDiscipline

/-- The receipts and the returns of the task `i` in the history. -/
structure Loc (c : Ctx) (i : TaskId) (t : Task) : Prop where
  balance : c.log.countP (Event.obtains i) = c.log.countP (Event.returns i) + if t.holdsToken then 1 else 0
  once : c.log.countP (Event.obtains i) ≤ 1
  unclaimed : t.unclaimed = true → c.log.countP (Event.obtains i) = 0

theorem Loc.tokenless (h : Loc c i t) {log' : List Event} (hlog : c'.log = log' ++ c.log)
    (he : ∀ e ∈ log', e.Tokenless i) (hh : t'.holdsToken = t.holdsToken)
    (hu : t'.unclaimed = true → t.unclaimed = true) : Loc c' i t' := by
  have h₁ : c'.log.countP (Event.obtains i) = c.log.countP (Event.obtains i) := by
    rw [hlog, countP_append_of_false fun e hm => (he e hm).1]
  have h₂ : c'.log.countP (Event.returns i) = c.log.countP (Event.returns i) := by
    rw [hlog, countP_append_of_false fun e hm => (he e hm).2]
  exact ⟨by rw [h₁, h₂, hh]; exact h.balance, by rw [h₁]; exact h.once, fun ht => by rw [h₁]; exact h.unclaimed (hu ht)⟩

/-- A task of which the history does not speak. -/
private theorem loc_of_unheard (hn : ∀ e ∈ c.log, e.author ≠ some i) (ht : t.holdsToken = false) : Loc c i t := by
  have h₁ : c.log.countP (Event.obtains i) = 0 :=
    List.countP_eq_zero.2 fun e he => by simp [(Event.tokenless_of_author (hn e he)).1]
  have h₂ : c.log.countP (Event.returns i) = 0 :=
    List.countP_eq_zero.2 fun e he => by simp [(Event.tokenless_of_author (hn e he)).2]
  exact ⟨by simp [h₁, h₂, ht], by simp [h₁], fun _ => h₁⟩

private theorem move (hm : Task.Move cfg c i fresh t c' t' new) (hw : t.WF) (h : Loc c i t) : Loc c' i t' := by
  cases hm.uses hw with
  | none hh hu hlog =>
    obtain ⟨log', hlog, he⟩ := hlog
    exact h.tokenless hlog he hh hu
  | claim hh hu hh' hu' hlog =>
    obtain ⟨tk, hlog⟩ := hlog
    have h₀ := h.unclaimed hu
    have hb := h.balance
    simp only [hh, Bool.false_eq_true, ↓reduceIte, Nat.add_zero] at hb
    refine ⟨?_, ?_, fun hu => by rw [hu'] at hu; cases hu⟩
    · simp [hlog, Event.obtains, Event.returns, hh', ← hb]
    · simp [hlog, Event.obtains, h₀]
  | give hh hh' hu' hlog =>
    obtain ⟨s, now, hlog⟩ := hlog
    have hb := h.balance
    simp only [hh, ↓reduceIte] at hb
    refine ⟨?_, ?_, fun hu => by rw [hu'] at hu; cases hu⟩
    · simp [hlog, Event.obtains, Event.returns, hh', hb]
    · simpa [hlog, Event.obtains] using h.once

theorem reach {ok : Agent → Action → Agent → Prop} {a : Agent}
    (h : Machine.Reach (Agent.step cfg) ok Agent.Initial a) : a.Holds (fun _ _ => True) Loc := by
  refine h.invariant (fun a h => ?_) (fun a act a' hr ih hs _ => ?_)
  · obtain ⟨c, n, rfl⟩ := h.booted
    have hlog : (Agent.bootCtx c).log = [] := h.log
    exact Agent.boot_holds trivial fun _ => loc_of_unheard (by simp [hlog]) rfl
  · have htk := Tokens.reach hr
    have hrg := Registry.reach hr
    have hnew : ∀ e ∈ a.ctx.log, e.author ≠ some a.next := fun e he => hrg.glob.unheard he
    refine Agent.holds_step ih hs ?_ ?_ ?_ ?_ ?_
    · intro i t c' t' new ht hm _
      obtain ⟨log', hlog, hby⟩ := hm.grows.log
      refine ⟨trivial, fun _ _ => trivial, move hm (htk.loc ht).wf (ih.loc ht), fun g _ => ?_, fun j u hj _ hu => ?_⟩
      · refine loc_of_unheard (fun e he => ?_) rfl
        rcases hm.grows.log.mem_or he with he | he
        · exact hnew e he
        · exact fun ha => Nat.ne_of_gt (ih.bound ht) (he _ ha)
      · exact hu.tokenless hlog (fun e he => Event.tokenless_of_by (hby e he) hj) rfl id
    · intro restrict hst _
      have h₀ := loc_of_unheard (t := .status .read) hnew rfl
      have hb := h₀.unclaimed rfl
      have hret : a.ctx.log.countP (Event.returns a.next) = 0 := by
        have := h₀.balance
        simp only [hb] at this
        omega
      refine ⟨trivial, ⟨?_, ?_, fun h => by cases h⟩, fun j u hj _ hu => ?_⟩
      · simp only [Agent.freezeCtx, Ctx.note_log, List.countP_cons, Event.obtains, Event.returns]
        simp [hb, hret, Task.holdsToken, Task.freezeToken, Driver.start]
      · simp [Agent.freezeCtx, Event.obtains, hb]
      · have hne : a.next ≠ j := Nat.ne_of_gt hj
        have hlog : (Agent.freezeCtx cfg a.ctx a.next restrict).log =
            [.spawned a.next .prep, .started a.next restrict a.ctx.snapshot] ++ a.ctx.log := rfl
        refine hu.tokenless hlog ?_ rfl id
        simp [Event.Tokenless, Event.obtains, Event.returns, hne]
    · exact ⟨trivial, loc_of_unheard hnew rfl, loc_of_unheard hnew rfl⟩
    · intro c' he _
      have hlog : c'.log = [] ++ a.ctx.log := by cases he <;> rfl
      exact ⟨trivial, fun j u _ hu => hu.tokenless hlog (by simp) rfl id⟩
    · exact fun _ => ⟨trivial, fun _ => loc_of_unheard hnew rfl⟩

end TokenDiscipline

/-! ### The whole discipline -/

section Discipline

variable {ok : Agent → Action → Agent → Prop} {a a' : Agent}

private theorem Agent.token?_next (h : a.Holds Tokens.Glob Tokens.Loc) : a.token? a.next = none := by
  cases hn : a.tasks a.next with
  | none => rw [Agent.token?, hn]; rfl
  | some u => exact absurd (h.bound hn) (Nat.lt_irrefl _)

private theorem Agent.token?_spawn {j : TaskId} :
    Agent.token? (a.spawn c t) j = if j = a.next then t.token? else a.token? j := by
  by_cases hj : j = a.next
  · subst hj
    simp [Agent.token?, Pool.spawn]
  · simp [Agent.token?, Pool.spawn, hj]

/-- The tokens after a step of the task `i`. -/
private theorem Agent.token?_apply {j : TaskId} (h : a.Holds Tokens.Glob Tokens.Loc) (hi : i < a.next) :
    Agent.token? (a.apply i c' t' (new.map .dog)) j = if j = i then t'.token? else a.token? j := by
  by_cases hj : j = i
  · subst hj
    cases new <;> simp [Agent.token?, Pool.apply, Nat.ne_of_lt hi]
  · rw [if_neg hj]
    cases new with
    | none => simp [Agent.token?, Pool.apply, hj]
    | some g =>
      by_cases hn : j = a.next
      · subst hn
        rw [Agent.token?_next h]
        simp [Agent.token?, Pool.apply, Task.token?, Task.freezeToken, Task.thawToken]
      · simp [Agent.token?, Pool.apply, hj, hn]

/-- Every step but a crash leaves the state and all tokens alone, or takes one edge of the state machine. -/
private theorem Agent.step_edge (h : a.Holds Tokens.Glob Tokens.Loc) {act : Action}
    (hs : Agent.step cfg a act = some a') (hc : act ≠ .crash) :
    (a'.ctx.state = a.ctx.state ∧ ∀ i, a'.token? i = a.token? i) ∨
      ∃ i, Edge a.ctx.state (a.token? i) a'.ctx.state (a'.token? i) ∧ ∀ j, j ≠ i → a'.token? j = a.token? j := by
  have hspawn : ∀ u : Task, u.token? = none → ∀ j, Agent.token? (a.spawn a.ctx u) j = a.token? j := by
    intro u hu j
    rw [Agent.token?_spawn]
    split
    · rename_i hj
      rw [hj, hu, Agent.token?_next h]
    · rfl
  cases Agent.step_move hs with
  | @task i ch t t' c' new ht hm =>
    have hi := h.bound ht
    have htoken : a.token? i = t.token? := by rw [Agent.token?, ht]; rfl
    rcases hm.edge (h.loc ht) with ⟨h₁, h₂⟩ | hedge
    · refine .inl ⟨by simpa using h₂, fun j => ?_⟩
      rw [Agent.token?_apply h hi]
      split
      · rename_i hj
        rw [hj, htoken, h₁]
      · rfl
    · refine .inr ⟨i, ?_, fun j hj => by rw [Agent.token?_apply h hi, if_neg hj]⟩
      rw [Agent.token?_apply h hi, if_pos rfl, htoken, Pool.apply_ctx]
      exact hedge
  | freeze restrict hst =>
    refine .inr ⟨a.next, ?_, fun j hj => by rw [Agent.token?_spawn, if_neg hj]⟩
    rw [Agent.token?_spawn, if_pos rfl, Agent.token?_next h, hst]
    exact .beginFreeze
  | refused => exact .inl ⟨rfl, fun _ => rfl⟩
  | thaw => exact .inl ⟨rfl, hspawn _ rfl⟩
  | status => exact .inl ⟨rfl, hspawn _ rfl⟩
  | env he =>
    refine .inl ⟨?_, fun _ => rfl⟩
    cases he <;> rfl
  | crash => exact absurd rfl hc

private theorem Agent.state_of_token {tk : Token} (h : a.Holds Tokens.Glob Tokens.Loc) (hi : a.token? i = some tk) :
    a.ctx.owner = some i ∧ a.ctx.state = match tk with | .freeze _ => .freezing | .thaw _ => .thawing := by
  obtain ⟨t, ht, htok⟩ := Option.bind_eq_some_iff.1 hi
  refine ⟨(h.loc ht).owner.1 (by rw [← Task.token?_isSome, htok]; rfl), ?_⟩
  cases tk with
  | freeze tk => exact (h.loc ht).freezing (by rw [Task.token?_freeze htok]; rfl)
  | thaw tk => exact (h.loc ht).thawing (by rw [Task.token?_thaw htok]; rfl)

/-- While the state is neither `thawed` nor `frozen`, some task holds a token. -/
private theorem Agent.token_of_busy (h : Machine.Reach (Agent.step cfg) ok Agent.Initial a)
    (hs : a.ctx.state = .freezing ∨ a.ctx.state = .thawing) : ∃ i tk, a.token? i = some tk := by
  have htk := Tokens.reach h
  obtain ⟨i, ho⟩ : ∃ i, a.ctx.owner = some i := by
    cases ho : a.ctx.owner with
    | some i => exact ⟨i, rfl⟩
    | none => rcases htk.glob.free.1 ho with h' | h' <;> rw [h'] at hs <;> rcases hs with hs | hs <;> cases hs
  obtain ⟨t, ht⟩ := Option.isSome_iff_exists.1 (Tokens.present h ho)
  have hh := (htk.loc ht).owner.2 ho
  rw [← Task.token?_isSome] at hh
  obtain ⟨tk, htok⟩ := Option.isSome_iff_exists.1 hh
  exact ⟨i, tk, by rw [Agent.token?, ht]; exact htok⟩

end Discipline

/-- In every reachable state of the agent, whatever its environment does, there is one token at most, of the kind of the
state; every step but a crash leaves the state and all tokens alone or takes one edge of the state machine with the
token of that edge; the holder of a token is never stuck; and a task has obtained one token at most and has given it
back exactly once when it holds none. -/
theorem token_discipline {ok : Agent → Action → Agent → Prop} {a : Agent}
    (h : Machine.Reach (Agent.step cfg) ok Agent.Initial a) :
    (∀ i j, (a.token? i).isSome = true → (a.token? j).isSome = true → i = j) ∧
      (∀ i t, a.tasks i = some t → t.freezeToken = none ∨ t.thawToken = none) ∧
      (a.ctx.state = .freezing ↔ ∃ i t, a.token? i = some (.freeze t)) ∧
      (a.ctx.state = .thawing ↔ ∃ i t, a.token? i = some (.thaw t)) ∧
      (∀ act a', Agent.step cfg a act = some a' → act ≠ .crash →
        (a'.ctx.state = a.ctx.state ∧ ∀ i, a'.token? i = a.token? i) ∨
          ∃ i, Edge a.ctx.state (a.token? i) a'.ctx.state (a'.token? i) ∧ ∀ j, j ≠ i → a'.token? j = a.token? j) ∧
      (∀ i t, a.tasks i = some t → t.holdsToken = true →
        ∃ ch, ch.loses = false ∧ (Agent.step cfg a (.task i ch)).isSome = true) ∧
      ∀ i t, a.tasks i = some t → a.ctx.log.countP (Event.obtains i) ≤ 1 ∧
        a.ctx.log.countP (Event.obtains i) = a.ctx.log.countP (Event.returns i) + if t.holdsToken then 1 else 0 := by
  have htk := Tokens.reach h
  refine ⟨?_, ?_, ?_, ?_, fun act a' hs hc => Agent.step_edge htk hs hc, ?_, ?_⟩
  · intro i j hi hj
    obtain ⟨tk, hi⟩ := Option.isSome_iff_exists.1 hi
    obtain ⟨tk', hj⟩ := Option.isSome_iff_exists.1 hj
    exact Option.some.inj ((Agent.state_of_token htk hi).1.symm.trans (Agent.state_of_token htk hj).1)
  · intro i t ht
    cases t with
    | driver d => exact Driver.WF.one_token (htk.loc ht).wf
    | _ => exact .inl rfl
  · constructor
    · intro hs
      obtain ⟨i, tk, hi⟩ := Agent.token_of_busy h (.inl hs)
      cases tk with
      | freeze tk => exact ⟨i, tk, hi⟩
      | thaw tk => rw [(Agent.state_of_token htk hi).2] at hs; cases hs
    · rintro ⟨i, tk, hi⟩
      exact (Agent.state_of_token htk hi).2
  · constructor
    · intro hs
      obtain ⟨i, tk, hi⟩ := Agent.token_of_busy h (.inr hs)
      cases tk with
      | thaw tk => exact ⟨i, tk, hi⟩
      | freeze tk => rw [(Agent.state_of_token htk hi).2] at hs; cases hs
    · rintro ⟨i, tk, hi⟩
      exact (Agent.state_of_token htk hi).2
  · intro i t ht hh
    obtain ⟨ch, hl, hs⟩ := Task.progress (htk.loc ht).wf hh
    exact ⟨ch, hl, by simpa [Agent.step, ht] using hs⟩
  · intro i t ht
    have hl := (TokenDiscipline.reach h).loc ht
    exact ⟨hl.once, hl.balance⟩

/-- A thaw is running: the task 3 holds the token. -/
private def thawing (a : Agent) : Bool :=
  decide (a.ctx.state = .thawing) && decide (a.token? 3 = some (.thaw ⟨.frozen⟩)) && (a.tasks 1).isSome

/-- After a freeze and in the middle of the thaw that follows, the driver has given back its token and the thaw holds
the one it obtained. -/
theorem token_discipline_during_thaw :
    ∃ a, Machine.Reach (Agent.step ⟨60, 30, 300⟩) (fun _ _ _ => True) Agent.Initial a ∧ a.ctx.state = .thawing ∧
      (∃ i t, a.token? i = some (.thaw t)) ∧ (∀ i, (a.token? i).isSome = true → i = 3) ∧
      ∃ t, a.tasks 1 = some t ∧ t.holdsToken = false ∧
        a.ctx.log.countP (Event.obtains 1) = a.ctx.log.countP (Event.returns 1) := by
  obtain ⟨a, hr, hp⟩ : ∃ a, Machine.Reach (Agent.step ⟨60, 30, 300⟩) (fun _ _ _ => True) Agent.Initial a ∧
      thawing a = true :=
    Machine.Reach.of_execute (fun _ _ _ => true) (fun _ _ _ _ => trivial)
      (Script.freezeOne ++ [.thaw] ++ Script.proceed 3 3) thawing (Agent.cold_initial false) (by decide) (by decide)
  simp only [thawing, Bool.and_eq_true, decide_eq_true_eq] at hp
  obtain ⟨⟨hs, htok⟩, hdriver⟩ := hp
  obtain ⟨hone, -, -, hthaw, -, -, hcount⟩ := token_discipline hr
  obtain ⟨t, ht⟩ := Option.isSome_iff_exists.1 hdriver
  have hnone : t.holdsToken = false := by
    rw [Bool.eq_false_iff, ← Task.token?_isSome]
    intro hh
    exact absurd (hone 1 3 (by rw [Agent.token?, ht]; exact hh) (by rw [htok]; rfl)) (by decide)
  refine ⟨a, hr, hs, hthaw.1 hs, fun i hi => hone i 3 hi (by rw [htok]; rfl), t, ht, hnone, ?_⟩
  simpa [hnone] using (hcount 1 t ht).2

end Qeminga
