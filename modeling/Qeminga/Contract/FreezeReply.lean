import Qeminga.Contract.AbortOrCommit

/-!
# The meaning of a freeze reply

A freeze that replies `Ok(n)` attempted every target of its plan once, in reverse mount order, each attempt ended with
the target frozen, busy or skipped, and `n` counts the superblocks that its own `FIFREEZE` froze.  The walk over the
targets carries this as the invariant `Walk`; a worker that was not authorised cannot be passed over, since the clock
that its check read only goes forward.
-/

namespace Qeminga

/-! ### What the history says of a walk -/

/-- The attempts of the operation `op`, in order. -/
def attempts (log : List Event) (op : TaskId) : List (Target × Option TargetOutcome) :=
  (log.filterMap fun e =>
    match e with
    | .attempted i t o => if i = op then some (t, o) else none
    | _ => none).reverse

/-- The superblocks on which a `FIFREEZE` of the operation `op` succeeded, in order. -/
def successes (log : List Event) (op : TaskId) : List Dev :=
  (log.filterMap fun e =>
    match e with
    | .fifreeze i d _ _ (.ok _) => if i = op then some d else none
    | _ => none).reverse

/-- The event is a successful `FIFREEZE` on `d` by the operation `op`. -/
def Event.freezes (op : TaskId) (d : Dev) : Event → Bool
  | .fifreeze i x _ _ (.ok _) => i = op && x = d
  | _ => false

/-- The event is a `FITHAW` on `d`. -/
def Event.thaws (d : Dev) : Event → Bool
  | .fithaw _ x _ => x = d
  | _ => false

/-- There has been no `FITHAW` on `d` since the last successful `FIFREEZE` on it by `op`. -/
def Untouched (log : List Event) (op : TaskId) (d : Dev) : Prop :=
  ∀ e ∈ log.takeWhile fun e => !e.freezes op d, e.thaws d = false

/-- The target was frozen by the attempt, was already frozen, or cannot be frozen. -/
def Good (p : Target × Option TargetOutcome) : Prop :=
  (∃ m, p.2 = some (.frozen m) ∧ m.dev = p.1.dev) ∨ (∃ m, p.2 = some (.busy m) ∧ m.dev = p.1.dev) ∨
    p.2 = some .skipped

/-- The superblocks that the attempts froze. -/
def frozenDevs (ps : List (Target × Option TargetOutcome)) : List Dev :=
  ps.filterMap fun p =>
    match p.2 with
    | some (.frozen _) => some p.1.dev
    | _ => none

/-- The event is part of no walk of `op`. -/
def Event.Dull (op : TaskId) (e : Event) : Prop :=
  (∀ t o, e ≠ .attempted op t o) ∧ (∀ d aborted clock, e ≠ .fifreeze op d aborted clock (.ok ())) ∧
    ∀ task d r, e ≠ .fithaw task d r

section History

variable {log new : List Event} {op : TaskId} {d : Dev}

theorem attempts_append (h : ∀ e ∈ new, ∀ t o, e ≠ .attempted op t o) : attempts (new ++ log) op = attempts log op := by
  unfold attempts
  rw [List.filterMap_append, List.filterMap_eq_nil_iff.2, List.nil_append]
  intro e he
  have := h e he
  cases e with
  | attempted i t o =>
    simp only [ite_eq_right_iff, reduceCtorEq, imp_false]
    rintro rfl
    exact this t o rfl
  | _ => rfl

theorem successes_append (h : ∀ e ∈ new, ∀ d aborted clock, e ≠ .fifreeze op d aborted clock (.ok ())) :
    successes (new ++ log) op = successes log op := by
  unfold successes
  rw [List.filterMap_append, List.filterMap_eq_nil_iff.2, List.nil_append]
  intro e he
  have := h e he
  cases e with
  | fifreeze i d aborted clock r =>
    cases r with
    | ok u =>
      simp only [ite_eq_right_iff, reduceCtorEq, imp_false]
      rintro rfl
      exact this d aborted clock rfl
    | error err => rfl
  | _ => rfl

theorem attempts_eq_nil (h : ∀ e ∈ log, e.author ≠ some op) : attempts log op = [] := by
  have happ : attempts (log ++ []) op = attempts [] op :=
    attempts_append fun e he t o heq => h e he (by rw [heq]; rfl)
  rwa [List.append_nil] at happ

theorem successes_eq_nil (h : ∀ e ∈ log, e.author ≠ some op) : successes log op = [] := by
  have happ : successes (log ++ []) op = successes [] op :=
    successes_append fun e he d a k heq => h e he (by rw [heq]; rfl)
  rwa [List.append_nil] at happ

@[simp] theorem attempts_attempted (t : Target) (o : Option TargetOutcome) :
    attempts (.attempted op t o :: log) op = attempts log op ++ [(t, o)] := by
  simp [attempts]

@[simp] theorem successes_fifreeze (aborted : Bool) (clock : Nat) :
    successes (.fifreeze op d aborted clock (.ok ()) :: log) op = successes log op ++ [d] := by
  simp [successes]

@[simp] theorem frozenDevs_append (ps qs : List (Target × Option TargetOutcome)) :
    frozenDevs (ps ++ qs) = frozenDevs ps ++ frozenDevs qs := List.filterMap_append

theorem Untouched.append (h : Untouched log op d) (hnew : ∀ e ∈ new, e.thaws d = false) : Untouched (new ++ log) op d := by
  induction new with
  | nil => exact h
  | cons e new ih =>
    have ih := ih fun e' he' => hnew e' (List.mem_cons_of_mem _ he')
    intro e' he'
    rw [List.cons_append, List.takeWhile_cons] at he'
    split at he'
    · rcases List.mem_cons.1 he' with rfl | he'
      · exact hnew _ List.mem_cons_self
      · exact ih e' he'
    · cases he'

/-- What an operation froze is among its targets, once each. -/
theorem frozenDevs_sublist (ps : List (Target × Option TargetOutcome)) :
    (frozenDevs ps).Sublist (FreezePlan.targetDevs (ps.map Prod.fst)) := by
  unfold frozenDevs FreezePlan.targetDevs
  induction ps with
  | nil => exact .slnil
  | cons p ps ih =>
    rw [List.filterMap_cons]
    split
    · exact ih.cons _
    · rename_i d hd
      split at hd <;> cases hd
      exact ih.cons_cons _

end History

/-! ### The walk -/

/-- The operation `i` has the plan, has attempted some of its targets and has `rest` to attempt; `flying` is what its
worker has frozen and not yet handed over. -/
structure Walk (c : Ctx) (i : TaskId) (frozen : Nat) (rest : List Target) (flying : List Dev) : Prop where
  plan : ∃ restrict entries now, .started i restrict now ∈ c.log ∧
    .prepared i (.prepared (buildPlan entries restrict)) ∈ c.log ∧
    (attempts c.log i).map Prod.fst ++ rest = (buildPlan entries restrict).freezeOrder
  good : ∀ p ∈ attempts c.log i, Good p
  froze : successes c.log i = frozenDevs (attempts c.log i) ++ flying
  count : frozen = (frozenDevs (attempts c.log i)).length
  held : ∀ x ∈ frozenDevs (attempts c.log i), x ∈ devs c.held
  untouched : ∀ x ∈ successes c.log i, Untouched c.log i x

theorem Walk.mono {c c' : Ctx} {i : TaskId} {n : Nat} {rest : List Target} {flying : List Dev} (h : Walk c i n rest flying) (new : List Event)
    (hn : c'.log = new ++ c.log) (hdull : ∀ e ∈ new, e.Dull i) (hheld : ∀ x ∈ devs c.held, x ∈ devs c'.held) :
    Walk c' i n rest flying := by
  have ha : attempts c'.log i = attempts c.log i := by rw [hn, attempts_append fun e he => (hdull e he).1]
  have hs : successes c'.log i = successes c.log i := by rw [hn, successes_append fun e he => (hdull e he).2.1]
  obtain ⟨restrict, entries, now, hst, hprep, hplan⟩ := h.plan
  refine ⟨⟨restrict, entries, now, ?_, ?_, by rw [ha]; exact hplan⟩, by rw [ha]; exact h.good,
    by rw [ha, hs]; exact h.froze, by rw [ha]; exact h.count, fun x hx => ?_, fun x hx => ?_⟩
  · rw [hn]; exact List.mem_append_right _ hst
  · rw [hn]; exact List.mem_append_right _ hprep
  · rw [ha] at hx
    exact hheld x (h.held x hx)
  · rw [hs] at hx
    rw [hn]
    refine (h.untouched x hx).append fun e he => ?_
    have := (hdull e he).2.2
    cases e with
    | fithaw task y r => exact absurd rfl (this task y r)
    | _ => rfl

/-- The walk begins with the whole plan. -/
theorem Walk.start {c : Ctx} {i : TaskId} {n : Nat} {plan : FreezePlan} (ha : attempts c.log i = [])
    (hs : successes c.log i = [])
    (hplan : ∃ restrict entries now, .started i restrict now ∈ c.log ∧
      .prepared i (.prepared (buildPlan entries restrict)) ∈ c.log ∧ plan = buildPlan entries restrict) (hn : n = 0) :
    Walk c i n plan.freezeOrder [] := by
  obtain ⟨restrict, entries, now, hst, hprep, rfl⟩ := hplan
  exact ⟨⟨restrict, entries, now, hst, hprep, by simp [ha]⟩, by simp [ha], by simp [ha, hs, frozenDevs],
    by simp [ha, hn, frozenDevs], by simp [ha, frozenDevs], by simp [hs]⟩

/-- The worker on the next target is collected. -/
theorem Walk.collected {c c' : Ctx} {i : TaskId} {n : Nat} {t : Target} {rest : List Target} {o : TargetOutcome}
    {flying : List Dev} (h : Walk c i n (t :: rest) flying) (hfly : flying = frozenDevs [(t, some o)])
    (hgood : Good (t, some o)) (hlog : c'.log = .attempted i t (some o) :: .joined i (.worker t) :: c.log)
    (hheld : ∀ x, x ∈ devs c.held ∨ x ∈ flying → x ∈ devs c'.held) : Walk c' i (n + flying.length) rest [] := by
  have hn : c'.log = [.attempted i t (some o), .joined i (.worker t)] ++ c.log := hlog
  have hjoin : attempts (.joined i (.worker t) :: c.log) i = attempts c.log i := rfl
  have ha : attempts c'.log i = attempts c.log i ++ [(t, some o)] := by rw [hlog, attempts_attempted, hjoin]
  have hs : successes c'.log i = successes c.log i := by rw [hn, successes_append (by simp)]
  obtain ⟨restrict, entries, now, hst, hprep, hplan⟩ := h.plan
  refine ⟨⟨restrict, entries, now, ?_, ?_, ?_⟩, fun p hp => ?_, ?_, ?_, fun x hx => ?_, fun x hx => ?_⟩
  · rw [hn]; exact List.mem_append_right _ hst
  · rw [hn]; exact List.mem_append_right _ hprep
  · rw [ha, ← hplan]
    simp
  · rw [ha, List.mem_append, List.mem_singleton] at hp
    rcases hp with hp | rfl
    · exact h.good p hp
    · exact hgood
  · rw [ha, hs, h.froze, frozenDevs_append, hfly, List.append_nil]
  · rw [ha, h.count, frozenDevs_append, hfly, List.length_append]
  · rw [ha, frozenDevs_append, ← hfly, List.mem_append] at hx
    exact hheld x (hx.imp_left (h.held x))
  · rw [hs] at hx
    rw [hn]
    exact (h.untouched x hx).append (by simp [Event.thaws])

/-- What the worker has frozen and not yet handed over. -/
def Worker.flying (t : Target) : Worker → List Dev
  | .done (.frozen _) => [t.dev]
  | _ => []

/-- The preparation has read the restriction of the request, and builds the plan from it. -/
def Prep.Planned (c : Ctx) (i : TaskId) : Prep → Prop
  | .table restrict => ∃ now, .started i restrict now ∈ c.log
  | .create plan => ∃ restrict entries now, .started i restrict now ∈ c.log ∧ plan = buildPlan entries restrict
  | .fsync plan => ∃ restrict entries now, .started i restrict now ∈ c.log ∧ plan = buildPlan entries restrict
  | .done (.ok plan) => ∃ restrict entries now, .started i restrict now ∈ c.log ∧ plan = buildPlan entries restrict
  | .done (.error _) => True

/-- The meaning of the reply `Ok(n)` of the operation `op`, in terms of the history. -/
structure Meaning (log : List Event) (op : TaskId) (n : Nat) : Prop where
  plan : ∃ restrict entries now, .started op restrict now ∈ log ∧
    .prepared op (.prepared (buildPlan entries restrict)) ∈ log ∧
    (attempts log op).map Prod.fst = (buildPlan entries restrict).freezeOrder
  good : ∀ p ∈ attempts log op, Good p
  froze : successes log op = frozenDevs (attempts log op)
  count : n = (successes log op).length
  distinct : (successes log op).Nodup
  published : 0 < n → ∃ newer now older, log = newer ++ .published op .frozen now :: older ∧
    ∀ x ∈ successes log op, x ∈ devs now.held ∧ Untouched older op x

theorem Meaning.append {log more : List Event} {op : TaskId} {n : Nat} (h : Meaning log op n)
    (ha : ∀ e ∈ more, ∀ t o, e ≠ .attempted op t o)
    (hs : ∀ e ∈ more, ∀ d aborted clock, e ≠ .fifreeze op d aborted clock (.ok ())) : Meaning (more ++ log) op n := by
  have ha : attempts (more ++ log) op = attempts log op := attempts_append ha
  have hs : successes (more ++ log) op = successes log op := successes_append hs
  obtain ⟨restrict, entries, now, hst, hprep, hplan⟩ := h.plan
  refine ⟨⟨restrict, entries, now, List.mem_append_right _ hst, List.mem_append_right _ hprep, by rw [ha]; exact hplan⟩,
    by rw [ha]; exact h.good, by rw [ha, hs]; exact h.froze, by rw [hs]; exact h.count, by rw [hs]; exact h.distinct,
    fun hpos => ?_⟩
  obtain ⟨newer, now', older, rfl, hx⟩ := h.published hpos
  exact ⟨more ++ newer, now', older, by simp, by rw [hs]; exact hx⟩

/-- What the driver of the operation `i` satisfies at the program point `pc`, as long as it is not aborted. -/
def Driver.walks (c : Ctx) (i : TaskId) (d : Driver) : Pc → Prop
  | .head rest => d.abort = none → Walk c i d.frozen rest []
  | .decide (.spawn t rest) => Walk c i d.frozen (t :: rest) []
  | .decideClock (.spawn t rest) => Walk c i d.frozen (t :: rest) []
  | .decide (.next _) => (c.ops i).deadline ≤ c.now
  | .decideClock (.next _) => (c.ops i).deadline ≤ c.now
  | .decide .commit => Walk c i d.frozen [] []
  | .decideClock .commit => Walk c i d.frozen [] []
  | .tryCommit => Walk c i d.frozen [] []
  | .await (.prep j) =>
    d.abort = none → j.val.Planned c i ∧ attempts c.log i = [] ∧ successes c.log i = [] ∧ d.frozen = 0
  | .await (.worker t rest j) =>
    d.abort = none → Walk c i d.frozen (t :: rest) (j.val.flying t) ∧
      (j.val = .done .notAuthorized → (c.ops i).deadline ≤ c.now)
  | .await (.removal .nothingFrozen _) => Walk c i d.frozen [] [] ∧ d.frozen = 0
  | .conclude .arm _ (.ok n) => Meaning c.log i n
  | .conclude (.install _) _ (.ok n) => Meaning c.log i n
  | .conclude .settled _ (.ok n) => Meaning c.log i n
  | .conclude .reply _ (.ok n) => Meaning c.log i n
  | .conclude _ terminal (.ok n) => Walk c i d.frozen [] [] ∧ d.frozen = n ∧ (0 < n → terminal = .frozen)
  | _ => True

namespace FreezeReply

structure DriverLoc (c : Ctx) (i : TaskId) (d : Driver) : Prop where
  walks : d.walks c i d.pc
  flag : d.abort = none → (c.ops i).aborted = false
  done : ∀ n, .replied i (.ok n) ∈ c.log → d.pc = .finished

def Loc (c : Ctx) (i : TaskId) : Task → Prop
  | .driver d => DriverLoc c i d
  | _ => True

def Glob (c : Ctx) (_ : TaskId) : Prop := ∀ op n, .replied op (.ok n) ∈ c.log → Meaning c.log op n

variable {cfg : Config} {c c' : Ctx} {i j fresh : TaskId} {d d' : Driver} {new : Option Dog}

/-- The flag that the workers read is set by an abort only. -/
private theorem flag (hm : Driver.Move cfg c i fresh d c' d' new) (hw : d.WF) (h : d'.abort = none) :
    d.abort = none ∧ (c'.ops i).aborted = (c.ops i).aborted := by
  cases hm
  case store k hpc =>
    have ha : Driver.Aborting false false d := (hw.at hpc).1
    have := ha.abort
    rw [show d.abort = none from h] at this
    cases this
  case call hc => exact ⟨h, by rw [hc.calls.ops]⟩
  case drain hc => exact ⟨h, by rw [(Ctx.fithaw_calls hc).ops]⟩
  case abort => cases h
  case interrupt => cases h
  case workerLost => cases h
  case froze hd => subst hd; exact ⟨h, by simp⟩
  case busy hd => subst hd; exact ⟨h, by simp⟩
  all_goals exact ⟨h, by simp⟩

/-- The finished walk means what the reply says. -/
private theorem meaning {n : Nat} {terminal : Terminal} (h : Walk c i n [] []) (ht : 0 < n → terminal = .frozen) :
    Meaning (.published i terminal.state c.snapshot :: c.log) i n := by
  have ha : attempts (.published i terminal.state c.snapshot :: c.log) i = attempts c.log i := rfl
  have hs : successes (.published i terminal.state c.snapshot :: c.log) i = successes c.log i := rfl
  have hfroze : successes c.log i = frozenDevs (attempts c.log i) := by rw [h.froze, List.append_nil]
  obtain ⟨restrict, entries, now, hst, hprep, hplan⟩ := h.plan
  rw [List.append_nil] at hplan
  refine ⟨⟨restrict, entries, now, List.mem_cons_of_mem _ hst, List.mem_cons_of_mem _ hprep, by rw [ha]; exact hplan⟩,
    by rw [ha]; exact h.good, by rw [ha, hs]; exact hfroze, ?_, ?_, fun hpos => ?_⟩
  · rw [hs, hfroze]
    exact h.count
  · rw [hs, hfroze]
    refine (frozenDevs_sublist _).nodup ?_
    rw [hplan, FreezePlan.targetDevs, FreezePlan.freezeOrder, List.map_reverse]
    exact (List.reverse_perm _).nodup_iff.2 (buildPlan_nodup entries restrict)
  · obtain rfl := ht hpos
    refine ⟨[], c.snapshot, c.log, rfl, fun x hx => ?_⟩
    rw [hs] at hx
    exact ⟨h.held x (hfroze ▸ hx), h.untouched x hx⟩

/-- Nothing is claimed of a driver that runs a recovery drain: it is aborted. -/
private theorem walks_of_recovery (hw : d.WF) {r : Job DrainHeld} (hr : d.recovery = some r) (ha : d'.abort = d.abort)
    (he : d'.pc = d.pc) : d'.walks c' i d'.pc := by
  have hopen : ¬ Driver.Open d := fun h => by rw [h.recovery] at hr; cases hr
  have hrec : Driver.Open d ∨ Driver.Recovering d → d'.abort ≠ none := by
    intro h h'
    have := (h.resolve_left hopen).abort
    rw [← ha, h'] at this
    cases this
  have hp := hw.phase
  rw [he]
  cases hpc : d.pc with
  | head rest => rw [hpc] at hp; exact fun h => absurd h (hrec hp)
  | decide b => rw [hpc] at hp; exact absurd hp hopen
  | decideClock b => rw [hpc] at hp; exact absurd hp hopen
  | tryCommit => rw [hpc] at hp; exact absurd hp hopen
  | «await» tr =>
    rw [hpc] at hp
    cases tr with
    | prep j => exact fun h => absurd h (hrec hp)
    | worker t rest j => exact fun h => absurd h (hrec hp)
    | removal k j =>
      cases k with
      | nothingFrozen => exact absurd hp hopen
      | _ => trivial
    | rollback j => trivial
  | conclude stage terminal reply =>
    rw [hpc] at hp
    cases stage <;> first
      | (rw [Driver.Concluding.recovery hp] at hr; cases hr)
      | (rw [Driver.Concluded.recovery hp] at hr; cases hr)
  | _ => trivial

theorem walks_conclude_eq (c : Ctx) (i : TaskId) (d : Driver) (stage : ConcludeStage) (terminal : Terminal) (n : Nat) :
    d.walks c i (.conclude stage terminal (.ok n)) =
      if (Pc.conclude stage terminal (.ok n)).published then Meaning c.log i n
      else Walk c i d.frozen [] [] ∧ d.frozen = n ∧ (0 < n → terminal = .frozen) := by
  cases stage <;> rfl

/-- A step of `conclude` that does not publish. -/
private theorem walks_conclude {stage stage' : ConcludeStage} {terminal : Terminal} {reply : Except FreezeFailure Nat}
    (h : d.walks c i (.conclude stage terminal reply)) (hlog : c'.log = c.log) (hheld : c'.held = c.held)
    (hf : d'.frozen = d.frozen)
    (hs : (Pc.conclude stage' terminal reply).published = (Pc.conclude stage terminal reply).published) :
    d'.walks c' i (.conclude stage' terminal reply) := by
  cases reply with
  | error failure => cases stage' <;> trivial
  | ok n =>
    rw [walks_conclude_eq] at h ⊢
    rw [hs]
    split at h
    · rw [if_pos ‹_›, hlog]
      exact h
    · rw [if_neg ‹_›, hf]
      exact ⟨h.1.mono [] hlog (by simp) (by simp [hheld]), h.2⟩

/-- A successful `FIFREEZE` of the worker. -/
private theorem walk_freezes {n : Nat} {t : Target} {rest : List Target} {aborted : Bool} {clock : Nat}
    (h : Walk c i n (t :: rest) []) (hlog : c'.log = .fifreeze i t.dev aborted clock (.ok ()) :: c.log)
    (hheld : c'.held = c.held) : Walk c' i n (t :: rest) [t.dev] := by
  have hn : c'.log = [.fifreeze i t.dev aborted clock (.ok ())] ++ c.log := hlog
  have ha : attempts c'.log i = attempts c.log i := by rw [hn, attempts_append (by simp)]
  have hs : successes c'.log i = successes c.log i ++ [t.dev] := by rw [hlog, successes_fifreeze]
  obtain ⟨restrict, entries, now, hst, hprep, hplan⟩ := h.plan
  refine ⟨⟨restrict, entries, now, ?_, ?_, by rw [ha]; exact hplan⟩, by rw [ha]; exact h.good,
    by rw [ha, hs, h.froze, List.append_nil], by rw [ha]; exact h.count, by rw [ha, hheld]; exact h.held, fun x hx => ?_⟩
  · rw [hn]; exact List.mem_append_right _ hst
  · rw [hn]; exact List.mem_append_right _ hprep
  · rw [hs, List.mem_append, List.mem_singleton] at hx
    by_cases hxt : x = t.dev
    · -- the walk back through the history stops at this very event
      intro e he
      rw [hlog, List.takeWhile_cons_of_neg (by simp [Event.freezes, hxt])] at he
      cases he
    · rw [hn]
      exact (h.untouched x (hx.resolve_right hxt)).append (by simp [Event.thaws])

/-- A call of the awaited worker. -/
private theorem walks_worker {t : Target} {rest : List Target} {v v' : Worker}
    (hc : Tracked.Call c i (.worker t rest ⟨v, false⟩) c' (.worker t rest ⟨v', false⟩)) (hw : v.On t.dev)
    (hflag : (c.ops i).aborted = false) {n : Nat} (h : Walk c i n (t :: rest) (v.flying t)) :
    Walk c' i n (t :: rest) (v'.flying t) ∧ (v' = .done .notAuthorized → (c'.ops i).deadline ≤ c'.now) := by
  cases hc with
  | opened => exact ⟨h.mono [] rfl (by simp) fun _ => id, fun h => by cases h⟩
  | openNext => exact ⟨h, fun h => by cases h⟩
  | unreachable => exact ⟨h, fun h => by cases h⟩
  | sawAborted _ _ m ha => rw [hflag] at ha; cases ha
  | notAborted => exact ⟨h, fun h => by cases h⟩
  | sawDeadline _ _ m aborted hd => exact ⟨h, fun _ => hd⟩
  | authorised => exact ⟨h, fun h => by cases h⟩
  | fifreeze _ _ m aborted clock r =>
    have hdev : m.dev = t.dev := hw
    refine ⟨?_, fun hv => ?_⟩
    · rw [hdev]
      rcases c.fifreeze_cases i t.dev aborted clock r with ⟨rfl, he⟩ | ⟨err, rfl, he⟩ <;> rw [he]
      · exact walk_freezes h rfl rfl
      · have hfly : (Worker.done (Worker.answered m (.error err))).flying t = [] := by
          rcases Worker.answered_cases m (.error err) with ⟨-, hr⟩ | ⟨_, -, hr | hr | hr⟩
          · cases hr
          all_goals rw [hr]; rfl
        rw [hfly]
        exact h.mono [_] rfl (by simp [Event.Dull]) fun _ => id
    · rcases Worker.answered_cases m r with ⟨hr, -⟩ | ⟨_, -, hr | hr | hr⟩ <;> rw [hr] at hv <;> cases hv

/-- A call of the awaited task. -/
private theorem walks_call {tr tr' : Tracked} (hc : tr.Call c i c' tr') (hw : tr.WF)
    (hflag : d.abort = none → (c.ops i).aborted = false) (h : d.walks c i (.await tr)) (hd : d'.abort = d.abort)
    (hf : d'.frozen = d.frozen) : d'.walks c' i (.await tr') := by
  cases tr with
  | prep j =>
    suffices ∀ {j' : Job Prep}, tr' = .prep j' → d.abort = none →
        j'.val.Planned c' i ∧ attempts c'.log i = [] ∧ successes c'.log i = [] ∧ d.frozen = 0 by
      obtain ⟨j', rfl⟩ : ∃ j', tr' = .prep j' := by cases hc <;> exact ⟨_, rfl⟩
      intro ha
      rw [hf]
      exact this rfl (hd ▸ ha)
    intro j' hj ha
    obtain ⟨hplan, hatt, hsucc, hz⟩ := h ha
    cases hc <;> cases hj
    case planned.refl restrict entries =>
      obtain ⟨now, hst⟩ := hplan
      exact ⟨⟨restrict, entries, now, hst, rfl⟩, hatt, hsucc, hz⟩
    case created.refl => exact ⟨hplan, hatt, hsucc, hz⟩
    case synced.refl => exact ⟨hplan, hatt, hsucc, hz⟩
    all_goals exact ⟨trivial, hatt, hsucc, hz⟩
  | worker t rest j =>
    obtain ⟨v, lost⟩ := j
    obtain ⟨v', rfl, rfl⟩ : ∃ v', lost = false ∧ tr' = .worker t rest ⟨v', false⟩ := by
      cases hc <;> exact ⟨_, rfl, rfl⟩
    intro ha
    rw [hd] at ha
    rw [hf]
    exact walks_worker hc hw (hflag ha) (h ha).1
  | removal k j =>
    cases hc with
    | removed k hu =>
      cases k with
      | nothingFrozen =>
        show Walk c' i d'.frozen [] [] ∧ d'.frozen = 0
        rw [hf]
        refine ⟨Walk.mono h.1 [] ?_ (by simp) ?_, h.2⟩ <;>
          rcases Ctx.unlink_cases hu with ⟨-, -, rfl⟩ | ⟨-, -, rfl⟩ | ⟨e, -, rfl⟩ <;> simp
      | _ => trivial
  | rollback j => cases hc <;> trivial

/-- Every step of a driver carries the walk on. -/
private theorem walks_move (hm : Driver.Move cfg c i fresh d c' d' new) (hw : d.WF) (hl : DriverLoc c i d) :
    d'.walks c' i d'.pc := by
  have hat : ∀ {pc : Pc}, d.pc = pc → d.walks c i pc := fun hpc => hpc ▸ hl.walks
  have hno : ∀ {p : Prop}, Driver.Recovering d → d.abort = none → p := fun h ha => by
    have := h.abort
    rw [ha] at this
    cases this
  cases hm
  case exhaust hpc ha => exact hat hpc ha
  case advance hpc ha => exact hat hpc ha
  case decide b hpc ho => cases b <;> exact hat hpc
  case spawn t rest hpc hd => exact fun _ => ⟨Walk.mono (hat hpc) [_] rfl (by simp [Event.Dull]) (by simp), fun h => by cases h⟩
  case resume hpc hd =>
    have h : (c.ops i).deadline ≤ c.now := hat hpc
    omega
  case ready hpc hd => exact hat hpc
  case announce k hpc =>
    obtain ⟨hrec, hok⟩ := hw.at hpc
    cases k with
    | boundary b =>
      cases b with
      | next rest => exact fun ha => hno hrec ha
      | _ => trivial
    | «await» tr =>
      have := hok tr rfl
      cases tr with
      | prep j => exact fun ha => hno hrec ha
      | worker t rest j => exact fun ha => hno hrec ha
      | _ => cases this
  case joinDrain j hpc hr he hh => exact walks_of_recovery hw hr rfl rfl
  case joinDrainRestart j hpc hr he hh => exact walks_of_recovery hw hr rfl rfl
  case settleDrain hpc hr hh =>
    show Driver.walks _ _ _ d.pc
    rw [hpc]
    trivial
  case commitNothing hpc ho hz hh hu =>
    exact ⟨Walk.mono (hat hpc) [_] rfl (by simp [Event.Dull]) (by simp), hz⟩
  case commitFrozen hpc ho hz => exact ⟨Walk.mono (hat hpc) [] rfl (by simp) (by simp), rfl, fun _ => rfl⟩
  case prepared plan hpc =>
    intro ha
    obtain ⟨⟨restrict, entries, now, hst, rfl⟩, hatt, hsucc, hz⟩ := hat hpc ha
    have hn : ∀ {log : List Event}, log = [.prepared i (.prepared (buildPlan entries restrict)), .joined i .prep] ++ c.log →
        attempts log i = [] ∧ successes log i = [] := by
      rintro log rfl
      rw [attempts_append (by simp), successes_append (by simp)]
      exact ⟨hatt, hsucc⟩
    refine Walk.start (hn rfl).1 (hn rfl).2 ⟨restrict, entries, now, ?_, ?_, rfl⟩ hz
    · exact List.mem_cons_of_mem _ (List.mem_cons_of_mem _ hst)
    · exact List.mem_cons_self
  case froze t rest m hpc hd =>
    subst hd
    intro ha
    have hdev : m.dev = t.dev := hw.trackedAt hpc
    refine Walk.collected (hat hpc ha).1 rfl (.inl ⟨m, rfl, hdev⟩) rfl fun x hx => ?_
    rcases hx with hx | hx
    · simp [hx]
    · have hx : x = t.dev := List.mem_singleton.1 hx
      simp [hx, hdev]
  case busy t rest m hpc hd =>
    subst hd
    intro ha
    refine Walk.collected (hat hpc ha).1 rfl (.inr (.inl ⟨m, rfl, hw.trackedAt hpc⟩)) rfl fun x hx => ?_
    have hx : x ∈ devs c.held := hx.resolve_right List.not_mem_nil
    simp [hx]
  case skipped t rest hpc =>
    exact fun ha => Walk.collected (hat hpc ha).1 rfl (.inr (.inr rfl)) rfl fun x hx => hx.resolve_right List.not_mem_nil
  case notAuthorized t rest hpc ha =>
    have h := (hat hpc ha).2 rfl
    show (_ : FreezeOp).deadline ≤ c.now
    simpa using h
  case lateResult hpc ho ha => exact fun h => hno (Driver.recovering_of_abort (hw.at hpc) ha) h
  case removed k j terminal reply hpc hk =>
    cases reply with
    | error failure => trivial
    | ok n =>
      obtain ⟨rfl, rfl, rfl⟩ := Driver.removedFor_ok hk
      obtain ⟨h, hz⟩ := hat hpc
      exact ⟨h.mono [_, _] rfl (by simp [Event.Dull]) fun _ => id, hz, fun h => by cases h⟩
  case commit terminal reply hpc => exact walks_conclude (hat hpc) rfl rfl rfl (by cases terminal <;> rfl)
  case finalise terminal reply hpc => exact walks_conclude (hat hpc) rfl rfl rfl rfl
  case retire terminal reply hpc => exact walks_conclude (hat hpc) (by simp) (by simp) rfl rfl
  case scope terminal reply hpc => exact walks_conclude (hat hpc) rfl rfl rfl rfl
  case publish terminal reply hpc ht =>
    cases reply with
    | error failure => cases terminal <;> trivial
    | ok n =>
      obtain ⟨h, rfl, hterm⟩ : Walk c i d.frozen [] [] ∧ d.frozen = n ∧ (0 < n → terminal = .frozen) := hat hpc
      have hmean := meaning h hterm
      cases terminal <;> exact hmean
  case publishNone terminal reply hpc ht hth =>
    have h := hw.token_iff
    simp [Pc.published, hpc, ht, hth] at h
  case arm hpc => exact walks_conclude (hat hpc) rfl rfl rfl rfl
  case install hpc => exact walks_conclude (hat hpc) (by simp) (by simp) rfl rfl
  case settle hpc => exact walks_conclude (hat hpc) rfl rfl rfl rfl
  case call tr tr' ht hc =>
    rcases Driver.tracked_cases ht with ⟨hpc, he⟩ | ⟨stage, -, he⟩ <;> rw [he]
    · exact walks_call hc (hw.tracked tr ht) hl.flag (hat hpc) rfl rfl
    · trivial
  case lose tr ht =>
    rcases Driver.tracked_cases ht with ⟨hpc, he⟩ | ⟨stage, -, he⟩ <;> rw [he]
    · have h := hat hpc
      cases tr with
      | removal k j => cases k <;> exact h
      | _ => exact h
    · trivial
  case drain hr htodo hc => exact walks_of_recovery hw hr rfl rfl
  case loseDrain hr => exact walks_of_recovery hw hr rfl rfl
  all_goals trivial

/-- The walk of the operation `j` is not disturbed by events that are no part of it. -/
private theorem walks_mono {log' : List Event} (h : d.walks c j d.pc) (hn : c'.log = log' ++ c.log)
    (ha : ∀ e ∈ log', ∀ t o, e ≠ .attempted j t o)
    (hs : ∀ e ∈ log', ∀ x aborted clock, e ≠ .fifreeze j x aborted clock (.ok ()))
    (hmine : d.pc.published = false → c'.held = c.held ∧ ∀ e ∈ log', ∀ task x r, e ≠ .fithaw task x r)
    (hdl : (c'.ops j).deadline = (c.ops j).deadline) (hnow : c.now ≤ c'.now) : d.walks c' j d.pc := by
  have hwalk : ∀ {n rest flying}, d.pc.published = false → Walk c j n rest flying → Walk c' j n rest flying := by
    intro n rest flying hp hwalk
    obtain ⟨hheld, ht⟩ := hmine hp
    exact hwalk.mono log' hn (fun e he => ⟨ha e he, hs e he, ht e he⟩) (by simp [hheld])
  have hmean : ∀ {n}, Meaning c.log j n → Meaning c'.log j n := fun h => hn ▸ h.append ha hs
  have hmem : ∀ {e : Event}, e ∈ c.log → e ∈ c'.log := fun he => hn ▸ List.mem_append_right _ he
  have hlate : (c.ops j).deadline ≤ c.now → (c'.ops j).deadline ≤ c'.now := fun h => hdl ▸ Nat.le_trans h hnow
  cases hpc : d.pc with
  | head rest => rw [hpc] at h hwalk; exact fun h' => hwalk rfl (h h')
  | decide b => rw [hpc] at h hwalk; cases b <;> first | exact hwalk rfl h | exact hlate h
  | decideClock b => rw [hpc] at h hwalk; cases b <;> first | exact hwalk rfl h | exact hlate h
  | tryCommit => rw [hpc] at h hwalk; exact hwalk rfl h
  | «await» tr =>
    rw [hpc] at h hwalk
    cases tr with
    | prep p =>
      intro h'
      obtain ⟨hplan, hatt, hsucc, hz⟩ := h h'
      refine ⟨?_, by rw [hn, attempts_append ha]; exact hatt, by rw [hn, successes_append hs]; exact hsucc, hz⟩
      unfold Prep.Planned at hplan ⊢
      split at hplan
      · obtain ⟨now, hst⟩ := hplan
        exact ⟨now, hmem hst⟩
      all_goals first
        | trivial
        | (obtain ⟨restrict, entries, now, hst, he⟩ := hplan; exact ⟨restrict, entries, now, hmem hst, he⟩)
    | worker t rest p => exact fun h' => ⟨hwalk rfl (h h').1, fun hv => hlate ((h h').2 hv)⟩
    | removal k p =>
      cases k with
      | nothingFrozen => exact ⟨hwalk rfl h.1, h.2⟩
      | _ => trivial
    | rollback p => trivial
  | conclude stage terminal reply =>
    rw [hpc] at h hwalk
    cases reply with
    | error failure => cases stage <;> trivial
    | ok n =>
      rw [walks_conclude_eq] at h ⊢
      split at h
      · rw [if_pos ‹_›]
        exact hmean h
      · rename_i hp
        rw [if_neg hp]
        exact ⟨hwalk (by simpa using hp) h.1, h.2⟩
  | _ => trivial

private theorem Loc.other {t t' u : Task} (hm : Task.Move cfg c i fresh t c' t' new) {n : TaskId} (hg : Tokens.Glob c n)
    (ht : Tokens.Loc c i t) (hj : j ≠ i) (hu : Tokens.Loc c j u) (h : Loc c j u) : Loc c' j u := by
  cases u with
  | driver d =>
    have h : DriverLoc c j d := h
    have hf := hm.frame hg ht
    have hops := hf.ops j hj
    obtain ⟨log', hn, hby⟩ := hf.log
    refine ⟨walks_mono h.walks hn (fun e he t o heq => ?_) (fun e he x a k heq => ?_) (fun hp => ?_) hops.deadline
      (Nat.le_of_eq hf.now.symm), fun ha => hops.aborted ▸ h.flag ha, fun n he => h.done n ?_⟩
    · subst heq
      exact hj (hby _ he _ rfl)
    · subst heq
      exact hj (hby _ he _ rfl)
    · -- the driver owns the token, so the task that moves does not
      have hown : c.owner = some j := by
        refine hu.owner.1 ?_
        have hw : d.WF := hu.wf
        have := hw.token_iff
        rw [hp] at this
        exact this
      have hno : t.holdsToken = false := Bool.eq_false_iff.2 fun h => by
        rw [ht.owner.1 h] at hown
        exact hj (Option.some.inj hown).symm
      obtain ⟨new, hn', hcall⟩ := hm.unowned ht.wf hno
      obtain rfl := List.append_cancel_right (hn.symm.trans hn')
      refine ⟨by rw [hf.guarded j hj hown], fun e he task x r heq => ?_⟩
      subst heq
      cases (hcall _ he).2
    · exact (hf.log.mem_or he).resolve_right fun hi => hj (hi _ rfl)
  | _ => trivial

/-- Only the driver of an operation attempts, freezes and replies. -/
theorem other_events {t t' : Task} (hm : Task.Move cfg c i fresh t c' t' new) (ht : ∀ d, t ≠ .driver d) :
    ∃ log', c'.log = log' ++ c.log ∧ ∀ e ∈ log', (∀ op t o, e ≠ .attempted op t o) ∧
      (∀ op x aborted clock r, e ≠ .fifreeze op x aborted clock r) ∧ ∀ op r, e ≠ .replied op r := by
  cases hm with
  | driver h => exact absurd rfl (ht _)
  | thaw h =>
    cases h
    case call hc =>
      cases hc with
      | discovered entries hs => exact ⟨[_], rfl, by simp⟩
      | undiscovered message hs => exact ⟨[], rfl, by simp⟩
      | opened hs => exact ⟨[], rfl, by simp⟩
      | notOpened err hs => exact ⟨[], rfl, by simp⟩
      | fithaw hs h =>
        rcases Ctx.fithaw_cases h with ⟨-, -, rfl⟩ | ⟨err, -, rfl⟩ <;> exact ⟨[_], rfl, by simp⟩
      | unlinked hs h =>
        rcases Ctx.unlink_cases h with ⟨-, -, rfl⟩ | ⟨-, -, rfl⟩ | ⟨e, -, rfl⟩ <;> exact ⟨[], rfl, by simp⟩
    case cancel => exact ⟨[], by simp, by simp⟩
    case install => exact ⟨[], by simp, by simp⟩
    all_goals first
      | exact ⟨[], rfl, by simp⟩
      | exact ⟨[_], rfl, by simp⟩
  | dogClaims => exact ⟨[_], rfl, by simp⟩
  | startInstall => exact ⟨[], by simp, by simp⟩
  | _ => exact ⟨[], rfl, by simp⟩

/-- A finished driver takes no step. -/
theorem not_finished (hm : Driver.Move cfg c i fresh d c' d' new) (hw : d.WF) : d.pc ≠ .finished := by
  intro hf
  have hrec : d.recovery = none := (hw.at hf).2.2.2
  cases hm
  case abort hpc => rcases hpc with hpc | hpc | ⟨hpc, -⟩ <;> rw [hf] at hpc <;> cases hpc
  case joinDrain hr _ _ => rw [hrec] at hr; cases hr
  case joinDrainRestart hr _ _ => rw [hrec] at hr; cases hr
  case drain hr _ _ => rw [hrec] at hr; cases hr
  case loseDrain hr => rw [hrec] at hr; cases hr
  case call ht _ => simp [Driver.tracked, hf] at ht
  case lose ht => simp [Driver.tracked, hf] at ht
  all_goals
    have hpc := ‹d.pc = _›
    rw [hf] at hpc
    cases hpc

private theorem move_driver (hm : Driver.Move cfg c i fresh d c' d' new) {n : TaskId} (hw : d.WF) (hg : Glob c n)
    (hl : DriverLoc c i d) : Glob c' n ∧ DriverLoc c' i d' := by
  have hfin := not_finished hm hw
  obtain ⟨log', hn, hby⟩ := hm.grows.log
  have hother : ∀ {op m}, op ≠ i → Meaning c.log op m → Meaning c'.log op m := by
    intro op m hop h
    rw [hn]
    refine h.append (fun e he t o heq => ?_) (fun e he x a k heq => ?_)
    · subst heq
      exact hop (hby _ he _ rfl)
    · subst heq
      exact hop (hby _ he _ rfl)
  have hloc : ∀ {p : Prop}, (∃ m, .replied i (.ok m) ∈ c.log) → p := by
    rintro p ⟨m, he⟩
    exact absurd (hl.done m he) hfin
  have hwalks := walks_move hm hw hl
  have hflag : d'.abort = none → (c'.ops i).aborted = false := fun h => by
    obtain ⟨ha, he⟩ := flag hm hw h
    rw [he]
    exact hl.flag ha
  rcases hm.records with ⟨r, hr, hr', hlog, hk⟩ | ⟨hr, more, hlog, hs⟩
  · have hmean : ∀ m, r = .ok m → Meaning c.log i m ∧ d'.pc = .finished := by
      rintro m rfl
      rcases hk with ⟨failure, hf⟩ | ⟨hfin', terminal, hpc⟩
      · cases hf
      · have hw : d.walks c i (.conclude .reply terminal (.ok m)) := hpc ▸ hl.walks
        exact ⟨hw, hfin'⟩
    refine ⟨fun op m he => ?_, ⟨hwalks, hflag, fun m he => ?_⟩⟩
    · rw [hlog] at he
      by_cases hop : op = i
      · subst hop
        rcases List.mem_cons.1 he with he | he
        · cases he
          rw [hlog]
          have hmore : Meaning ([.replied op (.ok m)] ++ c.log) op m := (hmean m rfl).1.append (by simp) (by simp)
          exact hmore
        · exact hloc ⟨m, he⟩
      · refine hother hop (hg op m ((List.mem_cons.1 he).resolve_left fun h => ?_))
        cases h
        exact hop rfl
    · rw [hlog] at he
      rcases List.mem_cons.1 he with he | he
      · cases he
        exact (hmean m rfl).2
      · exact hloc ⟨m, he⟩
  · have hold : ∀ {op m}, .replied op (.ok m) ∈ c'.log → .replied op (.ok m) ∈ c.log := by
      intro op m he
      rw [hlog] at he
      exact (List.mem_append.1 he).resolve_left fun he => (hs op _ he).1 _ rfl
    refine ⟨fun op m he => ?_, ⟨hwalks, hflag, fun m he => hloc ⟨m, hold he⟩⟩⟩
    by_cases hop : op = i
    · subst hop
      exact hloc ⟨m, hold he⟩
    · exact hother hop (hg op m (hold he))

private theorem move {t t' : Task} (hm : Task.Move cfg c i fresh t c' t' new) {n : TaskId} (hw : t.WF)
    (hg : Glob c n) (hl : Loc c i t) : Glob c' n ∧ Loc c' i t' := by
  cases t with
  | driver d =>
    cases hm with
    | driver h => exact move_driver h hw hg hl
  | _ =>
    obtain ⟨log', hn, he⟩ := other_events hm (fun _ h => by cases h)
    refine ⟨fun op m hr => ?_, by cases hm <;> trivial⟩
    rw [hn] at hr ⊢
    have hr := (List.mem_append.1 hr).resolve_left fun hr => (he _ hr).2.2 _ _ rfl
    exact (hg op m hr).append (fun e h => (he e h).1 op) fun e h x a k => (he e h).2.1 op x a k _

/-- Every successful reply means what it says, in every reachable state of the agent. -/
theorem reach {ok : Agent → Action → Agent → Prop} {a : Agent}
    (h : Machine.Reach (Agent.step cfg) ok Agent.Initial a) : a.Holds Glob Loc := by
  refine h.invariant (fun a h => ?_) (fun a act a' hr ih hs _ => ?_)
  · obtain ⟨c, n, rfl⟩ := h.booted
    have hlog : (Agent.bootCtx c).log = [] := h.log
    refine Agent.boot_holds (fun op m he => ?_) fun _ => trivial
    rw [hlog] at he
    cases he
  · have htok := Tokens.reach hr
    have hreg := Registry.reach hr
    refine Agent.holds_step ih hs ?_ ?_ ?_ ?_ ?_
    · intro i t c' t' new ht hm _
      obtain ⟨hG, hL⟩ := move hm (htok.loc ht).wf ih.glob (ih.loc ht)
      exact ⟨hG, fun _ => id, hL, fun _ _ => trivial,
        fun j u hj hu hl => Loc.other hm htok.glob (htok.loc ht) hj (htok.loc hu) hl⟩
    · intro restrict hst _
      have hn : (Agent.freezeCtx cfg a.ctx a.next restrict).log =
          [.spawned a.next .prep, .started a.next restrict a.ctx.snapshot] ++ a.ctx.log := rfl
      have hnew : ∀ {e : Event}, e ∈ a.ctx.log → e.author ≠ some a.next := hreg.glob.unheard
      refine ⟨fun op m he => ?_, ⟨fun _ => ⟨⟨a.ctx.snapshot, ?_⟩, ?_, ?_, rfl⟩, fun _ => ?_, fun m he => ?_⟩,
        fun j u hj hu hl => ?_⟩
      · rw [hn] at he ⊢
        have he := (List.mem_append.1 he).resolve_left (by simp)
        exact (ih.glob op m he).append (by simp) (by simp)
      · rw [hn]
        simp
      · rw [hn, attempts_append (by simp)]
        exact attempts_eq_nil fun e he => hnew he
      · rw [hn, successes_append (by simp)]
        exact successes_eq_nil fun e he => hnew he
      · simp [Agent.freezeCtx, FreezeOp.start]
      · rw [hn] at he
        have he := (List.mem_append.1 he).resolve_left (by simp)
        exact absurd rfl (hnew he)
      · cases u with
        | driver d =>
          have hl : DriverLoc a.ctx j d := hl
          have hops : (Agent.freezeCtx cfg a.ctx a.next restrict).ops j = a.ctx.ops j := by
            simp [Agent.freezeCtx, Function.update_of_ne (Nat.ne_of_lt hj)]
          refine ⟨walks_mono hl.walks hn (by simp) (by simp) (fun hp => ?_) (by rw [hops]) (Nat.le_refl _),
            fun ha => by rw [hops]; exact hl.flag ha, fun m he => hl.done m ?_⟩
          · exact absurd hst ((htok.loc hu).not_thawed hp)
          · rw [hn] at he
            exact (List.mem_append.1 he).resolve_left (by simp)
        | _ => trivial
    · exact ⟨ih.glob, trivial, trivial⟩
    · intro c' he _
      have hlog : c'.log = a.ctx.log ∧ c'.ops = a.ctx.ops ∧ c'.held = a.ctx.held ∧ a.ctx.now ≤ c'.now := by
        cases he <;> simp
      obtain ⟨hlog, hops, hheld, hnow⟩ := hlog
      refine ⟨fun op m he => hlog ▸ ih.glob op m (hlog ▸ he), fun j u hu hl => ?_⟩
      cases u with
      | driver d =>
        have hl : DriverLoc a.ctx j d := hl
        refine ⟨walks_mono hl.walks (List.nil_append _ ▸ hlog : c'.log = [] ++ a.ctx.log) (by simp) (by simp) (fun _ => ⟨hheld, by simp⟩) (by rw [hops]) hnow,
          fun ha => by rw [hops]; exact hl.flag ha, fun m he => hl.done m (hlog ▸ he)⟩
      | _ => trivial
    · intro _
      exact ⟨ih.glob, fun _ => trivial⟩

end FreezeReply

/-! ### The result -/

/-- In every run, under any environment: if the operation `op` replied `Ok(n)`, then its plan, built from some mount
table and the restriction of its request, was attempted target by target in reverse mount order, each once; every
attempt ended frozen, busy or skipped; `n` is the number of superblocks that its own `FIFREEZE` froze, which are
pairwise distinct; and if there are any, `Frozen` was published at an instant at which each of them had a held handle on
its device and had seen no `FITHAW` since its `FIFREEZE`. -/
theorem freeze_reply_means {cfg : Config} {ok : Agent → Action → Agent → Prop} {a : Agent}
    (h : Machine.Reach (Agent.step cfg) ok Agent.Initial a) {op : TaskId} {n : Nat}
    (hr : .replied op (.ok n) ∈ a.ctx.log) :
    (∃ restrict entries now, .started op restrict now ∈ a.ctx.log ∧
      .prepared op (.prepared (buildPlan entries restrict)) ∈ a.ctx.log ∧
      (attempts a.ctx.log op).map Prod.fst = (buildPlan entries restrict).targets.reverse) ∧
    (∀ p ∈ attempts a.ctx.log op, (∃ m, p.2 = some (.frozen m) ∧ m.dev = p.1.dev) ∨
      (∃ m, p.2 = some (.busy m) ∧ m.dev = p.1.dev) ∨ p.2 = some .skipped) ∧
    n = (successes a.ctx.log op).length ∧ (successes a.ctx.log op).Nodup ∧
    (0 < n → ∃ newer now older, a.ctx.log = newer ++ .published op .frozen now :: older ∧
      ∀ x ∈ successes a.ctx.log op, x ∈ devs now.held ∧
        ∀ e ∈ older.takeWhile fun e => !e.freezes op x, e.thaws x = false) := by
  have hm := (FreezeReply.reach h).glob op n hr
  exact ⟨hm.plan, hm.good, hm.count, hm.distinct, hm.published⟩

private def Event.isSuccess (op : TaskId) (n : Nat) : Event → Bool
  | .replied i (.ok m) => i = op && m = n
  | _ => false

private theorem mem_of_any_isSuccess {op : TaskId} {n : Nat} {log : List Event}
    (h : log.any (Event.isSuccess op n) = true) : .replied op (.ok n) ∈ log := by
  obtain ⟨e, he, hp⟩ := List.any_eq_true.1 h
  unfold Event.isSuccess at hp
  split at hp
  · simp only [Bool.and_eq_true, decide_eq_true_eq] at hp
    rwa [hp.1, hp.2] at he
  · cases hp

/-- A freeze of two superblocks, the second of which is already frozen. -/
private def freezeTwo : List Action :=
  [.freeze none] ++ Script.prepare 1 [Script.row (8, 1) [slash], Script.row (8, 2) [slash, 97]] ++
    Script.attempt 1 (8, 2) (.error (.errno .EBUSY)) ++ Script.attempt 1 (8, 1) (.ok ()) ++ Script.drive 1 12

theorem freeze_reply_means_of_two :
    ∃ a, Machine.Reach (Agent.step ⟨60, 30, 300⟩) (fun _ _ _ => True) Agent.Initial a ∧
      .replied 1 (.ok 1) ∈ a.ctx.log ∧ (successes a.ctx.log 1).length = 1 ∧
      (∃ newer now older, a.ctx.log = newer ++ .published 1 .frozen now :: older ∧
        ∀ x ∈ successes a.ctx.log 1, x ∈ devs now.held) := by
  obtain ⟨a, hr, hp⟩ : ∃ a, Machine.Reach (Agent.step ⟨60, 30, 300⟩) (fun _ _ _ => True) Agent.Initial a ∧
      a.ctx.log.any (Event.isSuccess 1 1) = true :=
    Machine.Reach.of_execute (fun _ _ _ => true) (fun _ _ _ _ => trivial) freezeTwo
      (fun a => a.ctx.log.any (Event.isSuccess 1 1)) (Agent.cold_initial false) (by decide) (by decide)
  have hrep := mem_of_any_isSuccess hp
  obtain ⟨-, -, hcount, -, hpub⟩ := freeze_reply_means hr hrep
  obtain ⟨newer, now, older, hlog, hx⟩ := hpub Nat.one_pos
  exact ⟨a, hr, hrep, hcount.symm, newer, now, older, hlog, fun x hx' => (hx x hx').1⟩

end Qeminga
