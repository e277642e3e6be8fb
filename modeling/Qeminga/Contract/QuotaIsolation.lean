import Qeminga.Contract.DispatchAccounting
import Qeminga.RateLimiter

/-!
# A quota is spent by its own class

Whatever arrives, a command is denied for its quota exactly when the bucket of its class is exhausted by the earlier commands
of that class that were known and enabled.  A flood of other commands, or of frames that are rejected before the limiter,
takes nothing from it; and a thaw is never denied for a quota.
-/

namespace Qeminga

namespace Dispatcher

variable {σ : Type} {b : Bucket σ} {r : RateLimiter σ} {call : Call} {req : Proto.Request} {now : Nat} {c : CommandClass}

/-! ### The buckets -/

def RateLimiter.bucket? (r : RateLimiter σ) : CommandClass → Option σ
  | .pingSync => some r.pingSync
  | .get => some r.get
  | .fsfreezeFreeze => some r.fsfreezeFreeze
  | .fstrim => some r.fstrim
  | .shutdown => some r.shutdown
  | .unlimited => none

theorem check_fst (b : Bucket σ) (r : RateLimiter σ) (now : Nat) (c : CommandClass) :
    (r.check b now c).1 = (r.bucket? c).elim true fun s => (b.check s now).1 := by
  cases c <;> rfl

/-- A check changes the bucket of its class only. -/
theorem bucket?_check (b : Bucket σ) (r : RateLimiter σ) (now : Nat) (c c' : CommandClass) :
    (r.check b now c).2.bucket? c' = if c = c' then (r.bucket? c').map fun s => (b.check s now).2 else r.bucket? c' := by
  cases c <;> cases c' <;> rfl

theorem bucket?_withClock (b : Bucket σ) (limits : Configuration.RateLimits) (c : CommandClass) :
    (RateLimiter.withClock b limits).bucket? c = (c.quota limits).map fun quota => b.perMinute (max quota 1) := by
  cases c <;> rfl

/-! ### The gates with the limiter -/

theorem gatesWith_of_denied (h : (isAllowlisted req.method && call.enabled.enabled req.method) = false) :
    (call.gatesWith b r now req).2 = r := by
  unfold Call.gatesWith Call.runtimeFeatureGate
  cases hallow : isAllowlisted req.method with
  | false => rfl
  | true =>
    rw [hallow, Bool.true_and] at h
    simp [h]

theorem gatesWith_of_known (h : (isAllowlisted req.method && call.enabled.enabled req.method) = true) :
    (call.gatesWith b r now req).2 = (r.check b now ((CommandClass.of req.method).getD .shutdown)).2 := by
  rw [Bool.and_eq_true] at h
  unfold Call.gatesWith Call.runtimeFeatureGate
  simp only [h.1, h.2, Bool.not_true, Bool.false_eq_true, if_false, if_true]
  split
  · rfl
  · split <;> rfl

/-- The gates with the limiter decide as those of a call that is given the answers of the limiter. -/
theorem gatesWith_fst (b : Bucket σ) (r : RateLimiter σ) (now : Nat) (call : Call) (req : Proto.Request) :
    (call.gatesWith b r now req).1 = (call.limitedBy b r now).gates req := by
  have hcheck : ∀ c, (call.limitedBy b r now).check c =
      if (r.check b now c).1 then .ok () else .error (.rateLimited c.name) := by
    intro c
    unfold Call.check
    cases c <;> rfl
  unfold Call.gatesWith Call.gates
  simp only [hcheck]
  cases isAllowlisted req.method with
  | false => rfl
  | true =>
    have hgate : (call.limitedBy b r now).runtimeFeatureGate req.method = call.runtimeFeatureGate req.method := rfl
    rw [hgate]
    cases call.runtimeFeatureGate req.method with
    | error err => rfl
    | ok u =>
      cases (r.check b now ((CommandClass.of req.method).getD .shutdown)).1 with
      | false => rfl
      | true =>
        have hstate : (call.limitedBy b r now).stateAtGate = call.stateAtGate := rfl
        simp only [hstate]
        cases call.stateAtGate.isFrozenForGate && !isFrozenSafe req.method <;> rfl

/-- The gates deny for the quota what is known and enabled and has an exhausted bucket. -/
theorem gatesWith_rateLimited (b : Bucket σ) (r : RateLimiter σ) (now : Nat) (call : Call) (req : Proto.Request) :
    (∃ err, (call.gatesWith b r now req).1 = .error (.rateLimited, err)) ↔
      (isAllowlisted req.method && call.enabled.enabled req.method) = true ∧
        (r.check b now ((CommandClass.of req.method).getD .shutdown)).1 = false := by
  unfold Call.gatesWith Call.runtimeFeatureGate
  cases isAllowlisted req.method with
  | false => simp
  | true =>
    cases call.enabled.enabled req.method with
    | false => simp
    | true =>
      cases hcheck : (r.check b now ((CommandClass.of req.method).getD .shutdown)).1 with
      | false => simp [hcheck]
      | true => cases hgate : call.stateAtGate.isFrozenForGate && !isFrozenSafe req.method <;> simp [hcheck]

/-! ### Who asks the limiter -/

/-- The class whose bucket the event asks: that of a known and enabled command. -/
def Arrival.asks (x : Arrival) : Option CommandClass :=
  (x.call.request x.event).bind fun req =>
    if isAllowlisted req.method && x.call.enabled.enabled req.method then CommandClass.of req.method else none

theorem after_eq (b : Bucket σ) (r : RateLimiter σ) (x : Arrival) :
    x.call.after b r x.now x.event = x.asks.elim r fun c => (r.check b x.now c).2 := by
  unfold Arrival.asks Call.after Call.request
  cases x.event with
  | oversized n => rfl
  | frame bytes sentinel =>
    simp only
    cases Proto.parseRequest x.call.serde bytes with
    | error err => rfl
    | ok req =>
      simp only [Except.toOption, Option.bind_some]
      cases hknown : isAllowlisted req.method && x.call.enabled.enabled req.method with
      | false => simp [gatesWith_of_denied hknown]
      | true =>
        obtain ⟨c, hc⟩ := Option.isSome_iff_exists.1 (isSome_class (Bool.and_eq_true_iff.1 hknown).1)
        simp [gatesWith_of_known hknown, hc]

/-- A command is denied for its quota when its bucket says so, and only then. -/
theorem reason_eq_rateLimited (b : Bucket σ) (r : RateLimiter σ) (x : Arrival) :
    (x.call.limitedBy b r x.now).reason x.event = some (.gate .rateLimited) ↔
      ∃ c, x.asks = some c ∧ (r.check b x.now c).1 = false := by
  unfold Call.reason Arrival.asks Call.request
  cases x.event with
  | oversized n => simp
  | frame bytes sentinel =>
    have hserde : (x.call.limitedBy b r x.now).serde = x.call.serde := rfl
    simp only [hserde]
    cases Proto.parseRequest x.call.serde bytes with
    | error err => simp [Except.toOption]
    | ok req =>
      simp only [Except.toOption, Option.bind_some, Option.map_eq_some_iff, Reason.gate.injEq, exists_eq_right]
      rw [denial_eq_some_iff, ← gatesWith_fst, gatesWith_rateLimited]
      cases hknown : isAllowlisted req.method && x.call.enabled.enabled req.method with
      | false => simp
      | true =>
        obtain ⟨c, hc⟩ := Option.isSome_iff_exists.1 (isSome_class (Bool.and_eq_true_iff.1 hknown).1)
        simp [hc]

/-! ### A stream of events -/

/-- The instants of the events that ask the bucket of `c`. -/
def asked (c : CommandClass) (xs : List Arrival) : List Nat :=
  xs.filterMap fun x => if x.asks = some c then some x.now else none

theorem asked_cons (c : CommandClass) (x : Arrival) (xs : List Arrival) :
    asked c (x :: xs) = if x.asks = some c then x.now :: asked c xs else asked c xs := by
  unfold asked
  rw [List.filterMap_cons]
  split <;> simp_all

/-- A bucket after checks at these instants. -/
def spent (b : Bucket σ) (s : σ) (instants : List Nat) : σ := instants.foldl (fun s t => (b.check s t).2) s

theorem bucket?_after (b : Bucket σ) (r : RateLimiter σ) (x : Arrival) (c : CommandClass) :
    (x.call.after b r x.now x.event).bucket? c =
      if x.asks = some c then (r.bucket? c).map fun s => (b.check s x.now).2 else r.bucket? c := by
  rw [after_eq]
  cases x.asks with
  | none => rfl
  | some c' =>
    simp only [Option.elim_some, bucket?_check, Option.some.injEq]

/-- After a stream of events a bucket has seen the events of its class. -/
theorem bucket?_dispatchAll (b : Bucket σ) (xs : List Arrival) (r : RateLimiter σ) (log : Log) (c : CommandClass) :
    (dispatchAll b xs r log).1.bucket? c = (r.bucket? c).map fun s => spent b s (asked c xs) := by
  induction xs generalizing r log with
  | nil =>
    cases hb : r.bucket? c with
    | none => simp [dispatchAll, hb]
    | some s => simp [dispatchAll, hb, spent, asked]
  | cons x xs ih =>
    rw [dispatchAll, ih, bucket?_after, asked_cons]
    by_cases hx : x.asks = some c
    · rw [if_pos hx, if_pos hx, Option.map_map]
      rfl
    · rw [if_neg hx, if_neg hx]

/-- One event appends one record, with the reason that the event is due. -/
theorem handle_record (call : Call) (event : Framing.DecodeEvent) (log : Log) :
    ∃ record, (call.handle event log).2.records = log.records ++ [record] ∧ record.reason = call.reason event := by
  cases event with
  | oversized n => exact ⟨_, rfl, rfl⟩
  | frame bytes sentinel =>
    cases hparse : Proto.parseRequest call.serde bytes with
    | error err =>
      refine ⟨call.record "" none .denied (some .parseError), ?_, by simp [Call.reason, Call.record, hparse]⟩
      unfold Call.handle
      simp only [hparse]
      rfl
    | ok req =>
      rw [handle_parsed hparse]
      rcases result_spec call req log with ⟨hdenial, handler, -, hresult⟩ | ⟨denial, err, hdenial, hresult⟩
      · rw [hresult]
        exact ⟨_, rfl, by simp [Call.reason, Call.record, hparse, hdenial]⟩
      · rw [hresult]
        exact ⟨_, rfl, by simp [Call.reason, Call.record, hparse, hdenial]⟩

/-- After any stream of events the next one is denied for its quota exactly when the bucket of its class, had it seen the
events of that class only, would deny it. -/
theorem quota_isolated {σ : Type} (b : Bucket σ) (limits : Configuration.RateLimits) (xs : List Arrival) (x : Arrival) :
    ∃ record, (dispatchAll b (xs ++ [x]) (.withClock b limits) .empty).2.records =
        (dispatchAll b xs (.withClock b limits) .empty).2.records ++ [record] ∧
      (record.reason = some (.gate .rateLimited) ↔ ∃ c quota, x.asks = some c ∧ c.quota limits = some quota ∧
        (b.check (spent b (b.perMinute (max quota 1)) (asked c xs)) x.now).1 = false) := by
  have hlast : (dispatchAll b (xs ++ [x]) (.withClock b limits) .empty).2 =
      ((x.call.limitedBy b (dispatchAll b xs (.withClock b limits) .empty).1 x.now).handle x.event
        (dispatchAll b xs (.withClock b limits) .empty).2).2 := by
    generalize RateLimiter.withClock b limits = r
    generalize Log.empty = log
    induction xs generalizing r log with
    | nil => rfl
    | cons y ys ih => exact ih _ _
  obtain ⟨record, hrecord, hreason⟩ := handle_record
    (x.call.limitedBy b (dispatchAll b xs (.withClock b limits) .empty).1 x.now) x.event
    (dispatchAll b xs (.withClock b limits) .empty).2
  refine ⟨record, by rw [hlast, hrecord], ?_⟩
  rw [hreason, reason_eq_rateLimited]
  refine exists_congr fun c => ?_
  rw [check_fst, bucket?_dispatchAll, bucket?_withClock, Option.map_map]
  cases c.quota limits <;> simp

end Dispatcher

end Qeminga
