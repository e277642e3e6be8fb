import Qeminga.Thaw
import Qeminga.Lib.Renewal

/-!
# When a watchdog expires

The timer loop of `watchdog.rs` under a schedule of heartbeats and one cancellation.  The runtime polls the task when it
is spawned, when something arrives and when one of its timers is due; what arrives at an instant has arrived when the
task is polled at that instant.  A poll runs the loop until it is pending, each `select!` in the order of its branches.
The idle deadline is a renewed deadline (`Renewal`), so the expiry is the end of the last renewal or the hard cap.
-/

namespace Qeminga

namespace Dog

/-- The branch that the loop takes next: the cancellation first, then the deadlines, a heartbeat last. -/
def select (c : Ctx) (i : TaskId) (g : Dog) : Choice :=
  match g.stage with
  | .waiting => if c.cancelled i then .cancelled else .poll
  | .polled =>
    if g.hardDeadline ≤ c.now ∨ g.idleDeadline ≤ c.now then .fire
    else if c.refreshed i then .refresh
    else .pend
  | .expiring => .claim
  | .ended => .claim

/-- A poll of the task: the loop runs until it is pending, cancelled, or about to call `expire`. -/
def poll (cfg : Config) (i : TaskId) : Nat → Ctx → Dog → Ctx × Dog
  | 0, c, g => (c, g)
  | fuel + 1, c, g =>
    match g.step cfg c i (g.select c i) with
    | some (c', .dog g') =>
      if g.select c i = .poll ∨ g.select c i = .refresh then poll cfg i fuel c' g' else (c', g')
    | _ => (c, g)

end Dog

/-- The instants at which the status heartbeats arrive, and that of the cancellation if there is one. -/
structure Schedule where
  heartbeats : List Nat
  cancel : Option Nat

/-- The timer task and the permit of its `refresh`. -/
structure Watch where
  dog : Dog
  permit : Bool

namespace Watch

variable (cfg : Config) (i : TaskId) (armed : Nat) (S : Schedule) (env : Nat → Ctx) (spurious : Nat → Bool)

/-- What the task sees at the instant `t`; everything else is the environment's. -/
def ctx (t : Nat) (permit : Bool) : Ctx :=
  { env t with
    now := t
    cancelled := Function.update (env t).cancelled i (S.cancel.any fun k => decide (k ≤ t))
    refreshed := Function.update (env t).refreshed i permit }

/-- The runtime polls the task at the instant `t`: it was spawned, something arrived, or a timer is due.  A task may be
polled at other instants as well. -/
def woken (t : Nat) (g : Dog) : Bool :=
  t = armed || decide (t ∈ S.heartbeats) || S.cancel = some t || decide (g.hardDeadline ≤ t) || decide (g.idleDeadline ≤ t) ||
    spurious t

/-- What happens at the instant `t`: the arrivals, then the poll.  It ends after at most two rounds of the loop, since
the second one finds no heartbeat. -/
def instant (t : Nat) (w : Watch) : Watch :=
  let permit := w.permit || decide (t ∈ S.heartbeats)
  if w.dog.stage = .waiting ∧ woken armed S spurious t w.dog = true then
    let r := w.dog.poll cfg i 4 (ctx i S env t permit)
    ⟨r.2, r.1.refreshed i⟩
  else ⟨w.dog, permit⟩

/-- The task after the `n` instants from `armed` on. -/
def run : Nat → Watch
  | 0 => ⟨.arm cfg armed, false⟩
  | n + 1 => instant cfg i armed S env spurious (armed + n) (run n)

end Watch

/-! ### One poll -/

namespace Dog

variable {cfg : Config} {i : TaskId} {c : Ctx} {hard idle : Nat}

theorem poll_cancelled (hc : c.cancelled i = true) :
    (⟨hard, idle, .waiting⟩ : Dog).poll cfg i 4 c = (c, ⟨hard, idle, .ended⟩) := by
  simp [poll, select, step, hc]

theorem poll_due (hc : c.cancelled i = false) (hd : hard ≤ c.now ∨ idle ≤ c.now) :
    (⟨hard, idle, .waiting⟩ : Dog).poll cfg i 4 c = (c, ⟨hard, idle, .expiring⟩) := by
  simp [poll, select, step, hc, hd]

theorem poll_pending (hc : c.cancelled i = false) (hd : ¬ (hard ≤ c.now ∨ idle ≤ c.now)) (hr : c.refreshed i = false) :
    (⟨hard, idle, .waiting⟩ : Dog).poll cfg i 4 c = (c, ⟨hard, idle, .waiting⟩) := by
  simp [poll, select, step, hc, hd, hr]

/-- A heartbeat renews the idle deadline, and the loop goes round once more. -/
theorem poll_refreshed (hc : c.cancelled i = false) (hd : ¬ (hard ≤ c.now ∨ idle ≤ c.now)) (hr : c.refreshed i = true)
    (hidle : 0 < cfg.idle) :
    (⟨hard, idle, .waiting⟩ : Dog).poll cfg i 4 c =
      ({ c with refreshed := Function.update c.refreshed i false }, ⟨hard, c.now + cfg.idle, .waiting⟩) := by
  have hd' : ¬ (hard ≤ c.now ∨ c.now + cfg.idle ≤ c.now) := by omega
  simp only [poll, step, select, hc, Bool.false_eq_true, ↓reduceIte, decide_true, Bool.not_false, Bool.and_self,
    reduceCtorEq, or_false, hd, hr, or_true, hd', Function.update_self, or_self]

end Dog

/-! ### One instant -/

namespace Watch

open Renewal

variable {cfg : Config} {i : TaskId} {armed : Nat} {S : Schedule} {env : Nat → Ctx} {spurious : Nat → Bool} {n r : Nat}
  {w : Watch}

/-- The loop waits before the instant `armed + n`; its idle time counts from the renewal `r`, after which nothing has
arrived. -/
structure Waits (cfg : Config) (armed : Nat) (S : Schedule) (n r : Nat) (w : Watch) : Prop where
  eq : w = ⟨⟨armed + cfg.max, r + cfg.idle, .waiting⟩, false⟩
  renews : Renews armed cfg.idle S.heartbeats r
  past : r ≤ armed + n
  seen : ∀ h ∈ S.heartbeats, r < h → armed + n ≤ h
  hard : armed + n ≤ armed + cfg.max
  idle : armed + n ≤ r + cfg.idle

theorem waits_arm : Waits cfg armed S 0 armed ⟨.arm cfg armed, false⟩ where
  eq := rfl
  renews := .start
  past := Nat.le_refl _
  seen := fun _ _ h => Nat.le_of_lt h
  hard := Nat.le_add_right _ _
  idle := Nat.le_add_right _ _

/-- At a deadline the loop ends or expires, whatever heartbeat has arrived at the same instant. -/
theorem instant_due {t : Nat} (hs : w.dog.stage = .waiting) (hd : w.dog.hardDeadline ≤ t ∨ w.dog.idleDeadline ≤ t) :
    (instant cfg i armed S env spurious t w).dog =
      { w.dog with stage := if S.cancel.any (fun k => decide (k ≤ t)) = true then .ended else .expiring } := by
  have hwoken : woken armed S spurious t w.dog = true := by rcases hd with hd | hd <;> simp [woken, hd]
  obtain ⟨⟨hard, idle, stage⟩, permit⟩ := w
  obtain rfl : stage = .waiting := hs
  simp only [instant, hwoken, and_self, ↓reduceIte]
  cases hc : S.cancel.any (fun k => decide (k ≤ t)) with
  | true =>
    rw [Dog.poll_cancelled (by simp only [ctx, Function.update_self, hc])]
    rfl
  | false =>
    rw [Dog.poll_due (by simp only [ctx, Function.update_self, hc]) hd]
    rfl

/-- The cancellation ends the loop, also at the instant at which a deadline is due. -/
theorem Waits.cancelled (h : Waits cfg armed S n r w) {k : Nat} (hk : S.cancel = some k)
    (hn : k = armed + n ∨ k ≤ armed ∧ n = 0) :
    (instant cfg i armed S env spurious (armed + n) w).dog.stage = .ended := by
  have hwoken : woken armed S spurious (armed + n) w.dog = true := by
    rcases hn with rfl | ⟨-, rfl⟩ <;> simp [woken, hk]
  have hstage : w.dog.stage = .waiting := by rw [h.eq]
  have hle : k ≤ armed + n := by omega
  simp only [instant, hwoken, hstage, and_self, ↓reduceIte]
  rw [h.eq, Dog.poll_cancelled (by simp [ctx, hk, hle])]

private theorem not_cancelled {t : Nat} (hc : ∀ k, S.cancel = some k → t < k) :
    S.cancel.any (fun k => decide (k ≤ t)) = false := by
  cases hk : S.cancel with
  | none => rfl
  | some k => simpa using hc k hk

/-- Before the deadlines the loop goes on waiting; a heartbeat renews the idle time. -/
theorem Waits.goes_on (h : Waits cfg armed S n r w) (hc : ∀ k, S.cancel = some k → armed + n < k)
    (hd : ¬ (armed + cfg.max ≤ armed + n ∨ r + cfg.idle ≤ armed + n)) :
    ∃ r', Waits cfg armed S (n + 1) r' (instant cfg i armed S env spurious (armed + n) w) := by
  have hcancel := not_cancelled hc
  have hstage : w.dog.stage = .waiting := by rw [h.eq]
  have hpast := h.past
  by_cases hb : armed + n ∈ S.heartbeats
  · have hwoken : woken armed S spurious (armed + n) w.dog = true := by simp [woken, hb]
    refine ⟨armed + n, ?_, ?_, by omega, fun h _ hlt => hlt, by omega, by omega⟩
    · simp only [instant, hwoken, hstage, and_self, ↓reduceIte]
      rw [h.eq, Dog.poll_refreshed (by simp [ctx, hcancel]) (by simpa [ctx] using hd) (by simp [ctx, hb]) (by omega)]
      simp [ctx]
    · rcases Nat.lt_or_eq_of_le hpast with hlt | heq
      · exact h.renews.event hb hlt h.seen (by omega)
      · exact heq ▸ h.renews
  · have hkeep : instant cfg i armed S env spurious (armed + n) w = w := by
      unfold instant
      split
      · rw [h.eq]
        simp only [hb, decide_false, Bool.or_false]
        rw [Dog.poll_pending (by simp [ctx, hcancel]) (by simpa [ctx] using hd) (by simp [ctx])]
        simp [ctx]
      · rw [h.eq]
        simp [hb]
    refine ⟨r, by rw [hkeep]; exact h.eq, h.renews, by omega, fun b hmem hlt => ?_, by omega, by omega⟩
    have hle := h.seen b hmem hlt
    refine Nat.lt_of_le_of_ne hle ?_
    rintro rfl
    exact hb hmem

/-- Nothing happens to a loop that has ended or expired. -/
theorem instant_of_stage {t : Nat} (h : w.dog.stage ≠ .waiting) : (instant cfg i armed S env spurious t w).dog = w.dog := by
  simp [instant, h]

/-! ### A run -/

theorem run_mono {m : Nat} (h : (run cfg i armed S env spurious n).dog.stage ≠ .waiting) (hm : n ≤ m) :
    (run cfg i armed S env spurious m).dog = (run cfg i armed S env spurious n).dog := by
  induction m, hm using Nat.le_induction with
  | base => rfl
  | succ m hm ih => rw [run, instant_of_stage (by rw [ih]; exact h), ih]

/-- The watchdog waits until the cancellation or the first deadline. -/
theorem waits_run {e g : Nat} (hg : Last armed cfg.idle S.heartbeats g) (he : e = min (armed + cfg.max) (g + cfg.idle))
    (hn : armed + n ≤ e) (hc : ∀ k, S.cancel = some k → armed + n ≤ k ∨ n = 0) :
    ∃ r, Waits cfg armed S n r (run cfg i armed S env spurious n) := by
  induction n with
  | zero => exact ⟨armed, waits_arm⟩
  | succ n ih =>
    obtain ⟨r, h⟩ := ih (by omega) fun k hk => by have := hc k hk; omega
    have hrg := hg.renews.le_of_quiet hg.quiet h.renews
    refine h.goes_on (fun k hk => ?_) ?_
    · have := hc k hk
      omega
    · rintro (hd | hd)
      · omega
      · -- a deadline that is reached is that of the last renewal
        have hq : Quiet cfg.idle S.heartbeats r := fun b hb hlt => by have := h.seen b hb hlt; omega
        have := hg.first r h.renews hq
        omega

/-- At the first deadline, if it is not cancelled, the watchdog expires. -/
theorem expires_run {e g : Nat} (hg : Last armed cfg.idle S.heartbeats g) (he : e = min (armed + cfg.max) (g + cfg.idle))
    (hn : armed + n = e) (hc : ∀ k, S.cancel = some k → e < k) :
    (run cfg i armed S env spurious (n + 1)).dog.stage = .expiring := by
  obtain ⟨r, h⟩ : ∃ r, Waits cfg armed S n r (run cfg i armed S env spurious n) :=
    waits_run hg he (Nat.le_of_eq hn) fun k hk => .inl (by rw [hn]; exact Nat.le_of_lt (hc k hk))
  have hrg := hg.renews.le_of_quiet hg.quiet h.renews
  have hd : armed + cfg.max ≤ armed + n ∨ r + cfg.idle ≤ armed + n := by omega
  rw [run, instant_due (by rw [h.eq]) (by rw [h.eq]; exact hd), not_cancelled fun k hk => by rw [hn]; exact hc k hk]
  rfl

/-- A cancellation at or before the first deadline ends the loop, and it ends in no other way. -/
theorem cancelled_run {e g k : Nat} (hg : Last armed cfg.idle S.heartbeats g)
    (he : e = min (armed + cfg.max) (g + cfg.idle)) (hk : S.cancel = some k) (hke : k ≤ e) :
    (run cfg i armed S env spurious n).dog.stage ≠ .expiring := by
  have hge := hg.renews.start_le
  have hwaits : ∀ m ≤ k - armed, ∃ r, Waits cfg armed S m r (run cfg i armed S env spurious m) := by
    refine fun m hm => waits_run hg he (by omega) fun k' hk' => ?_
    obtain rfl : k = k' := Option.some.inj (hk.symm.trans hk')
    omega
  rcases Nat.lt_or_ge (k - armed) n with hn | hn
  · obtain ⟨r, h⟩ := hwaits (k - armed) (Nat.le_refl _)
    have hended : (run cfg i armed S env spurious (k - armed + 1)).dog.stage = .ended := h.cancelled hk (by omega)
    rw [run_mono (by rw [hended]; rintro ⟨⟩) hn, hended]
    rintro ⟨⟩
  · obtain ⟨r, h⟩ := hwaits n hn
    rw [h.eq]
    rintro ⟨⟩

/-- One more heartbeat, at the instant `armed + n`. -/
private def later (armed : Nat) (S : Schedule) (n : Nat) : Schedule := ⟨(armed + n) :: S.heartbeats, S.cancel⟩

private theorem run_later {m : Nat} (hm : m ≤ n) :
    run cfg i armed (later armed S n) env spurious m = run cfg i armed S env spurious m := by
  induction m with
  | zero => rfl
  | succ m ih =>
    have hsame : decide (armed + m ∈ (later armed S n).heartbeats) = decide (armed + m ∈ S.heartbeats) := by
      have hne : armed + m ≠ armed + n := by omega
      simp only [later, List.mem_cons, hne, false_or]
    have hwoken : ∀ g, woken armed (later armed S n) spurious (armed + m) g = woken armed S spurious (armed + m) g := by
      intro g
      unfold woken
      rw [hsame]
      rfl
    have hctx : ctx i (later armed S n) env = ctx i S env := rfl
    rw [run, run, ih (by omega)]
    simp only [instant, hwoken, hctx, hsame]

/-- A heartbeat that arrives at or after the deadline of the moment changes nothing. -/
theorem run_of_late (hd : (run cfg i armed S env spurious n).dog.stage ≠ .waiting ∨
      (run cfg i armed S env spurious n).dog.hardDeadline ≤ armed + n ∨
      (run cfg i armed S env spurious n).dog.idleDeadline ≤ armed + n) (m : Nat) :
    (run cfg i armed (later armed S n) env spurious m).dog = (run cfg i armed S env spurious m).dog := by
  rcases Nat.lt_or_ge n m with hm | hm
  · have hnext : (run cfg i armed (later armed S n) env spurious (n + 1)).dog =
        (run cfg i armed S env spurious (n + 1)).dog ∧ (run cfg i armed S env spurious (n + 1)).dog.stage ≠ .waiting := by
      rw [run, run, run_later (Nat.le_refl n)]
      by_cases hs : (run cfg i armed S env spurious n).dog.stage = .waiting
      · have hd := hd.resolve_left (absurd hs)
        rw [instant_due hs hd, instant_due hs hd]
        refine ⟨rfl, ?_⟩
        dsimp only
        split <;> rintro ⟨⟩
      · rw [instant_of_stage hs, instant_of_stage hs]
        exact ⟨rfl, hs⟩
    rw [run_mono (by rw [hnext.1]; exact hnext.2) hm, run_mono hnext.2 hm, hnext.1]
  · rw [run_later hm]

end Watch

/-! ### The contract -/

open Watch Renewal in
/-- For every configuration and every schedule there is a last renewal `g` of the idle time, and with it the watchdog
expires at `min (armed + max) (g + idle)`, neither before nor after, and claims the thaw if the filesystems are frozen
then; unless it is cancelled by then, and it never claims.  A heartbeat at or after the deadline of its moment changes
nothing, and none moves the expiry past the hard cap. -/
theorem watchdog_expiry (cfg : Config) (i : TaskId) (armed : Nat) (S : Schedule) (env : Nat → Ctx) (spurious : Nat → Bool) :
    ∃ g e, Last armed cfg.idle S.heartbeats g ∧ e = min (armed + cfg.max) (g + cfg.idle) ∧ e ≤ armed + cfg.max ∧
      ((∀ k, S.cancel = some k → e < k) →
        (∀ n, (run cfg i armed S env spurious n).dog.stage = if armed + n ≤ e then .waiting else .expiring) ∧
        ∀ n permit, armed + n = e →
          ∃ c' next, (run cfg i armed S env spurious (n + 1)).dog.step cfg (ctx i S env e permit) i .claim = some (c', next) ∧
            ((∃ token, next = .thaw token) ↔ (env e).state = .frozen)) ∧
      (∀ k, S.cancel = some k → k ≤ e → ∀ n c, (run cfg i armed S env spurious n).dog.step cfg c i .claim = none) ∧
      ∀ n, (run cfg i armed S env spurious n).dog.stage ≠ .waiting ∨
          (run cfg i armed S env spurious n).dog.hardDeadline ≤ armed + n ∨
          (run cfg i armed S env spurious n).dog.idleDeadline ≤ armed + n →
        ∀ m, (run cfg i armed ⟨(armed + n) :: S.heartbeats, S.cancel⟩ env spurious m).dog =
          (run cfg i armed S env spurious m).dog := by
  obtain ⟨g, hg⟩ := exists_last armed cfg.idle S.heartbeats
  have hge := hg.renews.start_le
  refine ⟨g, _, hg, rfl, Nat.min_le_left _ _, fun hc => ⟨fun n => ?_, fun n permit hn => ?_⟩, fun k hk hke n c => ?_,
    fun n hd m => run_of_late hd m⟩
  · split
    · next hn =>
      obtain ⟨r, h⟩ : ∃ r, Waits cfg armed S n r (run cfg i armed S env spurious n) :=
        waits_run hg rfl hn fun k hk => .inl (Nat.le_trans hn (Nat.le_of_lt (hc k hk)))
      rw [h.eq]
    · next hn =>
      obtain ⟨m, hm⟩ : ∃ m, armed + m = min (armed + cfg.max) (g + cfg.idle) :=
        ⟨min (armed + cfg.max) (g + cfg.idle) - armed, by omega⟩
      have hend : (run cfg i armed S env spurious (m + 1)).dog.stage = .expiring := expires_run hg rfl hm hc
      rw [run_mono (by rw [hend]; rintro ⟨⟩) (by omega : m + 1 ≤ n), hend]
  · have hend : (run cfg i armed S env spurious (n + 1)).dog.stage = .expiring := expires_run hg rfl hn hc
    simp only [Dog.step, hend, ↓reduceIte]
    cases hs : (env (min (armed + cfg.max) (g + cfg.idle))).state <;>
      simp [ctx, hs, FreezeState.claimThawFromFrozen]
  · have hnot : (run cfg i armed S env spurious n).dog.stage ≠ .expiring := cancelled_run hg rfl hk hke
    simp [Dog.step, hnot]

end Qeminga
