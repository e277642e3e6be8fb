import Qeminga.RouterMoves
import Qeminga.Lib.Machine
import Mathlib.Algebra.BigOperators.Group.List.Basic

/-!
# Every lost record is counted

Each record ever written is delivered, waits in the ring, in the queue or in flight, or is counted as lost in exactly one
place, under the reason for which it was dropped.  This is so as long as no counter has reached its largest value.
-/

namespace Qeminga

/-! ### The counters of a gap -/

namespace LossGap

def count (gap : LossGap) : LossReason → Nat
  | .ringOverflow => gap.ringOverflow
  | .sinkBackpressure => gap.sinkBackpressure
  | .sinkError => gap.sinkError

/-- The losses of all reasons. -/
def size (gap : LossGap) : Nat := gap.ringOverflow + gap.sinkBackpressure + gap.sinkError

/-- No counter of the gap has reached its largest value. -/
def Exact (gap : LossGap) : Prop := ∀ reason, gap.count reason < maxCount

theorem count_add (gap : LossGap) (n : Nat) (reason reason' : LossReason) :
    (gap.add n reason).count reason' =
      if reason = reason' then saturatingAdd (gap.count reason') n else gap.count reason' := by
  cases reason <;> cases reason' <;> rfl

theorem count_merge (gap other : LossGap) (reason : LossReason) :
    (gap.merge other).count reason = saturatingAdd (gap.count reason) (other.count reason) := by
  cases reason <;> rfl

theorem count_of (n : Nat) (reason reason' : LossReason) :
    (of n reason).count reason' = if reason = reason' then saturatingAdd 0 n else 0 := by
  cases reason <;> cases reason' <;> rfl

end LossGap

theorem saturatingAdd_lt {m n : Nat} (h : saturatingAdd m n < maxCount) : saturatingAdd m n = m + n := by
  unfold saturatingAdd at *
  omega

/-! ### The counters of the queue -/

/-- The losses for `reason` in a list of items. -/
def lossesFor (reason : LossReason) (items : List Item) : Nat :=
  (items.map fun | .line _ => 0 | .lost gap => gap.count reason).sum

section

variable (reason : LossReason)

@[simp] theorem lossesFor_nil : lossesFor reason [] = 0 := rfl

@[simp] theorem lossesFor_line (bytes : Bytes) (items : List Item) :
    lossesFor reason (.line bytes :: items) = lossesFor reason items := by simp [lossesFor]

@[simp] theorem lossesFor_lost (gap : LossGap) (items : List Item) :
    lossesFor reason (.lost gap :: items) = gap.count reason + lossesFor reason items := by simp [lossesFor]

@[simp] theorem lossesFor_append (items items' : List Item) :
    lossesFor reason (items ++ items') = lossesFor reason items + lossesFor reason items' := by simp [lossesFor]

end

/-- No counter of a gap among the items has reached its largest value. -/
def ExactIn (items : List Item) : Prop := ∀ gap, .lost gap ∈ items → gap.Exact

theorem ExactIn.append {items items' : List Item} : ExactIn (items ++ items') ↔ ExactIn items ∧ ExactIn items' := by
  simp only [ExactIn, List.mem_append, or_imp, forall_and]

theorem ExactIn.lost {gap : LossGap} {items : List Item} : ExactIn (.lost gap :: items) ↔ gap.Exact ∧ ExactIn items := by
  simp [ExactIn]

theorem ExactIn.line {bytes : Bytes} {items : List Item} : ExactIn (.line bytes :: items) ↔ ExactIn items := by
  simp [ExactIn]

namespace Router

/-- What is lost at the tail of the queue is counted there under its reason, and nothing else changes. -/
theorem lossesFor_lose {r : Router} {n : Nat} {reason : LossReason} (h : ExactIn (r.lose n reason).queue) :
    ExactIn r.queue ∧ linesOf (r.lose n reason).queue = linesOf r.queue ∧
      ∀ reason', lossesFor reason' (r.lose n reason).queue =
        lossesFor reason' r.queue + if reason = reason' then n else 0 := by
  rcases r.lose_cases n reason with ⟨front, gap, hq, he⟩ | ⟨-, he⟩
  · rw [he] at h ⊢
    obtain ⟨hfront, hgap⟩ := ExactIn.append.1 h
    have hgap := (ExactIn.lost.1 hgap).1
    have hcount : ∀ reason', (gap.add n reason).count reason' = gap.count reason' + if reason = reason' then n else 0 := by
      intro reason'
      have hlt := hgap reason'
      rw [LossGap.count_add] at hlt ⊢
      split
      · next heq =>
        rw [if_pos heq] at hlt
        exact saturatingAdd_lt hlt
      · rfl
    refine ⟨?_, by simp [pushed, hq], fun reason' => ?_⟩
    · rw [hq]
      refine ExactIn.append.2 ⟨hfront, ExactIn.lost.2 ⟨fun reason' => ?_, by simp [ExactIn]⟩⟩
      have hlt := hgap reason'
      rw [hcount] at hlt
      omega
    · simp only [pushed, hq, lossesFor_append, lossesFor_lost, lossesFor_nil, hcount]
      omega
  · rw [he] at h ⊢
    obtain ⟨hfront, hgap⟩ := ExactIn.append.1 h
    have hgap := (ExactIn.lost.1 hgap).1
    refine ⟨hfront, by simp [pushed], fun reason' => ?_⟩
    have hlt := hgap reason'
    simp only [pushed, lossesFor_append, lossesFor_lost, lossesFor_nil, LossGap.count_of] at hlt ⊢
    split
    · next heq =>
      rw [if_pos heq] at hlt
      rw [saturatingAdd_lt hlt]
      omega
    · rfl

/-- What is put back at the head of the queue is counted there. -/
theorem lossesFor_loseAtFront {r : Router} {gap : LossGap} (h : ExactIn (r.loseAtFront gap).queue) :
    linesOf (r.loseAtFront gap).queue = linesOf r.queue ∧
      ∀ reason, lossesFor reason (r.loseAtFront gap).queue = gap.count reason + lossesFor reason r.queue := by
  rcases r.loseAtFront_cases gap with ⟨head, rest, hq, he⟩ | ⟨-, he⟩
  · rw [he] at h ⊢
    refine ⟨by simp [hq], fun reason => ?_⟩
    have hlt := (ExactIn.lost.1 h).1 reason
    rw [LossGap.count_merge] at hlt
    simp only [hq, lossesFor_lost, LossGap.count_merge, saturatingAdd_lt hlt]
    omega
  · rw [he]
    exact ⟨by simp, fun reason => by simp⟩

/-- The lines are queued in order as far as they fit; the others are counted as lost to a full queue. -/
theorem lossesFor_foldl {lines : List Bytes} {r : Router} (h : ExactIn (lines.foldl enqueue r).queue) :
    ExactIn r.queue ∧ ∃ dropped,
      (linesOf (lines.foldl enqueue r).queue).length + dropped = (linesOf r.queue).length + lines.length ∧
      ∀ reason, lossesFor reason (lines.foldl enqueue r).queue =
        lossesFor reason r.queue + if .sinkBackpressure = reason then dropped else 0 := by
  induction lines generalizing r with
  | nil => exact ⟨h, 0, rfl, fun reason => by simp⟩
  | cons line lines ih =>
    obtain ⟨hexact, dropped, hlines, hlosses⟩ := ih h
    rw [List.foldl_cons]
    rcases r.enqueue_cases line with ⟨-, -, he⟩ | ⟨-, he⟩
    · rw [he] at hexact hlines hlosses ⊢
      obtain ⟨hr, hsame, hadd⟩ := lossesFor_lose hexact
      refine ⟨hr, dropped + 1, ?_, fun reason => ?_⟩
      · rw [hsame] at hlines
        rw [List.length_cons]
        omega
      · rw [hlosses, hadd]
        split <;> omega
    · rw [he] at hexact hlines hlosses ⊢
      refine ⟨(ExactIn.append.1 hexact).1, dropped, ?_, fun reason => ?_⟩
      · rw [hlines]
        simp [pushed]
        omega
      · rw [hlosses]
        simp [pushed]

end Router

theorem LineRing.le_evict (n capacity : Nat) (lines : List Bytes) (used lost : Nat) (h : lost ≤ maxCount) :
    lost ≤ (evict n capacity lines used lost).2.2 := by
  induction lines generalizing used lost with
  | nil => exact Nat.le_refl _
  | cons old lines ih =>
    rw [evict]
    split
    · refine Nat.le_trans ?_ (ih _ (saturatingAdd lost 1) (Nat.min_le_right ..))
      unfold saturatingAdd
      omega
    · exact Nat.le_refl _

/-- A line that the ring drops is counted. -/
theorem LineRing.evict_lost {n capacity : Nat} {lines : List Bytes} {used lost : Nat}
    (h : (evict n capacity lines used lost).2.2 < maxCount) :
    (evict n capacity lines used lost).2.2 + (evict n capacity lines used lost).2.1.length = lost + lines.length := by
  induction lines generalizing used lost with
  | nil => rfl
  | cons old lines ih =>
    rw [evict] at h ⊢
    split
    · next hfull =>
      rw [if_pos hfull] at h
      rw [ih h, List.length_cons]
      have hone : saturatingAdd lost 1 = lost + 1 := by
        have hle := le_evict n capacity lines (used - old.length) (saturatingAdd lost 1) (Nat.min_le_right ..)
        exact saturatingAdd_lt (Nat.lt_of_le_of_lt hle h)
      omega
    · rfl

/-- A record goes into the ring, and what goes out of it is counted. -/
theorem LineRing.push_lost {r : LineRing} {line : Bytes} (h : (r.push line).lost < maxCount) :
    (r.push line).lost + (r.push line).lines.length = r.lost + r.lines.length + 1 := by
  unfold push at h ⊢
  split
  · next hlong =>
    rw [if_pos hlong] at h
    have hone : saturatingAdd r.lost 1 = r.lost + 1 := saturatingAdd_lt h
    simp only [hone]
    omega
  · next hshort =>
    rw [if_neg hshort] at h
    have := evict_lost h
    simp only [List.length_append, List.length_singleton]
    omega

theorem LineRing.length_push_le (r : LineRing) (line : Bytes) : (r.push line).lines.length ≤ r.lines.length + 1 := by
  have hevict : ∀ (lines : List Bytes) (used lost : Nat),
      (evict line.length r.capacity lines used lost).2.1.length ≤ lines.length := by
    intro lines
    induction lines with
    | nil => exact fun _ _ => Nat.le_refl _
    | cons old lines ih =>
      intro used lost
      rw [evict]
      split
      · exact Nat.le_succ_of_le (ih _ _)
      · exact Nat.le_refl _
  unfold push
  split
  · exact Nat.le_succ _
  · simpa using hevict r.lines r.used r.lost

/-! ### The journal of a router -/

/-- What an observer writes down: the records written, what the sink has accepted, and the lines dropped for each reason. -/
structure Journal where
  submitted : List Bytes
  sink : List Item
  dropped : LossReason → Nat

namespace Router

/-- The lines that a step drops: those the ring evicts or refuses, those the queue has no room for, and those the sink
refuses or nothing is there to write. -/
def drops (r : Router) (act : Action) (r' : Router) : LossReason → Nat
  | .ringOverflow =>
    match act, r.mode with
    | .record _, .ring => r.ring.lines.length + 1 - r'.ring.lines.length
    | _, _ => 0
  | .sinkBackpressure =>
    match act, r.mode with
    | .record _, .normal =>
      if r.exited && !r.shutdown then 0 else (linesOf r.queue).length + 1 - (linesOf r'.queue).length
    | .flushToNormal, _ => (linesOf r.queue).length + r.ring.lines.length - (linesOf r'.queue).length
    | _, _ => 0
  | .sinkError =>
    match act, r.mode with
    | .record _, .normal => if r.exited && !r.shutdown then 1 else 0
    | .delivered false, _ => (linesOf r.inFlight.toList).length
    | _, _ => 0

def observe (j : Journal) (r : Router) (act : Action) (r' : Router) : Journal where
  submitted := match act with | .record line => j.submitted ++ [line] | _ => j.submitted
  sink := match act with | .delivered true => j.sink ++ r.inFlight.toList | _ => j.sink
  dropped := fun reason => j.dropped reason + r.drops act r' reason

/-- No counter of losses has reached its largest value. -/
structure Unsaturated (r : Router) : Prop where
  ring : r.ring.lost < maxCount
  gaps : ExactIn r.pending

/-- A router with its journal in the runs whose steps satisfy `ok`. -/
abbrev Journaled (ok : Router → Action → Router → Prop) (s : Router × Journal) : Prop :=
  Machine.Reach (Machine.observed step observe) (fun s act t => ok s.1 act t.1)
    (fun s => s.1.Initial ∧ s.2 = ⟨[], [], fun _ => 0⟩) s

/-- The books balance. -/
structure Ledger (r : Router) (j : Journal) : Prop where
  reasons : ∀ reason, lossesFor reason j.sink + lossesFor reason r.pending +
    (if reason = .ringOverflow then r.ring.lost else 0) = j.dropped reason
  records : j.submitted.length = (linesOf j.sink).length + (linesOf r.pending).length + r.ring.lines.length +
    (j.dropped .ringOverflow + j.dropped .sinkBackpressure + j.dropped .sinkError)

variable {r r' : Router} {j : Journal}

/-- A step that drops nothing and leaves the lists alone. -/
private theorem Ledger.same (h : Ledger r j) {act : Action} (hp : r'.pending = r.pending) (hr : r'.ring = r.ring)
    (hs : (observe j r act r').submitted = j.submitted) (hk : (observe j r act r').sink = j.sink)
    (hd : ∀ reason, r.drops act r' reason = 0) : Ledger r' (observe j r act r') := by
  have hdropped : ∀ reason, (observe j r act r').dropped reason = j.dropped reason := fun reason => by
    simp [observe, hd]
  exact ⟨fun reason => by rw [hk, hp, hr, hdropped, h.reasons], by simp only [hs, hk, hp, hr, hdropped, h.records]⟩

private theorem pending_of_queues (h : Queues r r') : linesOf r'.pending = linesOf r.inFlight.toList ++ linesOf r'.queue ∧
    ∀ reason, lossesFor reason r'.pending = lossesFor reason r.inFlight.toList + lossesFor reason r'.queue := by
  rw [pending, h.inFlight]
  exact ⟨linesOf_append _ _, fun reason => lossesFor_append _ _ _⟩

private theorem pending_self (r : Router) : linesOf r.pending = linesOf r.inFlight.toList ++ linesOf r.queue ∧
    ∀ reason, lossesFor reason r.pending = lossesFor reason r.inFlight.toList + lossesFor reason r.queue :=
  pending_of_queues (.refl r)

private theorem Unsaturated.queue (h : r.Unsaturated) : ExactIn r.queue := (ExactIn.append.1 h.gaps).2

theorem Ledger.writeRecord (h : Ledger r j) (line : Bytes) (hu : (r.writeRecord line).Unsaturated) :
    Ledger (r.writeRecord line) (observe j r (.record line) (r.writeRecord line)) := by
  obtain ⟨hlines, hlosses⟩ := pending_self r
  have hreasons := h.reasons
  have hrecords := h.records
  cases hm : r.mode with
  | ring =>
    have he : r.writeRecord line = { r with ring := r.ring.push line } := by rw [Router.writeRecord, hm]
    rw [he] at hu ⊢
    have hpush := LineRing.push_lost hu.ring
    have hle := r.ring.length_push_le line
    refine ⟨fun reason => ?_, ?_⟩
    · have := hreasons reason
      cases reason <;> simp [observe, drops, hm, pending] at this ⊢ <;> omega
    · simp [observe, drops, hm, pending] at hrecords ⊢
      omega
  | normal =>
    cases hgone : (r.exited && !r.shutdown) with
    | true =>
      have he : r.writeRecord line = r.lose 1 .sinkError := by simp [Router.writeRecord, hm, hgone]
      rw [he] at hu ⊢
      obtain ⟨-, hsame, hadd⟩ := lossesFor_lose hu.queue
      obtain ⟨hlines', hlosses'⟩ := pending_of_queues (r.lose_queues 1 .sinkError)
      have hring := (r.lose_queues 1 .sinkError).ring
      refine ⟨fun reason => ?_, ?_⟩
      · have := hreasons reason
        rw [hlosses] at this
        rw [hlosses', hadd, hring]
        cases reason <;> simp [observe, drops, hm, hgone] at this ⊢ <;> omega
      · rw [hlines] at hrecords
        rw [hlines', hsame, hring]
        simp [observe, drops, hm, hgone] at hrecords ⊢
        omega
    | false =>
      have he : r.writeRecord line = r.enqueue line := by simp [Router.writeRecord, hm, hgone]
      rw [he] at hu ⊢
      obtain ⟨-, dropped, hcount, hadd⟩ := @lossesFor_foldl [line] r hu.queue
      obtain ⟨hlines', hlosses'⟩ := pending_of_queues (r.enqueue_queues line)
      have hring := (r.enqueue_queues line).ring
      simp only [List.foldl_cons, List.foldl_nil, List.length_singleton] at hcount hadd
      refine ⟨fun reason => ?_, ?_⟩
      · have := hreasons reason
        rw [hlosses] at this
        rw [hlosses', hadd, hring]
        cases reason <;> simp [observe, drops, hm, hgone] at this ⊢ <;> omega
      · rw [hlines] at hrecords
        rw [hlines', hring]
        simp [observe, drops, hm, hgone] at hrecords ⊢
        omega

theorem Ledger.flushToNormal (h : Ledger r j) (hu : r.flushToNormal.Unsaturated) :
    Ledger r.flushToNormal (observe j r .flushToNormal r.flushToNormal) := by
  obtain ⟨hlines, hlosses⟩ := pending_self r
  obtain ⟨-, hring, hflight, -⟩ := r.flushToNormal_rest
  -- the queue after the losses of the ring have been recorded in it
  generalize hmid : (if 0 < r.ring.lost then Router.lose { r with ring := r.ring.drain } r.ring.lost .ringOverflow
    else { r with ring := r.ring.drain }) = mid
  have hqueue : r.flushToNormal.queue = (r.ring.lines.foldl Router.enqueue mid).queue := by rw [← hmid]; rfl
  obtain ⟨hexact, dropped, hcount, hadd⟩ := lossesFor_foldl (hqueue ▸ hu.queue)
  have hlost : linesOf mid.queue = linesOf r.queue ∧
      ∀ reason, lossesFor reason mid.queue = lossesFor reason r.queue + if .ringOverflow = reason then r.ring.lost else 0 := by
    rw [← hmid] at hexact ⊢
    split
    · next hpos =>
      rw [if_pos hpos] at hexact
      obtain ⟨-, hsame, hadd⟩ := lossesFor_lose hexact
      exact ⟨hsame, hadd⟩
    · next hzero =>
      have : r.ring.lost = 0 := by omega
      exact ⟨rfl, fun reason => by simp [this]⟩
  have hlines' : linesOf r.flushToNormal.pending =
      linesOf r.inFlight.toList ++ linesOf (r.ring.lines.foldl Router.enqueue mid).queue := by
    rw [pending, hflight, linesOf_append, hqueue]
  refine ⟨fun reason => ?_, ?_⟩
  · have := h.reasons reason
    rw [hlosses] at this
    rw [pending, hflight, lossesFor_append, hqueue, hadd, hlost.2, hring]
    rw [hlost.1] at hcount
    cases reason <;> simp [observe, drops, hqueue, LineRing.drain] at this ⊢ <;> omega
  · have hrecords := h.records
    rw [hlines] at hrecords
    rw [hlost.1] at hcount
    rw [hlines', hring]
    simp [observe, drops, hqueue, LineRing.drain] at hrecords ⊢
    omega

theorem Ledger.take (h : Ledger r j) (ht : r.take = some r') : Ledger r' (observe j r .take r') := by
  rcases take_item ht with ⟨item, queue, -, hidle, hq, rfl⟩ | rfl
  · exact h.same (by simp [pending, hidle, hq]) rfl rfl rfl fun reason => by cases reason <;> rfl
  · exact h.same rfl rfl rfl rfl fun reason => by cases reason <;> rfl

theorem Ledger.delivered (h : Ledger r j) {ok : Bool} (hd : r.delivered ok = some r') (hu : r'.Unsaturated) :
    Ledger r' (observe j r (.delivered ok) r') := by
  obtain ⟨hlines, hlosses⟩ := pending_self r
  have hreasons := h.reasons
  have hrecords := h.records
  rw [hlines] at hrecords
  obtain ⟨item, hitem, ⟨rfl, rfl⟩ | ⟨rfl, gap, hgap, rfl⟩⟩ := delivered_cases hd
  · refine ⟨fun reason => ?_, ?_⟩
    · have := hreasons reason
      rw [hlosses] at this
      cases reason <;> simp [observe, drops, pending] at this ⊢ <;> omega
    · simp [observe, drops, pending] at hrecords ⊢
      omega
  · obtain ⟨hsame, hadd⟩ := lossesFor_loseAtFront hu.queue
    have hq := loseAtFront_queues
      { r with inFlight := none, queued := r.queued - item.bytes, failedAt := some r.pushes } gap
    obtain ⟨hlines', hlosses'⟩ := pending_of_queues hq
    have hring := hq.ring
    refine ⟨fun reason => ?_, ?_⟩
    · have := hreasons reason
      rw [hlosses, hitem] at this
      rw [hlosses', hadd, hring]
      rcases hgap with rfl | ⟨hitem', rfl⟩
      · cases reason <;> simp [observe, drops, hitem] at this ⊢ <;> omega
      · cases item with
        | lost gap => cases hitem'
        | line bytes =>
          have hone : saturatingAdd 0 1 = 1 := rfl
          cases reason <;> simp [observe, drops, hitem, LossGap.count_of, hone] at this ⊢ <;> omega
    · rw [hlines', hsame, hring]
      rw [hitem] at hrecords
      rcases hgap with rfl | ⟨hitem', rfl⟩
      · simp [observe, drops, hitem] at hrecords ⊢
        omega
      · cases item with
        | lost gap => cases hitem'
        | line bytes =>
          simp [observe, drops, hitem] at hrecords ⊢
          omega

/-- One step. -/
theorem Ledger.step (h : Ledger r j) {act : Action} (hs : r.step act = some r') (hu : r'.Unsaturated) :
    Ledger r' (observe j r act r') := by
  cases act with
  | record line =>
    obtain rfl := Option.some.inj hs
    exact h.writeRecord line hu
  | enterRing =>
    obtain rfl := Option.some.inj hs
    exact h.same rfl rfl rfl rfl fun reason => by cases reason <;> rfl
  | flushToNormal =>
    obtain rfl := Option.some.inj hs
    exact h.flushToNormal hu
  | startWriter spawned =>
    obtain rfl := Option.some.inj hs
    have hq : (r.startWriter spawned).pending = r.pending := by
      unfold startWriter
      split
      · rfl
      · split <;> rfl
    exact h.same hq (r.startWriter_queues spawned).ring rfl rfl fun reason => by cases reason <;> rfl
  | take => exact h.take hs
  | delivered ok => exact h.delivered hs hu
  | shutdown =>
    obtain rfl := Option.some.inj hs
    exact h.same rfl rfl rfl rfl fun reason => by cases reason <;> rfl

theorem Journaled.ledger {ok : Router → Action → Router → Prop} (hok : ∀ r act r', ok r act r' → r'.Unsaturated)
    {s : Router × Journal} (h : Journaled ok s) : Ledger s.1 s.2 := by
  refine h.invariant (I := fun s => Ledger s.1 s.2) (fun s hs => ?_) fun s act t _ hl hst hgood => ?_
  · obtain ⟨⟨ring, queue, hr⟩, hj⟩ := hs
    rw [hr, hj]
    exact ⟨fun reason => by cases reason <;> rfl, rfl⟩
  · obtain ⟨r', hr', rfl⟩ := Option.map_eq_some_iff.1 hst
    exact hl.step hr' (hok _ _ _ hgood)

end Router

/-! ### The claim -/

/-- The losses of all reasons in a list of items. -/
def lossesIn (items : List Item) : Nat :=
  (items.map fun | .line _ => 0 | .lost gap => gap.size).sum

theorem lossesIn_eq (items : List Item) :
    lossesIn items = lossesFor .ringOverflow items + lossesFor .sinkBackpressure items + lossesFor .sinkError items := by
  induction items with
  | nil => rfl
  | cons item items ih =>
    cases item with
    | line bytes => simpa [lossesIn] using ih
    | lost gap =>
      simp only [lossesIn, LossGap.size, List.map_cons, List.sum_cons, lossesFor_lost, LossGap.count] at ih ⊢
      omega

/-- The sum of the source is exact as long as it is below its bound. -/
theorem losses_eq {items : List Item} (h : lossesIn items ≤ maxCount) : (items.map Item.losses).sum = lossesIn items := by
  induction items with
  | nil => rfl
  | cons item items ih =>
    cases item with
    | line bytes => simpa [lossesIn, Item.losses] using ih (by simpa [lossesIn] using h)
    | lost gap =>
      simp only [lossesIn, List.map_cons, List.sum_cons] at h ih ⊢
      rw [ih (by omega)]
      simp only [Item.losses, LossGap.total, LossGap.size, saturatingAdd] at h ⊢
      omega

namespace Router

theorem unreportedLosses_eq (r : Router) (h : lossesIn r.pending ≤ maxCount) : r.unreportedLosses = lossesIn r.pending := by
  have hsum := losses_eq h
  have heq : (r.queue.map Item.losses).sum + (r.inFlight.map Item.losses).getD 0 = lossesIn r.pending := by
    rw [← hsum, pending, List.map_append, List.sum_append, Nat.add_comm]
    cases r.inFlight <;> simp
  rw [unreportedLosses, heq, Nat.mod_eq_of_lt]
  exact Nat.lt_of_le_of_lt h (by decide)

/-- In every run in which no counter saturates, every record written is delivered, waits somewhere, or is counted as lost
exactly once; `unreported_losses` is the number of losses queued or in flight; and each reason counts what was dropped for
that reason. -/
theorem losses_conserved {s : Router × Journal} (h : Journaled (fun _ _ r' => r'.Unsaturated) s) :
    s.2.submitted.length = (linesOf s.2.sink).length + s.1.ring.lines.length + (linesOf s.1.pending).length +
        s.1.ring.lost + lossesIn s.1.pending + lossesIn s.2.sink ∧
      (lossesIn s.1.pending ≤ maxCount → s.1.unreportedLosses = lossesIn s.1.pending) ∧
      ∀ reason, lossesFor reason s.2.sink + lossesFor reason s.1.pending +
        (if reason = .ringOverflow then s.1.ring.lost else 0) = s.2.dropped reason := by
  have hl := Journaled.ledger (fun _ _ _ hu => hu) h
  refine ⟨?_, s.1.unreportedLosses_eq, hl.reasons⟩
  have hring := hl.reasons .ringOverflow
  have hqueue := hl.reasons .sinkBackpressure
  have hsink := hl.reasons .sinkError
  rw [hl.records, lossesIn_eq, lossesIn_eq]
  simp only [reduceCtorEq, ↓reduceIte] at hring hqueue hsink
  omega

/-- The check of `Unsaturated`, for concrete runs. -/
def unsaturated (r : Router) : Bool :=
  decide (r.ring.lost < maxCount) && r.pending.all fun
    | .line _ => true
    | .lost gap => decide (gap.ringOverflow < maxCount) && decide (gap.sinkBackpressure < maxCount) &&
        decide (gap.sinkError < maxCount)

theorem Unsaturated.of_check {r : Router} (h : r.unsaturated = true) : r.Unsaturated := by
  simp only [unsaturated, Bool.and_eq_true, decide_eq_true_eq, List.all_eq_true] at h
  refine ⟨h.1, fun gap hgap reason => ?_⟩
  have := h.2 (.lost gap) hgap
  simp only [Bool.and_eq_true, decide_eq_true_eq] at this
  cases reason
  · exact this.1.1
  · exact this.1.2
  · exact this.2

/-- The ring overflows in a window, and the sink refuses a line and then accepts the gap. -/
theorem losses_conserved_of_window : ∃ s, Journaled (fun _ _ r' => r'.Unsaturated) s ∧
    s.2.submitted.length = (linesOf s.2.sink).length + s.1.ring.lines.length + (linesOf s.1.pending).length +
      s.1.ring.lost + lossesIn s.1.pending + lossesIn s.2.sink ∧ s.2.sink = [.lost ⟨1, 0, 1⟩] ∧ linesOf s.1.pending = [[4, 5]] := by
  obtain ⟨s, hs, hend⟩ : ∃ s, Journaled (fun _ _ r' => r'.Unsaturated) s ∧
      decide (s.2.sink = [.lost ⟨1, 0, 1⟩] ∧ linesOf s.1.pending = [[4, 5]]) = true :=
    Machine.Reach.of_execute (s := (build 3 10, ⟨[], [], fun _ => 0⟩)) (fun _ _ t => t.1.unsaturated)
      (fun _ _ _ h => .of_check h)
      [.record [1], .startWriter true, .take, .enterRing, .record [2, 3], .record [4, 5], .delivered false, .flushToNormal,
        .take, .delivered true] _ ⟨⟨3, 10, rfl⟩, rfl⟩ (by decide) (by decide)
  have hboth := of_decide_eq_true hend
  exact ⟨s, hs, (losses_conserved hs).1, hboth.1, hboth.2⟩

end Router

end Qeminga
