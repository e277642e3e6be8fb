import Qeminga.RouterMoves
import Mathlib.Data.List.Chain

/-!
# The audit queue is bounded

The byte budget bounds the lines in the queue, and between two lines there is at most one gap, so the entries are bounded
whatever the losses.
-/

namespace Qeminga

/-- Two neighbours in the queue are not both gaps. -/
def Spaced : List Item → Prop := List.IsChain fun a b => ¬ (a.isGap = true ∧ b.isGap = true)

theorem Spaced.length_le {items : List Item} (h : Spaced items) : items.length ≤ 2 * (linesOf items).length + 1 := by
  -- a gap at the head is followed by a line
  have hboth : items.length ≤ 2 * (linesOf items).length + 1 ∧
      ((∀ item ∈ items.head?, item.isGap = false) → items.length ≤ 2 * (linesOf items).length) := by
    induction items with
    | nil => simp
    | cons item items ih =>
      obtain ⟨hall, hline⟩ := ih h.tail
      cases item with
      | line bytes =>
        rw [List.length_cons, linesOf_line, List.length_cons]
        exact ⟨by omega, fun _ => by omega⟩
      | lost gap =>
        rw [List.length_cons, linesOf_lost]
        refine ⟨?_, fun hhead => by cases hhead (.lost gap) rfl⟩
        have hnext : ∀ item ∈ items.head?, item.isGap = false := by
          intro item hitem
          cases items with
          | nil => cases hitem
          | cons next items =>
            obtain rfl := Option.some.inj hitem
            have := (List.isChain_cons_cons.1 h).1
            simpa [Item.isGap] using this
        have := hline hnext
        omega
  exact hboth.1

namespace Router

/-! ### The budget -/

structure Bounded (r : Router) : Prop where
  capacity : r.capacity < maxCount
  ring : ∀ line ∈ r.ring.lines, line.length ≤ maxCount
  spaced : Spaced r.queue
  queued : r.queued = bytesOf r.pending
  budget : r.queued ≤ r.capacity ∨ ∃ bytes, .line bytes ∈ r.pending ∧ r.queued = bytes.length

theorem Initial.bounded {r : Router} (h : r.Initial) (hc : r.capacity < maxCount) : r.Bounded := by
  obtain ⟨ring, queue, rfl⟩ := h
  exact ⟨hc, by simp [build, LineRing.withCapacity], .nil, rfl, .inl (Nat.zero_le _)⟩

/-- Only the queue changes, and only its gaps. -/
private theorem Bounded.regap {r r' : Router} (h : r.Bounded) (hc : r'.capacity = r.capacity) (hr : r'.ring = r.ring)
    (hq : r'.queued = r.queued) (hf : r'.inFlight = r.inFlight) (hs : Spaced r'.queue) (hb : bytesOf r'.queue = bytesOf r.queue)
    (hl : ∀ bytes, .line bytes ∈ r.queue → .line bytes ∈ r'.queue) : r'.Bounded := by
  refine ⟨hc ▸ h.capacity, hr ▸ h.ring, hs, ?_, ?_⟩
  · rw [hq, h.queued, pending, pending, hf, bytesOf_append, bytesOf_append, hb]
  · rw [hq, hc]
    refine h.budget.imp_right ?_
    rintro ⟨bytes, hm, he⟩
    refine ⟨bytes, ?_, he⟩
    rw [pending, hf]
    exact List.mem_append.2 ((List.mem_append.1 hm).imp_right (hl bytes))

theorem Bounded.lose {r : Router} (h : r.Bounded) (count : Nat) (reason : LossReason) : (r.lose count reason).Bounded := by
  rcases r.lose_cases count reason with ⟨front, gap, hq, he⟩ | ⟨hlast, he⟩ <;> rw [he]
  · refine h.regap rfl rfl rfl rfl ?_ ?_ fun bytes hb => ?_
    · have hs := h.spaced
      rw [hq] at hs
      obtain ⟨hfront, -, hjoin⟩ := List.isChain_append.1 hs
      refine List.isChain_append.2 ⟨hfront, .singleton _, fun x hx y hy => ?_⟩
      obtain rfl := Option.some.inj hy
      exact hjoin x hx (.lost gap) rfl
    · simp [pushed, hq, Item.bytes]
    · rw [hq] at hb
      simpa [pushed] using hb
  · refine h.regap rfl rfl rfl rfl ?_ ?_ fun bytes hb => ?_
    · refine List.isChain_append.2 ⟨h.spaced, .singleton _, fun x hx y _ hg => ?_⟩
      rw [hlast x hx] at hg
      cases hg.1
    · simp [pushed, Item.bytes]
    · simp [pushed, hb]

theorem Bounded.loseAtFront {r : Router} (h : r.Bounded) (lost : LossGap) : (r.loseAtFront lost).Bounded := by
  rcases r.loseAtFront_cases lost with ⟨gap, rest, hq, he⟩ | ⟨hhead, he⟩ <;> rw [he]
  · refine h.regap rfl rfl rfl rfl ?_ ?_ fun bytes hb => ?_
    · have hs := h.spaced
      rw [hq] at hs
      exact List.isChain_cons.2 ⟨(List.isChain_cons.1 hs).1, hs.tail⟩
    · simp [hq, Item.bytes]
    · rw [hq] at hb
      simpa using hb
  · refine h.regap rfl rfl rfl rfl ?_ ?_ fun bytes hb => ?_
    · refine List.isChain_cons.2 ⟨fun y hy hg => ?_, h.spaced⟩
      rw [hhead y hy] at hg
      cases hg.2
    · simp [Item.bytes]
    · simp [hb]

theorem Bounded.enqueue {r : Router} (h : r.Bounded) {line : Bytes} (hline : line.length ≤ maxCount) :
    (r.enqueue line).Bounded := by
  rcases r.enqueue_cases line with ⟨-, -, he⟩ | ⟨hfits, he⟩
  · rw [he]
    exact h.lose 1 .sinkBackpressure
  · -- the sum that was compared with the capacity is exact
    have hsum : saturatingAdd r.queued line.length = r.queued + line.length := by
      have hcap := h.capacity
      simp only [saturatingAdd] at hfits ⊢
      omega
    rw [he, hsum]
    rw [hsum] at hfits
    refine ⟨h.capacity, h.ring, ?_, ?_, ?_⟩
    · refine List.isChain_append.2 ⟨h.spaced, .singleton _, fun x _ y hy hg => ?_⟩
      obtain rfl := Option.some.inj hy
      cases hg.2
    · have hq := h.queued
      simp only [pushed, pending, bytesOf_append, bytesOf_cons, bytesOf_nil, Item.bytes] at hq ⊢
      omega
    · rcases hfits with hzero | hfits
      · exact .inr ⟨line, by simp [pushed, pending], by simp [pushed, hzero]⟩
      · exact .inl hfits

theorem Bounded.foldl_enqueue {lines : List Bytes} (hlines : ∀ line ∈ lines, line.length ≤ maxCount) {r : Router}
    (h : r.Bounded) : (lines.foldl Router.enqueue r).Bounded := by
  induction lines generalizing r with
  | nil => exact h
  | cons line lines ih =>
    rw [List.forall_mem_cons] at hlines
    exact ih hlines.2 (h.enqueue hlines.1)

theorem Bounded.push {r : Router} (h : r.Bounded) {line : Bytes} (hline : line.length ≤ maxCount) :
    Bounded { r with ring := r.ring.push line } :=
  ⟨h.capacity, fun _ hmem => (LineRing.mem_push hmem).elim (h.ring _) fun he => he ▸ hline, h.spaced, h.queued, h.budget⟩

theorem Bounded.flushToNormal {r : Router} (h : r.Bounded) : r.flushToNormal.Bounded := by
  have hdrained : Bounded { r with ring := r.ring.drain } :=
    ⟨h.capacity, by simp [LineRing.drain], h.spaced, h.queued, h.budget⟩
  have hlost : Bounded (if 0 < r.ring.lost then Router.lose { r with ring := r.ring.drain } r.ring.lost .ringOverflow
      else { r with ring := r.ring.drain }) := by
    split
    · exact hdrained.lose _ _
    · exact hdrained
  have hall := hlost.foldl_enqueue h.ring
  exact ⟨hall.capacity, hall.ring, hall.spaced, hall.queued, hall.budget⟩

/-- A slice of the source has a length that fits into a `usize`. -/
def fits : Action → Bool
  | .record line => decide (line.length ≤ maxCount)
  | _ => true

theorem Bounded.writeRecord {r : Router} (h : r.Bounded) {line : Bytes} (hline : line.length ≤ maxCount) :
    (r.writeRecord line).Bounded := by
  unfold Router.writeRecord
  split
  · exact h.push hline
  · split
    · exact h.lose _ _
    · exact h.enqueue hline

theorem Bounded.take {r r' : Router} (h : r.Bounded) (ht : r.take = some r') : r'.Bounded := by
  rcases take_item ht with ⟨item, queue, -, hidle, hq, rfl⟩ | rfl
  · have hpending : pending { r with queue := queue, inFlight := some item, begun := item :: r.begun } = r.pending := by
      simp [pending, hidle, hq]
    have hs := h.spaced
    rw [hq] at hs
    refine ⟨h.capacity, h.ring, hs.tail, ?_, ?_⟩
    · rw [hpending]
      exact h.queued
    · rw [hpending]
      exact h.budget
  · exact ⟨h.capacity, h.ring, h.spaced, h.queued, h.budget⟩

/-- The item in flight has left. -/
private theorem Bounded.landed {r : Router} (h : r.Bounded) {item : Item} (hitem : r.inFlight = some item)
    (failedAt : Option Nat) :
    Bounded { r with inFlight := none, queued := r.queued - item.bytes, failedAt := failedAt } := by
  have hpending : r.pending = item :: r.queue := by simp [pending, hitem]
  have hqueued : r.queued = item.bytes + bytesOf r.queue := by rw [h.queued, hpending, bytesOf_cons]
  refine ⟨h.capacity, h.ring, h.spaced, ?_, ?_⟩
  · show r.queued - item.bytes = bytesOf r.queue
    omega
  · show r.queued - item.bytes ≤ r.capacity ∨ ∃ bytes, .line bytes ∈ r.queue ∧ r.queued - item.bytes = bytes.length
    rcases h.budget with hle | ⟨bytes, hmem, he⟩
    · exact .inl (by omega)
    · rw [hpending] at hmem
      rcases List.mem_cons.1 hmem with rfl | hmem
      · exact .inl (by simp only [Item.bytes]; omega)
      · -- a single line makes up the sum, so the item in flight has no bytes
        have hle := length_le_bytesOf hmem
        exact .inr ⟨bytes, hmem, by omega⟩

theorem Bounded.delivered {r r' : Router} {ok : Bool} (h : r.Bounded) (hd : r.delivered ok = some r') : r'.Bounded := by
  obtain ⟨item, hitem, ⟨-, rfl⟩ | ⟨-, gap, -, rfl⟩⟩ := delivered_cases hd
  · exact h.landed hitem none
  · exact (h.landed hitem (some r.pushes)).loseAtFront gap

/-- One step. -/
theorem Bounded.step {r r' : Router} {act : Action} (h : r.Bounded) (hs : r.step act = some r') (hfits : fits act = true) :
    r'.Bounded := by
  cases act with
  | record line =>
    obtain rfl := Option.some.inj hs
    exact h.writeRecord (of_decide_eq_true hfits)
  | enterRing =>
    obtain rfl := Option.some.inj hs
    exact ⟨h.capacity, h.ring, h.spaced, h.queued, h.budget⟩
  | flushToNormal =>
    obtain rfl := Option.some.inj hs
    exact h.flushToNormal
  | startWriter spawned =>
    obtain rfl := Option.some.inj hs
    unfold startWriter
    split
    · exact h
    · split <;> exact ⟨h.capacity, h.ring, h.spaced, h.queued, h.budget⟩
  | take => exact h.take hs
  | delivered ok => exact h.delivered hs
  | shutdown =>
    obtain rfl := Option.some.inj hs
    exact ⟨h.capacity, h.ring, h.spaced, h.queued, h.budget⟩

/-- The states of the runs of a router, whose capacity leaves room for the sum that is compared with it. -/
abbrev Reachable (r : Router) : Prop :=
  Machine.Reach step (fun _ act _ => fits act = true) (fun r => r.Initial ∧ r.capacity < maxCount) r

/-- In every state of every run the queue has no two neighbouring gaps, `queued` is the number of bytes of its lines and of
the line in flight, within the capacity or one line's, and the entries are bounded by the lines. -/
theorem queue_bounded {r : Router} (h : Reachable r) :
    Spaced r.queue ∧ r.queued = bytesOf r.queue + bytesOf r.inFlight.toList ∧
      (∀ bytes, r.inFlight = some (.line bytes) → bytes.length ≤ r.queued) ∧
      (r.queued ≤ r.capacity ∨ ∃ bytes, .line bytes ∈ r.inFlight.toList ++ r.queue ∧ r.queued = bytes.length) ∧
      r.queue.length ≤ 2 * (linesOf r.queue).length + 1 := by
  have hb : r.Bounded := h.invariant (fun _ h => h.1.bounded h.2) fun s act t _ hs hst hfits => hs.step hst hfits
  have hqueued := hb.queued
  rw [pending, bytesOf_append, Nat.add_comm] at hqueued
  refine ⟨hb.spaced, hqueued, fun bytes hf => ?_, hb.budget, hb.spaced.length_le⟩
  rw [hqueued, hf]
  exact Nat.le_add_left _ _

/-- A line of three bytes does not fit beside one of two, the sink refuses the first, and its loss goes into the gap. -/
theorem queue_bounded_of_refused : ∃ r, Reachable r ∧ Spaced r.queue ∧ r.queue.length ≤ 2 * (linesOf r.queue).length + 1 ∧
    r.queue = [.lost ⟨0, 1, 1⟩] := by
  obtain ⟨r, hr, hq⟩ : ∃ r, Reachable r ∧ decide (r.queue = [.lost ⟨0, 1, 1⟩]) = true :=
    Machine.Reach.of_execute (s := build 4 4) (fun _ act _ => fits act) (fun _ _ _ h => h)
      [.record [1, 2], .startWriter true, .take, .record [3, 4, 5], .delivered false] _ ⟨⟨4, 4, rfl⟩, by decide⟩ (by decide)
      (by decide)
  obtain ⟨hspaced, -, -, -, hlength⟩ := queue_bounded hr
  exact ⟨r, hr, hspaced, hlength, of_decide_eq_true hq⟩

end Router

end Qeminga
