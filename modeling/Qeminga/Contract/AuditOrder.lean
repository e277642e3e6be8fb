import Qeminga.Contract.LossLedger
import Qeminga.Lib.Accounts

/-!
# The audit log is in order, and its gaps are in place

What the sink has accepted, followed by what is pending, by the losses of the ring and by its lines, accounts for the records
in the order in which they were written: a line for itself, a gap for as many records as it counts.  The one record that the
ring loses out of order is a line longer than the ring.
-/

namespace Qeminga

/-! ### What an item stands for -/

/-- A line stands for itself, and a gap for as many records as it counts. -/
def Item.Covers : Item → List Bytes → Prop
  | .line bytes, piece => piece = [bytes]
  | .lost gap, piece => piece.length = gap.size

namespace LossGap

theorem size_eq (gap : LossGap) :
    gap.size = gap.count .ringOverflow + gap.count .sinkBackpressure + gap.count .sinkError := rfl

theorem size_add {gap : LossGap} {n : Nat} {reason : LossReason} (h : (gap.add n reason).Exact) :
    (gap.add n reason).size = gap.size + n := by
  have hcount := saturatingAdd_lt (by simpa [count_add] using h reason)
  rw [size_eq, size_eq]
  cases reason <;> simp only [count_add, reduceCtorEq, ↓reduceIte, hcount] <;> omega

theorem size_of {n : Nat} {reason : LossReason} (h : (of n reason).Exact) : (of n reason).size = n := by
  have := @size_add ⟨0, 0, 0⟩ n reason h
  simpa [of, size] using this

theorem size_merge {gap other : LossGap} (h : (gap.merge other).Exact) : (gap.merge other).size = gap.size + other.size := by
  have hcount : ∀ reason, (gap.merge other).count reason = gap.count reason + other.count reason := fun reason => by
    have hlt := h reason
    rw [count_merge] at hlt ⊢
    exact saturatingAdd_lt hlt
  rw [size_eq, size_eq, size_eq, hcount, hcount, hcount]
  omega

end LossGap

/-- The ring as items: its losses are older than its lines. -/
def LineRing.items (r : LineRing) : List Item := .lost ⟨r.lost, 0, 0⟩ :: r.lines.map .line

theorem accounts_lines_inv {lines input : List Bytes} (h : Accounts Item.Covers (lines.map .line) input) : input = lines := by
  induction lines generalizing input with
  | nil =>
    cases h
    rfl
  | cons line lines ih =>
    obtain ⟨piece, rest, rfl, hpiece, hrest⟩ := h.cons_inv
    rw [show piece = [line] from hpiece, ih hrest]
    rfl

/-! ### The queue in order -/

namespace Router

variable {r : Router} {before : List Item} {input : List Bytes}

/-- The records lost at the tail come after the queue. -/
theorem accounts_lose {n : Nat} {reason : LossReason} (hu : ExactIn (r.lose n reason).queue)
    (h : Accounts Item.Covers (before ++ r.queue) input) {piece : List Bytes} (hpiece : piece.length = n) :
    Accounts Item.Covers (before ++ (r.lose n reason).queue) (input ++ piece) := by
  rcases r.lose_cases n reason with ⟨front, gap, hq, he⟩ | ⟨-, he⟩
  · rw [he] at hu ⊢
    have hgap := (ExactIn.lost.1 (ExactIn.append.1 hu).2).1
    rw [hq, ← List.append_assoc] at h
    obtain ⟨a, b, rfl, ha, hb⟩ := h.append_inv
    have hlength : b.length = gap.size := hb.singleton_inv
    simp only [pushed]
    rw [← List.append_assoc, List.append_assoc a b]
    refine ha.append (.singleton ?_)
    show (b ++ piece).length = (gap.add n reason).size
    rw [List.length_append, LossGap.size_add hgap, hlength, hpiece]
  · rw [he] at hu ⊢
    have hgap := (ExactIn.lost.1 (ExactIn.append.1 hu).2).1
    simp only [pushed]
    rw [← List.append_assoc]
    refine h.append (.singleton ?_)
    show piece.length = (LossGap.of n reason).size
    rw [LossGap.size_of hgap, hpiece]

theorem accounts_enqueue {line : Bytes} (hu : ExactIn (r.enqueue line).queue)
    (h : Accounts Item.Covers (before ++ r.queue) input) :
    Accounts Item.Covers (before ++ (r.enqueue line).queue) (input ++ [line]) := by
  rcases r.enqueue_cases line with ⟨-, -, he⟩ | ⟨-, he⟩
  · rw [he] at hu ⊢
    exact accounts_lose hu h rfl
  · rw [he]
    simp only [pushed]
    rw [← List.append_assoc]
    exact h.append (.singleton rfl)

theorem accounts_foldl {lines : List Bytes} (hu : ExactIn (lines.foldl enqueue r).queue)
    (h : Accounts Item.Covers (before ++ r.queue) input) :
    Accounts Item.Covers (before ++ (lines.foldl enqueue r).queue) (input ++ lines) := by
  induction lines generalizing r input with
  | nil => simpa using h
  | cons line lines ih =>
    have := ih hu (accounts_enqueue (@lossesFor_foldl lines (r.enqueue line) hu).1 h)
    rwa [List.append_assoc] at this

/-- A loss is put back before the queue. -/
theorem accounts_loseAtFront {gap : LossGap} (hu : ExactIn (r.loseAtFront gap).queue) {piece : List Bytes}
    (hpiece : piece.length = gap.size) (h : Accounts Item.Covers r.queue input) :
    Accounts Item.Covers (r.loseAtFront gap).queue (piece ++ input) := by
  rcases r.loseAtFront_cases gap with ⟨head, rest, hq, he⟩ | ⟨-, he⟩
  · rw [he] at hu ⊢
    have hgap := (ExactIn.lost.1 hu).1
    rw [hq] at h
    obtain ⟨first, others, rfl, hfirst, hothers⟩ := h.cons_inv
    rw [← List.append_assoc]
    refine .cons ?_ hothers
    show (piece ++ first).length = (head.merge gap).size
    rw [List.length_append, LossGap.size_merge hgap, hpiece, show first.length = head.size from hfirst, Nat.add_comm]
  · rw [he]
    exact .cons hpiece h

end Router

/-- The lines that the ring evicts are its oldest. -/
theorem LineRing.accounts_evict {n capacity : Nat} {lines : List Bytes} {used lost : Nat}
    (hu : (evict n capacity lines used lost).2.2 < maxCount) {input : List Bytes}
    (h : Accounts Item.Covers (.lost ⟨lost, 0, 0⟩ :: lines.map .line) input) :
    Accounts Item.Covers
      (.lost ⟨(evict n capacity lines used lost).2.2, 0, 0⟩ :: (evict n capacity lines used lost).2.1.map .line) input := by
  induction lines generalizing used lost input with
  | nil => exact h
  | cons old lines ih =>
    rw [evict] at hu ⊢
    split
    · next hfull =>
      rw [if_pos hfull] at hu
      have hone : saturatingAdd lost 1 = lost + 1 :=
        saturatingAdd_lt (Nat.lt_of_le_of_lt (le_evict _ _ _ _ _ (Nat.min_le_right ..)) hu)
      refine ih hu ?_
      obtain ⟨first, rest, rfl, hfirst, hrest⟩ := h.cons_inv
      obtain ⟨second, others, rfl, hsecond, hothers⟩ := hrest.cons_inv
      rw [← List.append_assoc]
      refine .cons ?_ hothers
      have hfirst : first.length = lost + 0 + 0 := hfirst
      have hsecond : second = [old] := hsecond
      show (first ++ second).length = saturatingAdd lost 1 + 0 + 0
      rw [List.length_append, hsecond, List.length_singleton, hone, hfirst]
    · exact h

theorem LineRing.accounts_push {r : LineRing} {line : Bytes} (hline : line.length ≤ r.capacity)
    (hu : (r.push line).lost < maxCount) {input : List Bytes} (h : Accounts Item.Covers r.items input) :
    Accounts Item.Covers (r.push line).items (input ++ [line]) := by
  have hpush : ¬ r.capacity < line.length := Nat.not_lt.2 hline
  unfold push at hu ⊢
  rw [if_neg hpush] at hu ⊢
  have hevict := accounts_evict hu h
  unfold items
  rw [List.map_append, ← List.cons_append]
  exact hevict.append (.singleton rfl)

/-! ### The whole account -/

namespace Router

/-- The log so far: what the sink has accepted, what is pending and what the ring holds. -/
def log (r : Router) (j : Journal) : List Item := j.sink ++ r.pending ++ r.ring.items

/-- The log accounts for the records in order, and the ring is empty in `Normal` mode. -/
structure InOrder (r : Router) (j : Journal) : Prop where
  accounts : Accounts Item.Covers (r.log j) j.submitted
  empty : r.mode = .normal → r.ring.lost = 0 ∧ r.ring.lines = []

/-- No line longer than the ring is written while the ring is in use. -/
def Short (r : Router) (act : Action) : Prop := ∀ line, act = .record line → r.mode = .ring → line.length ≤ r.ring.capacity

variable {r r' : Router} {j : Journal}

/-- An empty ring stands for nothing. -/
private theorem accounts_empty {lost : Nat} {items : List Item} {input : List Bytes} (hl : lost = 0) :
    Accounts Item.Covers (items ++ [.lost ⟨lost, 0, 0⟩]) input ↔ Accounts Item.Covers items input := by
  subst hl
  constructor
  · intro h
    obtain ⟨a, b, rfl, ha, hb⟩ := h.append_inv
    have hnil : b = [] := List.length_eq_zero_iff.1 hb.singleton_inv
    rwa [hnil, List.append_nil]
  · intro h
    have hempty : Accounts Item.Covers [.lost ⟨0, 0, 0⟩] [] := .singleton rfl
    simpa using h.append hempty

theorem InOrder.writeRecord (h : InOrder r j) {line : Bytes} (hu : (r.writeRecord line).Unsaturated)
    (hshort : Short r (.record line)) :
    InOrder (r.writeRecord line) (observe j r (.record line) (r.writeRecord line)) := by
  obtain ⟨hmode, hring, hflight, -⟩ := r.writeRecord_rest line
  refine ⟨?_, fun hm => ?_⟩
  · cases hm : r.mode with
    | ring =>
      have he : r.writeRecord line = { r with ring := r.ring.push line } := by rw [Router.writeRecord, hm]
      rw [he] at hu ⊢
      obtain ⟨a, b, hab, ha, hb⟩ := h.accounts.append_inv
      show Accounts _ _ (j.submitted ++ [line])
      rw [hab, List.append_assoc]
      exact ha.append (LineRing.accounts_push (hshort line rfl hm) hu.ring hb)
    | normal =>
      obtain ⟨hlost, hlines⟩ := h.empty hm
      have hitems : (r.writeRecord line).ring.items = [.lost ⟨r.ring.lost, 0, 0⟩] := by
        rw [hring hm, LineRing.items, hlines, List.map_nil]
      have hold := h.accounts
      rw [log, LineRing.items, hlines, List.map_nil, accounts_empty hlost, pending, ← List.append_assoc] at hold
      show Accounts _ _ (j.submitted ++ [line])
      rw [log, hitems, accounts_empty hlost, pending, hflight, ← List.append_assoc]
      have hq : ExactIn (r.writeRecord line).queue := (ExactIn.append.1 hu.gaps).2
      cases hgone : (r.exited && !r.shutdown) with
      | true =>
        have he : r.writeRecord line = r.lose 1 .sinkError := by simp [Router.writeRecord, hm, hgone]
        rw [he] at hq ⊢
        exact accounts_lose hq hold rfl
      | false =>
        have he : r.writeRecord line = r.enqueue line := by simp [Router.writeRecord, hm, hgone]
        rw [he] at hq ⊢
        exact accounts_enqueue hq hold
  · rw [hmode] at hm
    rw [hring hm]
    exact h.empty hm

theorem InOrder.flushToNormal (h : InOrder r j) (hu : r.flushToNormal.Unsaturated) :
    InOrder r.flushToNormal (observe j r .flushToNormal r.flushToNormal) := by
  obtain ⟨-, hring, hflight, -⟩ := r.flushToNormal_rest
  refine ⟨?_, fun _ => by rw [hring]; exact ⟨rfl, rfl⟩⟩
  -- the records behind the queue are those the ring has lost, then those it holds
  have hold := h.accounts
  rw [log, pending, ← List.append_assoc] at hold
  obtain ⟨front, back, heq, hfront, hback⟩ := hold.append_inv
  obtain ⟨lost, lines, rfl, hlost, hlines⟩ := hback.cons_inv
  obtain rfl := accounts_lines_inv hlines
  have hlost : lost.length = r.ring.lost + 0 + 0 := hlost
  generalize hmid : (if 0 < r.ring.lost then Router.lose { r with ring := r.ring.drain } r.ring.lost .ringOverflow
    else { r with ring := r.ring.drain }) = mid
  have hqueue : r.flushToNormal.queue = (r.ring.lines.foldl Router.enqueue mid).queue := by rw [← hmid]; rfl
  have hq := hqueue ▸ (ExactIn.append.1 hu.gaps).2
  have hloses : Accounts Item.Covers (j.sink ++ r.inFlight.toList ++ mid.queue) (front ++ lost) := by
    have hexact := (lossesFor_foldl hq).1
    rw [← hmid] at hexact ⊢
    split
    · next hpos =>
      rw [if_pos hpos] at hexact
      exact accounts_lose hexact hfront (by omega)
    · next hzero =>
      have hnil : lost = [] := List.length_eq_zero_iff.1 (by omega)
      rw [hnil, List.append_nil]
      exact hfront
  show Accounts _ (j.sink ++ r.flushToNormal.pending ++ r.flushToNormal.ring.items) j.submitted
  have hitems : r.flushToNormal.ring.items = [.lost ⟨0, 0, 0⟩] := by rw [hring]; rfl
  rw [hitems, accounts_empty rfl, pending, hflight, hqueue, ← List.append_assoc, heq, ← List.append_assoc]
  exact accounts_foldl hq hloses

theorem InOrder.delivered (h : InOrder r j) {ok : Bool} (hd : r.delivered ok = some r') (hu : r'.Unsaturated) :
    InOrder r' (observe j r (.delivered ok) r') := by
  obtain ⟨hmode, hring, -, -⟩ := delivered_rest hd
  refine ⟨?_, fun hm => by rw [hring]; exact h.empty (hmode ▸ hm)⟩
  have hold := h.accounts
  obtain ⟨item, hitem, ⟨rfl, rfl⟩ | ⟨rfl, gap, hgap, rfl⟩⟩ := delivered_cases hd
  · -- the item in flight goes over to what the sink has accepted
    simpa [log, observe, pending, hitem] using hold
  · have hq := loseAtFront_queues
      { r with inFlight := none, queued := r.queued - item.bytes, failedAt := some r.pushes } gap
    have hexact := (ExactIn.append.1 hu.gaps).2
    have hpending : r.pending = item :: r.queue := by simp [pending, hitem]
    rw [log, hpending] at hold
    show Accounts _ (log _ j) j.submitted
    rw [log, pending, hq.inFlight, hq.ring, Option.toList_none, List.nil_append]
    refine hold.replace fun piece hpiece => ?_
    obtain ⟨first, rest, rfl, hfirst, hrest⟩ := hpiece.cons_inv
    refine accounts_loseAtFront hexact ?_ hrest
    rcases hgap with rfl | ⟨hline, rfl⟩
    · exact hfirst
    · cases item with
      | lost gap => cases hline
      | line bytes =>
        rw [show first = [bytes] from hfirst]
        rfl

/-- One step. -/
theorem InOrder.step (h : InOrder r j) {act : Action} (hs : r.step act = some r') (hu : r'.Unsaturated)
    (hshort : Short r act) : InOrder r' (observe j r act r') := by
  cases act with
  | record line =>
    obtain rfl := Option.some.inj hs
    exact h.writeRecord hu hshort
  | enterRing =>
    obtain rfl := Option.some.inj hs
    exact ⟨h.accounts, by rintro ⟨⟩⟩
  | flushToNormal =>
    obtain rfl := Option.some.inj hs
    exact h.flushToNormal hu
  | startWriter spawned =>
    obtain rfl := Option.some.inj hs
    unfold startWriter
    split
    · exact ⟨h.accounts, h.empty⟩
    · split <;> exact ⟨h.accounts, h.empty⟩
  | take =>
    rcases take_item hs with ⟨item, queue, -, hidle, hq, rfl⟩ | rfl
    · refine ⟨?_, h.empty⟩
      have hold := h.accounts
      rw [log, pending, hidle, hq] at hold
      exact hold
    · exact ⟨h.accounts, h.empty⟩
  | delivered ok => exact h.delivered hs hu
  | shutdown =>
    obtain rfl := Option.some.inj hs
    exact ⟨h.accounts, h.empty⟩

end Router

/-! ### What a reader of the sink knows -/

/-- The lines of the sink are records in the order in which they were written, and the losses reported between two of them
are as many as the records between them. -/
structure Journal.GapsInPlace (j : Journal) : Prop where
  order : (linesOf j.sink).Sublist j.submitted
  between : ∀ before gaps after a b, j.sink = before ++ .line a :: gaps ++ .line b :: after → linesOf gaps = [] →
    ∃ earlier lost later, j.submitted = earlier ++ a :: lost ++ b :: later ∧ lost.length = lossesIn gaps ∧
      Accounts Item.Covers before earlier

/-- A list of gaps stands for as many records as they count. -/
theorem accounts_gaps {gaps : List Item} (hgaps : linesOf gaps = []) {input : List Bytes}
    (h : Accounts Item.Covers gaps input) : input.length = lossesIn gaps := by
  induction h with
  | nil => rfl
  | @cons item piece items input hc _ ih =>
    cases item with
    | line bytes => cases hgaps
    | lost gap =>
      rw [List.length_append, ih hgaps, show piece.length = gap.size from hc]
      simp [lossesIn]

theorem Journal.GapsInPlace.of_accounts {j : Journal} {seen unseen : List Bytes} (hj : j.submitted = seen ++ unseen)
    (h : Accounts Item.Covers j.sink seen) : j.GapsInPlace := by
  refine ⟨?_, fun before gaps after a b hsink hgaps => ?_⟩
  · rw [hj]
    refine (h.sublist ?_).trans (List.sublist_append_left _ _)
    intro item piece hc
    cases item with
    | line bytes =>
      rw [show piece = [bytes] from hc]
      exact .refl _
    | lost gap => exact List.nil_sublist _
  · rw [hsink, List.append_assoc] at h
    obtain ⟨earlier, rest, rfl, hbefore, hrest⟩ := h.append_inv
    obtain ⟨first, rest, rfl, hfirst, hrest⟩ := hrest.cons_inv
    obtain ⟨lost, rest, rfl, hlost, hrest⟩ := hrest.append_inv
    obtain ⟨second, later, rfl, hsecond, -⟩ := hrest.cons_inv
    refine ⟨earlier, lost, later ++ unseen, ?_, accounts_gaps hgaps hlost, hbefore⟩
    rw [hj, show first = [a] from hfirst, show second = [b] from hsecond]
    simp

namespace Router

/-- In every run in which no line longer than the ring is written in `Ring` mode and no counter saturates, the sink shows the
records in order, with every gap in its place. -/
theorem delivery_in_order {s : Router × Journal} (h : Journaled (fun r act r' => Short r act ∧ r'.Unsaturated) s) :
    s.2.GapsInPlace := by
  have horder : InOrder s.1 s.2 := by
    refine h.invariant (I := fun s => InOrder s.1 s.2) (fun s hs => ?_) fun s act t _ hl hst hgood => ?_
    · obtain ⟨⟨ring, queue, hr⟩, hj⟩ := hs
      rw [hr, hj]
      exact ⟨.singleton rfl, fun _ => ⟨rfl, rfl⟩⟩
    · obtain ⟨r', hr', rfl⟩ := Option.map_eq_some_iff.1 hst
      exact hl.step hr' hgood.2 hgood.1
  have haccounts := horder.accounts
  rw [log, List.append_assoc] at haccounts
  obtain ⟨seen, unseen, hj, hseen, -⟩ := haccounts.append_inv
  exact .of_accounts hj hseen

/-- Checks `Short`, with or without the ring in use. -/
private def recordFits (r : Router) : Action → Bool
  | .record line => decide (line.length ≤ r.ring.capacity)
  | _ => true

/-- Two records are lost in the ring, between one that was delivered before the window and one after it. -/
theorem delivery_in_order_of_window : ∃ s, Journaled (fun r act r' => Short r act ∧ r'.Unsaturated) s ∧ s.2.GapsInPlace ∧
    s.2.sink = [.line [1], .lost ⟨2, 0, 0⟩, .line [6, 7]] := by
  obtain ⟨s, hs, hend⟩ : ∃ s, Journaled (fun r act r' => Short r act ∧ r'.Unsaturated) s ∧
      decide (s.2.sink = [.line [1], .lost ⟨2, 0, 0⟩, .line [6, 7]]) = true :=
    Machine.Reach.of_execute (s := (build 3 10, ⟨[], [], fun _ => 0⟩))
      (fun s act t => t.1.unsaturated && recordFits s.1 act)
      (fun _ _ _ h => by
        rw [Bool.and_eq_true] at h
        refine ⟨?_, .of_check h.1⟩
        rintro line rfl -
        exact of_decide_eq_true h.2)
      [.record [1], .startWriter true, .take, .enterRing, .record [2, 3], .record [4, 5], .delivered true, .record [6, 7],
        .flushToNormal, .take, .delivered true, .take, .delivered true] _ ⟨⟨3, 10, rfl⟩, rfl⟩ (by decide) (by decide)
  exact ⟨s, hs, delivery_in_order hs, of_decide_eq_true hend⟩

/-! ### Saturation -/

/-- A router of capacity one, whose sink blocks on its first line while `n + 1` records are written. -/
private def flooded (n pushes : Nat) (dropped : LossReason → Nat) : Router × Journal :=
  ({ build 1 1 with
      started := true, queued := 1, pushes := pushes, inFlight := some (.line [1]), begun := [.line [1]]
      queue := [.lost ⟨0, min (n + 1) maxCount, 0⟩] },
    ⟨[1] :: List.replicate (n + 1) [2], [], dropped⟩)

private theorem flooded_step (n pushes : Nat) (dropped : LossReason → Nat) :
    ∃ pushes' dropped', Machine.observed step observe (flooded n pushes dropped) (.record [2]) =
      some (flooded (n + 1) pushes' dropped') := by
  refine ⟨(pushes + 1) % 2 ^ 64, (observe (flooded n pushes dropped).2 (flooded n pushes dropped).1 (.record [2])
    ((flooded n pushes dropped).1.writeRecord [2])).dropped, ?_⟩
  have hmin : saturatingAdd (min (n + 1) maxCount) 1 = min (n + 1 + 1) maxCount := by
    unfold saturatingAdd
    omega
  rw [flooded, flooded, ← hmin, List.replicate_succ' (n := n + 1)]
  rfl

private theorem short_of_normal {r : Router} (h : r.mode = .normal) (act : Action) : Short r act :=
  fun _ _ hring => by cases h.symm.trans hring

private theorem flooded_reachable (n : Nat) :
    ∃ pushes dropped, Journaled (fun r act _ => Short r act) (flooded n pushes dropped) := by
  induction n with
  | zero =>
    have hinit : Journaled (fun r act _ => Short r act) (build 1 1, ⟨[], [], fun _ => 0⟩) := .init ⟨⟨1, 1, rfl⟩, rfl⟩
    have hrecord := hinit.tail (a := .record [1]) rfl (short_of_normal rfl _)
    have hstart := hrecord.tail (a := .startWriter true) rfl (short_of_normal rfl _)
    have htake := hstart.tail (a := .take) rfl (short_of_normal rfl _)
    exact ⟨_, _, htake.tail (a := .record [2]) rfl (short_of_normal rfl _)⟩
  | succ n ih =>
    obtain ⟨pushes, dropped, h⟩ := ih
    obtain ⟨pushes', dropped', hs⟩ := flooded_step n pushes dropped
    exact ⟨pushes', dropped', h.tail hs (short_of_normal rfl _)⟩

/-- The line in flight is delivered, then the gap, then one more record. -/
private theorem flooded_delivered (n : Nat) : ∃ s, Journaled (fun r act _ => Short r act) s ∧
    s.2.sink = [.line [1], .lost ⟨0, min (n + 1) maxCount, 0⟩, .line [3]] ∧
      s.2.submitted = [1] :: List.replicate (n + 1) [2] ++ [[3]] := by
  obtain ⟨pushes, dropped, h⟩ := flooded_reachable n
  have hline := h.tail (a := .delivered true) rfl (short_of_normal rfl _)
  have htaken := hline.tail (a := .take) rfl (short_of_normal rfl _)
  have hgap := htaken.tail (a := .delivered true) rfl (short_of_normal rfl _)
  have hrecord := hgap.tail (a := .record [3]) rfl (short_of_normal rfl _)
  have hagain := hrecord.tail (a := .take) rfl (short_of_normal rfl _)
  exact ⟨_, hagain.tail (a := .delivered true) rfl (short_of_normal rfl _), rfl, rfl⟩

/-- The records between the two lines are known, so a gap with another count is not in place. -/
private theorem not_in_place {j : Journal} {n k : Nat} (hsink : j.sink = [.line [1], .lost ⟨0, k, 0⟩, .line [3]])
    (hsubmitted : j.submitted = [1] :: List.replicate n [2] ++ [[3]]) (hk : k ≠ n) : ¬ j.GapsInPlace := by
  intro h
  obtain ⟨earlier, lost, later, heq, hlost, hbefore⟩ := h.between [] [.lost ⟨0, k, 0⟩] [] [1] [3] hsink rfl
  obtain rfl : earlier = [] := by
    cases hbefore
    rfl
  have hlost : lost.length = k := by simpa [lossesIn, LossGap.size] using hlost
  rw [hsubmitted] at heq
  have htail : List.replicate n ([2] : Bytes) ++ [[3]] = lost ++ [3] :: later := by simpa using heq
  have hlength := congrArg List.length htail
  have hthree := congrArg (·[k]?) htail
  simp only [List.length_append, List.length_replicate, List.length_cons, List.length_nil] at hlength
  have hlt : k < n := by omega
  simp [List.getElem?_append, hlt, hlost] at hthree

/-- With `2 ^ 64` records lost at one place the counter of the gap is at its bound, and one record is missing. -/
theorem gap_short_of_saturation : ¬ ∀ s, Journaled (fun r act _ => Short r act) s → s.2.GapsInPlace := by
  intro hall
  obtain ⟨s, hs, hsink, hsubmitted⟩ := flooded_delivered maxCount
  exact not_in_place hsink hsubmitted (Nat.ne_of_lt (Nat.lt_succ_of_le (Nat.min_le_right _ _))) (hall s hs)

end Router

end Qeminga
