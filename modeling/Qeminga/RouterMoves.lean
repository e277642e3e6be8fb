import Qeminga.Audit

/-!
# What the functions of the router do

The queue of the router is a list of lines and gaps.  For each function of the router one lemma says what it does to the
queue, and one what it leaves alone; the contracts of the router are proved from these.
-/

namespace Qeminga

/-! ### Lists of items -/

def Item.isGap : Item → Bool
  | .line _ => false
  | .lost _ => true

/-- The bytes of a line, none for a gap. -/
def Item.bytes : Item → Nat
  | .line bytes => bytes.length
  | .lost _ => 0

/-- The bytes of the lines among the items. -/
def bytesOf (items : List Item) : Nat := (items.map Item.bytes).sum

/-- The lines among the items. -/
def linesOf : List Item → List Bytes := List.filterMap fun
  | .line bytes => some bytes
  | .lost _ => none

@[simp] theorem bytesOf_nil : bytesOf [] = 0 := rfl

@[simp] theorem bytesOf_cons (item : Item) (items : List Item) : bytesOf (item :: items) = item.bytes + bytesOf items := by
  simp [bytesOf]

@[simp] theorem bytesOf_append (items items' : List Item) : bytesOf (items ++ items') = bytesOf items + bytesOf items' := by
  simp [bytesOf]

@[simp] theorem linesOf_nil : linesOf [] = [] := rfl

@[simp] theorem linesOf_line (bytes : Bytes) (items : List Item) : linesOf (.line bytes :: items) = bytes :: linesOf items :=
  rfl

@[simp] theorem linesOf_lost (gap : LossGap) (items : List Item) : linesOf (.lost gap :: items) = linesOf items := rfl

@[simp] theorem linesOf_append (items items' : List Item) : linesOf (items ++ items') = linesOf items ++ linesOf items' :=
  List.filterMap_append

theorem length_le_bytesOf {bytes : Bytes} {items : List Item} (h : Item.line bytes ∈ items) :
    bytes.length ≤ bytesOf items := by
  induction items with
  | nil => cases h
  | cons item items ih =>
    rw [bytesOf_cons]
    rcases List.mem_cons.1 h with rfl | h
    · exact Nat.le_add_right _ _
    · exact Nat.le_trans (ih h) (Nat.le_add_left _ _)

/-- What the ring holds after a push it held before, or was pushed. -/
theorem LineRing.mem_evict {n capacity : Nat} {lines : List Bytes} {used lost : Nat} {line : Bytes}
    (h : line ∈ (evict n capacity lines used lost).2.1) : line ∈ lines := by
  induction lines generalizing used lost with
  | nil => cases h
  | cons old lines ih =>
    rw [evict] at h
    split at h
    · exact List.mem_cons_of_mem _ (ih h)
    · exact h

theorem LineRing.mem_push {r : LineRing} {line bytes : Bytes} (h : bytes ∈ (r.push line).lines) :
    bytes ∈ r.lines ∨ bytes = line := by
  unfold push at h
  split at h
  · exact .inl h
  · rcases List.mem_append.1 h with h | h
    · exact .inl (mem_evict h)
    · exact .inr (List.mem_singleton.1 h)

namespace Router

/-- The items that are not delivered yet: the one in flight and the queue. -/
def pending (r : Router) : List Item := r.inFlight.toList ++ r.queue

/-! ### Where losses go -/

theorem lose_cases (r : Router) (count : Nat) (reason : LossReason) :
    (∃ front gap, r.queue = front ++ [.lost gap] ∧
        r.lose count reason = pushed { r with queue := front ++ [.lost (gap.add count reason)] }) ∨
      ((∀ item ∈ r.queue.getLast?, item.isGap = false) ∧
        r.lose count reason = pushed { r with queue := r.queue ++ [.lost (.of count reason)] }) := by
  unfold lose
  split
  · next gap hlast =>
    refine .inl ⟨r.queue.dropLast, gap, ?_, rfl⟩
    exact (List.dropLast_append_getLast? _ hlast).symm
  · next hlast =>
    refine .inr ⟨fun item hitem => ?_, rfl⟩
    cases item with
    | line bytes => rfl
    | lost gap => exact absurd hitem (hlast gap)

theorem loseAtFront_cases (r : Router) (lost : LossGap) :
    (∃ gap rest, r.queue = .lost gap :: rest ∧ r.loseAtFront lost = { r with queue := .lost (gap.merge lost) :: rest }) ∨
      ((∀ item ∈ r.queue.head?, item.isGap = false) ∧ r.loseAtFront lost = { r with queue := .lost lost :: r.queue }) := by
  unfold loseAtFront
  split
  · next gap rest hq => exact .inl ⟨gap, rest, hq, rfl⟩
  · next hq =>
    refine .inr ⟨fun item hitem => ?_, rfl⟩
    cases item with
    | line bytes => rfl
    | lost gap =>
      obtain ⟨rest, hrest⟩ := List.head?_eq_some_iff.1 hitem
      exact absurd hrest (hq gap rest)

/-- A line is queued, or lost because the queue is full. -/
theorem enqueue_cases (r : Router) (line : Bytes) :
    (r.capacity < saturatingAdd r.queued line.length ∧ 0 < r.queued ∧ r.enqueue line = r.lose 1 .sinkBackpressure) ∨
      ((r.queued = 0 ∨ saturatingAdd r.queued line.length ≤ r.capacity) ∧
        r.enqueue line = pushed { r with queued := saturatingAdd r.queued line.length
                                         queue := r.queue ++ [.line line] }) := by
  unfold enqueue
  split
  · next h =>
    simp only [Bool.and_eq_true, decide_eq_true_eq] at h
    exact .inl ⟨h.1, h.2, rfl⟩
  · next h =>
    simp only [Bool.and_eq_true, decide_eq_true_eq] at h
    exact .inr ⟨by omega, rfl⟩

/-- The writer thread takes the head of the queue, or leaves. -/
theorem take_item {r r' : Router} (h : r.take = some r') :
    (∃ item queue, r.mode = .normal ∧ r.inFlight = none ∧ r.queue = item :: queue ∧
        r' = { r with queue := queue, inFlight := some item, begun := item :: r.begun }) ∨
      r' = { r with exited := true } := by
  unfold take at h
  split at h
  · next hidle =>
    simp only [Bool.and_eq_true, Option.isNone_iff_eq_none] at hidle
    split at h
    · next item queue hm hq =>
      split at h
      · obtain rfl := Option.some.inj h
        exact .inl ⟨item, queue, hm, hidle.2, hq, rfl⟩
      · cases h
    · split at h
      · obtain rfl := Option.some.inj h
        exact .inr rfl
      · cases h
    · split at h
      · obtain rfl := Option.some.inj h
        exact .inr rfl
      · cases h
  · cases h

/-- The item in flight was delivered, or its loss goes back to the head of the queue. -/
theorem delivered_cases {r r' : Router} {ok : Bool} (h : r.delivered ok = some r') :
    ∃ item, r.inFlight = some item ∧
      ((ok = true ∧ r' = { r with inFlight := none, queued := r.queued - item.bytes, failedAt := none }) ∨
        (ok = false ∧ ∃ gap, (item = .lost gap ∨ (item.isGap = false ∧ gap = .of 1 .sinkError)) ∧
          r' = loseAtFront { r with inFlight := none, queued := r.queued - item.bytes, failedAt := some r.pushes } gap)) := by
  unfold delivered at h
  split at h
  · cases h
  · next item hitem =>
    refine ⟨item, hitem, ?_⟩
    cases item with
    | line bytes =>
      cases ok with
      | true =>
        obtain rfl := Option.some.inj h
        exact .inl ⟨rfl, rfl⟩
      | false =>
        obtain rfl := Option.some.inj h
        exact .inr ⟨rfl, _, .inr ⟨rfl, rfl⟩, rfl⟩
    | lost gap =>
      cases ok with
      | true =>
        obtain rfl := Option.some.inj h
        exact .inl ⟨rfl, rfl⟩
      | false =>
        obtain rfl := Option.some.inj h
        exact .inr ⟨rfl, gap, .inl rfl, rfl⟩

/-! ### What the functions of the router leave alone -/

/-- The queue may have changed, but not what the writer thread is doing. -/
structure Queues (r r' : Router) : Prop where
  mode : r'.mode = r.mode
  ring : r'.ring = r.ring
  inFlight : r'.inFlight = r.inFlight
  begun : r'.begun = r.begun

theorem Queues.refl (r : Router) : Queues r r := ⟨rfl, rfl, rfl, rfl⟩

theorem Queues.trans {r r' r'' : Router} (h : Queues r r') (h' : Queues r' r'') : Queues r r'' :=
  ⟨h'.mode.trans h.mode, h'.ring.trans h.ring, h'.inFlight.trans h.inFlight, h'.begun.trans h.begun⟩

theorem lose_queues (r : Router) (count : Nat) (reason : LossReason) : Queues r (r.lose count reason) := by
  unfold lose
  split <;> exact ⟨rfl, rfl, rfl, rfl⟩

theorem enqueue_queues (r : Router) (line : Bytes) : Queues r (r.enqueue line) := by
  unfold enqueue
  split
  · exact r.lose_queues _ _
  · exact ⟨rfl, rfl, rfl, rfl⟩

theorem loseAtFront_queues (r : Router) (gap : LossGap) : Queues r (r.loseAtFront gap) := by
  unfold loseAtFront
  split <;> exact ⟨rfl, rfl, rfl, rfl⟩

theorem foldl_enqueue_queues (lines : List Bytes) (r : Router) : Queues r (lines.foldl enqueue r) := by
  induction lines generalizing r with
  | nil => exact .refl r
  | cons line lines ih => exact (r.enqueue_queues line).trans (ih _)

/-- A flush empties the ring and begins no write. -/
theorem flushToNormal_rest (r : Router) : r.flushToNormal.mode = .normal ∧ r.flushToNormal.ring = r.ring.drain ∧
    r.flushToNormal.inFlight = r.inFlight ∧ r.flushToNormal.begun = r.begun := by
  have hlose : Queues { r with ring := r.ring.drain }
      (if 0 < r.ring.lost then lose { r with ring := r.ring.drain } r.ring.lost .ringOverflow
        else { r with ring := r.ring.drain }) := by
    split
    · exact lose_queues _ _ _
    · exact .refl _
  have h := hlose.trans (foldl_enqueue_queues r.ring.lines _)
  exact ⟨rfl, h.ring, h.inFlight, h.begun⟩

/-- The hook `on_freezing` in `Ring` mode changes nothing. -/
theorem enterRing_ring {r : Router} (h : r.mode = .ring) : r.enterRing = r := by
  rw [enterRing, ← h]

/-- The hook `on_thawed` in `Normal` mode changes nothing, since the ring is empty there. -/
theorem flushToNormal_normal {r : Router} (h : r.mode = .normal) (hring : r.ring.drain = r.ring) : r.flushToNormal = r := by
  have hlines : r.ring.lines = [] := by
    rw [← hring]
    rfl
  have hlost : r.ring.lost = 0 := by
    rw [← hring]
    rfl
  simp only [flushToNormal, hlines, hlost, hring, List.foldl_nil]
  rw [← h]
  rfl

theorem writeRecord_rest (r : Router) (line : Bytes) : (r.writeRecord line).mode = r.mode ∧
    (r.mode = .normal → (r.writeRecord line).ring = r.ring) ∧ (r.writeRecord line).inFlight = r.inFlight ∧
    (r.writeRecord line).begun = r.begun := by
  unfold writeRecord
  split
  · next h => exact ⟨rfl, (fun hn => by cases h.symm.trans hn), rfl, rfl⟩
  · split
    · have h := r.lose_queues 1 .sinkError
      exact ⟨h.mode, fun _ => h.ring, h.inFlight, h.begun⟩
    · have h := r.enqueue_queues line
      exact ⟨h.mode, fun _ => h.ring, h.inFlight, h.begun⟩

theorem startWriter_queues (r : Router) (spawned : Bool) : Queues r (r.startWriter spawned) := by
  unfold startWriter
  split
  · exact .refl r
  · split <;> exact ⟨rfl, rfl, rfl, rfl⟩

/-- The writer thread takes an item in `Normal` mode only; otherwise it leaves. -/
theorem take_cases {r r' : Router} (h : r.take = some r') :
    (r.mode = .normal ∧ r'.mode = r.mode ∧ r'.ring = r.ring) ∨ Queues r r' := by
  rcases take_item h with ⟨item, queue, hm, -, -, rfl⟩ | rfl
  · exact .inl ⟨hm, rfl, rfl⟩
  · exact .inr ⟨rfl, rfl, rfl, rfl⟩

theorem delivered_rest {r r' : Router} {ok : Bool} (h : r.delivered ok = some r') :
    r'.mode = r.mode ∧ r'.ring = r.ring ∧ r'.inFlight = none ∧ r'.begun = r.begun := by
  obtain ⟨item, -, ⟨-, rfl⟩ | ⟨-, gap, -, rfl⟩⟩ := delivered_cases h
  · exact ⟨rfl, rfl, rfl, rfl⟩
  · have hq := loseAtFront_queues
      { r with inFlight := none, queued := r.queued - item.bytes, failedAt := some r.pushes } gap
    exact ⟨hq.mode, hq.ring, hq.inFlight, hq.begun⟩

end Router

end Qeminga
