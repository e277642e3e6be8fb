import Qeminga.Contract.LaneOrder

/-!
# Places, and why a session is never wedged

Started commands and undelivered replies share the places of the queue: the last command that started has at most
`maxQueued` places up to it, counted with the replies in the outbox.  A command that overtakes an earlier one has a
later place, so the earlier one keeps the place it needs, and an admission with nothing running starts the oldest
waiting command.
-/

namespace Qeminga

variable {ε : Type}

/-- The position of the last slot that has started, counted from one. -/
def lastStarted : List (Slot ε) → Nat
  | [] => 0
  | slot :: slots => if 0 < lastStarted slots then lastStarted slots + 1 else if slot.isWaiting then 0 else 1

theorem lastStarted_le_iff (slots : List (Slot ε)) (n : Nat) :
    lastStarted slots ≤ n ↔ ∀ (i : Nat) slot, slots[i]? = some slot → slot.isWaiting = false → i + 1 ≤ n := by
  induction slots generalizing n with
  | nil => simp [lastStarted]
  | cons slot slots ih =>
    constructor
    · intro h i slot' hi hw
      simp only [lastStarted] at h
      cases i with
      | zero =>
        obtain rfl : slot = slot' := by simpa using hi
        split at h
        · omega
        · simpa [hw] using h
      | succ i =>
        have hpos := (ih (lastStarted slots)).1 (Nat.le_refl _) i slot' (by simpa using hi) hw
        rw [if_pos (by omega)] at h
        omega
    · intro h
      have htail : lastStarted slots ≤ n - 1 := by
        refine (ih (n - 1)).2 fun i slot' hi hw => ?_
        have := h (i + 1) slot' (by simpa using hi) hw
        omega
      simp only [lastStarted]
      split
      · omega
      · split
        · exact Nat.zero_le _
        · next hw => exact h 0 slot rfl (by simpa using hw)

/-- Every started command has a place up to the last one. -/
theorem countP_started_le (slots : List (Slot ε)) : slots.countP (fun slot => !slot.isWaiting) ≤ lastStarted slots := by
  induction slots with
  | nil => exact Nat.le_refl _
  | cons slot slots ih =>
    rw [List.countP_cons, lastStarted]
    by_cases hlast : 0 < lastStarted slots
    · rw [if_pos hlast]
      have : (if (!slot.isWaiting) = true then 1 else 0) ≤ 1 := by split <;> omega
      omega
    · rw [if_neg hlast]
      cases slot.isWaiting with
      | true => simpa using Nat.le_trans ih (Nat.le_of_not_lt hlast)
      | false => simpa using Nat.le_trans ih (Nat.le_of_not_lt hlast)

namespace Session

variable {classify : ε → Kind}

/-- The places of the queue. -/
structure Placed (s : Session ε) : Prop where
  started : s.outbox.count + lastStarted s.slots ≤ maxQueued
  queued : s.slots.length + s.outbox.count ≤ maxQueued - 1 + s.history.lastRead
  budget : ∀ st ∈ s.history.starts, st.outbox.pending < maxReplyBytes

private theorem Placed.at {s : Session ε} (hs : Placed s) {i : Nat} {slot : Slot ε} (hi : s.slots[i]? = some slot)
    (hw : slot.isWaiting = false) : s.outbox.count + i + 1 ≤ maxQueued := by
  have := (lastStarted_le_iff s.slots (maxQueued - s.outbox.count)).1 (by have := hs.started; omega) i slot hi hw
  omega

/-- The places are kept when each started slot has one. -/
private theorem started_of {s : Session ε} (hcount : s.outbox.count ≤ maxQueued)
    (h : ∀ (i : Nat) slot, s.slots[i]? = some slot → slot.isWaiting = false → s.outbox.count + i + 1 ≤ maxQueued) :
    s.outbox.count + lastStarted s.slots ≤ maxQueued := by
  have : lastStarted s.slots ≤ maxQueued - s.outbox.count := by
    refine (lastStarted_le_iff _ _).2 fun i slot hi hw => ?_
    have := h i slot hi hw
    omega
  omega

private theorem depart_count (s : Session ε) (reply : Option Bytes) (slots : List (Slot ε)) :
    (s.depart reply slots).outbox.count ≤ s.outbox.count + 1 := by
  cases reply with
  | none => exact Nat.le_succ _
  | some bytes =>
    simp only [depart]
    split
    · exact Nat.le_succ _
    · simp [Outbox.push, Outbox.count]

private theorem accept_count (o : Outbox) {front : Bytes} {rest : List Bytes} (h : o.replies = front :: rest) (n : Nat) :
    (o.accept front rest n).count ≤ o.count := by
  unfold Outbox.accept
  split <;> simp [Outbox.count, h]

private theorem placed_depart {s : Session ε} {reply : Option Bytes} {slots : List (Slot ε)}
    (h : s.slots = .done reply :: slots) (hs : Placed s) : Placed (s.depart reply slots) := by
  have hcount := s.depart_count reply slots
  have hslot : s.slots[0]? = some (.done reply) := by simp [h]
  have hfront := hs.at hslot rfl
  refine ⟨started_of (by omega) fun i slot hi hw => ?_, ?_, hs.budget⟩
  · have hslot : s.slots[i + 1]? = some slot := by simpa [h, depart] using hi
    have := hs.at hslot hw
    omega
  · have hq := hs.queued
    simp only [h, List.length_cons] at hq
    have hlen : (s.depart reply slots).slots.length = slots.length := rfl
    have hread : (s.depart reply slots).history.lastRead = s.history.lastRead := rfl
    omega

private theorem placed_set {s : Session ε} {i : Nat} {new : Slot ε} {starts : List (Start ε)}
    (hnew : s.outbox.count + i + 1 ≤ maxQueued) (hbudget : ∀ st ∈ starts, st.outbox.pending < maxReplyBytes)
    (hs : Placed s) : Placed { s with slots := s.slots.set i new, history := { s.history with starts := starts } } := by
  refine ⟨started_of (by have := hs.started; simp only; omega) fun j slot hj hw => ?_, ?_, hbudget⟩
  · by_cases hji : i = j
    · exact hji ▸ hnew
    · simp only [List.getElem?_set_ne hji] at hj
      exact hs.at hj hw
  · simpa using hs.queued

theorem Effect.placed {s s' : Session ε} (h : Effect classify s s') (hs : Placed s) : Placed s' := by
  cases h with
  | control hslots houtbox hfailed hhistory =>
    refine ⟨?_, ?_, ?_⟩
    · rw [hslots, houtbox]
      exact hs.started
    · rw [hslots, houtbox, hhistory]
      exact hs.queued
    · rw [hhistory]
      exact hs.budget
  | depart h => exact placed_depart h hs
  | @accept front rest n hw h =>
    have hcount : (s.acceptBytes front rest n).outbox.count ≤ s.outbox.count := accept_count s.outbox h n
    refine ⟨?_, ?_, hs.budget⟩
    · have := hs.started
      have hslots : (s.acceptBytes front rest n).slots = s.slots := rfl
      rw [hslots]
      omega
    · have := hs.queued
      have hslots : (s.acceptBytes front rest n).slots = s.slots := rfl
      have hread : (s.acceptBytes front rest n).history.lastRead = s.history.lastRead := rfl
      rw [hslots, hread]
      omega
  | abandon =>
    have h₁ := hs.started
    have h₂ := hs.queued
    refine ⟨?_, ?_, hs.budget⟩
    · simp only [Outbox.abandon, Outbox.count, List.length_nil]
      omega
    · simp only [Outbox.abandon, Outbox.count, List.length_nil]
      omega
  | start h hfree hrefused hi hp =>
    refine placed_set (by omega) (fun st hst => ?_) hs
    rcases List.mem_cons.1 hst with rfl | hst
    · exact hp
    · exact hs.budget st hst
  | finish reply h => exact @placed_set _ s _ _ s.history.starts (hs.at h rfl) hs.budget hs
  | read events hroom =>
    refine ⟨started_of (by have := hs.started; simp only [decode]; omega) fun i slot hi hw => ?_, ?_, hs.budget⟩
    · simp only [decode] at hi ⊢
      rcases Nat.lt_or_ge i s.slots.length with hlt | hge
      · rw [List.getElem?_append_left hlt] at hi
        exact hs.at hi hw
      · rw [List.getElem?_append_right hge, List.getElem?_map] at hi
        obtain ⟨c, -, rfl⟩ := Option.map_eq_some_iff.1 hi
        cases hw
    · simp only [decode, List.length_append, List.length_map]
      omega

theorem Reachable.placed {s : Session ε} (h : Reachable classify s) : Placed s :=
  Reachable.keeps ⟨Nat.zero_le _, Nat.zero_le _, by rintro st ⟨⟩⟩ (fun _ _ => Effect.placed) h

/-! ### The queue at the admission -/

/-- After the `while` loop the front of the queue has not finished, and a stop is accepted only beside running
commands once it has been checked. -/
structure Collected (s : Session ε) : Prop where
  front : s.pc = .stop ∨ s.pc = .admission → ∀ reply, s.slots.head? ≠ some (.done reply)
  draining : s.pc = .admission → s.draining = true → s.running = true

private theorem Collected.of_pc {s : Session ε} (h₁ : s.pc ≠ .stop) (h₂ : s.pc ≠ .admission) : Collected s :=
  ⟨fun h => absurd h (not_or.2 ⟨h₁, h₂⟩), fun h => absurd h h₂⟩

theorem Reachable.collected {s : Session ε} (h : Reachable classify s) : Collected s := by
  refine h.invariant (fun s hs => hs ▸ .of_pc (by rintro ⟨⟩) (by rintro ⟨⟩)) fun s turn s' hr hs hst _ => ?_
  cases step_move hst with
  | top => exact ⟨fun _ => collect_front s.slots s rfl, by rintro ⟨⟩⟩
  | withdraw hpc => exact ⟨fun _ => hs.front (.inl hpc), fun _ hd => by cases hd⟩
  | proceed hpc hr => exact ⟨fun _ => hs.front (.inl hpc), fun _ => hr⟩
  | admission =>
    rcases s.admission_cases with ⟨reason, -, -, h⟩ | ⟨-, h⟩
    · exact h ▸ .of_pc (by rintro ⟨⟩) (by rintro ⟨⟩)
    · exact h ▸ .of_pc (by rintro ⟨⟩) (by rintro ⟨⟩)
  | drained => exact .of_pc (by rw [drained_pc]; rintro ⟨⟩) (by rw [drained_pc]; rintro ⟨⟩)
  | read => exact .of_pc (by rw [read_pc]; rintro ⟨⟩) (by rw [read_pc]; rintro ⟨⟩)
  | pend hpc h =>
    obtain ⟨o, bytes, rfl, -⟩ := h.rest
    exact .of_pc (by rw [hpc]; rintro ⟨⟩) (by rw [hpc]; rintro ⟨⟩)
  | _ => exact .of_pc (by rintro ⟨⟩) (by rintro ⟨⟩)

/-- With nothing running, the front of the queue is the oldest waiting command. -/
private theorem front_waiting {s : Session ε} (hc : ∀ reply, s.slots.head? ≠ some (.done reply))
    (hr : s.running = false) (hne : s.slots ≠ []) : ∃ kind event, s.slots[0]? = some (.waiting kind event) := by
  cases hs : s.slots with
  | nil => exact absurd hs hne
  | cons slot slots =>
    cases slot with
    | waiting kind event => exact ⟨kind, event, rfl⟩
    | pending => simp [running, hs, Slot.isPending] at hr
    | done reply => exact absurd (by simp [hs]) (hc reply)

private theorem runs_of_not_running {s : Session ε} (hr : s.running = false) (kind : Kind) :
    s.slots.countP (Slot.runs kind) = 0 ∧ s.slots.any (Slot.runs kind) = false := by
  have hnone : ∀ slot ∈ s.slots, ¬ slot.runs kind = true := by
    intro slot hslot hruns
    have := List.any_eq_false.1 hr slot hslot
    cases slot <;> simp_all [Slot.isPending]
  exact ⟨List.countP_eq_zero.2 hnone, List.any_eq_false.2 hnone⟩

/-- An admission with nothing running starts the command at the front. -/
private theorem admits_front {s : Session ε} (hr : s.running = false) (hd : s.draining = false)
    (hcount : s.outbox.count < maxQueued) (hp : s.outbox.pending < maxReplyBytes) {kind : Kind} {event : ε}
    (h : s.slots[0]? = some (.waiting kind event)) : s.admits.slots[0]? = some (.pending kind event) := by
  have hfree : (Lanes.of s.slots).free false kind = true := by
    rw [Lanes.of_eq]
    cases kind <;> simp [Lanes.free, Lanes.exclusive, runs_of_not_running hr, maxControls]
  have hone : (admitWaiting s.slots 1)[0]? = some (.pending kind event) := by
    have hlen := (List.getElem?_eq_some_iff.1 h).1
    rw [admitWaiting_succ, admitWaiting_zero, admitAt, h]
    simp [hfree, hlen]
  have hadmits : s.admits.slots = admitWaiting s.slots (maxQueued - s.outbox.count) := by simp [admits, hd, hp]
  rw [hadmits, admitWaiting_behind s.slots (by omega)]
  exact hone

/-- What runs goes on running through an admission. -/
private theorem running_admits {s : Session ε} (h : s.running = true) : s.admits.running = true := by
  unfold admits
  split
  · obtain ⟨slot, hmem, hp⟩ := List.any_eq_true.1 h
    obtain ⟨i, hi⟩ := List.getElem?_of_mem hmem
    cases slot with
    | waiting => cases hp
    | done => cases hp
    | pending kind event => exact List.any_eq_true.2 ⟨_, List.mem_of_getElem? (admitWaiting_pending hi _), rfl⟩
  · exact h

theorem admits_rest (s : Session ε) : s.admits.outbox = s.outbox ∧ s.admits.inputEnd = s.inputEnd ∧
    s.admits.draining = s.draining ∧ s.admits.writeFailed = s.writeFailed := by
  unfold admits
  split <;> exact ⟨rfl, rfl, rfl, rfl⟩

private theorem admits_nil {s : Session ε} (h : s.slots = []) : s.admits.slots = [] := by
  unfold admits
  split
  · exact List.eq_nil_of_length_eq_zero (by rw [length_admitWaiting, h]; rfl)
  · exact h

/-- With nothing to write and nothing running after an admission, the queue is empty: a waiting command would have
started. -/
private theorem admits_empty {s : Session ε} (hdel : Delivers s) (hc : Collected s) (hpc : s.pc = .admission)
    (hr : s.admits.running = false) (hempty : s.outbox.replies = []) : s.slots = [] ∧ s.draining = false := by
  have hrun : s.running = false := Bool.eq_false_iff.2 fun h => Bool.eq_false_iff.1 hr (running_admits h)
  have hd : s.draining = false := Bool.eq_false_iff.2 fun h => Bool.eq_false_iff.1 hrun (hc.draining hpc h)
  refine ⟨?_, hd⟩
  by_contra hne
  obtain ⟨kind, event, hfront⟩ := front_waiting (hc.front (.inr hpc)) hrun hne
  have hp : s.outbox.pending = 0 := by rw [hdel.outbox.pending, Outbox.unsent, hempty]; simp
  have hstart := admits_front hrun hd (by simp [Outbox.count, hempty, maxQueued]) (by simp [hp, maxReplyBytes]) hfront
  exact Bool.eq_false_iff.1 hr (List.any_eq_true.2 ⟨_, List.mem_of_getElem? hstart, rfl⟩)

/-- A branch of the `select!` is always enabled. -/
theorem Reachable.enabled {s : Session ε} (h : Reachable classify s) : s.pc ≠ .select false false false := by
  refine h.invariant (I := fun s => s.pc ≠ .select false false false) (fun s hs => hs ▸ (by rintro ⟨⟩))
    fun s turn s' hreach hs hst _ => ?_
  cases step_move hst with
  | drained => exact drained_pc _ _ ▸ (by rintro ⟨⟩)
  | read => exact read_pc _ _ ▸ (by rintro ⟨⟩)
  | pend hpc h =>
    obtain ⟨o, bytes, rfl, -⟩ := h.rest
    exact hs
  | admission hpc =>
    rcases s.admission_cases with ⟨reason, -, -, h⟩ | ⟨hfin, h⟩
    · exact h ▸ (by rintro ⟨⟩)
    · rw [h]
      intro hsel
      obtain ⟨hr, hw, hcr⟩ := SessionPc.select.inj hsel
      have hdel := Reachable.delivers hreach
      obtain ⟨ho, hend, hdr, hwf⟩ := s.admits_rest
      have hempty : s.outbox.replies = [] := by
        simp only [canWrite, ho, hwf, Outbox.isEmpty, Bool.and_eq_false_iff, Bool.not_eq_false',
          List.isEmpty_iff] at hw
        exact hw.elim id fun hf => hdel.failed hf
      have hp : s.outbox.pending = 0 := by rw [hdel.outbox.pending, Outbox.unsent, hempty]; simp
      obtain ⟨hnil, hd⟩ := admits_empty hdel (Reachable.collected hreach) hpc hr hempty
      have hslots := admits_nil hnil
      have hinput := hfin (by simp [finished, hr, hslots, ho, Outbox.isEmpty, hempty])
      simp [canRead, hinput, hdr, hd, hslots, ho, Outbox.count, hempty, hp, maxQueued, maxReplyBytes] at hcr
  | _ => rintro ⟨⟩

/-! ### The contract -/

private theorem admission_standing (s : Session ε) (k : Nat) : s.admission.standing k = s.admits.standing k := by
  rcases s.admission_cases with ⟨reason, -, -, h⟩ | ⟨-, h⟩
  · rw [h]
    rfl
  · rw [h]
    rfl

private theorem admits_departed (s : Session ε) : s.admits.history.departed = s.history.departed := by
  unfold admits
  split <;> rfl

/-- Started commands and undelivered replies fit into the places; the queue exceeds them by one read at most; nothing
starts over the budget; an admission with nothing running starts the oldest waiting command; and a branch of the
`select!` is always enabled, so that its `else` branch is never reached. -/
theorem places {s : Session ε} (h : Reachable classify s) :
    s.outbox.count + lastStarted s.slots ≤ maxQueued ∧
    s.slots.countP (fun slot => !slot.isWaiting) + s.outbox.count ≤ maxQueued ∧
    s.slots.length + s.outbox.count ≤ maxQueued - 1 + s.history.lastRead ∧
    (∀ st ∈ s.history.starts, st.outbox.pending < maxReplyBytes) ∧
    (s.pc = .admission → s.running = false → s.draining = false → s.outbox.count < maxQueued →
      s.outbox.pending < maxReplyBytes → ∀ k, s.standing k = some .waiting → (∀ j < k, s.standing j ≠ some .waiting) →
      s.step classify .admission = some s.admission ∧ s.admission.standing k = some .running) ∧
    s.pc ≠ .select false false false := by
  have hp := Reachable.placed h
  have hcount := countP_started_le s.slots
  refine ⟨hp.started, ?_, hp.queued, hp.budget, fun hpc hr hd hc hb k hk hold => ?_, Reachable.enabled h⟩
  · have := hp.started
    omega
  · refine ⟨by simp [step, hpc], ?_⟩
    have hfront := (Reachable.collected h).front (.inr hpc)
    obtain ⟨i, slot, rfl, hslot, hw⟩ : ∃ i slot, k = s.history.departed.length + i ∧ s.slots[i]? = some slot ∧
        slot.standing = .waiting := by
      rcases standing_cases hk with ⟨-, hfin⟩ | hcase
      · cases hfin
      · exact hcase
    have hne : s.slots ≠ [] := by
      rintro hnil
      simp [hnil] at hslot
    obtain ⟨kind, event, hzero⟩ := front_waiting hfront hr hne
    -- the command at the front waits, so the oldest waiting one is that
    have hi : i = 0 := by
      by_contra hpos
      refine hold (s.history.departed.length + 0) (by omega) ?_
      rw [Session.standing, standing_add, hzero]
      rfl
    subst hi
    rw [admission_standing, Session.standing, admits_departed, standing_add, admits_front hr hd hc hb hzero]
    rfl

/-- Two serial commands: the second waits, and both have places. -/
theorem places_of_two : ∃ s : Session Kind, Reachable id s ∧
    (s.slots.map Slot.standing = [.running, .waiting] ∧ lastStarted s.slots = 1) ∧
    s.outbox.count + lastStarted s.slots ≤ maxQueued := by
  obtain ⟨s, hs, hp⟩ := Reachable.of_turns (c := id) (Script.reads [.ordinary, .freeze] ++ Script.turn Script.quiet)
    (fun s => decide (s.slots.map Slot.standing = [.running, .waiting] ∧ lastStarted s.slots = 1)) rfl rfl
  exact ⟨s, hs, of_decide_eq_true hp, (places hs).1⟩

end Session

end Qeminga
