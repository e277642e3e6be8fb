import Qeminga.Invariant.Requests

/-!
# Replies leave whole and in request order

What the host has accepted and what the outbox holds together are the replies of the commands that departed, in
request order.  So whatever the order of completions and however the host takes the bytes, it reads a prefix of the
replies of the session, and the counter of the outbox is the number of bytes it has not read.
-/

namespace Qeminga

variable {ε : Type}

namespace Outbox

/-- The counters of the outbox describe its replies. -/
structure Sound (o : Outbox) : Prop where
  pending : o.pending = o.unsent.length
  written : o.written ≤ (o.replies.head?.getD []).length

theorem new_sound : Sound new := ⟨rfl, Nat.le_refl _⟩

theorem unsent_cons {o : Outbox} {front : Bytes} {rest : List Bytes} (h : o.replies = front :: rest)
    (hw : o.written ≤ front.length) : o.unsent = front.drop o.written ++ rest.flatten := by
  rw [unsent, h, List.flatten_cons, List.drop_append_of_le_length hw]

private theorem Sound.written_flatten {o : Outbox} (h : Sound o) : o.written ≤ o.replies.flatten.length := by
  have hw := h.written
  cases hr : o.replies with
  | nil => simpa [hr] using hw
  | cons front rest =>
    simp only [hr, List.head?_cons, Option.getD_some] at hw
    simp only [List.flatten_cons, List.length_append]
    omega

theorem unsent_push {o : Outbox} (h : Sound o) (reply : Bytes) : (o.push reply).unsent = o.unsent ++ reply := by
  simp only [unsent, push, List.flatten_append, List.flatten_singleton]
  exact List.drop_append_of_le_length h.written_flatten

theorem Sound.push {o : Outbox} (h : Sound o) (reply : Bytes) : Sound (o.push reply) := by
  refine ⟨?_, ?_⟩
  · rw [unsent_push h, List.length_append, ← h.pending]
    rfl
  · have hw := h.written
    cases hr : o.replies with
    | nil =>
      simp only [hr, List.head?_nil, Option.getD_none, List.length_nil] at hw
      simp only [Outbox.push, hr, List.nil_append, List.head?_cons, Option.getD_some]
      omega
    | cons front rest => simpa [Outbox.push, hr] using hw

/-- A write moves bytes from the outbox to the host. -/
theorem accept_unsent {o : Outbox} {front : Bytes} {rest : List Bytes} {n : Nat} (h : Sound o)
    (hfront : o.replies = front :: rest) (hle : n ≤ (front.drop o.written).length) :
    (front.drop o.written).take n ++ (o.accept front rest n).unsent = o.unsent := by
  have hw : o.written ≤ front.length := by simpa [hfront] using h.written
  rw [unsent_cons hfront hw]
  unfold accept
  split
  · next he =>
    have hall : (front.drop o.written).length ≤ n := by
      rw [List.length_drop]
      omega
    simp [unsent, List.take_of_length_le hall]
  · have hw' : o.written + n ≤ front.length := by
      rw [List.length_drop] at hle
      omega
    rw [unsent_cons (o := ⟨o.replies, o.written + n, o.pending - n⟩) hfront hw', ← List.append_assoc, ← List.drop_drop, List.take_append_drop]

theorem Sound.accept {o : Outbox} {front : Bytes} {rest : List Bytes} {n : Nat} (h : Sound o)
    (hfront : o.replies = front :: rest) (hle : n ≤ (front.drop o.written).length) : Sound (o.accept front rest n) := by
  have hunsent := congrArg List.length (accept_unsent h hfront hle)
  rw [List.length_append, List.length_take, Nat.min_eq_left hle, ← h.pending] at hunsent
  have hlen := hle
  rw [List.length_drop] at hlen
  refine ⟨?_, ?_⟩
  · have hp : (o.accept front rest n).pending = o.pending - n := by
      unfold Outbox.accept
      split <;> rfl
    omega
  · unfold Outbox.accept
    split
    · exact Nat.zero_le _
    · have hw : o.written ≤ front.length := by simpa [hfront] using h.written
      simp only [hfront, List.head?_cons, Option.getD_some]
      omega

theorem Accepts.sound {o o' : Outbox} {bytes : Bytes} (hacc : Accepts o bytes o') (h : Sound o) : Sound o' := by
  induction hacc with
  | nil => exact h
  | cons hfront _ hle _ _ ih => exact ih (h.accept hfront hle)

/-- A write on a sound outbox does not panic. -/
theorem Sound.not_broken {o : Outbox} (h : Sound o) : ¬ o.Broken := by
  rintro ⟨front, rest, hfront, hlt | ⟨n, hle, hlt⟩⟩
  · have hw := h.written
    simp only [hfront, List.head?_cons, Option.getD_some] at hw
    omega
  · have hw : o.written ≤ front.length := by simpa [hfront] using h.written
    have hp := h.pending
    rw [unsent_cons hfront hw, List.length_append] at hp
    omega

end Outbox

/-- The replies of the first `n` requests, as the host reads them. -/
def wire (reply : Nat → Option Bytes) (n : Nat) : Bytes := ((List.range n).map fun k => (reply k).getD []).flatten

theorem wire_mono (reply : Nat → Option Bytes) {m n : Nat} (h : m ≤ n) : wire reply m <+: wire reply n := by
  induction h with
  | refl => exact List.prefix_refl _
  | step _ ih =>
    refine ih.trans ?_
    simp [wire, List.range_succ]

namespace Session

variable {classify : ε → Kind}

/-- The reply of the request `k`, once it has finished. -/
def outcome (s : Session ε) (k : Nat) : Option (Option Bytes) :=
  if k < s.history.departed.length then s.history.departed[k]? else s.slots[k - s.history.departed.length]?.bind Slot.outcome

/-- The replies of the commands that departed, as the host reads them. -/
def sent (s : Session ε) : Bytes := (s.history.departed.map fun reply => reply.getD []).flatten

/-- What the host and the outbox hold are the replies that departed. -/
structure Delivers (s : Session ε) : Prop where
  outbox : s.outbox.Sound
  failed : s.writeFailed = true → s.outbox.replies = []
  whole : s.writeFailed = false → s.history.accepted ++ s.outbox.unsent = s.sent
  inOrder : s.history.accepted <+: s.sent

private theorem sent_depart (s : Session ε) (reply : Option Bytes) (slots : List (Slot ε)) :
    (s.depart reply slots).sent = s.sent ++ reply.getD [] := by
  simp [sent, depart]

private theorem delivers_depart {s : Session ε} (reply : Option Bytes) (slots : List (Slot ε)) (hs : Delivers s) :
    Delivers (s.depart reply slots) := by
  have hprefix : s.history.accepted <+: (s.depart reply slots).sent := by
    rw [sent_depart]
    exact hs.inOrder.trans (List.prefix_append _ _)
  cases reply with
  | none => exact ⟨hs.outbox, hs.failed, fun hw => by rw [sent_depart]; simpa [depart] using hs.whole hw, hprefix⟩
  | some bytes =>
    cases hfail : s.writeFailed with
    | true =>
      have ho : (s.depart (some bytes) slots).outbox = s.outbox := by simp [depart, hfail]
      refine ⟨ho ▸ hs.outbox, fun _ => ho ▸ hs.failed hfail, fun hw => ?_, hprefix⟩
      cases hfail.symm.trans hw
    | false =>
      have ho : (s.depart (some bytes) slots).outbox = s.outbox.push bytes := by simp [depart, hfail]
      refine ⟨ho ▸ hs.outbox.push bytes, fun hw => ?_, fun _ => ?_, hprefix⟩
      · cases hfail.symm.trans hw
      · rw [ho, sent_depart, Outbox.unsent_push hs.outbox, ← List.append_assoc]
        exact congrArg (· ++ bytes) (hs.whole hfail)

private theorem delivers_accept {s : Session ε} {front : Bytes} {rest : List Bytes} {n : Nat} (hw : s.writeFailed = false)
    (h : s.outbox.replies = front :: rest) (hle : n ≤ (front.drop s.outbox.written).length) (hs : Delivers s) :
    Delivers (s.acceptBytes front rest n) := by
  have hwhole : (s.acceptBytes front rest n).history.accepted ++ (s.acceptBytes front rest n).outbox.unsent = s.sent := by
    simp only [acceptBytes, List.append_assoc]
    rw [Outbox.accept_unsent hs.outbox h hle]
    exact hs.whole hw
  refine ⟨hs.outbox.accept h hle, fun hf => ?_, fun _ => hwhole, ?_⟩
  · cases hw.symm.trans hf
  · exact ⟨_, hwhole⟩

theorem Effect.delivers {s s' : Session ε} (h : Effect classify s s') (hs : Delivers s) : Delivers s' := by
  cases h with
  | control hslots houtbox hfailed hhistory =>
    have hsent : s'.sent = s.sent := by rw [sent, hhistory, sent]
    refine ⟨houtbox ▸ hs.outbox, ?_, ?_, ?_⟩
    · rw [hfailed, houtbox]
      exact hs.failed
    · rw [hfailed, houtbox, hhistory, hsent]
      exact hs.whole
    · rw [hhistory, hsent]
      exact hs.inOrder
  | depart => exact delivers_depart _ _ hs
  | accept hw h hn hle => exact delivers_accept hw h hle hs
  | abandon => exact ⟨Outbox.new_sound, fun _ => rfl, by rintro ⟨⟩, hs.inOrder⟩
  | start => exact ⟨hs.outbox, hs.failed, hs.whole, hs.inOrder⟩
  | finish => exact ⟨hs.outbox, hs.failed, hs.whole, hs.inOrder⟩
  | read => exact ⟨hs.outbox, hs.failed, hs.whole, hs.inOrder⟩

theorem Reachable.delivers {s : Session ε} (h : Reachable classify s) : Delivers s :=
  Reachable.keeps ⟨Outbox.new_sound, by rintro ⟨⟩, fun _ => rfl, List.prefix_refl _⟩ (fun _ _ => Effect.delivers) h

/-! ### What has been said stays said -/

/-- A later session has the replies and the bytes of the earlier one. -/
structure Extends (s s' : Session ε) : Prop where
  accepted : s.history.accepted <+: s'.history.accepted
  outcome : ∀ k r, s.outcome k = some r → s'.outcome k = some r

theorem outcome_cases {s : Session ε} {k : Nat} {r : Option Bytes} (h : s.outcome k = some r) :
    s.history.departed[k]? = some r ∨ ∃ i, k = s.history.departed.length + i ∧ s.slots[i]? = some (.done r) := by
  unfold Session.outcome at h
  split at h
  · exact .inl h
  · obtain ⟨slot, hslot, hr⟩ := Option.bind_eq_some_iff.1 h
    cases slot with
    | done reply =>
      obtain rfl := Option.some.inj hr
      exact .inr ⟨k - s.history.departed.length, by omega, hslot⟩
    | waiting => cases hr
    | pending => cases hr

theorem outcome_of_departed {s : Session ε} {k : Nat} {r : Option Bytes} (h : s.history.departed[k]? = some r) :
    s.outcome k = some r := by
  rw [Session.outcome, if_pos (List.getElem?_eq_some_iff.1 h).1, h]

theorem outcome_of_done {s : Session ε} {i : Nat} {r : Option Bytes} (h : s.slots[i]? = some (.done r)) :
    s.outcome (s.history.departed.length + i) = some r := by
  rw [Session.outcome, if_neg (by omega), Nat.add_sub_cancel_left, h]
  rfl

/-- Replies stay where they are while the finished slots do. -/
private theorem outcome_of_slots {s s' : Session ε} (hd : s'.history.departed = s.history.departed)
    (h : ∀ (i : Nat) r, s.slots[i]? = some (.done r) → s'.slots[i]? = some (.done r)) {k : Nat} {r : Option Bytes}
    (hk : s.outcome k = some r) : s'.outcome k = some r := by
  rcases outcome_cases hk with hdep | ⟨i, rfl, hi⟩
  · exact outcome_of_departed (hd ▸ hdep)
  · exact hd ▸ outcome_of_done (h i r hi)

private theorem extends_depart {s : Session ε} {reply : Option Bytes} {slots : List (Slot ε)}
    (h : s.slots = .done reply :: slots) : Extends s (s.depart reply slots) := by
  refine ⟨List.prefix_refl _, fun k r hk => ?_⟩
  rcases outcome_cases hk with hdep | ⟨i, rfl, hi⟩
  · refine outcome_of_departed ?_
    simp only [depart]
    rw [List.getElem?_append_left (List.getElem?_eq_some_iff.1 hdep).1, hdep]
  · cases i with
    | zero =>
      refine outcome_of_departed ?_
      simp only [h, List.getElem?_cons_zero, Option.some.injEq, Slot.done.injEq] at hi
      simp [depart, hi]
    | succ i =>
      have hi' : (s.depart reply slots).slots[i]? = some (.done r) := by simpa [depart, h] using hi
      have := outcome_of_done hi'
      simpa [depart, Nat.add_assoc, Nat.add_comm 1] using this

theorem Effect.extends {s s' : Session ε} (h : Effect classify s s') : Extends s s' := by
  cases h with
  | control hslots _ _ hhistory =>
    refine ⟨hhistory ▸ List.prefix_refl _, fun k r hk => outcome_of_slots (by rw [hhistory]) (fun i r hi => ?_) hk⟩
    rwa [hslots]
  | depart h => exact extends_depart h
  | accept => exact ⟨List.prefix_append _ _, fun k r => outcome_of_slots rfl fun _ _ h => h⟩
  | abandon => exact ⟨List.prefix_refl _, fun k r => outcome_of_slots rfl fun _ _ h => h⟩
  | @start i kind event h =>
    refine ⟨List.prefix_refl _, fun k r hk => outcome_of_slots ?_ (fun j r hj => ?_) hk⟩
    · rfl
    · have hne : i ≠ j := by rintro rfl; cases h.symm.trans hj
      simpa [startAt, List.getElem?_set_ne hne] using hj
  | @finish i kind event reply h =>
    refine ⟨List.prefix_refl _, fun k r hk => outcome_of_slots ?_ (fun j r hj => ?_) hk⟩
    · rfl
    · have hne : i ≠ j := by rintro rfl; cases h.symm.trans hj
      simpa [List.getElem?_set_ne hne] using hj
  | read events =>
    refine ⟨List.prefix_refl _, fun k r hk => outcome_of_slots ?_ (fun j r hj => ?_) hk⟩
    · rfl
    · simp only [decode]
      rw [List.getElem?_append_left (List.getElem?_eq_some_iff.1 hj).1, hj]

theorem Extends.trans {s t u : Session ε} (h : Extends s t) (h' : Extends t u) : Extends s u :=
  ⟨h.accepted.trans h'.accepted, fun k r hk => h'.outcome k r (h.outcome k r hk)⟩

theorem Extends.refl (s : Session ε) : Extends s s := ⟨List.prefix_refl _, fun _ _ h => h⟩

/-- Along a run nothing said is taken back. -/
theorem Reachable.extends {s t : Session ε} (h : Reachable classify s)
    (hst : Machine.Steps (step classify) (fun _ _ _ => True) s t) : Extends s t := by
  refine Machine.Reach.invariant_from (I := Extends s) h hst (.refl s) fun t turn u ht hsu hu _ => ?_
  exact ((step_move hu).effects (Reachable.flags ht)).keeps (fun _ _ he hs => hs.trans he.extends) hsu

/-! ### The writer never panics -/

theorem Reachable.not_panicked {s : Session ε} (h : Reachable classify s) : s.pc ≠ .panicked := by
  have hdrain : ∀ {s s₁ : Session ε} {w : WriterAnswers}, Reachable classify s → s.drain w ≠ some (s₁, .panicked) := by
    intro s s₁ w hr hd
    obtain ⟨o, bytes, -, hacc, hbroken⟩ := drain_rest hd
    exact (hacc.sound (Reachable.delivers hr).outbox).not_broken (hbroken rfl)
  refine h.invariant (I := fun s => s.pc ≠ .panicked) (fun s hs => hs ▸ (by rintro ⟨⟩)) fun s turn s' hr hs hst _ => ?_
  cases step_move hst with
  | cancelPanicked hpc hw h => exact absurd h (hdrain hr)
  | panicked hpc h => exact absurd h (hdrain hr)
  | admission =>
    rcases s.admission_cases with ⟨reason, -, -, h⟩ | ⟨-, h⟩
    · exact h ▸ (by rintro ⟨⟩)
    · exact h ▸ (by rintro ⟨⟩)
  | drained => exact drained_pc _ _ ▸ (by rintro ⟨⟩)
  | read => exact read_pc _ _ ▸ (by rintro ⟨⟩)
  | pend hpc h =>
    obtain ⟨o, bytes, rfl, -⟩ := h.rest
    exact hs
  | _ => rintro ⟨⟩

/-! ### The contract -/

theorem sent_eq_wire {s : Session ε} {reply : Nat → Option Bytes}
    (h : ∀ k r, s.outcome k = some r → reply k = r) : s.sent = wire reply s.history.departed.length := by
  rw [sent, wire]
  congr 1
  refine List.ext_getElem? fun k => ?_
  rw [List.getElem?_map, List.getElem?_map]
  rcases Nat.lt_or_ge k s.history.departed.length with hk | hk
  · rw [List.getElem?_range hk, List.getElem?_eq_getElem hk, Option.map_some, Option.map_some]
    rw [h k _ (outcome_of_departed (List.getElem?_eq_getElem hk))]
  · rw [List.getElem?_eq_none hk, List.getElem?_eq_none (by simpa using hk)]
    rfl

/-- What the host accepts is a prefix of the replies in request order, whatever the replies to come; a byte of the
reply `k` is accepted only when every request up to `k` has finished; the counter of the outbox is exact and no write
panics; and no byte and no reply changes later. -/
theorem replies_in_order {s : Session ε} (h : Reachable classify s) :
    (∀ reply : Nat → Option Bytes, (∀ k r, s.outcome k = some r → reply k = r) →
      s.history.accepted <+: wire reply s.history.decoded.length ∧
      ∀ k, (wire reply k).length < s.history.accepted.length → ∀ j ≤ k, s.standing j = some .finished) ∧
    s.outbox.pending = s.outbox.unsent.length ∧ s.pc ≠ .panicked ∧
    ∀ t, Machine.Steps (step classify) (fun _ _ _ => True) s t → Extends s t := by
  have hdel := Reachable.delivers h
  have hnum := Reachable.numbered h
  refine ⟨fun reply hreply => ?_, hdel.outbox.pending, Reachable.not_panicked h, fun t => Reachable.extends h⟩
  have hwire : s.history.accepted <+: wire reply s.history.departed.length := sent_eq_wire hreply ▸ hdel.inOrder
  have hlen := hnum.length
  refine ⟨hwire.trans (wire_mono reply (by omega)), fun k hk j hj => ?_⟩
  have hdeparted : k < s.history.departed.length := by
    by_contra hge
    have hle := (wire_mono reply (Nat.le_of_not_lt hge)).length_le
    have := hwire.length_le
    omega
  exact standing_of_lt (by omega)

end Session

/-! ### Scripts

Pieces of concrete sessions, whose events are their lanes. -/

namespace Script

/-- Nothing is ready. -/
def quiet : Poll Kind := ⟨none, fun _ => none, ⟨[], none⟩, none⟩

/-- The loop up to the `select!`, without a stop, and one poll of it. -/
def turn (p : Poll Kind) : List (Turn Kind) := [.top false false, .stop false ⟨[], none⟩, .admission, .select p]

/-- A read of commands. -/
def reads (commands : List Kind) : List (Turn Kind) := turn { quiet with read := some (.bytes 1 commands) }

/-- The request `k` finishes with `reply`. -/
def finishes (k : Nat) (reply : Option Bytes) : List (Turn Kind) :=
  turn { quiet with replies := fun j => if j = k then some reply else none }

/-- The host accepts `n` bytes. -/
def accepts (n : Nat) : List (Turn Kind) := turn { quiet with writer := ⟨[.accepted n], none⟩ }

end Script

namespace Session

/-- The second of two commands finishes first; of the three bytes the host has taken one. -/
theorem replies_in_order_of_two : ∃ s : Session Kind, Reachable id s ∧
    (s.history.accepted = [1] ∧ s.outbox = ⟨[[1, 2], [7]], 1, 2⟩) ∧ s.outbox.pending = s.outbox.unsent.length := by
  obtain ⟨s, hs, hp⟩ := Reachable.of_turns (c := id)
    (Script.reads [.ordinary, .control] ++ Script.finishes 1 (some [7]) ++ Script.finishes 0 (some [1, 2]) ++
      Script.accepts 1)
    (fun s => decide (s.history.accepted = [1] ∧ s.outbox = ⟨[[1, 2], [7]], 1, 2⟩)) rfl rfl
  exact ⟨s, hs, of_decide_eq_true hp, (replies_in_order hs).2.1⟩

end Session

end Qeminga
