import Qeminga.SessionMoves

/-!
# Requests and where they stand

Requests are numbered in the order of decoding; those whose replies have departed are finished, and the slots hold the
following ones.  The log of starts names exactly the requests that are running or finished.
-/

namespace Qeminga

variable {ε : Type}

/-- Where a request stands. -/
inductive Standing
  | waiting | running | finished
  deriving DecidableEq, Repr

namespace Slot

def standing : Slot ε → Standing
  | .waiting _ _ => .waiting
  | .pending _ _ => .running
  | .done _ => .finished

/-- The command of a slot that has not finished. -/
def command : Slot ε → Option (Kind × ε)
  | .waiting kind event => some (kind, event)
  | .pending kind event => some (kind, event)
  | .done _ => none

/-- The reply of a slot that has finished. -/
def outcome : Slot ε → Option (Option Bytes)
  | .done reply => some reply
  | _ => none

end Slot

/-- Where the request `k` stands when `departed` requests have left the queue. -/
def standing (departed : Nat) (queue : List (Slot ε)) (k : Nat) : Option Standing :=
  if k < departed then some .finished else queue[k - departed]?.map Slot.standing

/-- Where the request `k` stands at the start `st`. -/
def Start.standing (st : Start ε) (k : Nat) : Option Standing := Qeminga.standing st.departed st.queue k

@[simp] theorem standing_of_lt {departed : Nat} {queue : List (Slot ε)} {k : Nat} (h : k < departed) :
    standing departed queue k = some .finished := if_pos h

@[simp] theorem standing_add (departed : Nat) (queue : List (Slot ε)) (i : Nat) :
    standing departed queue (departed + i) = queue[i]?.map Slot.standing := by
  rw [standing, if_neg (by omega), Nat.add_sub_cancel_left]

/-- A request departed or is in a slot. -/
theorem standing_cases {departed : Nat} {queue : List (Slot ε)} {k : Nat} {st : Standing}
    (h : standing departed queue k = some st) :
    (k < departed ∧ st = .finished) ∨ ∃ i slot, k = departed + i ∧ queue[i]? = some slot ∧ slot.standing = st := by
  unfold standing at h
  split at h
  · next hk => exact .inl ⟨hk, (Option.some.inj h).symm⟩
  · next hk =>
    obtain ⟨slot, hslot, hst⟩ := Option.map_eq_some_iff.1 h
    exact .inr ⟨k - departed, slot, by omega, hslot, hst⟩

/-- A slot that changes changes where its request stands, and no other request. -/
theorem standing_set {departed : Nat} {queue : List (Slot ε)} {i : Nat} {slot : Slot ε} (hi : i < queue.length) (k : Nat) :
    standing departed (queue.set i slot) k = if k = departed + i then some slot.standing else standing departed queue k := by
  unfold standing
  split
  · next h => rw [if_neg (by omega)]
  · next h =>
    split
    · next he =>
      subst he
      simp [hi]
    · next he => rw [List.getElem?_set_ne (by omega)]

/-- A finished command at the front stands where it stood when it departs. -/
theorem standing_depart {departed : Nat} {queue : List (Slot ε)} {reply : Option Bytes} (k : Nat) :
    standing (departed + 1) queue k = standing departed (.done reply :: queue) k := by
  rcases Nat.lt_trichotomy k departed with h | rfl | h
  · rw [standing_of_lt h, standing_of_lt (by omega)]
  · rw [standing_of_lt (by omega)]
    simp [standing, Slot.standing]
  · obtain ⟨i, rfl⟩ := Nat.exists_eq_add_of_lt h
    rw [Nat.add_assoc, Nat.add_comm i, standing_add, ← Nat.add_assoc, standing_add]
    simp [Nat.add_comm]

/-- Commands that join the queue have not started. -/
theorem standing_append {departed : Nat} {queue new : List (Slot ε)} (hnew : ∀ slot ∈ new, slot.standing = .waiting)
    {k : Nat} {st : Standing} (hst : st ≠ .waiting) :
    standing departed (queue ++ new) k = some st ↔ standing departed queue k = some st := by
  unfold standing
  split
  · rfl
  · rcases Nat.lt_or_ge (k - departed) queue.length with h | h
    · rw [List.getElem?_append_left h]
    · rw [List.getElem?_append_right h, List.getElem?_eq_none h]
      constructor
      · intro he
        obtain ⟨slot, hslot, rfl⟩ := Option.map_eq_some_iff.1 he
        exact absurd (hnew slot (List.mem_of_getElem? hslot)) hst
      · rintro ⟨⟩

namespace Session

variable {classify : ε → Kind}

/-- The lane of the request `k`. -/
def kindOf (s : Session ε) (k : Nat) : Option Kind := s.history.decoded[k]?.map Prod.fst

def standing (s : Session ε) (k : Nat) : Option Standing := Qeminga.standing s.history.departed.length s.slots k

/-- The request `k` has started, and perhaps finished. -/
def HasStarted (s : Session ε) (k : Nat) : Prop := s.standing k = some .running ∨ s.standing k = some .finished

/-- The requests of the queue follow those that departed. -/
structure Numbered (s : Session ε) : Prop where
  length : s.history.departed.length + s.slots.length = s.history.decoded.length
  command : ∀ {i slot cmd}, s.slots[i]? = some slot → slot.command = some cmd →
    s.history.decoded[s.history.departed.length + i]? = some cmd
  logged : ∀ k, (∃ st ∈ s.history.starts, st.request = k) ↔ s.HasStarted k

private theorem hasStarted_congr {s s' : Session ε} {k : Nat} (h : s'.standing k = s.standing k) :
    s'.HasStarted k ↔ s.HasStarted k := by
  rw [HasStarted, HasStarted, h]

/-- A running or finished slot in place of a running one. -/
private theorem hasStarted_set {s : Session ε} {i : Nat} {slot : Slot ε} (hi : i < s.slots.length)
    (hslot : slot.standing ≠ .waiting) (k : Nat) :
    { s with slots := s.slots.set i slot }.HasStarted k ↔ k = s.history.departed.length + i ∨ s.HasStarted k := by
  simp only [HasStarted, Session.standing, standing_set hi k]
  by_cases hk : k = s.history.departed.length + i
  · have : slot.standing = .running ∨ slot.standing = .finished := by
      cases h : slot.standing with
      | waiting => exact absurd h hslot
      | running => exact .inl rfl
      | finished => exact .inr rfl
    simpa [hk] using this
  · simp [hk]

private theorem numbered_depart {s : Session ε} {reply : Option Bytes} {slots : List (Slot ε)}
    (h : s.slots = .done reply :: slots) (hs : Numbered s) : Numbered (s.depart reply slots) := by
  refine ⟨?_, fun {i slot cmd} hslot hcmd => ?_, fun k => ?_⟩
  · have := hs.length
    simp only [h, List.length_cons] at this
    simp only [depart, List.length_append, List.length_singleton]
    omega
  · have hslot' : s.slots[i + 1]? = some slot := by simpa [h, depart] using hslot
    have hcmd := hs.command hslot' hcmd
    simpa [depart, Nat.add_assoc, Nat.add_comm 1] using hcmd
  · refine (hs.logged k).trans (hasStarted_congr ?_).symm
    simp only [Session.standing, depart, List.length_append, List.length_singleton, h]
    exact standing_depart k

private theorem numbered_start {s : Session ε} {i : Nat} {kind : Kind} {event : ε}
    (h : s.slots[i]? = some (.waiting kind event)) (hs : Numbered s) : Numbered (s.startAt i kind event) := by
  have hi : i < s.slots.length := (List.getElem?_eq_some_iff.1 h).1
  refine ⟨by simpa [startAt] using hs.length, fun {j slot cmd} hslot hcmd => ?_, fun k => ?_⟩
  · by_cases hj : j = i
    · subst hj
      simp only [startAt, List.getElem?_set_self hi, Option.some.injEq] at hslot
      subst hslot
      exact hs.command h hcmd
    · simp only [startAt, List.getElem?_set_ne (Ne.symm hj)] at hslot
      exact hs.command hslot hcmd
  · refine Iff.trans ?_ (hasStarted_set hi (by simp [Slot.standing]) k).symm
    rw [← hs.logged k]
    simp [startAt, eq_comm]

private theorem numbered_finish {s : Session ε} {i : Nat} {kind : Kind} {event : ε} (reply : Option Bytes)
    (h : s.slots[i]? = some (.pending kind event)) (hs : Numbered s) :
    Numbered { s with slots := s.slots.set i (.done reply) } := by
  have hi : i < s.slots.length := (List.getElem?_eq_some_iff.1 h).1
  refine ⟨by simpa using hs.length, fun {j slot cmd} hslot hcmd => ?_, fun k => ?_⟩
  · by_cases hj : j = i
    · subst hj
      simp only [List.getElem?_set_self hi, Option.some.injEq] at hslot
      subst hslot
      cases hcmd
    · simp only [List.getElem?_set_ne (Ne.symm hj)] at hslot
      exact hs.command hslot hcmd
  · refine (hs.logged k).trans (Iff.trans ?_ (hasStarted_set hi (by simp [Slot.standing]) k).symm)
    refine (or_iff_right_of_imp ?_).symm
    rintro rfl
    exact .inl (by simp [Session.standing, h, Slot.standing])

private theorem numbered_read {s : Session ε} (commands : List (Kind × ε)) (hs : Numbered s) :
    Numbered (s.decode commands) := by
  refine ⟨?_, fun {i slot cmd} hslot hcmd => ?_, fun k => ?_⟩
  · have := hs.length
    simp only [decode, List.length_append, List.length_map]
    omega
  · have hlen := hs.length
    simp only [decode] at hslot ⊢
    rcases Nat.lt_or_ge i s.slots.length with hi | hi
    · rw [List.getElem?_append_left hi] at hslot
      rw [List.getElem?_append_left (by omega)]
      exact hs.command hslot hcmd
    · rw [List.getElem?_append_right hi, List.getElem?_map] at hslot
      obtain ⟨c, hc, rfl⟩ := Option.map_eq_some_iff.1 hslot
      obtain rfl := Option.some.inj hcmd
      rw [List.getElem?_append_right (by omega), ← hc]
      congr 1
      omega
  · refine (hs.logged k).trans ?_
    have hnew : ∀ slot ∈ commands.map fun x => Slot.waiting x.1 x.2, slot.standing = .waiting := by
      intro slot hslot
      obtain ⟨c, -, rfl⟩ := List.mem_map.1 hslot
      rfl
    simp only [HasStarted, Session.standing, decode]
    exact or_congr (standing_append hnew (by decide)).symm (standing_append hnew (by decide)).symm

theorem Effect.numbered {s s' : Session ε} (h : Effect classify s s') (hs : Numbered s) : Numbered s' := by
  cases h with
  | control hslots houtbox hfailed hhistory =>
    refine ⟨?_, ?_, ?_⟩
    · rw [hslots, hhistory]
      exact hs.length
    · rw [hslots, hhistory]
      exact hs.command
    · intro k
      have hst : s'.standing k = s.standing k := by rw [Session.standing, hslots, hhistory, Session.standing]
      rw [hhistory, hasStarted_congr hst]
      exact hs.logged k
  | depart h => exact numbered_depart h hs
  | accept => exact ⟨hs.length, hs.command, hs.logged⟩
  | abandon => exact ⟨hs.length, hs.command, hs.logged⟩
  | start h => exact numbered_start h hs
  | finish reply h => exact numbered_finish reply h hs
  | read events => exact numbered_read _ hs

theorem start_numbered : Numbered (start : Session ε) := by
  refine ⟨rfl, by rintro i slot cmd ⟨⟩, fun k => ?_⟩
  simp [start, HasStarted, Session.standing, Qeminga.standing]

theorem Reachable.numbered {s : Session ε} (h : Reachable classify s) : Numbered s :=
  Reachable.keeps start_numbered (fun _ _ => Effect.numbered) h

end Session

end Qeminga
