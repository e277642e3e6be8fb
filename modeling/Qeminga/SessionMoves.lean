import Qeminga.Session
import Mathlib.Logic.Relation

/-!
# What a step of a session does

A step of the loop moves several commands at once.  It is cut here into effects on one command, one reply or one read:
a finished command departs from the queue, the host takes bytes, the writer is given up, a command starts, a command
finishes, a read brings commands.  `step_effects` says that a step is a sequence of effects, so that what every
effect keeps, every step keeps.
-/

namespace Qeminga

variable {ε : Type}

/-! ### Admission, one slot at a time -/

/-- What the scan of `admit` does with the slot `i` of the queue as it stands when it gets there. -/
def admitAt (queue : List (Slot ε)) (i : Nat) : List (Slot ε) :=
  match queue[i]? with
  | some (.waiting kind event) =>
    if (Lanes.of queue).free ((queue.take i).any Slot.blocksSerial) kind then queue.set i (.pending kind event) else queue
  | _ => queue

/-- A command of `kind` is running in the slot. -/
def Slot.runs (kind : Kind) : Slot ε → Bool
  | .pending k _ => k = kind
  | _ => false

@[simp] theorem Slot.runs_waiting (kind k : Kind) (e : ε) : (Slot.waiting k e).runs kind = false := rfl
@[simp] theorem Slot.runs_pending (kind k : Kind) (e : ε) : (Slot.pending k e).runs kind = decide (k = kind) := rfl
@[simp] theorem Slot.runs_done (kind : Kind) (r : Option Bytes) : (Slot.done r : Slot ε).runs kind = false := rfl

private theorem foldl_takeSlot (slots : List (Slot ε)) (lanes : Lanes) :
    slots.foldl Lanes.takeSlot lanes =
      ⟨lanes.controls + slots.countP (Slot.runs .control), lanes.freeze || slots.any (Slot.runs .freeze),
        lanes.thawOrOrdinary || (slots.any (Slot.runs .thaw) || slots.any (Slot.runs .ordinary))⟩ := by
  induction slots generalizing lanes with
  | nil => simp
  | cons slot slots ih =>
    rw [List.foldl_cons, ih]
    cases slot with
    | waiting => simp [Lanes.takeSlot]
    | done => simp [Lanes.takeSlot]
    | pending kind e =>
      cases kind <;> simp [Lanes.takeSlot, Lanes.take, Nat.add_comm, Nat.add_assoc]

/-- The lanes of a queue, by what is running in it. -/
theorem Lanes.of_eq (slots : List (Slot ε)) : Lanes.of slots =
    ⟨slots.countP (Slot.runs .control), slots.any (Slot.runs .freeze),
      slots.any (Slot.runs .thaw) || slots.any (Slot.runs .ordinary)⟩ := by
  simp [Lanes.of, foldl_takeSlot]

/-- A start takes the lane of its kind. -/
private theorem Lanes.of_start (before after : List (Slot ε)) (kind : Kind) (e : ε) :
    Lanes.of (before ++ .pending kind e :: after) = (Lanes.of (before ++ .waiting kind e :: after)).take kind := by
  rw [of_eq, of_eq]
  cases kind <;> simp [Lanes.take, Nat.add_comm, Nat.add_left_comm]

private theorem admitAt_append (before : List (Slot ε)) (slot : Slot ε) (after : List (Slot ε)) :
    admitAt (before ++ slot :: after) before.length =
      before ++ admitFrom (.of (before ++ slot :: after)) (before.any Slot.blocksSerial) 1 (slot :: after) := by
  unfold admitAt
  rw [List.getElem?_append_right (Nat.le_refl _), Nat.sub_self, List.getElem?_cons_zero]
  cases slot with
  | waiting kind e =>
    simp only [List.take_left', admitFrom]
    split <;> simp
  | pending kind e => simp [admitFrom]
  | done reply => simp [admitFrom]

/-- One slot further, the lanes and the flag are those of the queue with what the scan made of the slot. -/
private theorem admitFrom_cons (before : List (Slot ε)) (slot : Slot ε) (rest : List (Slot ε)) :
    ∃ slot', ∀ n, admitFrom (.of (before ++ slot :: rest)) (before.any Slot.blocksSerial) (n + 1) (slot :: rest) =
      slot' :: admitFrom (.of (before ++ slot' :: rest)) ((before ++ [slot']).any Slot.blocksSerial) n rest := by
  cases slot with
  | waiting kind e =>
    by_cases hfree : (Lanes.of (before ++ .waiting kind e :: rest)).free (before.any Slot.blocksSerial) kind = true
    · refine ⟨.pending kind e, fun n => ?_⟩
      simp [admitFrom, hfree, Lanes.of_start, Slot.blocksSerial]
    · refine ⟨.waiting kind e, fun n => ?_⟩
      simp [admitFrom, hfree, Slot.blocksSerial]
  | pending kind e => exact ⟨.pending kind e, fun n => by simp [admitFrom, Slot.blocksSerial]⟩
  | done reply => exact ⟨.done reply, fun n => by simp [admitFrom, Slot.blocksSerial]⟩

/-- The scan goes on from the queue it has made so far. -/
private theorem admitFrom_succ (n : Nat) (before rest : List (Slot ε)) :
    before ++ admitFrom (.of (before ++ rest)) (before.any Slot.blocksSerial) (n + 1) rest =
      admitAt (before ++ admitFrom (.of (before ++ rest)) (before.any Slot.blocksSerial) n rest) (before.length + n) := by
  induction n generalizing before rest with
  | zero =>
    cases rest with
    | nil => simp [admitFrom, admitAt]
    | cons slot rest => simp only [admitFrom, Nat.add_zero, admitAt_append]
  | succ n ih =>
    cases rest with
    | nil => simp [admitFrom, admitAt]
    | cons slot rest =>
      obtain ⟨slot', hcons⟩ := admitFrom_cons before slot rest
      have h := ih (before ++ [slot']) rest
      simp only [List.append_assoc, List.singleton_append, List.length_append, List.length_singleton] at h
      rw [hcons, hcons, h, Nat.add_assoc, Nat.add_comm 1]

@[simp] theorem admitWaiting_zero (slots : List (Slot ε)) : admitWaiting slots 0 = slots := rfl

theorem admitWaiting_succ (slots : List (Slot ε)) (n : Nat) : admitWaiting slots (n + 1) = admitAt (admitWaiting slots n) n := by
  simpa [admitWaiting] using admitFrom_succ n [] slots

theorem length_admitAt (queue : List (Slot ε)) (i : Nat) : (admitAt queue i).length = queue.length := by
  unfold admitAt
  split
  · split <;> simp
  · rfl

theorem length_admitWaiting (slots : List (Slot ε)) (n : Nat) : (admitWaiting slots n).length = slots.length := by
  induction n with
  | zero => rfl
  | succ n ih => rw [admitWaiting_succ, length_admitAt, ih]

theorem admitAt_of_ne (queue : List (Slot ε)) {i j : Nat} (h : j ≠ i) : (admitAt queue i)[j]? = queue[j]? := by
  unfold admitAt
  split
  · split
    · exact List.getElem?_set_ne (Ne.symm h)
    · rfl
  · rfl

/-- The scan does not touch a command that runs. -/
theorem admitWaiting_pending {slots : List (Slot ε)} {i : Nat} {kind : Kind} {event : ε}
    (h : slots[i]? = some (.pending kind event)) (n : Nat) : (admitWaiting slots n)[i]? = some (.pending kind event) := by
  induction n with
  | zero => exact h
  | succ n ih =>
    rw [admitWaiting_succ]
    by_cases hi : i = n
    · subst hi
      rw [admitAt, ih]
      exact ih
    · rw [admitAt_of_ne _ hi, ih]

/-- The scan has not touched the slots it has not reached. -/
theorem admitWaiting_ahead (slots : List (Slot ε)) {n i : Nat} (h : n ≤ i) : (admitWaiting slots n)[i]? = slots[i]? := by
  induction n with
  | zero => rfl
  | succ n ih => rw [admitWaiting_succ, admitAt_of_ne _ (by omega), ih (by omega)]

/-- The scan does not come back to the slots behind it. -/
theorem admitWaiting_behind (slots : List (Slot ε)) {n i : Nat} (h : i < n) : (admitWaiting slots n)[i]? = (admitWaiting slots (i + 1))[i]? := by
  induction h with
  | refl => rfl
  | step hn ih => rw [Nat.succ_eq_add_one, admitWaiting_succ, admitAt_of_ne _ (by simp at hn; omega), ih]

/-- A slot of a list, with what is before and after it. -/
theorem getElem?_split {α : Type} {l : List α} {i : Nat} {a : α} (h : l[i]? = some a) :
    l = l.take i ++ a :: l.drop (i + 1) := by
  obtain ⟨hi, rfl⟩ := List.getElem?_eq_some_iff.1 h
  rw [← List.drop_eq_getElem_cons hi, List.take_append_drop]

theorem Lanes.of_set {queue : List (Slot ε)} {i : Nat} {kind : Kind} {e : ε} (h : queue[i]? = some (.waiting kind e)) :
    Lanes.of (queue.set i (.pending kind e)) = (Lanes.of queue).take kind := by
  have hi := (List.getElem?_eq_some_iff.1 h).1
  rw [List.set_eq_take_append_cons_drop, if_pos hi, of_start, ← getElem?_split h]

/-- A lane that is free would have been free with less running. -/
theorem Lanes.free_of_take {lanes : Lanes} {sw : Bool} {kind kind' : Kind} (h : (lanes.take kind).free sw kind' = true) :
    lanes.free sw kind' = true := by
  have hcontrols : lanes.controls ≤ (lanes.take kind).controls := by cases kind <;> simp [Lanes.take]
  cases kind' with
  | control =>
    simp only [Lanes.free, decide_eq_true_eq] at h ⊢
    omega
  | thaw => cases kind <;> simp_all [Lanes.take, Lanes.free]
  | freeze => cases kind <;> simp_all [Lanes.take, Lanes.free, Lanes.exclusive]
  | ordinary => cases kind <;> simp_all [Lanes.take, Lanes.free, Lanes.exclusive]

/-- The waiting commands among the first `n` have no free lane. -/
def Refused (queue : List (Slot ε)) (n : Nat) : Prop :=
  ∀ j < n, ∀ kind e, queue[j]? = some (.waiting kind e) →
    (Lanes.of queue).free ((queue.take j).any Slot.blocksSerial) kind = false

private theorem Refused.admitAt {queue : List (Slot ε)} {n : Nat} (h : Refused queue n) :
    Refused (Qeminga.admitAt queue n) (n + 1) := by
  by_cases hstart : ∃ kind e, queue[n]? = some (.waiting kind e) ∧
      (Lanes.of queue).free ((queue.take n).any Slot.blocksSerial) kind = true
  · obtain ⟨kind, e, hslot, hfree⟩ := hstart
    have hset : Qeminga.admitAt queue n = queue.set n (.pending kind e) := by
      rw [Qeminga.admitAt, hslot]
      exact if_pos hfree
    have hn := (List.getElem?_eq_some_iff.1 hslot).1
    rw [hset]
    intro j hj kind' e' hw
    have hne : n ≠ j := by
      rintro rfl
      rw [List.getElem?_set_self hn] at hw
      cases hw
    rw [List.getElem?_set_ne hne] at hw
    rw [Lanes.of_set hslot, List.take_set_of_le (by omega)]
    exact Bool.eq_false_iff.2 fun hf => Bool.eq_false_iff.1 (h j (by omega) kind' e' hw) (Lanes.free_of_take hf)
  · have hsame : Qeminga.admitAt queue n = queue := by
      unfold Qeminga.admitAt
      split
      · next kind e hslot => exact if_neg fun hfree => hstart ⟨kind, e, hslot, hfree⟩
      · rfl
    rw [hsame]
    intro j hj kind e hw
    rcases Nat.lt_succ_iff_lt_or_eq.1 hj with hj | rfl
    · exact h j hj kind e hw
    · exact Bool.eq_false_iff.2 fun hf => hstart ⟨kind, e, hw, hf⟩

theorem admitWaiting_refused (slots : List (Slot ε)) (n : Nat) : Refused (admitWaiting slots n) n := by
  induction n with
  | zero => exact fun j hj => absurd hj (Nat.not_lt_zero j)
  | succ n ih =>
    rw [admitWaiting_succ]
    exact ih.admitAt

/-! ### Writes -/

namespace Outbox

/-- A sequence of writes that the host accepts, with its bytes. -/
inductive Accepts : Outbox → Bytes → Outbox → Prop
  | nil (o : Outbox) : Accepts o [] o
  | cons {o o' : Outbox} {front bytes : Bytes} {rest : List Bytes} {n : Nat} (h : o.replies = front :: rest) (hn : 0 < n)
      (hle : n ≤ (front.drop o.written).length) (hp : n ≤ o.pending) (hrest : Accepts (o.accept front rest n) bytes o') :
      Accepts o ((front.drop o.written).take n ++ bytes) o'

/-- An outbox on which a write panics. -/
def Broken (o : Outbox) : Prop :=
  ∃ front rest, o.replies = front :: rest ∧
    (front.length < o.written ∨ ∃ n, n ≤ (front.drop o.written).length ∧ o.pending < n)

/-- What a poll of `drain` does. -/
theorem drain_spec {flush : Option (Except Errno Unit)} {writes : List WriteAnswer} {o o' : Outbox} {bytes : Bytes}
    {d : DrainPoll} (h : o.drain flush writes = some (o', bytes, d)) : Accepts o bytes o' ∧ (d = .panicked → o'.Broken) := by
  have hflush : flushed flush ≠ .panicked := by rcases flush with - | - | - <;> rintro ⟨⟩
  induction writes generalizing o o' bytes d with
  | nil =>
    unfold drain at h
    split at h
    · cases h
      exact ⟨.nil _, fun hd => absurd hd hflush⟩
    · next front rest hfront =>
      split at h
      · next hlt =>
        cases h
        exact ⟨.nil _, fun _ => ⟨front, rest, hfront, .inl hlt⟩⟩
      · cases h
        exact ⟨.nil _, by rintro ⟨⟩⟩
  | cons ans writes ih =>
    unfold drain at h
    split at h
    case h_1 =>
      cases h
      exact ⟨.nil _, fun hd => absurd hd hflush⟩
    case h_2 front rest hfront =>
      split at h
      case isTrue hlt =>
        cases h
        exact ⟨.nil _, fun _ => ⟨front, rest, hfront, .inl hlt⟩⟩
      case isFalse hwritten =>
        cases ans with
        | failed e =>
          cases h
          exact ⟨.nil _, by rintro ⟨⟩⟩
        | accepted n =>
          simp only at h
          split at h
          case isTrue => cases h
          case isFalse hle =>
            split at h
            case isTrue =>
              cases h
              exact ⟨.nil _, by rintro ⟨⟩⟩
            case isFalse hn =>
              split at h
              case isTrue hlt =>
                cases h
                exact ⟨.nil _, fun _ => ⟨front, rest, hfront, .inr ⟨n, Nat.le_of_not_lt hle, hlt⟩⟩⟩
              case isFalse hp =>
                obtain ⟨⟨o₁, bytes₁, d₁⟩, hy, he⟩ := Option.map_eq_some_iff.1 h
                cases he
                have hrest := ih hy
                exact ⟨.cons hfront (Nat.pos_of_ne_zero hn) (Nat.le_of_not_lt hle) (Nat.le_of_not_lt hp) hrest.1, hrest.2⟩

theorem Accepts.count_le {o o' : Outbox} {bytes : Bytes} (h : Accepts o bytes o') : o'.count ≤ o.count := by
  induction h with
  | nil => exact Nat.le_refl _
  | cons hfront _ _ _ _ ih =>
    refine Nat.le_trans ih ?_
    unfold accept
    split <;> simp [count, hfront]

end Outbox

/-! ### Effects -/

namespace Session

/-- The command in the slot `i` starts. -/
def startAt (s : Session ε) (i : Nat) (kind : Kind) (event : ε) : Session ε :=
  { s with slots := s.slots.set i (.pending kind event)
           history := { s.history with
             starts := ⟨s.history.departed.length + i, s.history.departed.length, s.slots, s.outbox⟩ :: s.history.starts } }

/-- The host takes `n` bytes of the first reply. -/
def acceptBytes (s : Session ε) (front : Bytes) (rest : List Bytes) (n : Nat) : Session ε :=
  { s with outbox := s.outbox.accept front rest n
           history := { s.history with accepted := s.history.accepted ++ (front.drop s.outbox.written).take n } }

/-- The commands of a read join the queue. -/
def decode (s : Session ε) (commands : List (Kind × ε)) : Session ε :=
  { s with slots := s.slots ++ commands.map fun x => .waiting x.1 x.2
           history := { s.history with decoded := s.history.decoded ++ commands, lastRead := commands.length } }

/-- What happens to one command, one reply or one read; `control` is everything else. -/
inductive Effect (classify : ε → Kind) : Session ε → Session ε → Prop
  | control {s s' : Session ε} (hslots : s'.slots = s.slots) (houtbox : s'.outbox = s.outbox)
      (hfailed : s'.writeFailed = s.writeFailed) (hhistory : s'.history = s.history) : Effect classify s s'
  | depart {s : Session ε} {reply : Option Bytes} {slots : List (Slot ε)} (h : s.slots = .done reply :: slots) :
      Effect classify s (s.depart reply slots)
  | accept {s : Session ε} {front : Bytes} {rest : List Bytes} {n : Nat} (hw : s.writeFailed = false)
      (h : s.outbox.replies = front :: rest) (hn : 0 < n) (hle : n ≤ (front.drop s.outbox.written).length)
      (hp : n ≤ s.outbox.pending) : Effect classify s (s.acceptBytes front rest n)
  | abandon (s : Session ε) : Effect classify s { s with writeFailed := true, outbox := s.outbox.abandon }
  | start {s : Session ε} {i : Nat} {kind : Kind} {event : ε} (h : s.slots[i]? = some (.waiting kind event))
      (hfree : (Lanes.of s.slots).free ((s.slots.take i).any Slot.blocksSerial) kind = true) (hrefused : Refused s.slots i)
      (hi : i < maxQueued - s.outbox.count) (hp : s.outbox.pending < maxReplyBytes) :
      Effect classify s (s.startAt i kind event)
  | finish {s : Session ε} {i : Nat} {kind : Kind} {event : ε} (reply : Option Bytes)
      (h : s.slots[i]? = some (.pending kind event)) : Effect classify s { s with slots := s.slots.set i (.done reply) }
  | read {s : Session ε} (events : List ε) (hroom : s.slots.length + s.outbox.count < maxQueued) :
      Effect classify s (s.decode (events.map fun event => (classify event, event)))

variable {classify : ε → Kind}

/-- A sequence of effects. -/
abbrev Effects (classify : ε → Kind) : Session ε → Session ε → Prop := Relation.ReflTransGen (Effect classify)

theorem Effects.keeps {P : Session ε → Prop} (hP : ∀ s s', Effect classify s s' → P s → P s') {s s' : Session ε}
    (h : Effects classify s s') (hs : P s) : P s' := by
  induction h with
  | refl => exact hs
  | tail _ he ih => exact hP _ _ he ih

theorem Effects.control {s s' : Session ε} (hslots : s'.slots = s.slots) (houtbox : s'.outbox = s.outbox)
    (hfailed : s'.writeFailed = s.writeFailed) (hhistory : s'.history = s.history) : Effects classify s s' :=
  .single (.control hslots houtbox hfailed hhistory)

theorem collect_effects (slots : List (Slot ε)) (s : Session ε) (h : s.slots = slots) :
    Effects classify s (s.collect slots) := by
  induction slots generalizing s with
  | nil => exact .refl
  | cons slot slots ih =>
    cases slot with
    | waiting => exact .refl
    | pending => exact .refl
    | done reply => exact .head (.depart h) (ih _ rfl)

/-- What the `while` loop at the top leaves alone. -/
theorem collect_rest (slots : List (Slot ε)) (s : Session ε) : (s.collect slots).inputEnd = s.inputEnd ∧
    (s.collect slots).draining = s.draining := by
  induction slots generalizing s with
  | nil => exact ⟨rfl, rfl⟩
  | cons slot slots ih =>
    cases slot with
    | waiting => exact ⟨rfl, rfl⟩
    | pending => exact ⟨rfl, rfl⟩
    | done reply => exact ih (s.depart reply slots)

/-- What is left at the front of the queue has not finished. -/
theorem collect_front (slots : List (Slot ε)) (s : Session ε) (h : s.slots = slots) (reply : Option Bytes) :
    (s.collect slots).slots.head? ≠ some (.done reply) := by
  induction slots generalizing s with
  | nil => simp [collect, h]
  | cons slot slots ih =>
    cases slot with
    | waiting => simp [collect, h]
    | pending => simp [collect, h]
    | done r => exact ih _ rfl

theorem drain_effects {s s' : Session ε} {w : WriterAnswers} {d : DrainPoll} (hw : s.writeFailed = false)
    (h : s.drain w = some (s', d)) : Effects classify s s' := by
  obtain ⟨⟨o, bytes, d'⟩, hx, he⟩ := Option.map_eq_some_iff.1 h
  obtain ⟨rfl, -⟩ := Prod.mk.inj he
  have hacc := (Outbox.drain_spec hx).1
  clear hx h he
  -- one accepted write after the other
  generalize ho : s.outbox = o₀ at hacc
  induction hacc generalizing s with
  | nil o => exact Effects.control rfl ho.symm rfl (by simp)
  | cons hfront hn hle hp _ ih =>
    subst ho
    refine .head (.accept hw hfront hn hle hp) ?_
    simpa [acceptBytes] using ih (s := s.acceptBytes _ _ _) hw rfl

private theorem driveFrom_effects (replies : Nat → Option (Option Bytes)) (rest before : List (Slot ε)) (first : Nat)
    (s : Session ε) (h : s.slots = before ++ rest) :
    Effects classify s { s with slots := before ++ driveFrom replies first rest } := by
  induction rest generalizing before first s with
  | nil => exact Effects.control h.symm rfl rfl rfl
  | cons slot rest ih =>
    have hskip : ∀ slot', driveFrom replies first (slot :: rest) = slot' :: driveFrom replies (first + 1) rest →
        s.slots = before ++ slot' :: rest →
        Effects classify s { s with slots := before ++ driveFrom replies first (slot :: rest) } := by
      intro slot' he hs
      have := ih (before ++ [slot']) (first + 1) s (by simpa using hs)
      simpa [he] using this
    cases slot with
    | waiting kind e => exact hskip _ rfl h
    | done reply => exact hskip _ rfl h
    | pending kind e =>
      cases hr : replies first with
      | none => exact hskip (.pending kind e) (by simp [driveFrom, hr]) h
      | some reply =>
        have hget : s.slots[before.length]? = some (.pending kind e) := by simp [h]
        have hfin : Effect classify s { s with slots := s.slots.set before.length (.done reply) } := .finish reply hget
        have hrest := ih (before ++ [.done reply]) (first + 1)
          { s with slots := s.slots.set before.length (.done reply) } (by simp [h])
        simp only [List.append_assoc, List.singleton_append] at hrest
        simpa [driveFrom, hr] using Relation.ReflTransGen.head hfin hrest

theorem driveAny_effects (s : Session ε) (replies : Nat → Option (Option Bytes)) :
    Effects classify s (s.driveAny replies) :=
  driveFrom_effects replies s.slots [] _ s rfl

/-- The session when the scan of its admission has passed `n` slots. -/
private def admitTo (s : Session ε) (n : Nat) : Session ε :=
  { s with slots := admitWaiting s.slots n, history := { s.history with starts := s.startsOf n ++ s.history.starts } }

private theorem startsOf_succ (s : Session ε) (n : Nat) :
    s.startsOf (n + 1) =
      (if s.slots[n]?.any Slot.isWaiting && (admitWaiting s.slots (n + 1))[n]?.any Slot.isPending then
        [⟨s.history.departed.length + n, s.history.departed.length, admitWaiting s.slots n, s.outbox⟩] else []) ++
      s.startsOf n := by
  have hbehind : (List.range n).filter (fun i =>
        s.slots[i]?.any Slot.isWaiting && (admitWaiting s.slots (n + 1))[i]?.any Slot.isPending) =
      (List.range n).filter fun i => s.slots[i]?.any Slot.isWaiting && (admitWaiting s.slots n)[i]?.any Slot.isPending := by
    refine List.filter_congr fun i hi => ?_
    have hi := List.mem_range.1 hi
    rw [admitWaiting_behind s.slots (Nat.lt_succ_of_lt hi), admitWaiting_behind s.slots hi]
  rw [startsOf, List.range_succ, List.filter_append, hbehind, List.filter_singleton, List.reverse_append,
    List.map_append, startsOf]
  cases (s.slots[n]?.any Slot.isWaiting && (admitWaiting s.slots (n + 1))[n]?.any Slot.isPending) <;> simp

private theorem admitTo_succ (s : Session ε) (n : Nat) :
    s.admitTo (n + 1) = s.admitTo n ∨
    ∃ kind event, (s.admitTo n).slots[n]? = some (.waiting kind event) ∧
      (Lanes.of (s.admitTo n).slots).free (((s.admitTo n).slots.take n).any Slot.blocksSerial) kind = true ∧
      s.admitTo (n + 1) = (s.admitTo n).startAt n kind event := by
  have hget : (admitWaiting s.slots n)[n]? = s.slots[n]? := admitWaiting_ahead s.slots (Nat.le_refl n)
  by_cases hstart : ∃ kind event, s.slots[n]? = some (.waiting kind event) ∧
      (Lanes.of (admitWaiting s.slots n)).free (((admitWaiting s.slots n).take n).any Slot.blocksSerial) kind = true
  · obtain ⟨kind, event, hslot, hfree⟩ := hstart
    refine .inr ⟨kind, event, hget.trans hslot, hfree, ?_⟩
    have hadmit : admitWaiting s.slots (n + 1) = (admitWaiting s.slots n).set n (.pending kind event) := by
      rw [admitWaiting_succ, admitAt, hget, hslot]
      exact if_pos hfree
    have hlen : n < (admitWaiting s.slots n).length := (List.getElem?_eq_some_iff.1 (hget.trans hslot)).1
    simp [admitTo, startAt, startsOf_succ, hslot, hadmit, List.getElem?_set_self hlen, Slot.isWaiting, Slot.isPending]
  · refine .inl ?_
    have hadmit : admitWaiting s.slots (n + 1) = admitWaiting s.slots n := by
      rw [admitWaiting_succ, admitAt, hget]
      split
      · next kind event hslot => exact if_neg fun hfree => hstart ⟨kind, event, hslot, hfree⟩
      · rfl
    have hnone : (s.slots[n]?.any Slot.isWaiting && s.slots[n]?.any Slot.isPending) = false := by
      cases s.slots[n]? with
      | none => rfl
      | some slot => cases slot <;> rfl
    simp [admitTo, startsOf_succ, hadmit, hget, hnone]

/-- An admission is a sequence of starts. -/
private theorem admitTo_effects (s : Session ε) (hp : s.outbox.pending < maxReplyBytes) (n : Nat)
    (hn : n ≤ maxQueued - s.outbox.count) : Effects classify s (s.admitTo n) := by
  induction n with
  | zero => exact Effects.control rfl rfl rfl rfl
  | succ n ih =>
    rcases s.admitTo_succ n with h | ⟨kind, event, hslot, hfree, h⟩
    · rw [h]
      exact ih (Nat.le_of_succ_le hn)
    · rw [h]
      exact (ih (Nat.le_of_succ_le hn)).tail (.start hslot hfree (admitWaiting_refused s.slots n) hn hp)

theorem admits_effects (s : Session ε) : Effects classify s s.admits := by
  unfold admits
  split
  · next h =>
    simp only [Bool.and_eq_true, decide_eq_true_eq] at h
    exact s.admitTo_effects h.2 _ (Nat.le_refl _)
  · exact .refl

/-! ### Moves -/

/-- The session after a poll of the writer that did not end the `select!`, or without one. -/
def Written (s s' : Session ε) (canWrite : Bool) : Prop :=
  if canWrite then ∃ w, s.drain w = some (s', .pending) else s' = s

/-- The moves of a session, with the answers they get. -/
inductive Move (classify : ε → Kind) (s : Session ε) : Turn ε → Session ε → Prop
  | top (cancel mayStop : Bool) (hpc : s.pc = .top) : Move classify s (.top cancel mayStop) (s.top cancel mayStop)
  | cancel {w : WriterAnswers} (hpc : s.pc = .stop) (hd : s.draining = true) (hr : s.running = false)
      (hw : s.canWrite = false) : Move classify s (.stop true w) { s with pc := .ended .cancelled }
  | cancelDrain {s₁ : Session ε} {d : DrainPoll} {w : WriterAnswers} (hpc : s.pc = .stop) (hd : s.draining = true)
      (hr : s.running = false) (hw : s.canWrite = true) (h : s.drain w = some (s₁, d)) :
      Move classify s (.stop true w) { s₁ with pc := .ended .cancelled }
  | cancelPanicked {s₁ : Session ε} {w : WriterAnswers} (hpc : s.pc = .stop) (hw : s.canWrite = true)
      (h : s.drain w = some (s₁, .panicked)) : Move classify s (.stop true w) { s₁ with pc := .panicked }
  | withdraw {w : WriterAnswers} (hpc : s.pc = .stop) (hd : s.draining = true) (hr : s.running = false) :
      Move classify s (.stop false w) { s with draining := false, pc := .admission }
  | proceed {mayStop : Bool} {w : WriterAnswers} (hpc : s.pc = .stop) (hr : s.draining = true → s.running = true) :
      Move classify s (.stop mayStop w) { s with pc := .admission }
  | admission (hpc : s.pc = .admission) : Move classify s .admission s.admission
  | changed {r w c : Bool} {p : Poll ε} (ch : Changed) (hpc : s.pc = .select r w c) :
      Move classify s (.select p) (s.changed ch)
  | drive {w c : Bool} {p : Poll ε} (hpc : s.pc = .select true w c) :
      Move classify s (.select p) { s.driveAny p.replies with pc := .top }
  | panicked {r c : Bool} {s₁ : Session ε} {p : Poll ε} (hpc : s.pc = .select r true c)
      (h : s.drain p.writer = some (s₁, .panicked)) : Move classify s (.select p) { s₁ with pc := .panicked }
  | drained {r c : Bool} {s₁ : Session ε} {p : Poll ε} {res : Except IoError Unit} (hpc : s.pc = .select r true c)
      (h : s.drain p.writer = some (s₁, .ready res)) : Move classify s (.select p) (s₁.drained res)
  | read {r w : Bool} {s₁ : Session ε} {p : Poll ε} (ans : ReadAnswer ε) (hpc : s.pc = .select r w true)
      (h : s.Written s₁ w) : Move classify s (.select p) (s₁.read classify ans)
  | pend {r w c : Bool} {s₁ : Session ε} {p : Poll ε} (hpc : s.pc = .select r w c) (h : s.Written s₁ w) :
      Move classify s (.select p) s₁
  | none {p : Poll ε} (hpc : s.pc = .select false false false) :
      Move classify s (.select p) { s with inputEnd := none, pc := .ended (s.inputEnd.getD .eof) }

private theorem stop_move {s s' : Session ε} {mayStop : Bool} {w : WriterAnswers} (hpc : s.pc = .stop)
    (h : s.stop mayStop w = some s') : Move classify s (.stop mayStop w) s' := by
  unfold stop at h
  split at h
  · next hdr =>
    simp only [Bool.and_eq_true, Bool.not_eq_true'] at hdr
    split at h
    · next hmay =>
      subst hmay
      split at h
      · next hw =>
        obtain ⟨⟨s₁, d⟩, hx, rfl⟩ := Option.map_eq_some_iff.1 h
        cases d with
        | panicked => exact .cancelPanicked hpc hw hx
        | ready => exact .cancelDrain hpc hdr.1 hdr.2 hw hx
        | pending => exact .cancelDrain hpc hdr.1 hdr.2 hw hx
      · next hw =>
        obtain rfl := Option.some.inj h
        exact .cancel hpc hdr.1 hdr.2 (by simpa [canWrite] using hw)
    · next hmay =>
      obtain rfl : mayStop = false := by simpa using hmay
      obtain rfl := Option.some.inj h
      exact .withdraw hpc hdr.1 hdr.2
  · next hdr =>
    obtain rfl := Option.some.inj h
    refine .proceed hpc fun hd => ?_
    simpa [hd] using hdr

private theorem selectRead_move {s s₁ : Session ε} {r w c disabled : Bool} {p : Poll ε} (hpc : s.pc = .select r w c)
    (hw : s.Written s₁ w) (hdis : disabled = true → s₁ = s ∧ s.pc = .select false false false) :
    Move classify s (.select p) (s₁.selectRead classify c disabled p.read) := by
  unfold selectRead
  split
  · next ans _ => exact .read ans hpc hw
  · split
    · next hd =>
      obtain ⟨rfl, hpc⟩ := hdis hd
      exact .none hpc
    · exact .pend hpc hw

private theorem select_move {s s' : Session ε} {r w c : Bool} {p : Poll ε} (hpc : s.pc = .select r w c)
    (h : s.select classify r w c p = some s') : Move classify s (.select p) s' := by
  unfold select at h
  split at h
  · next ch _ _ =>
    obtain rfl := Option.some.inj h
    exact .changed ch hpc
  · split at h
    · next hr =>
      obtain rfl := Option.some.inj h
      simp only [Bool.and_eq_true] at hr
      exact .drive (by rw [hpc, hr.1])
    · split at h
      · next hw =>
        subst hw
        obtain ⟨⟨s₁, d⟩, hx, rfl⟩ := Option.map_eq_some_iff.1 h
        cases d with
        | panicked => exact .panicked hpc hx
        | ready res => exact .drained hpc hx
        | pending => exact selectRead_move hpc ⟨_, hx⟩ (fun hd => by cases hd)
      · next hw =>
        obtain rfl : w = false := by simpa using hw
        obtain rfl := Option.some.inj h
        refine selectRead_move hpc rfl fun hd => ⟨rfl, ?_⟩
        simp only [Bool.and_eq_true, Bool.not_eq_true'] at hd
        rw [hpc, hd.1.2, hd.2]

theorem step_move {s s' : Session ε} {turn : Turn ε} (h : s.step classify turn = some s') :
    Move classify s turn s' := by
  unfold step at h
  split at h
  · next hpc =>
    obtain rfl := Option.some.inj h
    exact .top _ _ hpc
  · next hpc => exact stop_move hpc h
  · next hpc =>
    obtain rfl := Option.some.inj h
    exact .admission hpc
  · next hpc => exact select_move hpc h
  · cases h

/-- Every run of a session. -/
abbrev Reachable (classify : ε → Kind) : Session ε → Prop := Machine.Reach (step classify) (fun _ _ _ => True) (· = start)

/-- A concrete run. -/
theorem Reachable.of_turns {c : ε → Kind} (turns : List (Turn ε)) (p : Session ε → Bool)
    (hp : Machine.permitted (step c) (fun _ _ _ => true) start turns = true)
    (h : (Machine.execute (step c) start turns).any p = true) : ∃ s, Reachable c s ∧ p s = true :=
  Machine.Reach.of_execute _ (fun _ _ _ _ => trivial) turns p rfl hp h

/-! ### What the conditions of the `select!` branches say while it waits -/

/-- The conditions were true when the `select!` began and are still. -/
structure Flags (s : Session ε) : Prop where
  running : ∀ {r w c}, s.pc = .select r w c → r = s.running
  writing : ∀ {r c}, s.pc = .select r true c → s.writeFailed = false
  reading : ∀ {r w}, s.pc = .select r w true → s.slots.length + s.outbox.count < maxQueued ∧ s.inputEnd = none ∧
    s.draining = false

/-- What a poll of the writer leaves alone. -/
theorem drain_rest {s s' : Session ε} {w : WriterAnswers} {d : DrainPoll} (h : s.drain w = some (s', d)) :
    ∃ o bytes, s' = { s with outbox := o, history := { s.history with accepted := s.history.accepted ++ bytes } } ∧
      Outbox.Accepts s.outbox bytes o ∧ (d = .panicked → o.Broken) := by
  obtain ⟨⟨o, bytes, d'⟩, hx, he⟩ := Option.map_eq_some_iff.1 h
  obtain ⟨rfl, rfl⟩ := Prod.mk.inj he
  exact ⟨o, bytes, rfl, Outbox.drain_spec hx⟩

theorem Written.rest {s s' : Session ε} {w : Bool} (h : s.Written s' w) :
    ∃ o bytes, s' = { s with outbox := o, history := { s.history with accepted := s.history.accepted ++ bytes } } ∧
      Outbox.Accepts s.outbox bytes o := by
  unfold Written at h
  split at h
  · obtain ⟨w, hw⟩ := h
    obtain ⟨o, bytes, rfl, hacc, -⟩ := drain_rest hw
    exact ⟨o, bytes, rfl, hacc⟩
  · exact ⟨s.outbox, [], by simp [h], .nil _⟩

theorem Written.flags {s s' : Session ε} {w : Bool} (h : s.Written s' w) (hf : Flags s) : Flags s' := by
  obtain ⟨o, bytes, rfl, hacc⟩ := h.rest
  refine ⟨hf.running, hf.writing, fun hpc => ?_⟩
  obtain ⟨hroom, hopen⟩ := hf.reading hpc
  exact ⟨Nat.lt_of_le_of_lt (Nat.add_le_add_left hacc.count_le _) hroom, hopen⟩

private theorem Flags.of_pc {s : Session ε} (h : ∀ r w c, s.pc ≠ .select r w c) : Flags s :=
  ⟨fun hpc => absurd hpc (h _ _ _), fun hpc => absurd hpc (h _ _ _), fun hpc => absurd hpc (h _ _ _)⟩

/-- The session ends at its admission, or goes on to the `select!`. -/
theorem admission_cases (s : Session ε) :
    (∃ reason, s.admits.finished = true ∧ s.admits.inputEnd = some reason ∧
      s.admission = { s.admits with inputEnd := none, pc := .ended reason }) ∨
    ((s.admits.finished = true → s.admits.inputEnd = none) ∧
      s.admission = { s.admits with pc := .select s.admits.running s.admits.canWrite s.admits.canRead }) := by
  unfold admission
  simp only
  cases hfin : s.admits.finished with
  | false => exact .inr ⟨by rintro ⟨⟩, rfl⟩
  | true =>
    cases hend : s.admits.inputEnd with
    | none => exact .inr ⟨fun _ => rfl, rfl⟩
    | some reason => exact .inl ⟨reason, rfl, rfl, rfl⟩

private theorem admission_flags (s : Session ε) : Flags s.admission := by
  rcases s.admission_cases with ⟨reason, -, -, h⟩ | ⟨-, h⟩
  · rw [h]
    exact .of_pc (by rintro r w c ⟨⟩)
  · rw [h]
    refine ⟨fun hpc => ?_, fun hpc => ?_, fun hpc => ?_⟩
    · exact (SessionPc.select.inj hpc).1.symm
    · have hw := (SessionPc.select.inj hpc).2.1
      simp only [canWrite, Bool.and_eq_true, Bool.not_eq_true'] at hw
      exact hw.2
    · have hc := (SessionPc.select.inj hpc).2.2
      simp only [canRead, Bool.and_eq_true, Bool.not_eq_true', Option.isNone_iff_eq_none, decide_eq_true_eq] at hc
      exact ⟨hc.1.2, hc.1.1⟩

theorem drained_pc (s : Session ε) (res : Except IoError Unit) : (s.drained res).pc = .top := by
  cases res <;> rfl

theorem read_pc (s : Session ε) (ans : ReadAnswer ε) : (s.read classify ans).pc = .top := by
  cases ans <;> rfl

theorem Move.flags {s s' : Session ε} {turn : Turn ε} (h : Move classify s turn s') (hf : Flags s) : Flags s' := by
  cases h with
  | admission => exact admission_flags s
  | pend hpc h => exact h.flags hf
  | drained =>
    refine .of_pc fun r w c hpc => ?_
    rw [drained_pc] at hpc
    cases hpc
  | read =>
    refine .of_pc fun r w c hpc => ?_
    rw [read_pc] at hpc
    cases hpc
  | _ => exact .of_pc (by rintro r w c ⟨⟩)

theorem Reachable.flags {s : Session ε} (h : Reachable classify s) : Flags s := by
  refine h.invariant (fun s hs => ?_) fun s turn s' _ hf hs _ => (step_move hs).flags hf
  subst hs
  exact .of_pc (by rintro r w c ⟨⟩)

/-! ### A step is a sequence of effects -/

theorem Written.effects {s s' : Session ε} {w : Bool} (h : s.Written s' w) (hw : w = true → s.writeFailed = false) :
    Effects classify s s' := by
  unfold Written at h
  split at h
  · next hw' =>
    obtain ⟨w, h⟩ := h
    exact drain_effects (hw hw') h
  · exact h ▸ .refl

private theorem read_effects {s : Session ε} (ans : ReadAnswer ε) (hroom : s.slots.length + s.outbox.count < maxQueued) :
    Effects classify s (s.read classify ans) := by
  cases ans with
  | eof => exact Effects.control rfl rfl rfl rfl
  | failed e => exact Effects.control rfl rfl rfl rfl
  | bytes n events => exact .head (.read events hroom) (Effects.control rfl rfl rfl rfl)

private theorem drained_effects (s : Session ε) (res : Except IoError Unit) : Effects classify s (s.drained res) := by
  cases res with
  | ok => exact Effects.control rfl rfl rfl rfl
  | error e => exact .head (.abandon s) (Effects.control rfl rfl rfl rfl)

private theorem admission_effects (s : Session ε) : Effects classify s s.admission := by
  refine s.admits_effects.trans ?_
  rcases s.admission_cases with ⟨reason, -, -, h⟩ | ⟨-, h⟩
  · exact h ▸ Effects.control rfl rfl rfl rfl
  · exact h ▸ Effects.control rfl rfl rfl rfl

theorem Move.effects {s s' : Session ε} {turn : Turn ε} (h : Move classify s turn s') (hf : Flags s) :
    Effects classify s s' := by
  cases h with
  | top => exact (collect_effects s.slots s rfl).trans (Effects.control rfl rfl rfl rfl)
  | admission => exact admission_effects s
  | drive => exact (s.driveAny_effects _).trans (Effects.control rfl rfl rfl rfl)
  | cancelDrain hpc hd hr hw h =>
    simp only [canWrite, Bool.and_eq_true, Bool.not_eq_true'] at hw
    exact (drain_effects hw.2 h).trans (Effects.control rfl rfl rfl rfl)
  | cancelPanicked hpc hw h =>
    simp only [canWrite, Bool.and_eq_true, Bool.not_eq_true'] at hw
    exact (drain_effects hw.2 h).trans (Effects.control rfl rfl rfl rfl)
  | panicked hpc h => exact (drain_effects (hf.writing hpc) h).trans (Effects.control rfl rfl rfl rfl)
  | drained hpc h => exact (drain_effects (hf.writing hpc) h).trans (drained_effects _ _)
  | read ans hpc h =>
    refine (h.effects fun hw => hf.writing (hw ▸ hpc)).trans (read_effects ans ?_)
    obtain ⟨o, bytes, rfl, -⟩ := h.rest
    exact ((h.flags hf).reading hpc).1
  | pend hpc h => exact h.effects fun hw => hf.writing (hw ▸ hpc)
  | _ => exact Effects.control rfl rfl rfl rfl

/-- What every effect keeps holds in every state of a session. -/
theorem Reachable.keeps {P : Session ε → Prop} (hstart : P start) (hP : ∀ s s', Effect classify s s' → P s → P s')
    {s : Session ε} (h : Reachable classify s) : P s := by
  refine h.invariant (fun s hs => hs ▸ hstart) fun s turn s' hr hs hst _ => ?_
  exact ((step_move hst).effects (Reachable.flags hr)).keeps hP hs

end Session

end Qeminga
