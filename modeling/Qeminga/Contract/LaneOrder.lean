import Qeminga.Contract.Delivery

/-!
# Lane exclusion and the order of side effects

What may run together, and in which order the commands start.  Everything follows from what `admit` knows when it
starts a command: the lane is free in the queue as it stands at that moment, and every command the scan has passed
over has no free lane.
-/

namespace Qeminga

variable {ε : Type}

/-! ### What a start knows -/

namespace Start

/-- The start found the command waiting in the slot `i`, with a free lane, and no free lane for a command before it. -/
def Fair (st : Start ε) (i : Nat) (kind : Kind) (event : ε) : Prop :=
  st.request = st.departed + i ∧ st.queue[i]? = some (.waiting kind event) ∧
    (Lanes.of st.queue).free ((st.queue.take i).any Slot.blocksSerial) kind = true ∧ Refused st.queue i

/-- The request `k` has started when the start happens. -/
def HasStarted (st : Start ε) (k : Nat) : Prop := st.standing k = some .running ∨ st.standing k = some .finished

/-- The commands of the queue are those that were decoded. -/
def Agrees (st : Start ε) (decoded : List (Kind × ε)) : Prop :=
  ∀ (i : Nat) slot cmd, st.queue[i]? = some slot → slot.command = some cmd → decoded[st.departed + i]? = some cmd

end Start

private theorem not_runs {slots : List (Slot ε)} {kind : Kind} (h : slots.any (Slot.runs kind) = false) {i : Nat} {e : ε} :
    slots[i]? ≠ some (.pending kind e) := by
  intro hi
  have := List.any_eq_false.1 h _ (List.mem_of_getElem? hi)
  simp at this

/-- Nothing exclusive runs when a serial command starts, and none waits before it for the serial lane. -/
private theorem serial_start {st : Start ε} {i : Nat} {kind : Kind} {event : ε} (h : st.Fair i kind event)
    (hk : kind.isSerial = true) :
    (Lanes.of st.queue).exclusive = false ∧ (st.queue.take i).any Slot.blocksSerial = false := by
  have hfree := h.2.2.1
  cases kind with
  | control => cases hk
  | thaw => cases hk
  | freeze => simpa [Lanes.free] using hfree
  | ordinary => simpa [Lanes.free] using hfree

private theorem mem_take {queue : List (Slot ε)} {i j : Nat} {slot : Slot ε} (hj : j < i) (h : queue[j]? = some slot) :
    slot ∈ queue.take i := by
  refine List.mem_of_getElem? (i := j) ?_
  rw [List.getElem?_take_of_lt hj, h]

private theorem waiting_before {queue : List (Slot ε)} {i j : Nat} {kind : Kind} {e : ε}
    (h : (queue.take i).any Slot.blocksSerial = false) (hj : j < i) (hw : queue[j]? = some (.waiting kind e)) :
    kind = .control := by
  simpa [Slot.blocksSerial] using List.any_eq_false.1 h _ (mem_take hj hw)

/-- The first command before the slot `i` that waits for the serial lane. -/
private theorem first_blocking {queue : List (Slot ε)} {i : Nat} (h : (queue.take i).any Slot.blocksSerial = true) :
    ∃ j < i, ∃ kind e, queue[j]? = some (.waiting kind e) ∧ kind ≠ .control ∧
      (queue.take j).any Slot.blocksSerial = false := by
  induction i with
  | zero => simp at h
  | succ i ih =>
    by_cases hi : (queue.take i).any Slot.blocksSerial = true
    · obtain ⟨j, hj, hrest⟩ := ih hi
      exact ⟨j, by omega, hrest⟩
    · rw [List.take_add_one, List.any_append] at h
      simp only [Bool.not_eq_true] at hi
      simp only [hi, Bool.false_or] at h
      cases hslot : queue[i]? with
      | none => simp [hslot] at h
      | some slot =>
        cases slot with
        | waiting kind e => exact ⟨i, by omega, kind, e, hslot, by simpa [hslot, Slot.blocksSerial] using h, hi⟩
        | pending => simp [hslot, Slot.blocksSerial] at h
        | done => simp [hslot, Slot.blocksSerial] at h

/-- Where a thaw starts before a waiting command that is no control, that is not a thaw and a freeze is running. -/
private theorem thaw_overtakes {st : Start ε} {i j : Nat} {event : ε} (h : st.Fair i .thaw event) (hj : j < i) {kind : Kind}
    {e : ε} (hw : st.queue[j]? = some (.waiting kind e)) :
    kind ≠ .thaw ∧ (kind ≠ .control → st.queue.any (Slot.runs .freeze) = true) := by
  have hfree : (Lanes.of st.queue).thawOrOrdinary = false := by simpa [Lanes.free] using h.2.2.1
  have hthaw : ∀ k < i, ∀ e, st.queue[k]? ≠ some (.waiting .thaw e) := by
    intro k hk e hk'
    have := h.2.2.2 k hk _ e hk'
    simp [Lanes.free, hfree] at this
  refine ⟨?_, fun hc => ?_⟩
  · rintro rfl
    exact hthaw j hj e hw
  · -- the first of the waiting commands is held back by what is running, not by another one
    have hblocks : (st.queue.take i).any Slot.blocksSerial = true := by
      rw [List.any_eq_true]
      exact ⟨_, mem_take hj hw, by simpa [Slot.blocksSerial] using hc⟩
    obtain ⟨k, hk, kind', e', hslot, hc', hfirst⟩ := first_blocking hblocks
    have hrefused := h.2.2.2 k hk kind' e' hslot
    have hfr : (Lanes.of st.queue).freeze = true := by
      cases kind' with
      | control => exact absurd rfl hc'
      | thaw => exact absurd hslot (hthaw k hk e')
      | freeze => simpa [Lanes.free, Lanes.exclusive, hfree, hfirst] using hrefused
      | ordinary => simpa [Lanes.free, Lanes.exclusive, hfree, hfirst] using hrefused
    rwa [Lanes.of_eq] at hfr

/-! ### What the contract says of a start -/

/-- The start `st` of a command of `kind` is in turn, where `kindOf` gives the lanes of the requests. -/
structure InTurn (kindOf : Nat → Option Kind) (st : Start ε) (kind : Kind) : Prop where
  serial : kind.isSerial = true → ∀ j < st.request, ∀ k, kindOf j = some k →
    (k.isSerial = true → st.standing j ≠ some .waiting) ∧ (k = .thaw → st.standing j = some .finished)
  thaw : kind = .thaw → ∀ j < st.request, kindOf j = some .thaw → st.standing j ≠ some .waiting
  overtakes : kind = .thaw →
    (∃ j < st.request, ∃ k, kindOf j = some k ∧ k.isSerial = true ∧ st.standing j = some .waiting) →
    ∃ j, kindOf j = some .freeze ∧ st.standing j = some .running

namespace Session

variable {classify : ε → Kind}

/-- How many commands of `kind` are running. -/
def runningOf (s : Session ε) (kind : Kind) : Nat := s.slots.countP (Slot.runs kind)

/-- At most three controls, and beside them at most one freeze and at most one thaw or ordinary command, the latter
without a freeze. -/
structure Exclusive (s : Session ε) : Prop where
  controls : s.runningOf .control ≤ maxControls
  freeze : s.runningOf .freeze ≤ 1
  other : s.runningOf .thaw + s.runningOf .ordinary ≤ 1
  alone : 0 < s.runningOf .freeze → s.runningOf .ordinary = 0

/-- The log of starts: each was fair, named commands that were decoded, and knew what had started before it. -/
structure Log (s : Session ε) : Prop where
  fair : ∀ st ∈ s.history.starts, ∃ i kind event, st.Fair i kind event
  agrees : ∀ st ∈ s.history.starts, st.Agrees s.history.decoded
  past : ∀ st ∈ s.history.starts, ∀ k, st.HasStarted k → s.HasStarted k
  later : s.history.starts.Pairwise fun st older =>
    (∀ k, older.HasStarted k → st.HasStarted k) ∧ st.HasStarted older.request

/-! ### Exclusion -/

private theorem countP_set' {p : Slot ε → Bool} {slots : List (Slot ε)} {i : Nat} {old : Slot ε} (new : Slot ε)
    (h : slots[i]? = some old) :
    (slots.set i new).countP p + (if p old then 1 else 0) = slots.countP p + if p new then 1 else 0 := by
  have hi := (List.getElem?_eq_some_iff.1 h).1
  rw [List.set_eq_take_append_cons_drop, if_pos hi]
  conv_rhs => rw [getElem?_split h]
  simp only [List.countP_append, List.countP_cons]
  omega

private theorem exclusive_congr {s s' : Session ε} (h : ∀ kind, s'.runningOf kind = s.runningOf kind) (hs : Exclusive s) :
    Exclusive s' := by
  refine ⟨?_, ?_, ?_, ?_⟩
  · exact h .control ▸ hs.controls
  · exact h .freeze ▸ hs.freeze
  · exact h .thaw ▸ h .ordinary ▸ hs.other
  · exact h .freeze ▸ h .ordinary ▸ hs.alone

private theorem any_runs {s : Session ε} {kind : Kind} : s.slots.any (Slot.runs kind) = false ↔ s.runningOf kind = 0 := by
  rw [runningOf, List.countP_eq_zero, List.any_eq_false]

private theorem exclusive_start {s : Session ε} {i : Nat} {kind : Kind} {event : ε}
    (h : s.slots[i]? = some (.waiting kind event))
    (hfree : (Lanes.of s.slots).free ((s.slots.take i).any Slot.blocksSerial) kind = true) (hs : Exclusive s) :
    Exclusive (s.startAt i kind event) := by
  have hcount : ∀ k, (s.startAt i kind event).runningOf k = s.runningOf k + if kind = k then 1 else 0 := by
    intro k
    simpa [runningOf, startAt] using countP_set' (p := Slot.runs k) (.pending kind event) h
  obtain ⟨h₁, h₂, h₃, h₄⟩ := hs
  rw [Lanes.of_eq] at hfree
  cases kind with
  | control =>
    simp only [Lanes.free, decide_eq_true_eq] at hfree
    have : s.runningOf .control < maxControls := hfree
    refine ⟨?_, ?_, ?_, ?_⟩ <;> simp only [hcount, reduceCtorEq, if_true, if_false] <;> omega
  | thaw =>
    simp only [Lanes.free, Bool.not_eq_true', Bool.or_eq_false_iff, any_runs] at hfree
    refine ⟨?_, ?_, ?_, ?_⟩ <;> simp only [hcount, reduceCtorEq, if_true, if_false] <;> omega
  | freeze =>
    simp only [Lanes.free, Lanes.exclusive, Bool.and_eq_true, Bool.not_eq_true', Bool.or_eq_false_iff, any_runs] at hfree
    refine ⟨?_, ?_, ?_, ?_⟩ <;> simp only [hcount, reduceCtorEq, if_true, if_false] <;> omega
  | ordinary =>
    simp only [Lanes.free, Lanes.exclusive, Bool.and_eq_true, Bool.not_eq_true', Bool.or_eq_false_iff, any_runs] at hfree
    refine ⟨?_, ?_, ?_, ?_⟩ <;> simp only [hcount, reduceCtorEq, if_true, if_false] <;> omega

private theorem exclusive_finish {s : Session ε} {i : Nat} {kind : Kind} {event : ε} (reply : Option Bytes)
    (h : s.slots[i]? = some (.pending kind event)) (hs : Exclusive s) :
    Exclusive { s with slots := s.slots.set i (.done reply) } := by
  have hcount : ∀ k, { s with slots := s.slots.set i (.done reply) }.runningOf k ≤ s.runningOf k := by
    intro k
    have := countP_set' (p := Slot.runs k) (.done reply) h
    simp only [Slot.runs_done, Bool.false_eq_true, if_false] at this
    simp only [runningOf]
    omega
  have h₁ := hcount .control
  have h₂ := hcount .freeze
  have h₃ := hcount .thaw
  have h₄ := hcount .ordinary
  obtain ⟨g₁, g₂, g₃, g₄⟩ := hs
  refine ⟨?_, ?_, ?_, ?_⟩ <;> omega

theorem Effect.exclusive {s s' : Session ε} (h : Effect classify s s') (hs : Exclusive s) : Exclusive s' := by
  cases h with
  | control hslots => exact exclusive_congr (fun kind => by rw [runningOf, hslots, runningOf]) hs
  | depart h => exact exclusive_congr (fun kind => by simp [runningOf, Session.depart, h]) hs
  | accept => exact ⟨hs.controls, hs.freeze, hs.other, hs.alone⟩
  | abandon => exact ⟨hs.controls, hs.freeze, hs.other, hs.alone⟩
  | start h hfree => exact exclusive_start h hfree hs
  | finish reply h => exact exclusive_finish reply h hs
  | read events =>
    refine exclusive_congr (fun kind => ?_) hs
    have hnew : ((events.map fun event => (classify event, event)).map fun x => Slot.waiting x.1 x.2).countP
        (Slot.runs kind) = 0 := by
      simp [List.countP_eq_zero]
    simp only [runningOf, decode, List.countP_append, hnew, Nat.add_zero]

/-! ### The log of starts -/

private theorem hasStarted_mono {s s' : Session ε} (hs : Numbered s) (hs' : Numbered s')
    (h : ∀ st ∈ s.history.starts, st ∈ s'.history.starts) {k : Nat} (hk : s.HasStarted k) : s'.HasStarted k := by
  obtain ⟨st, hst, he⟩ := (hs.logged k).2 hk
  exact (hs'.logged k).1 ⟨st, h st hst, he⟩

private theorem log_start {s : Session ε} {i : Nat} {kind : Kind} {event : ε} (h : s.slots[i]? = some (.waiting kind event))
    (hfree : (Lanes.of s.slots).free ((s.slots.take i).any Slot.blocksSerial) kind = true) (hrefused : Refused s.slots i)
    (hn : Numbered s) (hn' : Numbered (s.startAt i kind event)) (hs : Log s) : Log (s.startAt i kind event) := by
  have hmono : ∀ k, s.HasStarted k → (s.startAt i kind event).HasStarted k := fun k =>
    hasStarted_mono hn hn' fun st hst => List.mem_cons_of_mem _ hst
  refine ⟨?_, ?_, ?_, ?_⟩
  · intro st hst
    rcases List.mem_cons.1 hst with rfl | hst
    · exact ⟨i, kind, event, rfl, h, hfree, hrefused⟩
    · exact hs.fair st hst
  · intro st hst
    rcases List.mem_cons.1 hst with rfl | hst
    · exact fun j slot cmd => hn.command
    · exact hs.agrees st hst
  · intro st hst k hk
    rcases List.mem_cons.1 hst with rfl | hst
    · exact hmono k hk
    · exact hmono k (hs.past st hst k hk)
  · refine List.pairwise_cons.2 ⟨fun older holder => ⟨hs.past older holder, ?_⟩, hs.later⟩
    exact (hn.logged _).1 ⟨older, holder, rfl⟩

theorem Effect.log {s s' : Session ε} (h : Effect classify s s') (hn : Numbered s) (hs : Log s) : Log s' := by
  have hn' := h.numbered hn
  have hkeep : s'.history.starts = s.history.starts → (∀ (i : Nat) cmd, s.history.decoded[i]? = some cmd →
      s'.history.decoded[i]? = some cmd) → Log s' := by
    intro hst hdec
    refine ⟨hst ▸ hs.fair, ?_, ?_, hst ▸ hs.later⟩
    · rw [hst]
      exact fun st h i slot cmd hslot hcmd => hdec _ _ (hs.agrees st h i slot cmd hslot hcmd)
    · rw [hst]
      exact fun st h k hk => hasStarted_mono hn hn' (by rw [hst]; exact fun _ h => h) (hs.past st h k hk)
  cases h with
  | control _ _ _ hhistory => exact hkeep (by rw [hhistory]) (by rw [hhistory]; exact fun _ _ h => h)
  | start h hfree hrefused => exact log_start h hfree hrefused hn hn' hs
  | read events =>
    refine hkeep rfl fun i cmd hi => ?_
    simp only [decode]
    rw [List.getElem?_append_left (List.getElem?_eq_some_iff.1 hi).1, hi]
  | _ => exact hkeep rfl fun _ _ h => h

/-! ### The contract -/

section

variable {decoded : List (Kind × ε)} {st : Start ε} {i : Nat} {kind : Kind} {event : ε}

/-- A request before the one that starts departed, or is in a slot before its slot. -/
private theorem earlier (h : st.Fair i kind event) {j : Nat} (hj : j < st.request) :
    st.standing j = some .finished ∨
    ∃ n slot, n < i ∧ j = st.departed + n ∧ st.queue[n]? = some slot ∧ st.standing j = some slot.standing := by
  rcases Nat.lt_or_ge j st.departed with hd | hd
  · exact .inl (standing_of_lt hd)
  · obtain ⟨n, rfl⟩ := Nat.exists_eq_add_of_le hd
    have hlen := (List.getElem?_eq_some_iff.1 h.2.1).1
    have hn : n < i := by
      have := h.1
      omega
    have hslot := List.getElem?_eq_getElem (Nat.lt_trans hn hlen)
    exact .inr ⟨n, _, hn, rfl, hslot, by rw [Start.standing, standing_add, hslot, Option.map_some]⟩

private theorem kind_of_slot (h : st.Agrees decoded) {n : Nat} {slot : Slot ε} {k k' : Kind} {e : ε}
    (hslot : st.queue[n]? = some slot) (hcmd : slot.command = some (k, e))
    (hk : decoded[st.departed + n]?.map Prod.fst = some k') : k' = k := by
  rw [h n slot _ hslot hcmd] at hk
  exact (Option.some.inj hk).symm

private theorem serial_in_turn (h : st.Fair i kind event) (hagrees : st.Agrees decoded) (hkind : kind.isSerial = true)
    {j : Nat} (hj : j < st.request) {k : Kind} (hk : decoded[j]?.map Prod.fst = some k) :
    (k.isSerial = true → st.standing j ≠ some .waiting) ∧ (k = .thaw → st.standing j = some .finished) := by
  obtain ⟨hexcl, hwait⟩ := serial_start h hkind
  simp only [Lanes.of_eq, Lanes.exclusive, Bool.or_eq_false_iff] at hexcl
  rcases earlier h hj with hfin | ⟨n, slot, hn, rfl, hslot, hst⟩
  · rw [hfin]
    exact ⟨fun _ => by rintro ⟨⟩, fun _ => rfl⟩
  · rw [hst]
    cases slot with
    | waiting k' e =>
      obtain rfl := kind_of_slot hagrees hslot rfl hk
      obtain rfl := waiting_before hwait hn hslot
      exact ⟨by rintro ⟨⟩, by rintro ⟨⟩⟩
    | pending k' e =>
      obtain rfl := kind_of_slot hagrees hslot rfl hk
      refine ⟨fun _ => by rintro ⟨⟩, ?_⟩
      rintro rfl
      exact absurd hslot (not_runs hexcl.2.1)
    | done reply => exact ⟨fun _ => by rintro ⟨⟩, fun _ => rfl⟩

private theorem running_freeze (hagrees : st.Agrees decoded) (h : st.queue.any (Slot.runs .freeze) = true) :
    ∃ j, decoded[j]?.map Prod.fst = some .freeze ∧ st.standing j = some .running := by
  obtain ⟨slot, hmem, hruns⟩ := List.any_eq_true.1 h
  obtain ⟨n, hn⟩ := List.getElem?_of_mem hmem
  cases slot with
  | waiting => cases hruns
  | done => cases hruns
  | pending k e =>
    obtain rfl : k = .freeze := by simpa using hruns
    refine ⟨st.departed + n, ?_, ?_⟩
    · rw [hagrees n _ _ hn rfl]
      rfl
    · rw [Start.standing, standing_add, hn]
      rfl

private theorem in_turn (h : st.Fair i kind event) (hagrees : st.Agrees decoded) :
    InTurn (fun k => decoded[k]?.map Prod.fst) st kind := by
  refine ⟨fun hkind j hj k hk => serial_in_turn h hagrees hkind hj hk, ?_, ?_⟩
  · rintro rfl j hj hk hwait
    rcases earlier h hj with hfin | ⟨n, slot, hn, rfl, hslot, hst⟩
    · cases hfin.symm.trans hwait
    · cases slot with
      | waiting k' e =>
        obtain rfl := kind_of_slot hagrees hslot rfl hk
        exact (thaw_overtakes h hn hslot).1 rfl
      | pending => cases hst.symm.trans hwait
      | done => cases hst.symm.trans hwait
  · rintro rfl ⟨j, hj, k, hk, hser, hwait⟩
    rcases earlier h hj with hfin | ⟨n, slot, hn, rfl, hslot, hst⟩
    · cases hfin.symm.trans hwait
    · cases slot with
      | waiting k' e =>
        obtain rfl := kind_of_slot hagrees hslot rfl hk
        exact running_freeze hagrees ((thaw_overtakes h hn hslot).2 (by rintro rfl; cases hser))
      | pending => cases hst.symm.trans hwait
      | done => cases hst.symm.trans hwait

/-- A command that started before another of its order has the smaller request number. -/
private theorem request_lt {older : Start ε} {i' : Nat} {kind' : Kind} {event' : ε} (h : st.Fair i kind event)
    (h' : older.Fair i' kind' event') (hlater : (∀ k, older.HasStarted k → st.HasStarted k) ∧ st.HasStarted older.request)
    (hturn : st.request < older.request → older.standing st.request ≠ some .waiting) : older.request < st.request := by
  have hwaits : ¬ st.HasStarted st.request := by
    have : st.standing st.request = some .waiting := by
      rw [h.1, Start.standing, standing_add, h.2.1]
      rfl
    simp [Start.HasStarted, this]
  rcases Nat.lt_trichotomy older.request st.request with hlt | heq | hgt
  · exact hlt
  · exact absurd (heq ▸ hlater.2) hwaits
  · refine absurd (hlater.1 _ ?_) hwaits
    rcases earlier h' hgt with hfin | ⟨n, slot, hn, hreq, hslot, hst⟩
    · exact .inr hfin
    · have hne := hturn hgt
      rw [hst] at hne
      rw [Start.HasStarted, hst]
      cases slot with
      | waiting => exact absurd rfl hne
      | pending => exact .inl rfl
      | done => exact .inr rfl

end

/-- The requests of the starts of the lanes `p`, the latest first. -/
def startedOf (s : Session ε) (p : Kind → Bool) : List Nat :=
  (s.history.starts.filter fun st => (s.kindOf st.request).any p).map Start.request

private theorem startedOf_ordered {s : Session ε} (hs : Log s) {p : Kind → Bool}
    (hp : ∀ (st : Start ε) kind, p kind = true → InTurn s.kindOf st kind → ∀ j < st.request, (s.kindOf j).any p = true →
      st.standing j ≠ some .waiting) : (s.startedOf p).Pairwise (· > ·) := by
  refine List.pairwise_map.2 (List.pairwise_filter.2 ?_)
  refine hs.later.imp_of_mem fun {st older} hst holder hlater hp₁ hp₂ => ?_
  obtain ⟨i, kind, event, hfair⟩ := hs.fair st hst
  obtain ⟨i', kind', event', hfair'⟩ := hs.fair older holder
  refine request_lt hfair hfair' hlater fun hlt => ?_
  have hkind : s.kindOf older.request = some kind' := by
    rw [kindOf, hfair'.1, hs.agrees older holder _ _ _ hfair'.2.1 rfl]
    rfl
  refine hp older kind' ?_ (in_turn hfair' (hs.agrees older holder)) _ hlt hp₁
  simpa [hkind] using hp₂

/-- What runs together; each start finds its command waiting and is in turn; the serial commands start in request
order, and so do the thaws; and the log names what has started. -/
theorem lane_discipline {s : Session ε} (h : Reachable classify s) :
    Exclusive s ∧
    (∀ st ∈ s.history.starts, st.standing st.request = some .waiting ∧
      ∃ kind, s.kindOf st.request = some kind ∧ InTurn s.kindOf st kind) ∧
    (s.startedOf Kind.isSerial).Pairwise (· > ·) ∧ (s.startedOf (· = .thaw)).Pairwise (· > ·) ∧
    ∀ k, k ∈ s.history.starts.map Start.request ↔ s.HasStarted k := by
  have hboth : Exclusive s ∧ Numbered s ∧ Log s := by
    refine Reachable.keeps (P := fun s => Exclusive s ∧ Numbered s ∧ Log s) ?_ ?_ h
    · refine ⟨⟨Nat.zero_le _, Nat.zero_le _, Nat.zero_le _, fun _ => rfl⟩, start_numbered, ?_⟩
      exact ⟨by rintro st ⟨⟩, by rintro st ⟨⟩, by rintro st ⟨⟩, .nil⟩
    · exact fun s s' he hs => ⟨he.exclusive hs.1, he.numbered hs.2.1, he.log hs.2.1 hs.2.2⟩
  obtain ⟨hexcl, hnum, hlog⟩ := hboth
  refine ⟨hexcl, fun st hst => ?_, ?_, ?_, fun k => ?_⟩
  · obtain ⟨i, kind, event, hfair⟩ := hlog.fair st hst
    refine ⟨?_, kind, ?_, in_turn hfair (hlog.agrees st hst)⟩
    · rw [hfair.1, Start.standing, standing_add, hfair.2.1]
      rfl
    · rw [kindOf, hfair.1, hlog.agrees st hst _ _ _ hfair.2.1 rfl]
      rfl
  · refine startedOf_ordered hlog fun st kind hk hturn j hj hany => ?_
    obtain ⟨k, hkj, hser⟩ := (Option.any_eq_true _ _).1 hany
    exact (hturn.serial hk j hj k hkj).1 hser
  · refine startedOf_ordered hlog fun st kind hk hturn j hj hany => ?_
    obtain ⟨k, hkj, hthaw⟩ := (Option.any_eq_true _ _).1 hany
    exact hturn.thaw (of_decide_eq_true hk) j hj (of_decide_eq_true hthaw ▸ hkj)
  · rw [← hnum.logged k, List.mem_map]

/-- A thaw overtakes an ordinary command that waits for the freeze before it. -/
theorem lane_discipline_of_overtaking : ∃ s : Session Kind, Reachable id s ∧
    (s.history.starts.map Start.request = [2, 0] ∧ s.standing 1 = some .waiting) ∧ Exclusive s := by
  obtain ⟨s, hs, hp⟩ := Reachable.of_turns (c := id) (Script.reads [.freeze, .ordinary, .thaw] ++ Script.turn Script.quiet)
    (fun s => decide (s.history.starts.map Start.request = [2, 0] ∧ s.standing 1 = some .waiting)) rfl rfl
  exact ⟨s, hs, of_decide_eq_true hp, (lane_discipline hs).1⟩

end Session

end Qeminga
