import Qeminga.Contract.Places

/-!
# The end of a session never abandons work

A session that ends because its input ended or its writer failed has finished every command it decoded; one that ends
by a stop does so with nothing running and a handler that allows it.  No command that started is dropped, and an
accepted stop that the handler does not allow any more is withdrawn.
-/

namespace Qeminga

variable {ε : Type}

namespace Session

variable {classify : ε → Kind}

/-- What holds at the end of a session; the input never ends with `cancelled`. -/
structure Closes (s : Session ε) : Prop where
  input : s.inputEnd ≠ some .cancelled
  finished : ∀ {reason}, s.pc = .ended reason → reason ≠ .cancelled →
    s.slots = [] ∧ (s.outbox.replies = [] ∨ s.writeFailed = true)
  idle : ∀ {reason}, s.pc = .ended reason → s.running = false

private theorem Closes.of_pc {s : Session ε} (hin : s.inputEnd ≠ some .cancelled) (h : ∀ reason, s.pc ≠ .ended reason) :
    Closes s :=
  ⟨hin, fun hpc => absurd hpc (h _), fun hpc => absurd hpc (h _)⟩

private theorem closes_admission {s : Session ε} (hs : Closes s) : Closes s.admission := by
  have hin : s.admits.inputEnd ≠ some .cancelled := s.admits_rest.2.1 ▸ hs.input
  rcases s.admission_cases with ⟨reason, hfin, hend, h⟩ | ⟨-, h⟩
  · rw [h]
    simp only [Session.finished, Bool.and_eq_true, Bool.not_eq_true', Bool.or_eq_true, List.isEmpty_iff,
      Outbox.isEmpty] at hfin
    exact ⟨by rintro ⟨⟩, fun _ _ => ⟨hfin.1.2, hfin.2⟩, fun _ => hfin.1.1⟩
  · rw [h]
    exact .of_pc hin (by rintro reason ⟨⟩)

theorem Reachable.closes {s : Session ε} (h : Reachable classify s) : Closes s := by
  refine h.invariant (fun s hs => hs ▸ .of_pc (by rintro ⟨⟩) (by rintro reason ⟨⟩)) fun s turn s' hreach hs hst _ => ?_
  cases step_move hst with
  | top =>
    refine .of_pc ?_ (by rintro reason ⟨⟩)
    exact (collect_rest s.slots s).1 ▸ hs.input
  | cancel hpc hd hr => exact ⟨hs.input, fun hpc hne => absurd (SessionPc.ended.inj hpc).symm hne, fun _ => hr⟩
  | cancelDrain hpc hd hr hw h =>
    obtain ⟨o, bytes, rfl, -⟩ := drain_rest h
    exact ⟨hs.input, fun hpc hne => absurd (SessionPc.ended.inj hpc).symm hne, fun _ => hr⟩
  | cancelPanicked hpc hw h =>
    obtain ⟨o, bytes, rfl, -⟩ := drain_rest h
    exact .of_pc hs.input (by rintro reason ⟨⟩)
  | withdraw => exact .of_pc hs.input (by rintro reason ⟨⟩)
  | proceed => exact .of_pc hs.input (by rintro reason ⟨⟩)
  | admission => exact closes_admission hs
  | changed => exact .of_pc hs.input (by rintro reason ⟨⟩)
  | drive => exact .of_pc hs.input (by rintro reason ⟨⟩)
  | panicked hpc h =>
    obtain ⟨o, bytes, rfl, -⟩ := drain_rest h
    exact .of_pc hs.input (by rintro reason ⟨⟩)
  | @drained r c s₁ p res hpc h =>
    obtain ⟨o, bytes, rfl, -⟩ := drain_rest h
    refine .of_pc ?_ fun reason => by rw [drained_pc]; rintro ⟨⟩
    cases res with
    | ok => exact hs.input
    | error e =>
      have := hs.input
      simp only [drained]
      cases hin : s.inputEnd <;> simp_all
  | read ans hpc h =>
    obtain ⟨o, bytes, rfl, -⟩ := h.rest
    refine .of_pc ?_ fun reason => by rw [read_pc]; rintro ⟨⟩
    cases ans with
    | eof => rintro ⟨⟩
    | failed => rintro ⟨⟩
    | bytes => exact hs.input
  | pend hpc h =>
    obtain ⟨o, bytes, rfl, -⟩ := h.rest
    exact .of_pc hs.input fun reason => by rw [hpc]; rintro ⟨⟩
  | none hpc => exact absurd hpc (Reachable.enabled hreach)

/-! ### The contract -/

private theorem ended_cancelled {s s' : Session ε} {turn : Turn ε} (hreach : Reachable classify s)
    (hst : s.step classify turn = some s') (hend : s'.pc = .ended .cancelled) :
    s.running = false ∧ ∃ w, turn = .stop true w := by
  have hin := (Reachable.closes hreach).input
  cases step_move hst with
  | cancel hpc hd hr => exact ⟨hr, _, rfl⟩
  | cancelDrain hpc hd hr => exact ⟨hr, _, rfl⟩
  | admission hpc =>
    exfalso
    rcases s.admission_cases with ⟨reason, -, hr, h⟩ | ⟨-, h⟩
    · rw [h] at hend
      obtain rfl := SessionPc.ended.inj hend
      exact hin (s.admits_rest.2.1 ▸ hr)
    · rw [h] at hend
      cases hend
  | drained => cases (drained_pc _ _).symm.trans hend
  | read => cases (read_pc _ _).symm.trans hend
  | pend hpc h =>
    obtain ⟨o, bytes, rfl, -⟩ := h.rest
    cases hpc.symm.trans hend
  | none hpc => exact absurd hpc (Reachable.enabled hreach)
  | _ => cases hend

/-- An accepted stop stays accepted, but for one case. -/
private theorem withdraw_or {s s' : Session ε} {turn : Turn ε} (h : Move classify s turn s') (hd : s.draining = true) :
    (s.running = false ∧ (∃ w, turn = .stop false w) ∧ s'.draining = false) ∨
    (¬ (s.running = false ∧ ∃ w, turn = .stop false w) ∧ s'.draining = true) := by
  cases h with
  | withdraw hpc _ hr => exact .inl ⟨hr, ⟨_, rfl⟩, rfl⟩
  | top => exact .inr ⟨by rintro ⟨-, w, ⟨⟩⟩, by simp [Session.top, collect_rest, hd]⟩
  | cancel => exact .inr ⟨by rintro ⟨-, w, ⟨⟩⟩, hd⟩
  | cancelDrain hpc _ hr hw h =>
    obtain ⟨o, bytes, rfl, -⟩ := drain_rest h
    exact .inr ⟨by rintro ⟨-, w, ⟨⟩⟩, hd⟩
  | cancelPanicked hpc hw h =>
    obtain ⟨o, bytes, rfl, -⟩ := drain_rest h
    exact .inr ⟨by rintro ⟨-, w, ⟨⟩⟩, hd⟩
  | proceed hpc hr => exact .inr ⟨fun h => Bool.eq_false_iff.1 h.1 (hr hd), hd⟩
  | admission =>
    refine .inr ⟨by rintro ⟨-, w, ⟨⟩⟩, ?_⟩
    have hsame := s.admits_rest.2.2.1.trans hd
    rcases s.admission_cases with ⟨reason, -, -, h⟩ | ⟨-, h⟩
    · rw [h]
      exact hsame
    · rw [h]
      exact hsame
  | changed => exact .inr ⟨by rintro ⟨-, w, ⟨⟩⟩, by simp [Session.changed, hd]⟩
  | drive => exact .inr ⟨by rintro ⟨-, w, ⟨⟩⟩, hd⟩
  | panicked hpc h =>
    obtain ⟨o, bytes, rfl, -⟩ := drain_rest h
    exact .inr ⟨by rintro ⟨-, w, ⟨⟩⟩, hd⟩
  | @drained _ _ _ _ res hpc h =>
    obtain ⟨o, bytes, rfl, -⟩ := drain_rest h
    exact .inr ⟨by rintro ⟨-, w, ⟨⟩⟩, by cases res <;> exact hd⟩
  | read ans hpc h =>
    obtain ⟨o, bytes, rfl, -⟩ := h.rest
    exact .inr ⟨by rintro ⟨-, w, ⟨⟩⟩, by cases ans <;> exact hd⟩
  | pend hpc h =>
    obtain ⟨o, bytes, rfl, -⟩ := h.rest
    exact .inr ⟨by rintro ⟨-, w, ⟨⟩⟩, hd⟩
  | none => exact .inr ⟨by rintro ⟨-, w, ⟨⟩⟩, hd⟩

private theorem sent_all {s : Session ε} (hdel : Delivers s) (hnum : Numbered s) (hslots : s.slots = [])
    (hempty : s.outbox.replies = []) (hw : s.writeFailed = false) {reply : Nat → Option Bytes}
    (hreply : ∀ k r, s.outcome k = some r → reply k = r) : s.history.accepted = wire reply s.history.decoded.length := by
  have hwhole := hdel.whole hw
  have hlen := hnum.length
  rw [hslots, List.length_nil, Nat.add_zero] at hlen
  rw [Outbox.unsent, hempty, List.flatten_nil, List.drop_nil, List.append_nil] at hwhole
  rw [hwhole, sent_eq_wire hreply, hlen]

/-- A session that ends without a stop has started and finished every command, and delivered every reply unless a
write failed; a stop ends it only with nothing running and with the handler's leave; a command that started is running
or has finished, and is finished at the end; and an accepted stop is withdrawn exactly when it may not take effect once
nothing is running. -/
theorem session_end {s : Session ε} (h : Reachable classify s) :
    (∀ reason, s.pc = .ended reason → reason ≠ .cancelled →
      (∀ k < s.history.decoded.length, k ∈ s.history.starts.map Start.request ∧ s.standing k = some .finished) ∧
      (s.writeFailed = false → ∀ reply : Nat → Option Bytes, (∀ k r, s.outcome k = some r → reply k = r) →
        s.history.accepted = wire reply s.history.decoded.length)) ∧
    (∀ turn s', s.step classify turn = some s' → s'.pc = .ended .cancelled →
      s.running = false ∧ ∃ w, turn = .stop true w) ∧
    (∀ k ∈ s.history.starts.map Start.request, s.standing k = some .running ∨ s.standing k = some .finished) ∧
    (∀ reason, s.pc = .ended reason → ∀ k ∈ s.history.starts.map Start.request, s.standing k = some .finished) ∧
    (∀ turn s', s.step classify turn = some s' → s.draining = true →
      (s'.draining = false ↔ s.running = false ∧ ∃ w, turn = .stop false w)) := by
  have hnum := Reachable.numbered h
  have hcloses := Reachable.closes h
  have hlogged : ∀ k, k ∈ s.history.starts.map Start.request ↔ s.HasStarted k := by
    intro k
    rw [← hnum.logged k, List.mem_map]
  refine ⟨fun reason hend hne => ?_, fun turn s' => ended_cancelled h, fun k => (hlogged k).1, ?_, ?_⟩
  · obtain ⟨hslots, hempty⟩ := hcloses.finished hend hne
    refine ⟨fun k hk => ?_, fun hw reply => ?_⟩
    · have hfin : s.standing k = some .finished := by
        refine standing_of_lt ?_
        have := hnum.length
        rw [hslots, List.length_nil] at this
        omega
      exact ⟨(hlogged k).2 (.inr hfin), hfin⟩
    · refine sent_all (Reachable.delivers h) hnum hslots (hempty.resolve_right ?_) hw
      simp [hw]
  · intro reason hend k hk
    refine ((hlogged k).1 hk).resolve_left fun hrun => ?_
    rcases standing_cases hrun with ⟨-, hfin⟩ | ⟨i, slot, -, hslot, hst⟩
    · cases hfin
    · have hidle := List.any_eq_false.1 (hcloses.idle hend) slot (List.mem_of_getElem? hslot)
      cases slot with
      | waiting => cases hst
      | pending => exact hidle rfl
      | done => cases hst
  · intro turn s' hst hd
    rcases withdraw_or (step_move hst) hd with ⟨hr, hw, hd'⟩ | ⟨hno, hd'⟩
    · exact ⟨fun _ => ⟨hr, hw⟩, fun _ => hd'⟩
    · rw [hd']
      exact ⟨by rintro ⟨⟩, fun hyes => absurd hyes hno⟩

/-- The peer goes away while a command runs: the command finishes, its reply goes out, and then the session ends. -/
theorem session_end_of_eof : ∃ s : Session Kind, Reachable id s ∧
    (s.pc = .ended .eof ∧ s.history.decoded.length = 1 ∧ s.history.accepted = [7, 8]) ∧ s.standing 0 = some .finished := by
  obtain ⟨s, hs, hp⟩ := Reachable.of_turns (c := id)
    (Script.reads [.freeze] ++ Script.turn { Script.quiet with read := some .eof } ++ Script.finishes 0 (some [7, 8]) ++
      Script.turn { Script.quiet with writer := ⟨[.accepted 2], some (.ok ())⟩ } ++
      [.top false false, .stop false ⟨[], none⟩, .admission])
    (fun s => decide (s.pc = .ended .eof ∧ s.history.decoded.length = 1 ∧ s.history.accepted = [7, 8])) rfl rfl
  have hend := of_decide_eq_true hp
  exact ⟨s, hs, hend, (((session_end hs).1 _ hend.1 (by rintro ⟨⟩)).1 0 (by rw [hend.2.1]; exact Nat.one_pos)).2⟩

end Session

end Qeminga
