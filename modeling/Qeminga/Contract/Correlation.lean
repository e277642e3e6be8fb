import Qeminga.Contract.Delivery
import Qeminga.Contract.DispatchAccounting
import Qeminga.Contract.FrameDecoding
import Qeminga.Contract.SessionEnding
import Qeminga.Conversation
import Mathlib.Data.List.Induction

/-!
# Replies find their requests

From the bytes of the host to the bytes of the replies.  The commands of a session are the events of what it has read, the
bytes that it has written are the beginning of the replies to them in request order, and every line of these is one reply, with
the id of its request.
-/

namespace Qeminga

variable {ε : Type}

/-! ### What a step of the session reads and finishes -/

namespace Session

variable {classify : ε → Kind} {s s' s₁ : Session ε} {t : Turn ε}

/-- The step neither reads nor finishes a command. -/
structure Quiet (s s' : Session ε) : Prop where
  received : s'.received = s.received
  decoded : s'.history.decoded = s.history.decoded
  outcome : ∀ k, s'.outcome k = s.outcome k

theorem Quiet.trans (h : Quiet s s₁) (h' : Quiet s₁ s') : Quiet s s' :=
  ⟨h'.received.trans h.received, h'.decoded.trans h.decoded, fun k => (h'.outcome k).trans (h.outcome k)⟩

theorem outcome_of_lt {k : Nat} (h : k < s.history.departed.length) : s.outcome k = s.history.departed[k]? := if_pos h

theorem outcome_add (s : Session ε) (i : Nat) : s.outcome (s.history.departed.length + i) = s.slots[i]?.bind Slot.outcome := by
  rw [Session.outcome, if_neg (by omega), Nat.add_sub_cancel_left]

private theorem outcome_congr (hdeparted : s'.history.departed = s.history.departed)
    (hslots : ∀ i : Nat, s'.slots[i]?.bind Slot.outcome = s.slots[i]?.bind Slot.outcome) (k : Nat) : s'.outcome k = s.outcome k := by
  rw [Session.outcome, Session.outcome, hdeparted, hslots]

/-- A reply that departs stays the outcome of its request. -/
theorem outcome_depart {reply : Option Bytes} {slots : List (Slot ε)} (h : s.slots = .done reply :: slots) (k : Nat) :
    (s.depart reply slots).outcome k = s.outcome k := by
  have hlength : (s.depart reply slots).history.departed.length = s.history.departed.length + 1 := by simp [depart]
  rcases Nat.lt_or_ge k s.history.departed.length with hk | hk
  · rw [outcome_of_lt hk, outcome_of_lt (by omega)]
    exact List.getElem?_append_left hk
  · obtain ⟨i, rfl⟩ := Nat.exists_eq_add_of_le hk
    rw [outcome_add, h]
    cases i with
    | zero =>
      rw [outcome_of_lt (by omega)]
      simp [depart, Slot.outcome]
    | succ i =>
      rw [show s.history.departed.length + (i + 1) = (s.depart reply slots).history.departed.length + i by omega, outcome_add]
      rfl

private theorem collect_quiet (slots : List (Slot ε)) (s : Session ε) (h : s.slots = slots) : Quiet s (s.collect slots) := by
  induction slots generalizing s with
  | nil => exact ⟨rfl, rfl, fun _ => rfl⟩
  | cons slot slots ih =>
    cases slot with
    | waiting => exact ⟨rfl, rfl, fun _ => rfl⟩
    | pending => exact ⟨rfl, rfl, fun _ => rfl⟩
    | done reply =>
      have hdepart : Quiet s (s.depart reply slots) := ⟨rfl, rfl, outcome_depart h⟩
      exact hdepart.trans (ih _ rfl)

private theorem drain_quiet {w : WriterAnswers} {d : DrainPoll} (h : s.drain w = some (s₁, d)) : Quiet s s₁ := by
  obtain ⟨o, bytes, rfl, -⟩ := drain_rest h
  exact ⟨rfl, rfl, fun _ => rfl⟩

/-- A start changes no outcome. -/
private theorem outcome_admitWaiting (slots : List (Slot ε)) (n i : Nat) :
    (admitWaiting slots n)[i]?.bind Slot.outcome = slots[i]?.bind Slot.outcome := by
  induction n with
  | zero => rfl
  | succ n ih =>
    rw [admitWaiting_succ, ← ih]
    by_cases hi : i = n
    · subst hi
      unfold admitAt
      split
      · next kind event hslot =>
        split
        · rw [List.getElem?_set_self (List.getElem?_eq_some_iff.1 hslot).1, hslot]
          rfl
        · rfl
      · rfl
    · rw [admitAt_of_ne _ hi]

private theorem admission_quiet (s : Session ε) : Quiet s s.admission := by
  have hadmits : Quiet s s.admits := by
    unfold admits
    dsimp only
    split
    · exact ⟨rfl, rfl, outcome_congr rfl fun i => outcome_admitWaiting _ _ i⟩
    · exact ⟨rfl, rfl, fun _ => rfl⟩
  rcases s.admission_cases with ⟨reason, -, -, h⟩ | ⟨-, h⟩
  · exact hadmits.trans (h ▸ ⟨rfl, rfl, fun _ => rfl⟩)
  · exact hadmits.trans (h ▸ ⟨rfl, rfl, fun _ => rfl⟩)

/-- A poll of the running commands finishes those that have a reply. -/
private theorem outcome_driveFrom (replies : Nat → Option (Option Bytes)) (slots : List (Slot ε)) (first i : Nat) {r : Option Bytes}
    (h : (driveFrom replies first slots)[i]?.bind Slot.outcome = some r) :
    slots[i]?.bind Slot.outcome = some r ∨ ∃ kind event, slots[i]? = some (.pending kind event) ∧ replies (first + i) = some r := by
  induction slots generalizing first i with
  | nil => cases h
  | cons slot slots ih =>
    cases i with
    | zero =>
      cases slot with
      | waiting => exact .inl h
      | done => exact .inl h
      | pending kind event =>
        simp only [driveFrom, List.getElem?_cons_zero, Option.bind_some] at h
        cases hr : replies first with
        | none =>
          rw [hr] at h
          cases h
        | some reply =>
          rw [hr] at h
          obtain rfl : reply = r := Option.some.inj h
          exact .inr ⟨kind, event, rfl, rfl⟩
    | succ i =>
      have htail : (driveFrom replies (first + 1) slots)[i]?.bind Slot.outcome = some r := by
        cases slot <;> exact h
      rcases ih (first + 1) i htail with hslot | ⟨kind, event, hslot, hr⟩
      · exact .inl hslot
      · exact .inr ⟨kind, event, hslot, by rwa [Nat.add_right_comm, Nat.add_assoc] at hr⟩

/-- What a step does to the input and to the outcomes. -/
inductive Does (classify : ε → Kind) (s : Session ε) (t : Turn ε) (s' : Session ε) : Prop
  | quiet (h : Quiet s s')
  | finishes {p : Poll ε} (ht : t = .select p) (hreceived : s'.received = s.received)
      (hdecoded : s'.history.decoded = s.history.decoded)
      (houtcome : ∀ k r, s'.outcome k = some r → s.outcome k = some r ∨ ∃ i kind event,
        k = s.history.departed.length + i ∧ s.slots[i]? = some (.pending kind event) ∧ p.replies k = some r)
  | reads {p : Poll ε} {n : Nat} {events : List ε} (ht : t = .select p) (hread : p.read = some (.bytes n events))
      (hreceived : s'.received = s.received + n)
      (hdecoded : s'.history.decoded = s.history.decoded ++ events.map fun event => (classify event, event))
      (houtcome : ∀ k, s'.outcome k = s.outcome k)

private theorem read_outcome (ans : ReadAnswer ε) (k : Nat) : (s.read classify ans).outcome k = s.outcome k := by
  cases ans with
  | eof => rfl
  | failed e => rfl
  | bytes n events =>
    have hdeparted : (s.read classify (.bytes n events)).history.departed = s.history.departed := rfl
    refine outcome_congr hdeparted (fun i => ?_) k
    dsimp only [Session.read]
    rcases Nat.lt_or_ge i s.slots.length with hi | hi
    · rw [List.getElem?_append_left hi]
    · rw [List.getElem?_append_right hi, List.getElem?_eq_none hi, List.getElem?_map, List.getElem?_map]
      cases events[i - s.slots.length]? <;> rfl

private theorem selectRead_does {p : Poll ε} (hquiet : Quiet s s₁) (canRead disabled : Bool) :
    Does classify s (.select p) (s₁.selectRead classify canRead disabled p.read) := by
  unfold selectRead
  split
  · next ans hans =>
    cases ans with
    | eof => exact .quiet ⟨hquiet.received, hquiet.decoded, hquiet.outcome⟩
    | failed e => exact .quiet ⟨hquiet.received, hquiet.decoded, hquiet.outcome⟩
    | bytes n events =>
      exact .reads rfl hans (congrArg (· + n) hquiet.received) (congrArg (· ++ _) hquiet.decoded) fun k =>
        (read_outcome _ k).trans (hquiet.outcome k)
  · split
    · exact .quiet ⟨hquiet.received, hquiet.decoded, hquiet.outcome⟩
    · exact .quiet hquiet

private theorem driveAny_does (p : Poll ε) : Does classify s (.select p) { s.driveAny p.replies with pc := .top } := by
  refine .finishes rfl rfl rfl fun k r hk => ?_
  rcases Nat.lt_or_ge k s.history.departed.length with hlt | hle
  · rw [outcome_of_lt (s := { s.driveAny p.replies with pc := .top }) hlt] at hk
    exact .inl ((outcome_of_lt hlt).trans hk)
  · obtain ⟨i, rfl⟩ := Nat.exists_eq_add_of_le hle
    have hslot := (outcome_add { s.driveAny p.replies with pc := .top } i).symm.trans hk
    rw [outcome_add]
    rcases outcome_driveFrom _ _ _ _ hslot with hslot | ⟨kind, event, hslot, hr⟩
    · exact .inl hslot
    · exact .inr ⟨i, kind, event, rfl, hslot, hr⟩

theorem step_does (h : s.step classify t = some s') : Does classify s t s' := by
  cases t with
  | top cancel mayStop =>
    cases step_move h with
    | top => exact .quiet ((collect_quiet s.slots s rfl).trans ⟨rfl, rfl, fun _ => rfl⟩)
  | stop mayStop w =>
    cases step_move h with
    | cancelDrain hpc hd hr hw hdrain => exact .quiet ((drain_quiet hdrain).trans ⟨rfl, rfl, fun _ => rfl⟩)
    | cancelPanicked hpc hw hdrain => exact .quiet ((drain_quiet hdrain).trans ⟨rfl, rfl, fun _ => rfl⟩)
    | _ => exact .quiet ⟨rfl, rfl, fun _ => rfl⟩
  | admission =>
    cases step_move h with
    | admission => exact .quiet (admission_quiet s)
  | select p =>
    cases hpc : s.pc with
    | select running canWrite canRead =>
      simp only [step, hpc] at h
      unfold select at h
      split at h
      · obtain rfl := Option.some.inj h
        exact .quiet ⟨rfl, rfl, fun _ => rfl⟩
      · split at h
        · obtain rfl := Option.some.inj h
          exact driveAny_does p
        · split at h
          · obtain ⟨⟨s₁, d⟩, hdrain, rfl⟩ := Option.map_eq_some_iff.1 h
            cases d with
            | panicked => exact .quiet ((drain_quiet hdrain).trans ⟨rfl, rfl, fun _ => rfl⟩)
            | ready r => cases r <;> exact .quiet ((drain_quiet hdrain).trans ⟨rfl, rfl, fun _ => rfl⟩)
            | pending => exact selectRead_does (drain_quiet hdrain) ..
          · obtain rfl := Option.some.inj h
            exact selectRead_does ⟨rfl, rfl, fun _ => rfl⟩ ..
    | _ => simp [step, hpc] at h

end Session

/-! ### The reply to an event -/

namespace Dispatcher

/-- The reply before it is encoded, with its sentinel. -/
def Call.reply (call : Call) : Framing.DecodeEvent → Option (Proto.Response × Bool)
  | .oversized _ => none
  | .frame bytes _ =>
    match Proto.parseRequest call.serde bytes with
    | .error err => some (.error (.of err) none, false)
    | .ok req =>
      if (call.result req .empty).1.isOk && silent req.method then none
      else some (.fromResult req.id (call.result req .empty).1, req.method = "guest-sync-delimited")

variable {call : Call} {event : Framing.DecodeEvent}

theorem handle_fst (call : Call) (event : Framing.DecodeEvent) :
    (call.handle event .empty).1 = (call.reply event).map fun x => Framing.encode (call.serde.toJson x.1) x.2 := by
  cases event with
  | oversized n => rfl
  | frame bytes sentinel =>
    cases hparse : Proto.parseRequest call.serde bytes with
    | error err =>
      simp only [Call.handle, Call.reply, hparse]
      rfl
    | ok req =>
      rw [handle_parsed hparse]
      simp only [Call.reply, Call.answer, hparse]
      split <;> rfl

/-- A reply has the id of its request, and the sentinel of `guest-sync-delimited`. -/
theorem reply_echoes {x : Proto.Response × Bool} (h : call.reply event = some x) :
    x.1.id = (call.request event).bind (·.id) ∧
      x.2 = (call.request event).any fun req => req.method = "guest-sync-delimited" := by
  cases event with
  | oversized n => cases h
  | frame bytes sentinel =>
    unfold Call.reply at h
    unfold Call.request
    cases hparse : Proto.parseRequest call.serde bytes with
    | error err =>
      simp only [hparse] at h ⊢
      obtain rfl := Option.some.inj h
      exact ⟨rfl, rfl⟩
    | ok req =>
      simp only [hparse] at h ⊢
      split at h
      · cases h
      · obtain rfl := Option.some.inj h
        exact ⟨id_fromResult _ _, rfl⟩

/-- The line of a reply. -/
theorem reply_line {text : Proto.Json → Bytes} (hserde : call.serde.Compact text) {x : Proto.Response × Bool}
    (h : call.reply event = some x) : call.serde.toJson x.1 = x.1.toText text ∧
      Framing.encode (call.serde.toJson x.1) x.2 = x.1.line text x.2 := by
  have hid : ∀ id, x.1.id = some id → Proto.InI64 id := by
    rw [(reply_echoes h).1]
    intro id hid
    obtain ⟨req, hreq, hreqid⟩ := Option.bind_eq_some_iff.1 hid
    cases event with
    | oversized n => cases hreq
    | frame bytes sentinel =>
      cases hparse : Proto.parseRequest call.serde bytes with
      | error err => simp [Call.request, hparse, Except.toOption] at hreq
      | ok req' =>
        simp only [Call.request, hparse, Except.toOption, Option.some.injEq] at hreq
        exact Proto.inI64_of_parseRequest hparse id (hreq ▸ hreqid)
  exact ⟨hserde.toJson_eq hid, hserde.encode_eq hid x.2⟩

/-- No reply is sent to what is oversized, and to a command that sends none when it succeeds. -/
theorem reply_eq_none (h : call.reply event = none) :
    (∃ n, event = .oversized n) ∨ ∃ req, call.request event = some req ∧ silent req.method = true := by
  cases event with
  | oversized n => exact .inl ⟨n, rfl⟩
  | frame bytes sentinel =>
    unfold Call.reply at h
    unfold Call.request
    cases hparse : Proto.parseRequest call.serde bytes with
    | error err =>
      simp only [hparse] at h
      cases h
    | ok req =>
      simp only [hparse] at h ⊢
      split at h
      · next hsilent => exact .inr ⟨req, rfl, (Bool.and_eq_true_iff.1 hsilent).2⟩
      · cases h

end Dispatcher

/-! ### Lines -/

namespace Framing

theorem cut_prefix {first second : Bytes} (h : first <+: second) : (cut [] first).1 <+: (cut [] second).1 := by
  obtain ⟨rest, rfl⟩ := h
  rw [cut_append]
  exact List.prefix_append _ _

/-- A text without a delimiter is one line, however long. -/
theorem cut_line {json : Bytes} (h : ∀ byte ∈ json, byte ≠ newline ∧ byte ≠ sentinelByte) (sentinel : Bool) (rest : Bytes) :
    cut [] (encode json sentinel ++ rest) = (FrameDecoder.encoded (json, sentinel) ++ (cut [] rest).1, (cut [] rest).2) := by
  have hjson : cut [] (json ++ (newline :: rest)) = (⟨json, .newline⟩ :: (cut [] rest).1, (cut [] rest).2) := by
    rw [FrameDecoder.cut_data h, List.nil_append, cut, if_pos rfl]
  cases sentinel with
  | false => simpa [encode, FrameDecoder.encoded] using hjson
  | true =>
    have hsent : cut [] (sentinelByte :: (json ++ (newline :: rest))) =
        (⟨[], .sentinel⟩ :: (cut [] (json ++ (newline :: rest))).1, (cut [] (json ++ (newline :: rest))).2) := rfl
    simpa [encode, FrameDecoder.encoded, hjson] using hsent

end Framing

namespace Conversation

open Framing (specification cut)

variable {calls : Calls} {c c' : Conversation} {t : ConversationTurn}

/-! ### The replies to a stream -/

/-- A reply with the number of its request. -/
structure Reply where
  request : Nat
  response : Proto.Response
  sentinel : Bool

/-- The replies to the events of a session, in request order. -/
def repliesTo (calls : Calls) (events : List Framing.DecodeEvent) : List Reply :=
  events.zipIdx.filterMap fun x => ((calls.call x.2).reply x.1).map fun reply => ⟨x.2, reply.1, reply.2⟩

/-- What is sent for them, if the texts of documents are `text`: their lines. -/
def wireOf (text : Proto.Json → Bytes) (rs : List Reply) : Bytes := rs.flatMap fun r => r.response.line text r.sentinel

theorem mem_repliesTo {events : List Framing.DecodeEvent} {r : Reply} : r ∈ repliesTo calls events ↔
    ∃ event, events[r.request]? = some event ∧ (calls.call r.request).reply event = some (r.response, r.sentinel) := by
  unfold repliesTo
  rw [List.mem_filterMap]
  constructor
  · rintro ⟨x, hx, hr⟩
    obtain ⟨reply, hreply, rfl⟩ := Option.map_eq_some_iff.1 hr
    exact ⟨x.1, List.mem_zipIdx_iff_getElem?.1 hx, hreply⟩
  · rintro ⟨event, hevent, hreply⟩
    exact ⟨(event, r.request), List.mem_zipIdx_iff_getElem?.2 hevent, by rw [hreply]; rfl⟩

theorem pairwise_repliesTo (calls : Calls) (events : List Framing.DecodeEvent) :
    (repliesTo calls events).Pairwise fun r r' => r.request < r'.request := by
  unfold repliesTo
  rw [List.pairwise_filterMap, List.pairwise_iff_getElem]
  intro i j hi hj hij r hr r' hr'
  obtain ⟨reply, -, rfl⟩ := Option.map_eq_some_iff.1 hr
  obtain ⟨reply', -, rfl⟩ := Option.map_eq_some_iff.1 hr'
  simpa using hij

/-- The reply of the request `k`, as its call returns it. -/
def handled (calls : Calls) (events : List Framing.DecodeEvent) (k : Nat) : Option Bytes :=
  events[k]?.bind fun event => ((calls.call k).handle event .empty).1

section

variable {text : Proto.Json → Bytes} (hserde : (calls.call 0).serde.Compact text)
include hserde

theorem wire_handled (events : List Framing.DecodeEvent) :
    wire (handled calls events) events.length = wireOf text (repliesTo calls events) := by
  induction events using List.reverseRecOn with
  | nil => rfl
  | append_singleton events event ih =>
    have hwire : wire (handled calls (events ++ [event])) events.length = wire (handled calls events) events.length := by
      unfold wire
      congr 1
      refine List.map_congr_left fun k hk => ?_
      unfold handled
      rw [List.getElem?_append_left (List.mem_range.1 hk)]
    have hlast : handled calls (events ++ [event]) events.length =
        ((calls.call events.length).reply event).map fun x => x.1.line text x.2 := by
      unfold handled
      rw [List.getElem?_append_right (Nat.le_refl _), Nat.sub_self, List.getElem?_cons_zero, Option.bind_some,
        Dispatcher.handle_fst]
      exact Option.map_congr fun x hx => (Dispatcher.reply_line (calls.serde _ ▸ hserde) hx).2
    have hsnoc : wire (handled calls (events ++ [event])) (events ++ [event]).length =
        wire (handled calls (events ++ [event])) events.length ++ (handled calls (events ++ [event]) events.length).getD [] := by
      simp [wire, List.range_succ]
    rw [hsnoc, hwire, ih, hlast]
    unfold wireOf repliesTo
    rw [List.zipIdx_append, List.filterMap_append, List.flatMap_append]
    congr 1
    simp only [List.zipIdx_singleton, Nat.zero_add]
    cases hreply : (calls.call events.length).reply event with
    | none => simp [hreply]
    | some x => simp [hreply]

/-- The text of a reply has no newline, and no sentinel. -/
theorem oneLine_text {events : List Framing.DecodeEvent} {r : Reply} (h : r ∈ repliesTo calls events) :
    ∀ byte ∈ r.response.toText text, byte ≠ Framing.newline ∧ byte ≠ Framing.sentinelByte := by
  obtain ⟨event, -, hreply⟩ := mem_repliesTo.1 h
  have hcall : (calls.call r.request).serde.Compact text := calls.serde _ ▸ hserde
  rw [← (Dispatcher.reply_line hcall hreply).1]
  exact hcall.oneLine_toJson _

end

/-- Every line of what is sent is one reply. -/
theorem cut_wireOf {text : Proto.Json → Bytes} {rs : List Reply} (h : ∀ r ∈ rs, ∀ byte ∈ r.response.toText text,
    byte ≠ Framing.newline ∧ byte ≠ Framing.sentinelByte) :
    cut [] (wireOf text rs) = (rs.flatMap fun r => Framing.FrameDecoder.encoded (r.response.toText text, r.sentinel), []) := by
  induction rs with
  | nil => rfl
  | cons r rs ih =>
    obtain ⟨hr, hrs⟩ := List.forall_mem_cons.1 h
    have hcons : wireOf text (r :: rs) = Framing.encode (r.response.toText text) r.sentinel ++ wireOf text rs := by
      simp [wireOf, Proto.Response.line, Framing.encode]
    rw [hcons, Framing.cut_line hr, ih hrs, List.flatMap_cons]

/-! ### The run -/

theorem after_of_received {session : Session Framing.DecodeEvent} (h : session.received = c.session.received) :
    ((c.after session t).session = session ∧ (c.after session t).decoder = c.decoder ∧ (c.after session t).input = c.input) := by
  unfold after
  split
  · rw [if_pos h]
    exact ⟨rfl, rfl, rfl⟩
  · exact ⟨rfl, rfl, rfl⟩

/-- A read hands its chunk to the decoder. -/
theorem after_of_read {session : Session Framing.DecodeEvent} {chunk : Bytes} {changed : Option Changed} {finished : Nat → Bool}
    {writer : WriterAnswers} (h : session.received = c.session.received + chunk.length) :
    c.after session (.select changed finished writer (some (.bytes chunk))) =
      ⟨session, (c.decoder.push chunk).1, c.input ++ chunk⟩ := by
  dsimp only [after]
  cases chunk with
  | nil =>
    rw [List.length_nil, Nat.add_zero] at h
    rw [if_pos h, List.append_nil]
    rfl
  | cons byte chunk =>
    rw [List.length_cons] at h
    exact if_neg (by omega)

/-- What holds of a session with its bytes. -/
structure Inv (calls : Calls) (c : Conversation) : Prop where
  session : Session.Reachable (classify calls) c.session
  decoder : c.decoder = .amid (cut [] c.input).2 (Framing.sentinelSince (cut [] c.input).1)
  commands : (∀ s ∈ (cut [] c.input).1, s.bytes.length ≤ maxCount) →
    c.session.history.decoded = (specification c.input).map fun event => (classify calls event, event)
  outcomes : ∀ k r, c.session.outcome k = some r → ∃ kind event, c.session.history.decoded[k]? = some (kind, event) ∧
    ((calls.call k).handle event .empty).1 = r

theorem inv_start (calls : Calls) : Inv calls start where
  session := .init rfl
  decoder := rfl
  commands := fun _ => rfl
  outcomes := by
    intro k r h
    simp [start, Session.start, Session.outcome] at h

private theorem Inv.reads (hi : Inv calls c) (chunk : Bytes) :
    (c.decoder.push chunk).1 = .amid (cut [] (c.input ++ chunk)).2 (Framing.sentinelSince (cut [] (c.input ++ chunk)).1) ∧
      ((∀ s ∈ (cut [] (c.input ++ chunk)).1, s.bytes.length ≤ maxCount) →
        specification (c.input ++ chunk) = specification c.input ++ (c.decoder.push chunk).2) := by
  obtain ⟨hstate, hevents⟩ :=
    Framing.FrameDecoder.pushFrom_amid (cut [] c.input).1 (cut [] c.input).2 [] chunk
  rw [List.append_nil] at hstate hevents
  rw [hi.decoder, Framing.cut_append]
  refine ⟨hstate, fun hlen => ?_⟩
  rw [Framing.FrameDecoder.push, hevents fun s hs => hlen s (List.mem_append_right _ hs), specification, Framing.cut_append,
    Framing.eventsFrom_append, List.nil_append]
  rfl

private theorem Inv.handled (hi : Inv calls c) {i : Nat} {kind : Kind} {event : Framing.DecodeEvent} {r : Option Bytes}
    {finished : Nat → Bool} (hslot : c.session.slots[i]? = some (.pending kind event))
    (hr : c.replies calls finished (c.session.history.departed.length + i) = some r) :
    c.session.history.decoded[c.session.history.departed.length + i]? = some (kind, event) ∧
      ((calls.call (c.session.history.departed.length + i)).handle event .empty).1 = r := by
  refine ⟨(Session.Reachable.numbered hi.session).command hslot rfl, ?_⟩
  unfold replies at hr
  rw [Nat.add_sub_cancel_left, hslot] at hr
  cases hfinished : finished (c.session.history.departed.length + i) with
  | true =>
    rw [hfinished] at hr
    exact Option.some.inj hr
  | false =>
    rw [hfinished] at hr
    cases hr

theorem Inv.step (hi : Inv calls c) (h : c.step calls t = some c') : Inv calls c' := by
  obtain ⟨session, hs, rfl⟩ := Option.map_eq_some_iff.1 h
  have hreach : Session.Reachable (classify calls) session := hi.session.tail hs trivial
  cases Session.step_does hs with
  | quiet hquiet =>
    obtain ⟨hsession, hdecoder, hinput⟩ := after_of_received (t := t) hquiet.received
    refine ⟨?_, ?_, ?_, ?_⟩
    · rwa [hsession]
    · rw [hdecoder, hinput, hi.decoder]
    · rw [hsession, hinput, hquiet.decoded]
      exact hi.commands
    · rw [hsession]
      intro k r hk
      rw [hquiet.decoded]
      exact hi.outcomes k r (hquiet.outcome k ▸ hk)
  | finishes ht hreceived hdecoded houtcome =>
    obtain ⟨hsession, hdecoder, hinput⟩ := after_of_received (t := t) hreceived
    refine ⟨?_, ?_, ?_, ?_⟩
    · rwa [hsession]
    · rw [hdecoder, hinput, hi.decoder]
    · rw [hsession, hinput, hdecoded]
      exact hi.commands
    · rw [hsession]
      intro k r hk
      rw [hdecoded]
      rcases houtcome k r hk with hk | ⟨i, kind, event, rfl, hslot, hr⟩
      · exact hi.outcomes k r hk
      · cases t with
        | select changed finished writer read =>
          obtain rfl := Turn.select.inj ht
          exact ⟨kind, event, hi.handled hslot hr⟩
        | _ => cases ht
  | reads ht hread hreceived hdecoded houtcome =>
    cases t with
    | select changed finished writer read =>
      obtain rfl := Turn.select.inj ht
      obtain ⟨ans, rfl, hans⟩ := Option.map_eq_some_iff.1 hread
      cases ans with
      | bytes chunk =>
        cases hans
        obtain ⟨hstate, hevents⟩ := hi.reads chunk
        rw [after_of_read hreceived]
        refine ⟨hreach, hstate, fun hlen => ?_, fun k r hk => ?_⟩
        · have hearlier : ∀ s ∈ (cut [] c.input).1, s.bytes.length ≤ maxCount := by
            rw [Framing.cut_append] at hlen
            exact fun s hs => hlen s (List.mem_append_left _ hs)
          rw [hdecoded, hi.commands hearlier, hevents hlen, List.map_append]
        · obtain ⟨kind, event, hcommand, hr⟩ := hi.outcomes k r (houtcome k ▸ hk)
          refine ⟨kind, event, ?_, hr⟩
          rw [hdecoded, List.getElem?_append_left (List.getElem?_eq_some_iff.1 hcommand).1, hcommand]
      | _ => cases hans
    | _ => cases ht

theorem inv_of_reach (h : Reachable calls c) : Inv calls c :=
  h.invariant (fun _ hs => hs ▸ inv_start calls) fun _ _ _ _ hi hs _ => hi.step hs

/-! ### The contract -/

/-- What the host can rely on, whatever the chunks it is read in, the order in which the commands finish and the pace at which
it takes the replies.  The text of a document is `text`. -/
structure Correlated (calls : Calls) (text : Proto.Json → Bytes) (c : Conversation) : Prop where
  commands : c.session.history.decoded = (specification c.input).map fun event => (classify calls event, event)
  /-- It has the beginning of the replies to what was read, in request order. -/
  bytes : c.session.history.accepted <+: wireOf text (repliesTo calls (specification c.input))
  /-- Every line it has is one reply, after a `0xFF` if the reply has a sentinel. -/
  lines : (cut [] c.session.history.accepted).1 <+: (repliesTo calls (specification c.input)).flatMap fun r =>
    Framing.FrameDecoder.encoded (r.response.toText text, r.sentinel)
  order : (repliesTo calls (specification c.input)).Pairwise fun r r' => r.request < r'.request
  /-- A reply has the id of its request, and the sentinel of `guest-sync-delimited`. -/
  echo : ∀ r ∈ repliesTo calls (specification c.input), ∃ event, (specification c.input)[r.request]? = some event ∧
    r.response.id = ((calls.call r.request).request event).bind (·.id) ∧
    r.sentinel = (calls.call r.request).delimited event
  /-- No reply is missing but that of an oversized frame, and of a command that sends none when it succeeds. -/
  unanswered : ∀ (k : Nat) event, (specification c.input)[k]? = some event →
    (∀ r ∈ repliesTo calls (specification c.input), r.request ≠ k) →
    (∃ n, event = .oversized n) ∨ ∃ req, (calls.call k).request event = some req ∧ Dispatcher.silent req.method = true
  /-- A session that was not stopped has sent all of them, unless a write failed. -/
  complete : ∀ reason, c.session.pc = .ended reason → reason ≠ .cancelled → c.session.writeFailed = false →
    c.session.history.accepted = wireOf text (repliesTo calls (specification c.input))

private theorem Inv.sent (hi : Inv calls c)
    (hcommands : c.session.history.decoded = (specification c.input).map fun event => (classify calls event, event)) :
    c.session.sent = wire (Conversation.handled calls (specification c.input)) c.session.history.departed.length := by
  refine Session.sent_eq_wire fun k r hk => ?_
  obtain ⟨kind, event, hcommand, hr⟩ := hi.outcomes k r hk
  rw [hcommands, List.getElem?_map] at hcommand
  obtain ⟨event', hevent, heq⟩ := Option.map_eq_some_iff.1 hcommand
  cases heq
  rw [Conversation.handled, hevent]
  exact hr

/-- From the bytes of the host to those of the replies: the host that counts the lines, or reads their ids, finds the reply to
each of its requests. -/
theorem reply_correlation (calls : Calls) {c : Conversation} (h : Reachable calls c)
    (hlen : ∀ s ∈ (cut [] c.input).1, s.bytes.length ≤ maxCount)
    {text : Proto.Json → Bytes} (hserde : (calls.call 0).serde.Compact text) : Correlated calls text c := by
  have hi := inv_of_reach h
  have hcommands := hi.commands hlen
  have hdelivers := Session.Reachable.delivers hi.session
  have hsent := hi.sent hcommands
  have hlength : c.session.history.departed.length + c.session.slots.length = (specification c.input).length := by
    rw [(Session.Reachable.numbered hi.session).length, hcommands, List.length_map]
  have hbytes : c.session.history.accepted <+: wireOf text (repliesTo calls (specification c.input)) := by
    rw [← wire_handled hserde]
    exact (hsent ▸ hdelivers.inOrder).trans (wire_mono _ (by omega))
  refine ⟨hcommands, hbytes, ?_, pairwise_repliesTo _ _, fun r hr => ?_, fun k event hevent hnone => ?_,
    fun reason hpc hreason hwrite => ?_⟩
  · have hlines := Framing.cut_prefix hbytes
    rwa [cut_wireOf fun r hr => oneLine_text hserde hr] at hlines
  · obtain ⟨event, hevent, hreply⟩ := mem_repliesTo.1 hr
    exact ⟨event, hevent, Dispatcher.reply_echoes hreply⟩
  · refine Dispatcher.reply_eq_none (Option.eq_none_iff_forall_not_mem.2 fun x hx => ?_)
    exact hnone ⟨k, x.1, x.2⟩ (mem_repliesTo.2 ⟨event, hevent, hx⟩) rfl
  · obtain ⟨hslots, houtbox⟩ := (Session.Reachable.closes hi.session).finished hpc hreason
    have hreplies : c.session.outbox.replies = [] := houtbox.resolve_right (by simp [hwrite])
    have hwhole := hdelivers.whole hwrite
    rw [Outbox.unsent, hreplies, List.flatten_nil, List.drop_nil, List.append_nil, hsent] at hwhole
    rw [hwhole, ← wire_handled hserde]
    rw [hslots, List.length_nil, Nat.add_zero] at hlength
    rw [hlength]

/-- Two requests, with their ids. -/
def pingLine : Bytes := Utf8.encode "\x7b\"execute\":\"guest-ping\",\"id\":7\x7d"

def delimitedLine : Bytes :=
  Utf8.encode "\x7b\"execute\":\"guest-sync-delimited\",\"arguments\":\x7b\"id\":5\x7d,\"id\":8\x7d"

/-- A daemon that gets them, with `serde_json` on them and their replies. -/
def syncCalls : Calls where
  call := fun _ => {
    serde := {
      tokenise := fun bytes =>
        if bytes = pingLine then
          some (.object [("execute", .string "guest-ping"), ("id", .number (.posInt 7))])
        else if bytes = delimitedLine then
          some (.object [("execute", .string "guest-sync-delimited"), ("arguments", .object [("id", .number (.posInt 5))]),
            ("id", .number (.posInt 8))])
        else none
      error := fun _ => ⟨.syntaxError, 1, 1⟩
      toVec := fun x => some (Proto.write x) }
    digest := id
    features := ⟨false, false, false, false⟩
    suspendCompiled := false
    admits := fun _ => true
    stateBefore := .thawed
    stateAtGate := .thawed
    handlers := fun h _ => .ok (if h = .syncDelimited then .number (.posInt 5) else .object []) }
  serde := fun _ => rfl

/-- The two lines come in two reads, the second of which begins within the second line; the host takes the replies in two
pieces. -/
def syncTurns : List ConversationTurn :=
  let turn (finished : Nat → Bool) (writes : List WriteAnswer) (read : Option ChunkAnswer) : List ConversationTurn :=
    [.top false false, .stop false ⟨[], none⟩, .admission, .select none finished ⟨writes, none⟩ read]
  turn (fun _ => false) [] (some (.bytes (pingLine ++ [Framing.newline] ++ delimitedLine.take 9))) ++
    turn (fun _ => false) [] (some (.bytes (delimitedLine.drop 9 ++ [Framing.newline]))) ++
    turn (fun _ => true) [] none ++ turn (fun _ => false) [.accepted 9] none ++
    [.select none (fun _ => false) ⟨[.accepted 12, .accepted 21], none⟩ none]

def syncReplies : Bytes :=
  Utf8.encode "\x7b\"return\":\x7b\x7d,\"id\":7\x7d\n" ++
    Framing.sentinelByte :: Utf8.encode "\x7b\"return\":5,\"id\":8\x7d\n"

/-- The host finds the ids of its two requests, the second after a sentinel. -/
theorem reply_correlation_sync :
    ∃ c, Reachable syncCalls c ∧ c.session.history.accepted = syncReplies ∧ Correlated syncCalls Proto.write c := by
  obtain ⟨c, hc, hp⟩ : ∃ c, Reachable syncCalls c ∧
      decide (c.input = pingLine ++ [Framing.newline] ++ delimitedLine ++ [Framing.newline] ∧
        c.session.history.accepted = syncReplies) = true :=
    Machine.Reach.of_execute (fun _ _ _ => true) (fun _ _ _ _ => trivial) syncTurns _ rfl
      (by decide +kernel) (by decide +kernel)
  have hwire := of_decide_eq_true hp
  refine ⟨c, hc, hwire.2, reply_correlation syncCalls hc ?_ (Proto.compact_write _ _)⟩
  rw [hwire.1]
  decide

end Conversation

end Qeminga
