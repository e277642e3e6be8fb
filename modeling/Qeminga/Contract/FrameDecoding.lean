import Qeminga.Framing
import Qeminga.Lib.Machine

/-!
# The frame decoder against its specification

The specification reads a stream at once: it is cut at every newline and at every `0xFF`, and each segment yields what
its length, its bytes and its delimiter say.  A decoder that has read a stream, in whatever chunks, is in the state
`FrameDecoder.amid` of the bytes since the last cut and of whether a `0xFF` has occurred since the last frame; from this
follow the events, the bound of the buffer, the round trip with `encode` and the resynchronisation.
-/

namespace Qeminga

namespace Framing

/-! ### The specification -/

inductive Delimiter
  | newline | sentinel
  deriving DecidableEq, Repr

/-- A piece of the stream up to a delimiter, which is not one of its bytes. -/
structure Segment where
  bytes : Bytes
  ended : Delimiter
  deriving DecidableEq, Repr

/-- Cuts a stream at its delimiters, into the segments and the bytes after the last cut; `part` are the bytes since the
last cut before the stream. -/
def cut (part : Bytes) : Bytes → List Segment × Bytes
  | [] => ([], part)
  | byte :: stream =>
    if byte = newline then (⟨part, .newline⟩ :: (cut [] stream).1, (cut [] stream).2)
    else if byte = sentinelByte then (⟨part, .sentinel⟩ :: (cut [] stream).1, (cut [] stream).2)
    else cut (part ++ [byte]) stream

namespace Segment

def isOversized (s : Segment) : Bool := maxFrameLen < s.bytes.length

/-- The segment yields a frame: it ends with a newline, is not too long, and is not empty or all whitespace. -/
def isFrame (s : Segment) : Bool := s.ended = .newline && !s.isOversized && !s.bytes.all isAsciiWhitespace

end Segment

/-- A `0xFF` has occurred after the last of the segments that yields a frame. -/
def sentinelSince (segments : List Segment) : Bool :=
  (segments.reverse.takeWhile fun s => !s.isFrame).any fun s => s.ended = .sentinel

/-- What a segment yields at its delimiter, after the segments `earlier`. -/
def eventsAt (earlier : List Segment) (s : Segment) : List DecodeEvent :=
  if s.isOversized then [.oversized s.bytes.length]
  else if s.isFrame then [.frame s.bytes (sentinelSince earlier)]
  else []

def eventsFrom (earlier : List Segment) : List Segment → List DecodeEvent
  | [] => []
  | s :: segments => eventsAt earlier s ++ eventsFrom (earlier ++ [s]) segments

/-- The events of a whole stream. -/
def specification (stream : Bytes) : List DecodeEvent := eventsFrom [] (cut [] stream).1

theorem sentinelSince_snoc (segments : List Segment) (s : Segment) :
    sentinelSince (segments ++ [s]) = (!s.isFrame && (s.ended = .sentinel || sentinelSince segments)) := by
  unfold sentinelSince
  rw [List.reverse_append, List.reverse_singleton, List.singleton_append, List.takeWhile_cons]
  cases s.isFrame <;> simp

theorem eventsFrom_append (earlier first second : List Segment) :
    eventsFrom earlier (first ++ second) = eventsFrom earlier first ++ eventsFrom (earlier ++ first) second := by
  induction first generalizing earlier with
  | nil => simp [eventsFrom]
  | cons s first ih => simp [eventsFrom, ih, List.append_assoc]

/-- A stream may be cut piece by piece. -/
theorem cut_append (part first second : Bytes) :
    cut part (first ++ second) =
      ((cut part first).1 ++ (cut (cut part first).2 second).1, (cut (cut part first).2 second).2) := by
  induction first generalizing part with
  | nil => simp [cut]
  | cons byte first ih =>
    rw [List.cons_append]
    simp only [cut]
    split
    · simp [ih]
    · split
      · simp [ih]
      · exact ih _

namespace FrameDecoder

/-! ### The states of the decoder -/

/-- The decoder with the bytes `part` since the last delimiter, and with or without a `0xFF` since the last frame. -/
def amid (part : Bytes) (flag : Bool) : FrameDecoder :=
  if maxFrameLen < part.length then ⟨[], true, min part.length maxCount, flag⟩ else ⟨part, false, 0, flag⟩

@[simp] theorem amid_nil (flag : Bool) : amid [] flag = ⟨[], false, 0, flag⟩ := rfl

theorem amid_long {part : Bytes} (h : maxFrameLen < part.length) (flag : Bool) :
    amid part flag = ⟨[], true, min part.length maxCount, flag⟩ := if_pos h

theorem amid_short {part : Bytes} (h : ¬ maxFrameLen < part.length) (flag : Bool) : amid part flag = ⟨part, false, 0, flag⟩ :=
  if_neg h

private theorem saturatingAdd_min (m n : Nat) : saturatingAdd (min m maxCount) n = min (m + n) maxCount := by
  unfold saturatingAdd
  omega

private theorem maxFrameLen_lt_saturatingAdd (m n : Nat) : maxFrameLen < saturatingAdd m n ↔ maxFrameLen < m + n := by
  unfold saturatingAdd maxFrameLen maxCount
  omega

theorem consumeData_amid (part data : Bytes) (flag : Bool) : (amid part flag).consumeData data = amid (part ++ data) flag := by
  by_cases hdata : data = []
  · simp [consumeData, hdata]
  have hlen : (part ++ data).length = part.length + data.length := List.length_append
  by_cases hpart : maxFrameLen < part.length
  · rw [amid_long hpart, amid_long (by omega), hlen]
    simp [consumeData, hdata, saturatingAdd_min]
  · have hsat := maxFrameLen_lt_saturatingAdd part.length data.length
    rw [amid_short hpart]
    by_cases hboth : maxFrameLen < part.length + data.length
    · rw [amid_long (by omega), hlen]
      simp only [consumeData, List.isEmpty_iff, hdata, if_false, Bool.false_eq_true, if_pos (hsat.2 hboth)]
      rfl
    · rw [amid_short (by omega)]
      simp only [consumeData, List.isEmpty_iff, hdata, if_false, Bool.false_eq_true, if_neg (mt hsat.1 hboth)]

/-- A newline after the bytes `part`. -/
theorem endOfFrame_amid (part : Bytes) (flag : Bool) :
    (amid part flag).endOfFrame.1 = amid [] (!Segment.isFrame ⟨part, .newline⟩ && flag) := by
  by_cases hpart : maxFrameLen < part.length
  · simp [amid_long hpart, endOfFrame, hpart, Segment.isFrame, Segment.isOversized]
  · cases hblank : part.all isAsciiWhitespace <;>
      simp [amid_short hpart, endOfFrame, hpart, hblank, Segment.isFrame, Segment.isOversized]

theorem endOfFrame_events (earlier : List Segment) (part : Bytes) (h : part.length ≤ maxCount) :
    (amid part (sentinelSince earlier)).endOfFrame.2 = eventsAt earlier ⟨part, .newline⟩ := by
  by_cases hpart : maxFrameLen < part.length
  · simp [amid_long hpart, endOfFrame, hpart, eventsAt, Segment.isOversized, h]
  · cases hblank : part.all isAsciiWhitespace <;>
      simp [amid_short hpart, endOfFrame, hpart, hblank, eventsAt, Segment.isFrame, Segment.isOversized]

/-- A `0xFF` after the bytes `part`. -/
theorem sentinel_amid (part : Bytes) (flag : Bool) : (amid part flag).sentinel.1 = amid [] true := by
  by_cases hpart : maxFrameLen < part.length
  · simp [amid_long hpart, sentinel]
  · simp [amid_short hpart, sentinel]

theorem sentinel_events (earlier : List Segment) (part : Bytes) (flag : Bool) (h : part.length ≤ maxCount) :
    (amid part flag).sentinel.2 = eventsAt earlier ⟨part, .sentinel⟩ := by
  by_cases hpart : maxFrameLen < part.length
  · simp [amid_long hpart, sentinel, hpart, eventsAt, Segment.isOversized, h]
  · simp [amid_short hpart, sentinel, hpart, eventsAt, Segment.isFrame, Segment.isOversized]

/-- The loop of `push` with the bytes `data` of its input before it, after the segments `earlier` and the bytes `part`. -/
theorem pushFrom_amid (earlier : List Segment) (part data input : Bytes) :
    ((amid part (sentinelSince earlier)).pushFrom data input).1 =
        amid (cut (part ++ data) input).2 (sentinelSince (earlier ++ (cut (part ++ data) input).1)) ∧
      ((∀ s ∈ (cut (part ++ data) input).1, s.bytes.length ≤ maxCount) →
        ((amid part (sentinelSince earlier)).pushFrom data input).2 = eventsFrom earlier (cut (part ++ data) input).1) := by
  -- on the input; a delimiter begins a new segment with nothing in front of it
  induction input generalizing earlier part data with
  | nil => simp [pushFrom, consumeData_amid, cut, eventsFrom]
  | cons byte input ih =>
    by_cases hnew : byte = newline
    · have hflag : (!Segment.isFrame ⟨part ++ data, .newline⟩ && sentinelSince earlier) =
          sentinelSince (earlier ++ [⟨part ++ data, .newline⟩]) := by simp [sentinelSince_snoc]
      obtain ⟨hstate, hevents⟩ := ih (earlier ++ [⟨part ++ data, .newline⟩]) [] []
      simp only [pushFrom, cut, if_pos hnew, consumeData_amid, endOfFrame_amid, hflag]
      refine ⟨by simpa using hstate, fun hlen => ?_⟩
      rw [eventsFrom, endOfFrame_events earlier _ (hlen _ List.mem_cons_self),
        hevents fun s hs => hlen s (List.mem_cons_of_mem _ hs)]
      rfl
    · by_cases hsent : byte = sentinelByte
      · have hflag : true = sentinelSince (earlier ++ [⟨part ++ data, .sentinel⟩]) := by
          simp [sentinelSince_snoc, Segment.isFrame]
        obtain ⟨hstate, hevents⟩ := ih (earlier ++ [⟨part ++ data, .sentinel⟩]) [] []
        simp only [pushFrom, cut, if_neg hnew, if_pos hsent, consumeData_amid, sentinel_amid]
        rw [hflag]
        refine ⟨by simpa using hstate, fun hlen => ?_⟩
        rw [eventsFrom, sentinel_events earlier _ _ (hlen _ List.mem_cons_self),
          hevents fun s hs => hlen s (List.mem_cons_of_mem _ hs)]
        rfl
      · have h := ih earlier part (data ++ [byte])
        simp only [pushFrom, cut, if_neg hnew, if_neg hsent]
        rwa [← List.append_assoc] at h

/-- Any number of chunks, after the segments `earlier` and the bytes `part`. -/
theorem pushAll_amid (earlier : List Segment) (part : Bytes) (chunks : List Bytes) :
    ((amid part (sentinelSince earlier)).pushAll chunks).1 =
        amid (cut part chunks.flatten).2 (sentinelSince (earlier ++ (cut part chunks.flatten).1)) ∧
      ((∀ s ∈ (cut part chunks.flatten).1, s.bytes.length ≤ maxCount) →
        ((amid part (sentinelSince earlier)).pushAll chunks).2 = eventsFrom earlier (cut part chunks.flatten).1) := by
  induction chunks generalizing earlier part with
  | nil => simp [pushAll, cut, eventsFrom]
  | cons chunk chunks ih =>
    obtain ⟨hstate, hevents⟩ := pushFrom_amid earlier part [] chunk
    rw [List.append_nil] at hstate hevents
    obtain ⟨hstates, heventss⟩ := ih (earlier ++ (cut part chunk).1) (cut part chunk).2
    simp only [pushAll, push, List.flatten_cons, cut_append, hstate]
    refine ⟨by rw [hstates, List.append_assoc], fun hlen => ?_⟩
    rw [eventsFrom_append, hevents fun s hs => hlen s (List.mem_append_left _ hs),
      heventss fun s hs => hlen s (List.mem_append_right _ hs)]

/-! ### The reachable states -/

inductive Call
  | push (input : Bytes)
  | reset

def step (d : FrameDecoder) : Call → Option FrameDecoder
  | .push input => some (d.push input).1
  | .reset => some d.reset

abbrev Reachable : FrameDecoder → Prop := Machine.Reach step (fun _ _ _ => True) (· = new)

/-- Beyond `maxCount` bytes the decoder does not see how many there were. -/
private theorem amid_take (part : Bytes) (flag : Bool) : amid part flag = amid (part.take maxCount) flag := by
  by_cases hpart : maxFrameLen < part.length
  · have htake : (part.take maxCount).length = min maxCount part.length := List.length_take
    have hlong : maxFrameLen < (part.take maxCount).length := by
      rw [htake]
      unfold maxFrameLen maxCount at *
      omega
    rw [amid_long hpart, amid_long hlong, htake]
    congr 1
    omega
  · rw [List.take_of_length_le]
    unfold maxFrameLen maxCount at *
    omega

theorem Reachable.eq_amid {d : FrameDecoder} (h : Reachable d) : ∃ earlier part, d = amid part (sentinelSince earlier) := by
  refine h.invariant (I := fun d => ∃ earlier part, d = amid part (sentinelSince earlier)) ?_ ?_
  · rintro d rfl
    exact ⟨[], [], rfl⟩
  · rintro d call d' - ⟨earlier, part, rfl⟩ hs -
    cases call with
    | push input =>
      obtain rfl := Option.some.inj hs
      exact ⟨_, _, (pushFrom_amid earlier part [] input).1⟩
    | reset =>
      obtain rfl := Option.some.inj hs
      exact ⟨[], [], rfl⟩

theorem Reachable.bounded {d : FrameDecoder} (h : Reachable d) : d.buf.length ≤ maxFrameLen := by
  obtain ⟨earlier, part, rfl⟩ := Reachable.eq_amid h
  by_cases hpart : maxFrameLen < part.length
  · rw [amid_long hpart]
    exact Nat.zero_le _
  · rw [amid_short hpart]
    exact Nat.le_of_not_lt hpart

/-- Whatever the chunks of a stream, the decoder returns the events of the specification on the whole stream, if no
segment is so long that its count saturates; and its buffer is bounded in every state. -/
theorem push_meets_specification :
    (∀ chunks : List Bytes, (∀ s ∈ (cut [] chunks.flatten).1, s.bytes.length ≤ maxCount) →
      (new.pushAll chunks).2 = specification chunks.flatten) ∧
    ∀ d, Reachable d → d.buf.length ≤ maxFrameLen :=
  ⟨fun chunks hlen => (pushAll_amid [] [] chunks).2 hlen, fun _ h => Reachable.bounded h⟩

/-- Two frames, the second of them after a `0xFF`, in three chunks that split the first frame. -/
theorem push_meets_specification_of_two :
    (new.pushAll [[123], [125, 10, 32, 255], [97, 10]]).2 = [.frame [123, 125] false, .frame [97] true] :=
  (push_meets_specification.1 [[123], [125, 10, 32, 255], [97, 10]] (by decide)).trans (by decide)

/-! ### Encoded messages -/

/-- What is sent as one frame: without a delimiter, not too long, and not empty or all whitespace. -/
structure Sendable (json : Bytes) : Prop where
  data : ∀ byte ∈ json, byte ≠ newline ∧ byte ≠ sentinelByte
  length : json.length ≤ maxFrameLen
  visible : json.all isAsciiWhitespace = false

/-- The segments of an encoded message. -/
def encoded (m : Bytes × Bool) : List Segment := (if m.2 then [⟨[], .sentinel⟩] else []) ++ [⟨m.1, .newline⟩]

theorem cut_data {data : Bytes} (h : ∀ byte ∈ data, byte ≠ newline ∧ byte ≠ sentinelByte) (part rest : Bytes) :
    cut part (data ++ rest) = cut (part ++ data) rest := by
  induction data generalizing part with
  | nil => simp
  | cons byte data ih =>
    obtain ⟨hnew, hsent⟩ := h byte List.mem_cons_self
    rw [List.cons_append, cut, if_neg hnew, if_neg hsent, ih fun b hb => h b (List.mem_cons_of_mem _ hb)]
    simp

theorem Sendable.isFrame {json : Bytes} (h : Sendable json) : Segment.isFrame ⟨json, .newline⟩ = true := by
  have hlen := h.length
  simp [Segment.isFrame, Segment.isOversized, h.visible, Nat.not_lt.2 hlen]

private theorem cut_encode {m : Bytes × Bool} (h : Sendable m.1) (rest : Bytes) :
    cut [] (encode m.1 m.2 ++ rest) = (encoded m ++ (cut [] rest).1, (cut [] rest).2) := by
  obtain ⟨json, flag⟩ := m
  have hjson : ∀ rest, cut [] (json ++ (newline :: rest)) = (⟨json, .newline⟩ :: (cut [] rest).1, (cut [] rest).2) := by
    intro rest
    rw [cut_data h.data, List.nil_append, cut, if_pos rfl]
  cases flag with
  | false => simpa [encode, encoded] using hjson rest
  | true =>
    have hsent : cut [] (sentinelByte :: (json ++ (newline :: rest))) =
        (⟨[], .sentinel⟩ :: (cut [] (json ++ (newline :: rest))).1, (cut [] (json ++ (newline :: rest))).2) := rfl
    simpa [encode, encoded, hjson] using hsent

private theorem Sendable.eventsAt {json : Bytes} (h : Sendable json) (earlier : List Segment) :
    eventsAt earlier ⟨json, .newline⟩ = [.frame json (sentinelSince earlier)] := by
  have hover : Segment.isOversized ⟨json, .newline⟩ = false := by
    have hlen := h.length
    simpa [Segment.isOversized] using hlen
  rw [Framing.eventsAt, hover, h.isFrame]
  rfl

/-- The events of the segments of one message. -/
private theorem events_encoded {m : Bytes × Bool} (h : Sendable m.1) {earlier : List Segment}
    (hflag : sentinelSince earlier = false) : eventsFrom earlier (encoded m) = [.frame m.1 m.2] := by
  obtain ⟨json, flag⟩ := m
  cases flag with
  | false =>
    simp only [encoded, Bool.false_eq_true, if_false, List.nil_append, eventsFrom, h.eventsAt, hflag, List.append_nil]
  | true =>
    have hsent : sentinelSince (earlier ++ [⟨[], .sentinel⟩]) = true := by simp [sentinelSince_snoc, Segment.isFrame]
    have hnone : Framing.eventsAt earlier ⟨[], .sentinel⟩ = [] := by
      simp [Framing.eventsAt, Segment.isOversized, Segment.isFrame]
    simp only [encoded, if_true, List.singleton_append, eventsFrom, hnone, List.nil_append, h.eventsAt, hsent,
      List.append_nil]

/-- The messages are the events of the segments they are encoded as. -/
private theorem events_messages {messages : List (Bytes × Bool)} (h : ∀ m ∈ messages, Sendable m.1) (earlier : List Segment)
    (hflag : sentinelSince earlier = false) :
    eventsFrom earlier (messages.flatMap encoded) = messages.map fun m => .frame m.1 m.2 := by
  induction messages generalizing earlier with
  | nil => rfl
  | cons m messages ih =>
    have hm : Sendable m.1 := h _ List.mem_cons_self
    -- a frame clears the flag for the messages after it
    have hnext : sentinelSince (earlier ++ encoded m) = false := by
      unfold encoded
      rw [← List.append_assoc, sentinelSince_snoc, hm.isFrame]
      rfl
    rw [List.flatMap_cons, eventsFrom_append, events_encoded hm hflag,
      ih (fun m hm => h m (List.mem_cons_of_mem _ hm)) _ hnext]
    rfl

private theorem cut_messages {messages : List (Bytes × Bool)} (h : ∀ m ∈ messages, Sendable m.1) :
    cut [] (messages.flatMap fun m => encode m.1 m.2) = (messages.flatMap encoded, []) := by
  induction messages with
  | nil => rfl
  | cons m messages ih =>
    rw [List.flatMap_cons, cut_encode (h _ List.mem_cons_self), ih fun m hm => h m (List.mem_cons_of_mem _ hm)]
    rfl

private theorem Sendable.encoded_le {m : Bytes × Bool} (h : Sendable m.1) : ∀ s ∈ encoded m, s.bytes.length ≤ maxCount := by
  intro s hs
  have hlen : m.1.length ≤ maxCount := Nat.le_trans h.length (by decide)
  unfold encoded at hs
  rcases List.mem_append.1 hs with hs | hs
  · split at hs
    · obtain rfl := List.mem_singleton.1 hs
      exact Nat.zero_le _
    · cases hs
  · obtain rfl := List.mem_singleton.1 hs
    exact hlen

/-- Encoded messages, cut in any way, are decoded to themselves; and whatever the decoder has read before, a message with a
sentinel is decoded to itself after the end of what was oversized, and leaves nothing behind. -/
theorem encode_round_trip :
    (∀ (messages : List (Bytes × Bool)) (chunks : List Bytes), (∀ m ∈ messages, Sendable m.1) →
      chunks.flatten = (messages.flatMap fun m => encode m.1 m.2) →
      (new.pushAll chunks).2 = messages.map fun m => .frame m.1 m.2) ∧
    ∀ (d : FrameDecoder) (json : Bytes) (chunks : List Bytes), Reachable d → Sendable json →
      chunks.flatten = encode json true →
      ∃ lost : List DecodeEvent, (lost = [] ∨ ∃ n, lost = [.oversized n]) ∧
        d.pushAll chunks = (new, lost ++ [.frame json true]) := by
  refine ⟨fun messages chunks hm hc => ?_, fun d json chunks hd hjson hc => ?_⟩
  · have hcut := cut_messages hm
    have hlen : ∀ s ∈ (cut [] chunks.flatten).1, s.bytes.length ≤ maxCount := by
      rw [hc, hcut]
      intro s hs
      obtain ⟨m, hmem, hs⟩ := List.mem_flatMap.1 hs
      exact (hm m hmem).encoded_le s hs
    have hevents := (pushAll_amid [] [] chunks).2 hlen
    rw [hc, hcut, events_messages hm [] rfl] at hevents
    exact hevents
  · obtain ⟨earlier, long, rfl⟩ := Reachable.eq_amid hd
    rw [amid_take]
    generalize hpart : long.take maxCount = part
    have hcut : cut part chunks.flatten = ([⟨part, .sentinel⟩, ⟨json, .newline⟩], []) := by
      have hsent : cut part (sentinelByte :: (json ++ [newline])) =
          (⟨part, .sentinel⟩ :: (cut [] (json ++ [newline])).1, (cut [] (json ++ [newline])).2) := rfl
      rw [hc]
      simpa [encode, cut_data hjson.data, cut] using hsent
    have hlen : ∀ s ∈ (cut part chunks.flatten).1, s.bytes.length ≤ maxCount := by
      rw [hcut]
      intro s hs
      rcases List.mem_cons.1 hs with rfl | hs
      · rw [← hpart, List.length_take]
        exact Nat.min_le_left _ _
      · obtain rfl := List.mem_singleton.1 hs
        exact Nat.le_trans hjson.length (by decide)
    obtain ⟨hstate, hevents⟩ := pushAll_amid earlier part chunks
    have hevents := hevents hlen
    have hsent : sentinelSince (earlier ++ [⟨part, .sentinel⟩]) = true := by simp [sentinelSince_snoc, Segment.isFrame]
    rw [hcut] at hstate hevents
    simp only [eventsFrom, hjson.eventsAt, hsent, List.append_nil] at hevents
    refine ⟨Framing.eventsAt earlier ⟨part, .sentinel⟩, ?_, Prod.ext ?_ hevents⟩
    · unfold Framing.eventsAt
      split
      · exact .inr ⟨_, rfl⟩
      · exact .inl (if_neg (by simp [Segment.isFrame]))
    · have hclear : sentinelSince (earlier ++ [⟨part, .sentinel⟩, ⟨json, .newline⟩]) = false := by
        rw [show earlier ++ [⟨part, .sentinel⟩, ⟨json, .newline⟩] = earlier ++ [⟨part, .sentinel⟩] ++ [⟨json, .newline⟩] by simp,
          sentinelSince_snoc, hjson.isFrame]
        rfl
      rw [hstate, hclear]
      rfl

/-- Two messages, and one that resynchronises after the beginning of a frame. -/
theorem encode_round_trip_of_ping :
    (new.pushAll [[255], [123, 125, 10, 91, 93], [10]]).2 = [.frame [123, 125] true, .frame [91, 93] false] ∧
      ∃ lost : List DecodeEvent, (lost = [] ∨ ∃ n, lost = [.oversized n]) ∧
        (new.push [123, 34]).1.pushAll [[255, 123], [125, 10]] = (new, lost ++ [.frame [123, 125] true]) := by
  have hobject : Sendable [123, 125] := ⟨by simp [newline, sentinelByte], by decide, by decide⟩
  have harray : Sendable [91, 93] := ⟨by simp [newline, sentinelByte], by decide, by decide⟩
  have hnew : Reachable new := .init rfl
  have hquote : Reachable (new.push [123, 34]).1 := hnew.tail (a := .push [123, 34]) rfl trivial
  refine ⟨encode_round_trip.1 [([123, 125], true), ([91, 93], false)] _ ?_ (by decide),
    encode_round_trip.2 _ [123, 125] _ hquote hobject (by decide)⟩
  intro m hm
  rcases List.mem_cons.1 hm with rfl | hm
  · exact hobject
  · obtain rfl := List.mem_singleton.1 hm
    exact harray

end FrameDecoder

end Framing

end Qeminga
