import Qeminga.Dispatcher

/-!
# A session with its bytes

`run_session_until` over the frame decoder and the dispatcher: a read brings a chunk of the input, whose events are those of
the decoder, and a command that finishes does so with the reply of its call.
-/

namespace Qeminga

/-- The calls of a session by request number: what the dispatcher finds when it gets to the request. -/
structure Calls where
  call : Nat → Dispatcher.Call
  /-- They read and write with the same `serde_json`. -/
  serde : ∀ k, (call k).serde = (call 0).serde

/-- What a read brings. -/
inductive ChunkAnswer
  | eof
  | bytes (chunk : Bytes)
  | failed (e : Errno)

/-- A step of the loop; `finished` gives the running commands that finish in a poll, by request number. -/
inductive ConversationTurn
  | top (cancel mayStop : Bool)
  | stop (mayStop : Bool) (writer : WriterAnswers)
  | admission
  | select (changed : Option Changed) (finished : Nat → Bool) (writer : WriterAnswers) (read : Option ChunkAnswer)

/-- `input` is what has been read so far. -/
structure Conversation where
  session : Session Framing.DecodeEvent
  decoder : Framing.FrameDecoder
  input : Bytes

namespace Conversation

variable (calls : Calls)

/-- A new session, after `reset` of the decoder. -/
def start : Conversation := ⟨.start, .new, []⟩

def classify : Framing.DecodeEvent → Kind := (calls.call 0).classify

/-- The reply of a command that finishes; it is the call of the event in its slot. -/
def replies (c : Conversation) (finished : Nat → Bool) (k : Nat) : Option (Option Bytes) :=
  match finished k, c.session.slots[k - c.session.history.departed.length]? with
  | true, some (.pending _ event) => some ((calls.call k).handle event .empty).1
  | _, _ => none

def answer (c : Conversation) : ChunkAnswer → ReadAnswer Framing.DecodeEvent
  | .eof => .eof
  | .bytes chunk => .bytes chunk.length (c.decoder.push chunk).2
  | .failed e => .failed e

def turn (c : Conversation) : ConversationTurn → Turn Framing.DecodeEvent
  | .top cancel mayStop => .top cancel mayStop
  | .stop mayStop writer => .stop mayStop writer
  | .admission => .admission
  | .select changed finished writer read => .select ⟨changed, c.replies calls finished, writer, read.map c.answer⟩

/-- The decoder has the chunk if the branch of the reader ran. -/
def after (c : Conversation) (session : Session Framing.DecodeEvent) : ConversationTurn → Conversation
  | .select _ _ _ (some (.bytes chunk)) =>
    if session.received = c.session.received then { c with session := session }
    else ⟨session, (c.decoder.push chunk).1, c.input ++ chunk⟩
  | _ => { c with session := session }

def step (c : Conversation) (t : ConversationTurn) : Option Conversation :=
  (c.session.step (classify calls) (c.turn calls t)).map fun session => c.after session t

/-- Every run of a session with its bytes. -/
abbrev Reachable : Conversation → Prop := Machine.Reach (step calls) (fun _ _ _ => True) (· = start)

end Conversation

end Qeminga
