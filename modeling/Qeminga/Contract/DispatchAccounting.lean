import Qeminga.Dispatcher
import Qeminga.ReplyText

/-!
# What the dispatcher accounts for

Every decoder event leaves one audit record.  The record allows the command exactly when its handler ran, and otherwise
names the first condition that failed.  The classifiers of the source are separate matches on the method, so the facts
here are about every string: a method that the allowlist has is known to each of the others.  Of a reply they tell its
bytes, as far as the texts of documents are known.
-/

namespace Qeminga

namespace Dispatcher

open Proto (Json Response Serde)

variable {call : Call} {req : Proto.Request} {log : Log}

/-! ### The classifiers -/

/-- The class of the method has no bucket, or its bucket has a token. -/
def Call.withinQuota (call : Call) (method : String) : Bool :=
  match CommandClass.of method with
  | some commandClass => commandClass = .unlimited || call.admits commandClass
  | none => false

/-- The allowlist is the list of the commands. -/
theorem isAllowlisted_iff {method : String} :
    isAllowlisted method = true ↔ method ∈ supportedCommands.map CommandSpec.name := by
  unfold isAllowlisted
  rw [decide_eq_true_iff]
  rfl

/-- What holds of each command by name holds of every method that is allowlisted. -/
theorem forall_allowlisted {P : String → Prop} (hP : ∀ m ∈ supportedCommands.map CommandSpec.name, P m) {method : String}
    (h : isAllowlisted method = true) : P method :=
  hP method (isAllowlisted_iff.1 h)

theorem isSome_class {method : String} (h : isAllowlisted method = true) : (CommandClass.of method).isSome = true :=
  forall_allowlisted (P := fun m => (CommandClass.of m).isSome = true) (by decide) h

theorem check_eq (call : Call) {method : String} (h : isAllowlisted method = true) :
    call.check ((CommandClass.of method).getD .shutdown) =
      if call.withinQuota method then .ok () else .error (.rateLimited ((CommandClass.of method).getD .shutdown).name) := by
  obtain ⟨c, hc⟩ := Option.isSome_iff_exists.1 (isSome_class h)
  unfold Call.check Call.withinQuota
  simp only [hc, Option.getD_some, Bool.or_eq_true, decide_eq_true_eq]
  by_cases hunlimited : c = .unlimited
  · simp [hunlimited]
  · simp [hunlimited]

/-- The conditions of the gates in their order, each with the denial of a request that fails it. -/
def Call.conditions (call : Call) (req : Proto.Request) : List (Bool × Denial) :=
  [(isAllowlisted req.method, .commandNotFound), (call.enabled.enabled req.method, .disabled),
    (call.withinQuota req.method, .rateLimited),
    (isFrozenSafe req.method || decide (call.stateAtGate = .thawed), .frozen)]

/-- The denial that a request is due: that of the first condition it fails. -/
def Call.denial (call : Call) (req : Proto.Request) : Option Denial :=
  ((call.conditions req).find? fun c => !c.1).map Prod.snd

/-- The gates deny what they should, and say so. -/
theorem gates_spec (call : Call) (req : Proto.Request) :
    (call.gates req = .ok () ∧ call.denial req = none) ∨
      ∃ denial err, call.gates req = .error (denial, err) ∧ call.denial req = some denial := by
  by_cases hallow : isAllowlisted req.method = true
  · have hcheck := check_eq call hallow
    by_cases henabled : call.enabled.enabled req.method = true
    · by_cases hquota : call.withinQuota req.method = true
      · by_cases hgate : (isFrozenSafe req.method || decide (call.stateAtGate = .thawed)) = true
        · refine .inl ⟨?_, ?_⟩
          · have hopen : (call.stateAtGate.isFrozenForGate && !isFrozenSafe req.method) = false := by
              cases hs : isFrozenSafe req.method with
              | true => simp
              | false =>
                rw [hs, Bool.false_or, decide_eq_true_iff] at hgate
                simp [hgate, FreezeState.isFrozenForGate]
            simp [Call.gates, Call.runtimeFeatureGate, hallow, henabled, hcheck, hquota, hopen, Except.mapError, bind,
              Except.bind, pure, Except.pure]
          · simp [Call.denial, Call.conditions, hallow, henabled, hquota, hgate]
        · refine .inr ⟨.frozen, .frozen, ?_, ?_⟩
          · have hclosed : (call.stateAtGate.isFrozenForGate && !isFrozenSafe req.method) = true := by
              rw [Bool.not_eq_true, Bool.or_eq_false_iff, decide_eq_false_iff_not] at hgate
              cases hs : call.stateAtGate <;> simp_all [FreezeState.isFrozenForGate]
            simp [Call.gates, Call.runtimeFeatureGate, hallow, henabled, hcheck, hquota, hclosed, Except.mapError, bind,
              Except.bind, throw, throwThe, MonadExceptOf.throw]
          · simp [Call.denial, Call.conditions, hallow, henabled, hquota, hgate]
      · refine .inr ⟨.rateLimited, .rateLimited ((CommandClass.of req.method).getD .shutdown).name, ?_, ?_⟩
        · simp [Call.gates, Call.runtimeFeatureGate, hallow, henabled, hcheck, hquota, Except.mapError, bind, Except.bind]
        · simp [Call.denial, Call.conditions, hallow, henabled, hquota]
    · refine .inr ⟨.disabled, .disabled req.method, ?_, ?_⟩
      · simp [Call.gates, Call.runtimeFeatureGate, hallow, henabled, Except.mapError, bind, Except.bind]
      · simp [Call.denial, Call.conditions, hallow, henabled]
  · refine .inr ⟨.commandNotFound, .commandNotFound req.method, ?_, ?_⟩
    · simp [Call.gates, hallow, bind, Except.bind, throw, throwThe, MonadExceptOf.throw]
    · simp [Call.denial, Call.conditions, hallow]

theorem denial_eq_some_iff {denial : Denial} :
    call.denial req = some denial ↔ ∃ err, call.gates req = .error (denial, err) := by
  rcases gates_spec call req with ⟨hgates, hdenial⟩ | ⟨denial', err, hgates, hdenial⟩
  · simp [hgates, hdenial]
  · simp [hgates, hdenial]

/-- A denial is none of a request that meets every condition. -/
theorem denial_eq_none_iff : call.denial req = none ↔ isAllowlisted req.method = true ∧
    call.enabled.enabled req.method = true ∧ call.withinQuota req.method = true ∧
    (isFrozenSafe req.method = true ∨ call.stateAtGate = .thawed) := by
  simp [Call.denial, Call.conditions]

/-- The gates of the daemon's model deny a request for the same reasons. -/
theorem gates_eq_denial (call : Call) (req : Proto.Request) (arguments : Arguments) :
    Qeminga.gates call.enabled call.stateAtGate (!call.withinQuota req.method) ⟨req.method, arguments, req.id⟩ =
      (call.denial req).elim (.ok ()) .error := by
  unfold Qeminga.gates Call.denial Call.conditions
  cases isAllowlisted req.method with
  | false => rfl
  | true =>
    cases call.enabled.enabled req.method with
    | false => rfl
    | true =>
      cases call.withinQuota req.method with
      | false => rfl
      | true => cases isFrozenSafe req.method <;> cases call.stateAtGate <;> rfl

/-! ### The handlers -/

/-- The command of a handler. -/
def Handler.command : Handler → String
  | .ping => "guest-ping"
  | .info => "guest-info"
  | .sync => "guest-sync"
  | .syncDelimited => "guest-sync-delimited"
  | .osinfo => "guest-get-osinfo"
  | .interfaces => "guest-network-get-interfaces"
  | .fsinfo => "guest-get-fsinfo"
  | .fsfreezeStatus => "guest-fsfreeze-status"
  | .fsfreezeFreeze => "guest-fsfreeze-freeze"
  | .fsfreezeFreezeList => "guest-fsfreeze-freeze-list"
  | .fsfreezeThaw => "guest-fsfreeze-thaw"
  | .fstrim => "guest-fstrim"
  | .shutdown => "guest-shutdown"
  | .suspend => "guest-suspend-ram"

/-- The handlers in the order of the commands. -/
def handlers : List Handler :=
  [.ping, .info, .sync, .syncDelimited, .osinfo, .interfaces, .fsinfo, .fsfreezeStatus, .fsfreezeFreeze,
    .fsfreezeFreezeList, .fsfreezeThaw, .fstrim, .shutdown, .suspend]

theorem map_command : handlers.map Handler.command = supportedCommands.map CommandSpec.name := rfl

theorem mem_handlers (handler : Handler) : handler ∈ handlers := by
  cases handler <;> decide

theorem exists_command {method : String} (h : isAllowlisted method = true) : ∃ handler : Handler, handler.command = method := by
  have hmem := isAllowlisted_iff.1 h
  rw [← map_command] at hmem
  obtain ⟨handler, -, hcommand⟩ := List.mem_map.1 hmem
  exact ⟨handler, hcommand⟩

/-- The handler that an enabled command runs is its own. -/
theorem runHandler_spec (call : Call) (log : Log) (hallow : isAllowlisted req.method = true)
    (henabled : call.enabled.enabled req.method = true) :
    ∃ h : Handler, h.command = req.method ∧ call.runHandler req log =
      (call.handlers h req, { log with ran := log.ran ++ [h], handlerCalls := log.handlerCalls + 1 }) := by
  obtain ⟨h, hcommand⟩ := exists_command hallow
  refine ⟨h, hcommand, ?_⟩
  have hmethod := hcommand.symm
  cases h with
  | suspend =>
    have hcompiled : call.suspendCompiled = true := by
      simp [hmethod, Handler.command, Features.enabled, Call.enabled] at henabled
      exact henabled.1
    simp [Call.runHandler, hmethod, Handler.command, hcompiled]
    rfl
  | _ =>
    simp [Call.runHandler, hmethod, Handler.command]
    rfl

/-- A request that is denied is recorded as denied, and runs nothing; one that is not denied is recorded as allowed, and
its handler runs. -/
theorem result_spec (call : Call) (req : Proto.Request) (log : Log) :
    (call.denial req = none ∧ ∃ h : Handler, h.command = req.method ∧ call.result req log = (call.handlers h req,
      { records := log.records ++ [call.record req.method req.id .allowed none], ran := log.ran ++ [h],
        handlerCalls := log.handlerCalls + 1 })) ∨
    ∃ denial err, call.denial req = some denial ∧ call.result req log = (.error err,
      { log with records := log.records ++ [call.record req.method req.id .denied (some (.gate denial))] }) := by
  rcases gates_spec call req with ⟨hgates, hdenial⟩ | ⟨denial, err, hgates, hdenial⟩
  · obtain ⟨hallow, henabled, -, -⟩ := denial_eq_none_iff.1 hdenial
    obtain ⟨h, hcommand, hrun⟩ := runHandler_spec call
      { log with records := log.records ++ [call.record req.method req.id .allowed none] } hallow henabled
    refine .inl ⟨hdenial, h, hcommand, ?_⟩
    unfold Call.result
    rw [hgates]
    exact hrun
  · refine .inr ⟨denial, err, hdenial, ?_⟩
    unfold Call.result
    rw [hgates]
    rfl

/-! ### An event -/

/-- The request that an event carries. -/
def Call.request (call : Call) : Framing.DecodeEvent → Option Proto.Request
  | .oversized _ => none
  | .frame bytes _ => (Proto.parseRequest call.serde bytes).toOption

/-- Why an event is denied: the first condition that fails, that the frame parses being the first of all. -/
def Call.reason (call : Call) : Framing.DecodeEvent → Option Reason
  | .oversized _ => some .oversizedFrame
  | .frame bytes _ =>
    match Proto.parseRequest call.serde bytes with
    | .error _ => some .parseError
    | .ok req => (call.denial req).map .gate

/-- The command sends no reply when it succeeds. -/
def silent (method : String) : Bool := (spec method).any fun s => !s.successResponse

/-- The reply to a request whose result is given. -/
def Call.answer (call : Call) (req : Proto.Request) (result : Except Proto.Error Json) : Option Bytes :=
  if result.isOk && silent req.method then none
  else some (Framing.encode (call.serde.toJson (.fromResult req.id result)) (req.method = "guest-sync-delimited"))

theorem handle_parsed {bytes : Bytes} {sentinel : Bool} (h : Proto.parseRequest call.serde bytes = .ok req) (log : Log) :
    call.handle (.frame bytes sentinel) log = (call.answer req (call.result req log).1, (call.result req log).2) := by
  unfold Call.handle
  simp only [h]
  have hbind : ∀ (m : DispatchM (Except Proto.Error Json)) (f : Except Proto.Error Json → DispatchM (Option Bytes)),
      (m >>= f) log = f (m log).1 (m log).2 := fun _ _ => rfl
  rw [hbind]
  unfold Call.answer silent
  split <;> rfl

/-- The two commands that end a freeze and show it pass every gate. -/
theorem denial_thaw_or_status (h : req.method = "guest-fsfreeze-thaw" ∨ req.method = "guest-fsfreeze-status") :
    call.denial req = none := by
  rw [denial_eq_none_iff]
  rcases h with h | h <;>
    simp [h, isAllowlisted, Features.enabled, Call.withinQuota, CommandClass.of, isFrozenSafe]

theorem answer_eq_none_iff {result : Except Proto.Error Json} :
    call.answer req result = none ↔ result.isOk = true ∧ silent req.method = true := by
  unfold Call.answer
  split
  · next h => simpa using h
  · next h => simpa using h

theorem answer_eq_some {result : Except Proto.Error Json} {bytes : Bytes} (h : call.answer req result = some bytes) :
    bytes = Framing.encode (call.serde.toJson (.fromResult req.id result)) (req.method = "guest-sync-delimited") := by
  unfold Call.answer at h
  split at h
  · cases h
  · exact (Option.some.inj h).symm

theorem id_fromResult (id : Option Int) (result : Except Proto.Error Json) : (Response.fromResult id result).id = id := by
  cases result <;> rfl

/-- The event asks for `guest-sync-delimited`. -/
def Call.delimited (call : Call) (event : Framing.DecodeEvent) : Bool :=
  (call.request event).any fun req => req.method = "guest-sync-delimited"

/-- What one event leaves: its record, the handlers that ran and the reply.  The text of a document is `text`. -/
structure Accounted (call : Call) (text : Json → Bytes) (event : Framing.DecodeEvent) (record : AuditRecord)
    (ran : List Handler) (reply : Option Bytes) : Prop where
  /-- The record allows what ran, and one handler ran exactly when every condition holds. -/
  allowed : record.disposition = .allowed ↔ ran.length = 1
  one_ran : ran.length = 1 ↔ ∃ req, call.request event = some req ∧ isAllowlisted req.method = true ∧
    call.enabled.enabled req.method = true ∧ call.withinQuota req.method = true ∧
    (isFrozenSafe req.method = true ∨ call.stateAtGate = .thawed)
  none_ran : ran.length ≠ 1 → ran = []
  /-- What ran is the handler of the command that was asked for. -/
  own_handler : ∀ h ∈ ran, ∃ req, call.request event = some req ∧ h.command = req.method
  reason : record.reason = call.reason event
  no_reply : reply = none ↔ (∃ n, event = .oversized n) ∨
    ∃ req h, call.request event = some req ∧ ran = [h] ∧ silent req.method = true ∧ (call.handlers h req).isOk = true
  /-- A reply is the line of what the handler returned, or of an error, with the id of the request if it has one. -/
  echo : ∀ bytes, reply = some bytes → ∃ result,
    bytes = (Response.fromResult ((call.request event).bind (·.id)) result).line text (call.delimited event) ∧
    ∀ req h, call.request event = some req → h ∈ ran → result = call.handlers h req
  /-- It begins with the sentinel if the command is `guest-sync-delimited`, and has none otherwise. -/
  sentinel : ∀ bytes, reply = some bytes →
    (bytes.head? = some Framing.sentinelByte ↔ call.delimited event = true) ∧
    (Framing.sentinelByte ∈ bytes ↔ call.delimited event = true)
  /-- Thaw and status are denied only as part of a frame that does not parse. -/
  thaw_or_status : ∀ req, call.request event = some req →
    req.method = "guest-fsfreeze-thaw" ∨ req.method = "guest-fsfreeze-status" → record.disposition = .allowed

theorem accounted_oversized (call : Call) (text : Json → Bytes) (n : Nat) :
    Accounted call text (.oversized n) (call.record "" none .denied (some .oversizedFrame)) [] none where
  allowed := ⟨by rintro ⟨⟩, by rintro ⟨⟩⟩
  one_ran := ⟨by rintro ⟨⟩, by rintro ⟨req, ⟨⟩, -⟩⟩
  none_ran := fun _ => rfl
  own_handler := fun _ h => absurd h List.not_mem_nil
  reason := rfl
  no_reply := ⟨fun _ => .inl ⟨n, rfl⟩, fun _ => rfl⟩
  echo := by rintro bytes ⟨⟩
  sentinel := by rintro bytes ⟨⟩
  thaw_or_status := by rintro req ⟨⟩

section

variable {text : Json → Bytes} (hserde : call.serde.Compact text)
include hserde

theorem accounted_unparsed {bytes : Bytes} {sentinel : Bool} {err : Proto.Error}
    (h : Proto.parseRequest call.serde bytes = .error err) :
    Accounted call text (.frame bytes sentinel) (call.record "" none .denied (some .parseError)) []
      (some (Framing.encode (call.serde.toJson (.error (.of err) none)) false)) := by
  have hreq : call.request (.frame bytes sentinel) = none := by simp [Call.request, h, Except.toOption]
  have hdelimited : call.delimited (.frame bytes sentinel) = false := by rw [Call.delimited, hreq]; rfl
  exact {
    allowed := ⟨by rintro ⟨⟩, by rintro ⟨⟩⟩
    one_ran := ⟨by rintro ⟨⟩, by rintro ⟨req, hr, -⟩; rw [hreq] at hr; cases hr⟩
    none_ran := fun _ => rfl
    own_handler := fun _ h => absurd h List.not_mem_nil
    reason := by simp [Call.reason, Call.record, h]
    no_reply := by
      refine ⟨by rintro ⟨⟩, ?_⟩
      rintro (⟨n, ⟨⟩⟩ | ⟨req, h, hr, -⟩)
      rw [hreq] at hr
      cases hr
    echo := by
      intro reply hreply
      obtain rfl := Option.some.inj hreply
      refine ⟨.error err, ?_, fun _ _ _ h => absurd h List.not_mem_nil⟩
      rw [hreq, hdelimited]
      exact hserde.encode_eq (by rintro id ⟨⟩) false
    sentinel := by
      intro reply hreply
      obtain rfl := Option.some.inj hreply
      rw [hdelimited]
      exact hserde.sentinel_encode _ _
    thaw_or_status := by
      intro req hr
      rw [hreq] at hr
      cases hr }

/-- The reply to a request that was parsed is a line with its id, and the sentinel if it asks for one. -/
theorem answer_line {bytes : Bytes} {sentinel : Bool} {result : Except Proto.Error Json} {reply : Bytes}
    (h : Proto.parseRequest call.serde bytes = .ok req) (hreply : call.answer req result = some reply) :
    reply = (Response.fromResult ((call.request (.frame bytes sentinel)).bind (·.id)) result).line text
        (call.delimited (.frame bytes sentinel)) ∧
      (reply.head? = some Framing.sentinelByte ↔ call.delimited (.frame bytes sentinel) = true) ∧
      (Framing.sentinelByte ∈ reply ↔ call.delimited (.frame bytes sentinel) = true) := by
  have hreq : call.request (.frame bytes sentinel) = some req := by simp [Call.request, h, Except.toOption]
  have hdelimited : call.delimited (.frame bytes sentinel) = decide (req.method = "guest-sync-delimited") := by
    rw [Call.delimited, hreq]
    rfl
  have hid : ∀ id, (Response.fromResult req.id result).id = some id → Proto.InI64 id := by
    rw [id_fromResult]
    exact Proto.inI64_of_parseRequest h
  rw [hreq, hdelimited, answer_eq_some hreply]
  exact ⟨hserde.encode_eq hid _, hserde.sentinel_encode _ _⟩

theorem accounted_denied {bytes : Bytes} {sentinel : Bool} {denial : Denial} {err : Proto.Error}
    (h : Proto.parseRequest call.serde bytes = .ok req) (hdenial : call.denial req = some denial) :
    Accounted call text (.frame bytes sentinel) (call.record req.method req.id .denied (some (.gate denial))) []
      (call.answer req (.error err)) := by
  have hreq : call.request (.frame bytes sentinel) = some req := by simp [Call.request, h, Except.toOption]
  exact {
    allowed := ⟨by rintro ⟨⟩, by rintro ⟨⟩⟩
    one_ran := by
      refine ⟨by rintro ⟨⟩, ?_⟩
      rintro ⟨r, hr, hconditions⟩
      rw [hreq] at hr
      cases hr
      rw [denial_eq_none_iff.2 hconditions] at hdenial
      cases hdenial
    none_ran := fun _ => rfl
    own_handler := fun _ h => absurd h List.not_mem_nil
    reason := by simp [Call.reason, Call.record, h, hdenial]
    no_reply := by
      constructor
      · intro hnone
        cases (answer_eq_none_iff.1 hnone).1
      · rintro (⟨n, ⟨⟩⟩ | ⟨r, hd, -, ⟨⟩, -⟩)
    echo := fun reply hreply =>
      ⟨.error err, (answer_line hserde h hreply).1, fun _ _ _ h => absurd h List.not_mem_nil⟩
    sentinel := fun reply hreply => (answer_line hserde h hreply).2
    thaw_or_status := by
      intro r hr hmethod
      rw [hreq] at hr
      cases hr
      rw [denial_thaw_or_status hmethod] at hdenial
      cases hdenial }

theorem accounted_allowed {bytes : Bytes} {sentinel : Bool} (h : Proto.parseRequest call.serde bytes = .ok req)
    (hdenial : call.denial req = none) {handler : Handler} (hcommand : handler.command = req.method) :
    Accounted call text (.frame bytes sentinel) (call.record req.method req.id .allowed none) [handler]
      (call.answer req (call.handlers handler req)) := by
  have hreq : call.request (.frame bytes sentinel) = some req := by simp [Call.request, h, Except.toOption]
  exact {
    allowed := ⟨fun _ => rfl, fun _ => rfl⟩
    one_ran := ⟨fun _ => ⟨req, hreq, denial_eq_none_iff.1 hdenial⟩, fun _ => rfl⟩
    none_ran := fun hne => absurd rfl hne
    own_handler := by
      intro other hother
      obtain rfl := List.mem_singleton.1 hother
      exact ⟨req, hreq, hcommand⟩
    reason := by simp [Call.reason, Call.record, h, hdenial]
    no_reply := by
      rw [answer_eq_none_iff]
      constructor
      · rintro ⟨hok, hsilent⟩
        exact .inr ⟨req, handler, hreq, rfl, hsilent, hok⟩
      · rintro (⟨n, ⟨⟩⟩ | ⟨r, hd, hr, hran, hsilent, hok⟩)
        rw [hreq] at hr
        cases hr
        cases hran
        exact ⟨hok, hsilent⟩
    echo := by
      intro reply hreply
      refine ⟨_, (answer_line hserde h hreply).1, fun r other hr hother => ?_⟩
      rw [hreq] at hr
      cases hr
      rw [List.mem_singleton.1 hother]
    sentinel := fun reply hreply => (answer_line hserde h hreply).2
    thaw_or_status := fun _ _ _ => rfl }

end

/-- One audit record for every event, which accounts for what the dispatcher did. -/
theorem dispatch_accounting (call : Call) {text : Json → Bytes} (hserde : call.serde.Compact text)
    (event : Framing.DecodeEvent) :
    ∃ record, (call.handle event .empty).2.records = [record] ∧
      Accounted call text event record (call.handle event .empty).2.ran (call.handle event .empty).1 := by
  cases event with
  | oversized n => exact ⟨_, rfl, accounted_oversized call text n⟩
  | frame bytes sentinel =>
    cases hparse : Proto.parseRequest call.serde bytes with
    | error err =>
      have hhandle : call.handle (.frame bytes sentinel) .empty =
          (some (Framing.encode (call.serde.toJson (.error (.of err) none)) false),
            { Log.empty with records := [call.record "" none .denied (some .parseError)] }) := by
        unfold Call.handle
        simp only [hparse]
        rfl
      rw [hhandle]
      exact ⟨_, rfl, accounted_unparsed hserde hparse⟩
    | ok req =>
      rw [handle_parsed hparse]
      rcases result_spec call req .empty with ⟨hdenial, handler, hcommand, hresult⟩ | ⟨denial, err, hdenial, hresult⟩
      · rw [hresult]
        exact ⟨_, rfl, accounted_allowed hserde hparse hdenial hcommand⟩
      · rw [hresult]
        exact ⟨_, rfl, accounted_denied hserde hparse hdenial⟩

/-- A frame that asks for a delimited sync. -/
def delimitedFrame : Bytes :=
  Utf8.encode "\x7b\"execute\":\"guest-sync-delimited\",\"arguments\":\x7b\"id\":5\x7d,\"id\":7\x7d"

/-- A call that gets it, with `serde_json` on it and its reply. -/
def delimitedCall : Call where
  serde := {
    tokenise := fun bytes =>
      if bytes = delimitedFrame then
        some (.object [("execute", .string "guest-sync-delimited"), ("arguments", .object [("id", .number (.posInt 5))]),
          ("id", .number (.posInt 7))])
      else none
    error := fun _ => ⟨.syntaxError, 1, 1⟩
    toVec := fun x => some (Proto.write x) }
  digest := id
  features := ⟨false, false, false, false⟩
  suspendCompiled := false
  admits := fun _ => true
  stateBefore := .thawed
  stateAtGate := .thawed
  handlers := fun _ _ => .ok (.number (.posInt 5))

/-- The reply to it is a sentinel and the line of its value with its id. -/
theorem dispatch_accounting_delimited :
    ((delimitedCall.handle (.frame delimitedFrame false) .empty).2.ran = [.syncDelimited] ∧
      (delimitedCall.handle (.frame delimitedFrame false) .empty).1 =
        some (Framing.sentinelByte :: Utf8.encode "\x7b\"return\":5,\"id\":7\x7d\n")) ∧
    ∃ record, (delimitedCall.handle (.frame delimitedFrame false) .empty).2.records = [record] ∧
      Accounted delimitedCall Proto.write (.frame delimitedFrame false) record
        (delimitedCall.handle (.frame delimitedFrame false) .empty).2.ran
        (delimitedCall.handle (.frame delimitedFrame false) .empty).1 :=
  ⟨by decide +kernel, dispatch_accounting delimitedCall (Proto.compact_write _ _) (.frame delimitedFrame false)⟩

end Dispatcher

end Qeminga
