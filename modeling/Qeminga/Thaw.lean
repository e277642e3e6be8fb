import Qeminga.Operation

/-!
# Thaw requests, the watchdog, status and start-up

The tasks beside the freeze operation: a `guest-fsfreeze-thaw` handler (`thaw`, `join_operation`) and the drain it
shares with the watchdog (`run_thaw`); the watchdog's timer loop; a `guest-fsfreeze-status` heartbeat; and
`start_recovery`.
-/

namespace Qeminga

/-! ### A thaw -/

/-- Where a thaw stands, between two accesses to the shared context: the two claims with the look-up between them,
the join of an operation, then `run_thaw` under a token. -/
inductive ThawPc
  | claim
  | lookup (err : TransitionError)
  | reclaim (err : TransitionError)
  | requestAbort (op : TaskId)
  | notify (op : TaskId)
  | waitSettled (op : TaskId)
  | joinClaim (op : TaskId)
  | readProgress (op : TaskId)
  | claimed (token : ThawToken)
  | take (token : ThawToken)
  | scope (token : ThawToken) (held : List Mount)
  | blocking (token : ThawToken) (j : Job ThawBlocking)
  | lost (token : ThawToken)
  | hold (token : ThawToken) (outcome : Except ThawFailure Nat) (held : List Mount)
  | finalise (token : ThawToken) (outcome : Except ThawFailure Nat)
  | rescope (token : ThawToken) (outcome : Except ThawFailure Nat)
  | publish (token : ThawToken) (outcome : Except ThawFailure Nat)
  | fail (token : ThawToken) (failure : ThawFailure)
  | arm (failure : ThawFailure)
  | install (w : TaskId) (failure : ThawFailure)
  | answer (r : Except ThawError Nat) (joined : Option TaskId)
  | finished

namespace Thaw

/-- The token a thaw holds. -/
def token : ThawPc → Option ThawToken
  | .claimed token => some token
  | .take token => some token
  | .scope token _ => some token
  | .blocking token _ => some token
  | .lost token => some token
  | .hold token _ _ => some token
  | .finalise token _ => some token
  | .rescope token _ => some token
  | .publish token _ => some token
  | .fail token _ => some token
  | _ => none

/-- A claim of the thaw token, with where a refusal leads. -/
def claims (c : Ctx) (i : TaskId) (claim : Except TransitionError (FreezeState × ThawToken))
    (refused : TransitionError → ThawPc) : Ctx × ThawPc :=
  match claim with
  | .ok (state, token) => ({ c with state := state, owner := some i }.note (.claimed i token), .claimed token)
  | .error err => (c, refused err)

/-- `join_operation` on an accepted abort: the answer from the operation's current progress. -/
def joinAnswer (p : Progress) : Except ThawError Nat :=
  match p.settled with
  | some .thawed => .ok p.recovered
  | some state => .error (.joinedFrozen state p.recovered p.unrecoverable)
  | none => .error (.pending p.recovered p.inFlight)

/-- What `run_thaw` does with the outcome of its drain. -/
def settles (token : ThawToken) : Except ThawFailure Nat → ThawPc
  | .ok n => .finalise token (.ok n)
  | .error failure => if token.isRecoveryDrain then .finalise token (.error failure) else .fail token failure

def reply : Except ThawFailure Nat → Except ThawError Nat
  | .ok n => .ok n
  | .error failure => .error (.failed failure)

/-- The next step of a thaw that does not wait for its drain; `fresh` is the identity of a watchdog it arms. -/
def go (cfg : Config) (c : Ctx) (i fresh : TaskId) : ThawPc → Option (Out ThawPc)
  | .claim =>
    let (c, pc) := claims c i c.state.claimThaw .lookup
    some ⟨c, pc, none⟩
  | .lookup err =>
    match c.slot with
    | some op => some ⟨c, .requestAbort op, none⟩
    | none => some ⟨c, .reclaim err, none⟩
  | .reclaim err =>
    let (c, pc) := claims c i c.state.claimThaw fun _ => .answer (.error (.cannotThaw err)) none
    some ⟨c, pc, none⟩
  | .requestAbort op =>
    let answer := (c.ops op).abortAnswer
    let next := match answer with | .accepted => ThawPc.notify op | .committed => .waitSettled op
    some ⟨(c.modOp op .markAborting).note (.requested op answer), next, none⟩
  | .notify op => some ⟨c.modOp op fun o => { o with notified := true }, .readProgress op, none⟩
  | .waitSettled op => if (c.ops op).progress.settled.isSome then some ⟨c, .joinClaim op, none⟩ else none
  | .joinClaim _ =>
    let (c, pc) := claims c i c.state.claimThaw fun err => .answer (.error (.cannotThaw err)) none
    some ⟨c, pc, none⟩
  | .readProgress op => some ⟨c, .answer (joinAnswer (c.ops op).progress) (some op), none⟩
  | .claimed token => some ⟨c.onThawClaimed, .take token, none⟩
  | .take token => some ⟨c.takeFrozenMounts, .scope token c.held, none⟩
  | .scope token held =>
    let discover := token.isRecoveryDrain || c.scope = .discovery
    some ⟨c.note (.began i c.snapshot), .blocking token (.start (.start discover held)), none⟩
  | .blocking token j =>
    if j.lost then some ⟨c, .lost token, none⟩
    else
      match j.val.stage with
      | .done r => some ⟨c, .hold token r j.val.keep, none⟩
      | _ => none
  | .lost token => some ⟨{ c with scope := .discovery }, .hold token (.error (.task .thaw)) [], none⟩
  | .hold token outcome held => some ⟨c.holdFrozenMounts held, settles token outcome, none⟩
  | .finalise token outcome => some ⟨c.onThawed, .rescope token outcome, none⟩
  | .rescope token outcome => some ⟨{ c with scope := .discovery }, .publish token outcome, none⟩
  | .publish token outcome =>
    some ⟨{ c with state := .thawSucceeded token, owner := none }.note (.published i .thawed c.snapshot),
      .answer (reply outcome) none, none⟩
  | .fail token failure =>
    some ⟨{ c with state := .thawFailed token, owner := none }.note (.published i .frozen c.snapshot), .arm failure, none⟩
  | .arm failure => some ⟨c.arm fresh, .install fresh failure, some (.arm cfg c.now)⟩
  | .install w failure => some ⟨c.install w, .answer (.error (.failed failure)) none, none⟩
  | .answer r joined => some ⟨c.note (.answered i r joined), .finished, none⟩
  | .finished => none

/-- One call of `thaw_blocking`. -/
def call (c : Ctx) (i : TaskId) (j : ThawBlocking) : Answer → Option (Ctx × ThawBlocking)
  | .table r =>
    match j.stage, r with
    | .table, .ok entries => some (c.note (.discovered i entries), j.plan r)
    | .table, .error _ => some (c, j.plan r)
    | _, _ => none
  | .opened ans =>
    match j.stage with
    | .open t path paths attempts =>
      match openMount path t.dev c.fd ans with
      | .ok m => some ({ c with fd := c.fd + 1 }, j.opened t path paths attempts (.ok m))
      | .error err => some (c, j.opened t path paths attempts (.error err))
    | _ => none
  | .fithaw ans =>
    match j.stage with
    | .drain m successes => (c.fithaw i m.dev ans).map fun c => (c, j.fithaw m successes ans)
    | _ => none
  | .unlink ans =>
    match j.stage with
    | .unlink => (c.unlink ans).map fun x => (x.1, j.removed x.2)
    | _ => none
  | _ => none

/-- What happens next in a thaw: a step of its task, or a call or the loss of its blocking drain. -/
inductive Choice
  | go
  | job (ans : Answer)
  | lose

def step (cfg : Config) (c : Ctx) (i fresh : TaskId) (pc : ThawPc) : Choice → Option (Out ThawPc)
  | .go => go cfg c i fresh pc
  | .job ans =>
    match pc with
    | .blocking token j =>
      if j.lost then none else (call c i j.val ans).map fun x => ⟨x.1, .blocking token ⟨x.2, false⟩, none⟩
    | _ => none
  | .lose =>
    match pc with
    | .blocking token j => some ⟨c, .blocking token ⟨j.val, true⟩, none⟩
    | _ => none

end Thaw

/-! ### The watchdog -/

namespace Dog

/-- What a poll of the timer loop does; `claim` is `expire`. -/
inductive Choice
  | poll | cancelled | fire | refresh | pend | claim
  deriving DecidableEq, Repr

/-- A watchdog, or the thaw it runs once its claim won. -/
inductive Next
  | dog (g : Dog)
  | thaw (token : ThawToken)

def step (cfg : Config) (c : Ctx) (i : TaskId) (g : Dog) : Choice → Option (Ctx × Next)
  | .poll => if g.stage = .waiting && !c.cancelled i then some (c, .dog { g with stage := .polled }) else none
  | .cancelled => if g.stage = .waiting && c.cancelled i then some (c, .dog { g with stage := .ended }) else none
  | .fire =>
    if g.stage = .polled && (decide (g.hardDeadline ≤ c.now) || decide (g.idleDeadline ≤ c.now)) then
      some (c, .dog { g with stage := .expiring })
    else none
  | .refresh =>
    if g.stage = .polled && c.refreshed i then
      some ({ c with refreshed := Function.update c.refreshed i false },
        .dog { g with idleDeadline := c.now + cfg.idle, stage := .waiting })
    else none
  | .pend => if g.stage = .polled then some (c, .dog { g with stage := .waiting }) else none
  | .claim =>
    if g.stage = .expiring then
      match c.state.claimThawFromFrozen with
      | .ok (state, token) => some ({ c with state := state, owner := some i }.note (.claimed i token), .thaw token)
      | .error _ => some (c, .dog { g with stage := .ended })
    else none

end Dog

/-! ### Status and start-up -/

/-- `guest-fsfreeze-status`: the state is read first, and a heartbeat refreshes the watchdog in the slot. -/
inductive StatusPc
  | read | heartbeat | answered
  deriving DecidableEq, Repr

def StatusPc.step (c : Ctx) : StatusPc → Option (Ctx × StatusPc)
  | .read => some (c, if c.state = .frozen then .heartbeat else .answered)
  | .heartbeat =>
    match c.watchdog with
    | some w => some ({ c with refreshed := Function.update c.refreshed w true }, .answered)
    | none => some (c, .answered)
  | .answered => none

/-- `start_recovery`: the ring, then the watchdog is armed and installed. -/
inductive StartupPc
  | ring | arm | install (w : TaskId) | finished
  deriving DecidableEq, Repr

def StartupPc.step (cfg : Config) (c : Ctx) (fresh : TaskId) : StartupPc → Option (Out StartupPc)
  | .ring => some ⟨c.onFreezing, .arm, none⟩
  | .arm => some ⟨c.arm fresh, .install fresh, some (.arm cfg c.now)⟩
  | .install w => some ⟨c.install w, .finished, none⟩
  | .finished => none

end Qeminga
