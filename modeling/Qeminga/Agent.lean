import Qeminga.Thaw
import Qeminga.Lib.Machine
import Qeminga.Lib.Pool

/-!
# The agent

All tasks together, over the shared context.  A step is a step of one task, the arrival of a request, a tick of the
clock, another freezer at work on the kernel, or a crash followed by a restart, which keeps only the kernel and the
marker file.
-/

namespace Qeminga

inductive Task
  | driver (d : Driver)
  | thaw (watchdog : Bool) (pc : ThawPc)
  | dog (g : Dog)
  | status (pc : StatusPc)
  | startup (pc : StartupPc)

namespace Task

def freezeToken : Task → Option FreezeToken
  | .driver d => d.token
  | _ => none

def thawToken : Task → Option ThawToken
  | .driver d => d.thawToken
  | .thaw _ pc => Thaw.token pc
  | _ => none

/-- The task holds a token of the state machine. -/
def holdsToken (t : Task) : Bool := t.freezeToken.isSome || t.thawToken.isSome

/-- The task has published `Frozen` (or started up in it) and has not finished its hook `on_frozen`. -/
def arming : Task → Bool
  | .driver d =>
    match d.pc with
    | .conclude .arm _ _ => true
    | .conclude (.install _) _ _ => true
    | _ => false
  | .thaw _ (.arm _) => true
  | .thaw _ (.install _ _) => true
  | .startup .finished => false
  | .startup _ => true
  | _ => false

/-- The watchdog the task has armed and not yet put into the slot. -/
def installing : Task → Option TaskId
  | .driver d =>
    match d.pc with
    | .conclude (.install w) _ _ => some w
    | _ => none
  | .thaw _ (.install w _) => some w
  | .startup (.install w) => some w
  | _ => none

/-- What happens next in a task. -/
inductive Choice
  | driver (ch : Driver.Choice)
  | thaw (ch : Thaw.Choice)
  | dog (ch : Dog.Choice)
  | go

def step (cfg : Config) (c : Ctx) (i fresh : TaskId) : Task → Choice → Option (Out Task)
  | .driver d, .driver ch => (d.step cfg c i fresh ch).map fun o => ⟨o.ctx, .driver o.task, o.spawned⟩
  | .thaw w pc, .thaw ch => (Thaw.step cfg c i fresh pc ch).map fun o => ⟨o.ctx, .thaw w o.task, o.spawned⟩
  | .dog g, .dog ch =>
    (g.step cfg c i ch).map fun x =>
      match x.2 with
      | .dog g => ⟨x.1, .dog g, none⟩
      | .thaw token => ⟨x.1, .thaw true (.claimed token), none⟩
  | .status pc, .go => (pc.step c).map fun x => ⟨x.1, .status x.2, none⟩
  | .startup pc, .go => (pc.step cfg c fresh).map fun o => ⟨o.ctx, .startup o.task, o.spawned⟩
  | _, _ => none

end Task

/-- The agent: the context and the tasks by identity. -/
abbrev Agent := Pool Ctx Task

inductive Action
  | task (i : TaskId) (ch : Task.Choice)
  | freeze (restrict : Option (List Path))
  | thaw
  | status
  | tick (n : Nat)
  | foreignFreeze (d : Dev)
  | foreignThaw (d : Dev)
  | crash

namespace Agent

/-- What a start of the agent finds and sets up: the kernel and the marker stay, and with the marker the agent is in
recovery mode. -/
def bootCtx (c : Ctx) : Ctx :=
  { c with state := if c.marker then .frozen else .thawed, owner := none, held := [], scope := .discovery
           slot := none, watchdog := none, ring := c.marker }

/-- A start of the agent; with the marker there is a recovery start-up task. -/
def boot (c : Ctx) (next : TaskId) : Agent where
  ctx := bootCtx c
  tasks := Function.update (fun _ => none) next (if c.marker then some (.startup .ring) else none)
  next := next + 1

/-- The context once `run_freeze` has registered the operation `i`. -/
def freezeCtx (cfg : Config) (c : Ctx) (i : TaskId) (restrict : Option (List Path)) : Ctx :=
  let c' := Ctx.onFreezing { c with state := .freezing, owner := some i }
  let c' := { c' with ops := Function.update c'.ops i (.start (c.now + cfg.operationTimeout)), slot := some i }
  (c'.note (.started i restrict c.snapshot)).note (.spawned i .prep)

/-- `run_freeze` up to the spawn of the driver.  There is no suspension point in it and the handlers of a session
share one task, and nothing else reads the slot or the ring while the state is `Freezing` and no driver exists. -/
def freeze (cfg : Config) (a : Agent) (restrict : Option (List Path)) : Agent :=
  match a.ctx.state.beginFreeze with
  | .error _ => a
  | .ok (_, token) => a.spawn (freezeCtx cfg a.ctx a.next restrict) (.driver (.start token restrict a.ctx))

def step (cfg : Config) (a : Agent) : Action → Option Agent
  | .task i ch =>
    match a.tasks i with
    | some t => (t.step cfg a.ctx i a.next ch).map fun o => a.apply i o.ctx o.task (o.spawned.map .dog)
    | none => none
  | .freeze restrict => some (freeze cfg a restrict)
  | .thaw => some (a.spawn a.ctx (.thaw false .claim))
  | .status => some (a.spawn a.ctx (.status .read))
  | .tick n => some { a with ctx := { a.ctx with now := a.ctx.now + n } }
  | .foreignFreeze d =>
    some { a with ctx := { a.ctx with depth := Function.update a.ctx.depth d (a.ctx.depth d + 1) } }
  | .foreignThaw d =>
    if 0 < a.ctx.depth d then
      some { a with ctx := { a.ctx with
        depth := Function.update a.ctx.depth d (a.ctx.depth d - 1)
        own := Function.update a.ctx.own d (a.ctx.own d && decide (1 < a.ctx.depth d)) } }
    else none
  | .crash => some (boot a.ctx a.next)

/-- A first start: without a marker no superblock is frozen by the agent, and there is no operation yet. -/
structure Initial (a : Agent) : Prop where
  booted : ∃ c next, a = boot c next
  frozen : ∀ d, a.ctx.own d = true → 0 < a.ctx.depth d
  marked : ∀ d, a.ctx.own d = true → a.ctx.marker = true
  log : a.ctx.log = []
  ops : ∀ i, (a.ctx.ops i).progress.settled = none

/-- A first start on a kernel with nothing frozen. -/
def cold (marker : Bool) : Agent :=
  boot { depth := fun _ => 0, own := fun _ => false, marker := marker, state := .thawed, owner := none, held := []
         scope := .discovery, slot := none, now := 0, watchdog := none, cancelled := fun _ => false
         refreshed := fun _ => false, ring := false, ops := fun _ => .start 0, fd := 0, log := [] } 0

theorem cold_initial (marker : Bool) : Initial (cold marker) := ⟨⟨_, _, rfl⟩, by rintro d ⟨⟩, by rintro d ⟨⟩, rfl, fun _ => rfl⟩

end Agent

/-! ### Scripts

Pieces of concrete runs, as lists of actions. -/

namespace Script

def driver (i : TaskId) (ch : Driver.Choice) : Action := .task i (.driver ch)

def thaw (i : TaskId) (ch : Thaw.Choice) : Action := .task i (.thaw ch)

def dog (i : TaskId) (ch : Dog.Choice) : Action := .task i (.dog ch)

/-- `n` steps of the driver of `op` itself. -/
def drive (op : TaskId) (n : Nat) : List Action := List.replicate n (driver op .go)

/-- `n` steps of the thaw `i` itself. -/
def proceed (i : TaskId) (n : Nat) : List Action := List.replicate n (thaw i .go)

/-- The preparation of `op` with the mount table `entries`. -/
def prepare (op : TaskId) (entries : List MountEntry) : List Action :=
  [driver op (.job (.table (.ok entries))), driver op (.job (.create (.ok ()))), driver op (.job (.fsync (.ok ()))),
    driver op .done]

/-- The next target of `op`, on `d`, with the answer `r` to its `FIFREEZE`. -/
def attempt (op : TaskId) (d : Dev) (r : Except KernelError Unit) : List Action :=
  drive op 3 ++ [driver op (.job (.opened (.found d))), driver op (.job .check), driver op (.job .check),
    driver op (.job (.fifreeze r)), driver op .done]

/-- A row of the mount table that is eligible for freezing. -/
def row (d : Dev) (mountPoint : Path) : MountEntry := ⟨d.2, 0, d.1, d.2, mountPoint, "ext4", "/dev/sda"⟩

/-- A freeze of the superblock `(8, 1)` by the operation 1, up to its reply. -/
def freezeOne : List Action :=
  [.freeze none] ++ prepare 1 [row (8, 1) [slash]] ++ attempt 1 (8, 1) (.ok ()) ++ drive 1 12

/-- The tracked thaw of `(8, 1)` after `freezeOne`, by the task 3. -/
def thawOne : List Action :=
  [.thaw] ++ proceed 3 4 ++ [thaw 3 (.job (.fithaw (.ok ()))), thaw 3 (.job (.fithaw (.error (.errno .EINVAL)))),
    thaw 3 (.job (.unlink .ok))] ++ proceed 3 6

end Script

end Qeminga
