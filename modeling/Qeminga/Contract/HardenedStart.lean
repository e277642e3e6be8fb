import Qeminga.Contract.PrivilegeDrop
import Qeminga.RouterMoves
import Qeminga.Startup

/-!
# The hardened start

What holds of the process when `serve` is called, whatever the system answers before.  Under enforced hardening the drop
has run, the audit writer was created under the dropped credentials, and the filter of the configuration is installed; no
refusal can be passed by, since each step of the sequence either does its part or ends the startup.
-/

namespace Qeminga

namespace Caps

open Fallible

variable {fault : Nat → Option String} {name : String} {account : Account} {authority : Authority} {call : CapCall}

/-- The ids of the service account. -/
structure HasIds (c : Creds) (account : Account) : Prop where
  uids : c.ruid = account.uid ∧ c.euid = account.uid ∧ c.suid = account.uid
  gids : c.rgid = account.gid ∧ c.egid = account.gid ∧ c.sgid = account.gid
  groups : c.groups = [account.gid]

/-- The credentials after a drop that ended, whatever it began with. -/
structure Lowered (c : Creds) (account : Account) (authority : Authority) : Prop extends HasIds c account where
  effective : c.effective = finalCapabilitySet authority
  permitted : c.permitted = finalCapabilitySet authority
  bounding : c.bounding ⊆ finalCapabilitySet authority
  inheritable : c.inheritable = ∅
  ambient : c.ambient = ∅
  keepCaps : c.keepCaps = false
  noNewPrivs : c.noNewPrivs = true

/-- The credentials of the process have `P`. -/
def Holds (P : Creds → Prop) (p : Proc) : Prop := P p.creds

/-- A call that is done leads from credentials with `P` to credentials with `Q`. -/
private theorem step_post {P Q : Creds → Prop} (h : ∀ c c', P c → c.call call = some c' → Q c') :
    Spec (Holds P) (step fault name call) (fun _ => Holds Q) fun _ _ => True := by
  intro p hp
  cases hf : fault p.trace.length with
  | some reason => simp [step, ExceptT.run, hf]
  | none =>
    cases hcall : p.creds.call call with
    | none => simp [step, ExceptT.run, hf, hcall]
    | some creds =>
      have hq : Holds Q ⟨creds, ⟨call, .done, creds⟩ :: p.trace⟩ := h _ _ hp hcall
      simpa [step, ExceptT.run, hf, hcall] using hq

/-- What the trimming and the calls after it keep. -/
private structure Trimmed (finals : Finset Capability) (account : Account) (c : Creds) : Prop extends HasIds c account where
  bounding : c.bounding ⊆ finals

/-- The calls for the ids. -/
private def changesIds : CapCall → Bool
  | .setgroups _ => true
  | .setresgid _ => true
  | .setresuid _ => true
  | _ => false

variable {c c' : Creds} {finals : Finset Capability}

/-- The other calls keep the ids. -/
private theorem HasIds.keeps (h : HasIds c account) (hkeep : changesIds call = false) (hcall : c.call call = some c') :
    HasIds c' account := by
  cases call with
  | setgroups _ | setresgid _ | setresuid _ => cases hkeep
  | setPermitted _ | setEffective _ | dropBounding _ =>
    simp only [Creds.call] at hcall
    split at hcall <;> cases hcall
    exact ⟨h.uids, h.gids, h.groups⟩
  | _ =>
    obtain rfl := Option.some.inj hcall
    exact ⟨h.uids, h.gids, h.groups⟩

/-- No call adds to the bounding set. -/
private theorem bounding_call (hcall : c.call call = some c') : c'.bounding ⊆ c.bounding := by
  cases call with
  | dropBounding cap =>
    simp only [Creds.call] at hcall
    split at hcall <;> cases hcall
    exact Finset.erase_subset _ _
  | setgroups _ | setresgid _ | setresuid _ | setPermitted _ | setEffective _ =>
    simp only [Creds.call] at hcall
    split at hcall <;> cases hcall
    exact Finset.Subset.refl _
  | _ =>
    obtain rfl := Option.some.inj hcall
    exact Finset.Subset.refl _

private theorem Trimmed.keeps (h : Trimmed finals account c) (hkeep : changesIds call = false) (hcall : c.call call = some c') :
    Trimmed finals account c' :=
  ⟨h.toHasIds.keeps hkeep hcall, (bounding_call hcall).trans h.bounding⟩

private theorem bounding_post (account : Account) :
    Spec (Holds (HasIds · account)) (readBounding fault)
      (fun bounding => Holds fun c => HasIds c account ∧ bounding = c.bounding) fun _ _ => True := by
  refine Spec.bind (Q := fun _ => Holds (HasIds · account)) (step_post fun c c' hc hcall => hc.keeps rfl hcall) fun _ => ?_
  refine Spec.bind (Q := fun p p' => Holds (HasIds · account) p' ∧ p = p') (.get fun _ hp => ⟨hp, rfl⟩) fun p => ?_
  exact .pure fun _ hp => ⟨hp.1, by rw [hp.2]⟩

/-- The trimming takes every capability from the bounding set that does not stay. -/
private theorem trims_post {bounding finals : Finset Capability} :
    Spec (Holds fun c => HasIds c account ∧ bounding = c.bounding)
      ((toDrop bounding finals).forM fun cap => step fault "bounding set drop" (.dropBounding cap))
      (fun _ => Holds (Trimmed finals account)) fun _ _ => True := by
  have hloop : ∀ caps : List Capability, Spec
      (Holds fun c => HasIds c account ∧ ∀ cap ∈ c.bounding, cap ∈ finals ∨ cap ∈ caps)
      (caps.forM fun cap => step fault "bounding set drop" (.dropBounding cap))
      (fun _ => Holds (Trimmed finals account)) fun _ _ => True := by
    intro caps
    induction caps with
    | nil => exact .pure fun p hp => ⟨hp.1, fun cap hcap => (hp.2 cap hcap).resolve_right List.not_mem_nil⟩
    | cons cap caps ih =>
      refine (step_post fun c c' hc hcall => ⟨hc.1.keeps rfl hcall, fun cap' hcap' => ?_⟩).bind fun _ => ih
      simp only [Creds.call] at hcall
      split at hcall <;> cases hcall
      obtain ⟨hne, hmem⟩ := Finset.mem_erase.1 hcap'
      exact (hc.2 cap' hmem).imp_right fun h => (List.mem_cons.1 h).resolve_left hne
  refine (hloop _).consequence (fun p hp => ⟨hp.1, fun cap hcap => ?_⟩) (fun _ _ h => h) fun _ _ h => h
  by_cases hfinal : cap ∈ finals
  · exact .inl hfinal
  · refine .inr (mem_toDrop.2 ⟨?_, hfinal⟩)
    rw [hp.2]
    exact hcap

/-- Whatever credentials the drop begins with: if it ends, they are lowered. -/
theorem dropPrivilegesTo_lowered (fault : Nat → Option String) (account : Account) (authority : Authority) :
    Spec (Holds fun _ => True) (dropPrivilegesTo fault account authority) (fun _ => Holds (Lowered · account authority))
      fun _ _ => True := by
  unfold dropPrivilegesTo
  dsimp only
  generalize hfinals : finalCapabilitySet authority = finals
  -- The ids.
  refine (step_post (P := fun _ => True) (Q := fun _ => True) fun _ _ _ _ => trivial).bind fun _ => ?_
  refine (step_post (Q := fun c => c.groups = [account.gid]) ?_).bind fun _ => ?_
  · intro c c' _ hcall
    simp only [Creds.call] at hcall
    split at hcall <;> cases hcall
    rfl
  refine (step_post (Q := fun c => c.groups = [account.gid] ∧
    c.rgid = account.gid ∧ c.egid = account.gid ∧ c.sgid = account.gid) ?_).bind fun _ => ?_
  · intro c c' hc hcall
    simp only [Creds.call] at hcall
    split at hcall <;> cases hcall
    exact ⟨hc, rfl, rfl, rfl⟩
  refine (step_post (Q := fun c => HasIds c account) ?_).bind fun _ => ?_
  · intro c c' hc hcall
    simp only [Creds.call] at hcall
    split at hcall <;> cases hcall
    exact ⟨⟨rfl, rfl, rfl⟩, hc.2, hc.1⟩
  -- The sets are raised and the bounding set is trimmed.
  have hraise : ∀ (name : String) (call : CapCall), changesIds call = false →
      Spec (Holds (HasIds · account)) (step fault name call) (fun _ => Holds (HasIds · account)) fun _ _ => True :=
    fun _ _ hkeep => step_post fun _ _ hc hcall => hc.keeps hkeep hcall
  refine (hraise _ _ rfl).bind fun _ => (hraise _ _ rfl).bind fun _ => (bounding_post account).bind fun b => ?_
  refine trims_post.bind fun _ => ?_
  -- The sets are lowered.
  refine (step_post (Q := fun c => Trimmed finals account c ∧ c.effective = finals) ?_).bind fun _ => ?_
  · intro c c' hc hcall
    refine ⟨hc.keeps rfl hcall, ?_⟩
    simp only [Creds.call] at hcall
    split at hcall <;> cases hcall
    rfl
  refine (step_post (Q := fun c => Trimmed finals account c ∧ c.effective = finals ∧ c.permitted = finals) ?_).bind
    fun _ => ?_
  · intro c c' hc hcall
    refine ⟨hc.1.keeps rfl hcall, ?_⟩
    simp only [Creds.call] at hcall
    split at hcall <;> cases hcall
    exact ⟨hc.2, rfl⟩
  refine (step_post (Q := fun c => Trimmed finals account c ∧ c.effective = finals ∧ c.permitted = finals ∧
    c.inheritable = ∅ ∧ c.ambient = ∅) ?_).bind fun _ => ?_
  · intro c c' hc hcall
    have htrimmed := hc.1.keeps rfl hcall
    obtain rfl := Option.some.inj hcall
    exact ⟨htrimmed, hc.2.1, hc.2.2, rfl, rfl⟩
  refine (step_post (Q := fun c => Trimmed finals account c ∧ c.effective = finals ∧ c.permitted = finals ∧
    c.inheritable = ∅ ∧ c.ambient = ∅) ?_).bind fun _ => ?_
  · intro c c' hc hcall
    have htrimmed := hc.1.keeps rfl hcall
    obtain rfl := Option.some.inj hcall
    exact ⟨htrimmed, hc.2.1, hc.2.2.1, hc.2.2.2.1, rfl⟩
  refine (step_post (Q := fun c => Trimmed finals account c ∧ c.effective = finals ∧ c.permitted = finals ∧
    c.inheritable = ∅ ∧ c.ambient = ∅ ∧ c.keepCaps = false) ?_).bind fun _ => ?_
  · intro c c' hc hcall
    have htrimmed := hc.1.keeps rfl hcall
    obtain rfl := Option.some.inj hcall
    exact ⟨htrimmed, hc.2.1, hc.2.2.1, hc.2.2.2.1, hc.2.2.2.2, rfl⟩
  refine step_post fun c c' hc hcall => ?_
  obtain rfl := Option.some.inj hcall
  obtain ⟨htrimmed, heffective, hpermitted, hinheritable, hambient, hkeep⟩ := hc
  subst hfinals
  exact {
    uids := htrimmed.uids
    gids := htrimmed.gids
    groups := htrimmed.groups
    effective := heffective
    permitted := hpermitted
    bounding := htrimmed.bounding
    inheritable := hinheritable
    ambient := hambient
    keepCaps := hkeep
    noNewPrivs := rfl }

end Caps

namespace Startup

open Fallible
open Configuration (LogLevel)
open Seccomp (Rule)

variable {sys : System} {r r' : Router} {p : Process}

/-! ### The router -/

/-- The writer that was started stays, and one that has left does not come back. -/
structure SameThread (r r' : Router) : Prop where
  started : r'.started = r.started
  exited : r.exited = true → r'.exited = true

theorem SameThread.refl (r : Router) : SameThread r r := ⟨rfl, id⟩

theorem SameThread.trans {r'' : Router} (h : SameThread r r') (h' : SameThread r' r'') : SameThread r r'' :=
  ⟨h'.started.trans h.started, h'.exited ∘ h.exited⟩

/-- What neither the writer thread nor a record changes. -/
structure SameWindow (r r' : Router) : Prop extends SameThread r r' where
  mode : r'.mode = r.mode

theorem SameWindow.refl (r : Router) : SameWindow r r := ⟨.refl r, rfl⟩

theorem SameWindow.trans {r'' : Router} (h : SameWindow r r') (h' : SameWindow r' r'') : SameWindow r r'' :=
  ⟨h.toSameThread.trans h'.toSameThread, h'.mode.trans h.mode⟩

private theorem lose_thread (r : Router) (count : Nat) (reason : LossReason) : SameThread r (r.lose count reason) := by
  unfold Router.lose
  split <;> exact ⟨rfl, id⟩

private theorem enqueue_thread (r : Router) (line : Bytes) : SameThread r (r.enqueue line) := by
  unfold Router.enqueue
  split
  · exact lose_thread r _ _
  · exact ⟨rfl, id⟩

private theorem flushToNormal_thread (r : Router) : SameThread r r.flushToNormal := by
  have hlines : ∀ (lines : List Bytes) (r : Router), SameThread r (lines.foldl Router.enqueue r) := by
    intro lines
    induction lines with
    | nil => exact SameThread.refl
    | cons line lines ih => exact fun r => (enqueue_thread r line).trans (ih _)
  have hlose : SameThread r (if 0 < r.ring.lost then Router.lose { r with ring := r.ring.drain } r.ring.lost .ringOverflow
      else { r with ring := r.ring.drain }) := by
    split
    · have h := lose_thread { r with ring := r.ring.drain } r.ring.lost .ringOverflow
      exact ⟨h.started, h.exited⟩
    · exact ⟨rfl, id⟩
  have h := hlose.trans (hlines r.ring.lines _)
  exact ⟨h.started, h.exited⟩

private theorem writeRecord_window (r : Router) (line : Bytes) : SameWindow r (r.writeRecord line) := by
  refine ⟨?_, (r.writeRecord_rest line).1⟩
  unfold Router.writeRecord
  split
  · exact ⟨rfl, id⟩
  · split
    · exact lose_thread r _ _
    · exact enqueue_thread r line

private theorem take_window (h : r.take = some r') : SameWindow r r' := by
  rcases Router.take_item h with ⟨item, queue, -, -, -, rfl⟩ | rfl
  · exact ⟨⟨rfl, id⟩, rfl⟩
  · exact ⟨⟨rfl, fun _ => rfl⟩, rfl⟩

private theorem delivered_window {ok : Bool} (h : r.delivered ok = some r') : SameWindow r r' := by
  refine ⟨?_, (Router.delivered_rest h).1⟩
  obtain ⟨item, -, ⟨-, rfl⟩ | ⟨-, gap, -, rfl⟩⟩ := Router.delivered_cases h
  · exact ⟨rfl, id⟩
  · unfold Router.loseAtFront
    split <;> exact ⟨rfl, id⟩

theorem writerRuns_window (n : Nat) (r : Router) : SameWindow r (writerRuns sys n r) := by
  unfold writerRuns perform
  generalize sys.writer n = moves
  induction moves generalizing r with
  | nil => exact .refl r
  | cons move moves ih =>
    have hmove : SameWindow r ((r.step move.action).getD r) := by
      cases hstep : r.step move.action with
      | none => exact .refl r
      | some r' =>
        cases move with
        | take => exact take_window hstep
        | delivered ok => exact delivered_window hstep
    exact hmove.trans (ih _)

theorem writerRuns_ring (n : Nat) (r : Router) : (writerRuns sys n r).ring = r.ring := by
  unfold writerRuns perform
  generalize sys.writer n = moves
  induction moves generalizing r with
  | nil => rfl
  | cons move moves ih =>
    have hmove : ((r.step move.action).getD r).ring = r.ring := by
      cases hstep : r.step move.action with
      | none => rfl
      | some r' =>
        cases move with
        | take =>
          rcases Router.take_cases hstep with ⟨-, -, hring⟩ | hqueues
          · exact hring
          · exact hqueues.ring
        | delivered ok => exact (Router.delivered_rest hstep).2.1
    exact (ih _).trans hmove

/-- The routers of a start that is not serving yet: records were written, and the writer may have been started. -/
inductive Prepared (recovery : Bool) : Router → Prop
  | boot : Prepared recovery (Logging.bootRouter recovery)
  | record {r : Router} (h : Prepared recovery r) (line : Bytes) : Prepared recovery (r.writeRecord line)
  | startWriter {r : Router} (h : Prepared recovery r) (spawned : Bool) : Prepared recovery (r.startWriter spawned)
  | writer {r r' : Router} (h : Prepared recovery r) (move : WriterMove) (hs : r.step move.action = some r') :
    Prepared recovery r'

variable {recovery : Bool}

theorem Prepared.writerRuns (h : Prepared recovery r) (n : Nat) : Prepared recovery (writerRuns sys n r) := by
  unfold Startup.writerRuns perform
  generalize sys.writer n = moves
  induction moves generalizing r with
  | nil => exact h
  | cons move moves ih =>
    have hmove : Prepared recovery ((r.step move.action).getD r) := by
      cases hstep : r.step move.action with
      | none => exact h
      | some r' => exact h.writer move hstep
    exact ih hmove

theorem Prepared.mode (h : Prepared recovery r) : r.mode = if recovery then .ring else .normal := by
  induction h with
  | boot => cases recovery <;> rfl
  | record _ line ih => exact ((writeRecord_window _ line).mode).trans ih
  | startWriter _ spawned ih => exact (Router.startWriter_queues _ spawned).mode.trans ih
  | writer _ move hs ih =>
    refine Eq.trans ?_ ih
    cases move with
    | take => exact (take_window hs).mode
    | delivered ok => exact (delivered_window hs).mode

/-- Beside an agent at its first start, with the marker as the startup found it, such a router is one that the model of
the running daemon reaches. -/
theorem Prepared.reach {cfg : Config} {ok : Logging → LogAction → Logging → Prop}
    (hok : ∀ s act t, (∀ a, act ≠ .agent a) → ok s act t) {a : Agent} (ha : Agent.Initial a)
    (h : Prepared a.ctx.marker r) : Machine.Reach (Logging.step cfg) ok Logging.Initial ⟨a, r⟩ := by
  induction h with
  | boot => exact .init ⟨ha, rfl⟩
  | record _ line ih => exact ih.tail (a := .record line) rfl (hok _ _ _ (by rintro _ ⟨⟩))
  | startWriter _ spawned ih => exact ih.tail (a := .startWriter spawned) rfl (hok _ _ _ (by rintro _ ⟨⟩))
  | writer _ move hs ih =>
    cases move with
    | take => exact ih.tail (a := .take) (by simp [Logging.step, show Router.take _ = _ from hs]) (hok _ _ _ (by rintro _ ⟨⟩))
    | delivered ok' =>
      exact ih.tail (a := .delivered ok') (by simp [Logging.step, show Router.delivered _ _ = _ from hs])
        (hok _ _ _ (by rintro _ ⟨⟩))

/-! ### The sequence -/

/-- The phases up to `serve`, in their order. -/
def sequence : List Phase :=
  [.loadConfig, .buildProfile, .openMarker, .initLogging, .mountTable, .openChannel, .dropPrivileges, .startAuditWriter,
    .installSeccomp, .serve]

/-- The exit codes of a run that a phase ends. -/
def Phase.codes : Phase → List Nat
  | .loadConfig | .buildProfile | .openMarker | .mountTable | .installSeccomp => [exConfig]
  | .initLogging | .startAuditWriter => [exOserr]
  | .openChannel => [exUnavailable]
  | .dropPrivileges => [exNoperm, exConfig]
  | .serve => [exOserr, exUnavailable]
  | _ => []

/-- What enforced hardening wants of the process that serves. -/
structure Hardened (sys : System) (config : Configuration.Config) (creds : Creds) (filter : Option (List Rule)) : Prop where
  compiled : sys.build.seccomp = true
  enforcing : Seccomp.logMode sys.build = false
  real : sys.fakeKernel = false
  dropped : ∃ account, sys.lookup serviceUser = .ok (some account) ∧
    Caps.Lowered creds account (config.authority sys.build).toAuthority
  filter : filter = some (Seccomp.rules sys.target (config.authority sys.build))

/-- What holds of the process when it serves. -/
structure Sandboxed (sys : System) (s : Service) : Prop where
  valid : s.config.Valid
  marker : sys.openMarker s.config.agent.statePath = .ok s.marker
  /-- A freeze does not freeze the marker. -/
  unfrozen : ∃ mounts, sys.mounts = .ok mounts ∧ ∀ t ∈ (FreezePlan.build mounts).targets, t.dev ≠ s.marker.dev
  recovery : s.recovery = s.marker.present
  router : ∃ r, s.router = some r ∧ Prepared s.marker.present r ∧ r.started = true
  /-- The audit writer has the credentials of the process. -/
  writer : s.writer = some s.creds
  filter : s.filter = none ∨ s.filter = some (Seccomp.rules sys.target (s.config.authority sys.build))
  hardened : s.config.agent.hardening = .enforced → Hardened sys s.config s.creds s.filter

/-- Between two steps, logging being up: `n` phases are done. -/
structure Stage (creds₀ : Creds) (marker : Marker) (n : Nat) (started : Bool) (filter : Option (List Rule))
    (C : Creds → Prop) (p : Process) : Prop where
  phases : p.phases = (sequence.take n).reverse
  router : ∃ r, p.router = some r ∧ Prepared marker.present r ∧ r.started = started
  creds : C p.caps.creds
  writer : p.writer = if started then some p.caps.creds else none
  filter : p.filter = filter
  untouched : n ≤ 6 → p.caps = ⟨creds₀, []⟩
  fresh : ∀ s, .service s ∉ p.steps

/-- The end of the sequence after `n` phases, with the error if there is one: it is one of the last of these phases. -/
def Fits : Nat → Option RunError → Prop
  | n, none => n = 10
  | 0, some _ => False
  | n + 1, some err => ∃ ph, sequence[n]? = some ph ∧ err.exitCode ∈ ph.codes

/-- If the writer was started, there is a thread; or none could be created, and the router knows. -/
def Threaded (sys : System) (r : Router) (writer : Option Creds) : Prop :=
  r.started = true → writer.isSome = true ∨ (r.exited = true ∧ ∃ k reason, sys.spawn k = some reason)

theorem Threaded.same {writer : Option Creds} (h : Threaded sys r writer) (hr : SameThread r r') : Threaded sys r' writer :=
  fun hstarted => (h (hr.started ▸ hstarted)).imp_right fun hnone => ⟨hr.exited hnone.1, hnone.2⟩

theorem Threaded.of_isSome {writer : Option Creds} (h : writer.isSome = true) : Threaded sys r writer := fun _ => .inl h

/-- Logging is up. -/
def Logs (sys : System) (p : Process) : Prop := ∃ r, p.router = some r ∧ Threaded sys r p.writer

/-- The sequence has ended after logging came up. -/
structure Ended (sys : System) (creds₀ : Creds) (outcome : Option RunError) (p : Process) : Prop where
  order : ∃ n, 4 < n ∧ p.phases = (sequence.take n).reverse ∧ Fits n outcome ∧ (n ≤ 6 → p.caps = ⟨creds₀, []⟩)
  router : Logs sys p
  services : ∀ s, .service s ∈ p.steps → Sandboxed sys s

variable {creds₀ : Creds} {marker : Marker} {n : Nat} {started : Bool} {filter : Option (List Rule)} {C : Creds → Prop}
  {F : RunError → Process → Prop} {err : RunError}

theorem Stage.fails (h : Stage creds₀ marker n started filter C p) (hn : 4 < n) (hfits : Fits n (some err)) :
    Ended sys creds₀ (some err) p where
  order := ⟨n, hn, h.phases, hfits, h.untouched⟩
  router := by
    obtain ⟨r, hr, -, hstarted⟩ := h.router
    refine ⟨r, hr, fun htrue => .inl ?_⟩
    rw [h.writer, ← hstarted, htrue]
    rfl
  services := fun s hs => absurd hs (h.fresh s)

/-- A refusal in the phase `n`. -/
theorem Stage.throws {α : Type} {Q : α → Process → Prop} (hn : 4 < n) (hfits : Fits n (some err)) :
    Spec (Stage creds₀ marker n started filter C) (throw err : StartM α) Q fun err => Ended sys creds₀ (some err) :=
  .throw fun _ h => h.fails hn hfits

/-! ### Steps -/

/-- A record changes neither what is done nor the mode of the router. -/
theorem log_stage (record : Record) :
    Spec (Stage creds₀ marker n started filter C) (log sys record) (fun _ => Stage creds₀ marker n started filter C) F := by
  intro p h
  obtain ⟨r, hr, hprepared, hstarted⟩ := h.router
  let r' := if admits p.level record.level then
    (writerRuns sys (p.steps.length + 1) r).writeRecord (sys.render (p.steps.length + 1) record)
    else writerRuns sys (p.steps.length + 1) r
  have hwindow : Prepared marker.present r' ∧ r'.started = r.started := by
    unfold r'
    split
    · exact ⟨(hprepared.writerRuns _).record _, ((writerRuns_window _ r).trans (writeRecord_window _ _)).started⟩
    · exact ⟨hprepared.writerRuns _, (writerRuns_window _ r).started⟩
  have hrun : (log sys record).run p = (.ok ⟨⟩, { p with
      steps := .record record :: p.steps
      router := p.router.map fun r => if admits p.level record.level then
        (writerRuns sys (p.steps.length + 1) r).writeRecord (sys.render (p.steps.length + 1) record)
        else writerRuns sys (p.steps.length + 1) r }) := rfl
  rw [hrun]
  exact {
    phases := h.phases
    router := ⟨r', by simp only [hr]; rfl, hwindow.1, hwindow.2.trans hstarted⟩
    creds := h.creds
    writer := h.writer
    filter := h.filter
    untouched := h.untouched
    fresh := fun s hs => h.fresh s ((List.mem_cons.1 hs).resolve_left (by rintro ⟨⟩)) }

theorem logIf_stage (c : Bool) (record : Record) : Spec (Stage creds₀ marker n started filter C) (logIf sys c record)
    (fun _ => Stage creds₀ marker n started filter C) F := by
  cases c with
  | true => exact log_stage record
  | false => exact .pure fun p h => h

/-- A phase begins. -/
theorem note_stage {ph : Phase} (hph : sequence[n]? = some ph) :
    Spec (Stage creds₀ marker n started filter C) (note (.phase ph))
      (fun _ => Stage creds₀ marker (n + 1) started filter C) F := by
  intro p h
  have hrun : (note (.phase ph)).run p = (.ok ⟨⟩, { p with steps := .phase ph :: p.steps }) := rfl
  rw [hrun]
  exact {
    phases := by
      show ph :: p.phases = _
      rw [h.phases, List.take_add_one, hph]
      simp
    router := h.router
    creds := h.creds
    writer := h.writer
    filter := h.filter
    untouched := fun hn => h.untouched (by omega)
    fresh := fun s hs => h.fresh s ((List.mem_cons.1 hs).resolve_left (by rintro ⟨⟩)) }

/-- The mount table is that of the system. -/
theorem mountTable_stage : Spec (Stage creds₀ marker 4 started filter C) (mountTable sys)
    (fun mounts p => sys.mounts = .ok mounts ∧ Stage creds₀ marker 5 started filter C p)
    fun err => Ended sys creds₀ (some err) := by
  refine (note_stage rfl).bind fun _ => ?_
  cases hmounts : sys.mounts with
  | error reason => exact Stage.throws (by decide) ⟨.mountTable, rfl, List.mem_singleton.2 rfl⟩
  | ok mounts => exact .pure fun p h => ⟨rfl, h⟩

theorem openChannel_stage (path : Path) : Spec (Stage creds₀ marker 5 started filter C) (openChannel sys path)
    (fun _ => Stage creds₀ marker 6 started filter C) fun err => Ended sys creds₀ (some err) := by
  refine (note_stage rfl).bind fun _ => ?_
  cases sys.openDevice path with
  | ok fd => exact .pure fun p h => h
  | error errno =>
    dsimp only
    split
    · exact Stage.throws (by decide) ⟨.openChannel, rfl, List.mem_singleton.2 rfl⟩
    · exact (log_stage _).bind fun _ => .pure fun p h => h

theorem dropPrivilegesTo_stage (account : Account) (authority : Authority) :
    Spec (Stage creds₀ marker 7 false none C) (dropPrivilegesTo sys account authority)
      (fun _ => Stage creds₀ marker 7 false none (Caps.Lowered · account authority))
      fun err => Ended sys creds₀ (some err) := by
  intro p h
  have hdrop := Caps.dropPrivilegesTo_lowered sys.fault account authority p.caps trivial
  have hrun : ∀ res caps, (Caps.dropPrivilegesTo sys.fault account authority).run p.caps = (res, caps) →
      (dropPrivilegesTo sys account authority).run p =
        (res.mapError fun err => .privileges (.step err), { p with caps := caps }) := by
    intro res caps heq
    unfold dropPrivilegesTo
    simp only [ExceptT.run] at heq ⊢
    cases res <;> simp [heq, Except.mapError]
  have hkept : ∀ {D : Creds → Prop} {caps : Proc}, D caps.creds →
      Stage creds₀ marker 7 false none D { p with caps := caps } := fun {D caps} hd => {
    phases := h.phases
    router := h.router
    creds := hd
    writer := h.writer
    filter := h.filter
    untouched := fun hn => absurd hn (by decide)
    fresh := h.fresh }
  split at hdrop
  · next caps heq =>
    rw [hrun _ _ heq]
    exact hkept hdrop
  · next e caps heq =>
    rw [hrun _ _ heq]
    exact (hkept (D := fun _ => True) trivial).fails (by decide)
      ⟨.dropPrivileges, rfl, List.mem_cons_self⟩

/-- The drop lowers the credentials, or is skipped. -/
theorem dropPrivileges_stage (authority : Authority) :
    Spec (Stage creds₀ marker 6 false none C) (dropPrivileges sys authority)
      (fun outcome => Stage creds₀ marker 7 false none fun creds => outcome = .dropped → ∃ account,
        sys.lookup serviceUser = .ok (some account) ∧ Caps.Lowered creds account authority)
      fun err => Ended sys creds₀ (some err) := by
  refine (note_stage rfl).bind fun _ => (Spec.get fun _ h => h).bind fun p => ?_
  have hweaken : ∀ {D D' : Creds → Prop} {q : Process}, (∀ c, D c → D' c) → Stage creds₀ marker 7 false none D q →
      Stage creds₀ marker 7 false none D' q := fun hd h => { h with creds := hd _ h.creds }
  split
  · refine (log_stage _).bind fun _ => .pure fun q h => hweaken (fun _ _ hout => ?_) h
    cases hout
  · cases hlookup : sys.lookup serviceUser with
    | error reason => exact Stage.throws (by decide) ⟨.dropPrivileges, rfl, List.mem_cons_self⟩
    | ok found =>
      cases found with
      | none => exact Stage.throws (by decide) ⟨.dropPrivileges, rfl, List.mem_cons_self⟩
      | some account =>
        exact (dropPrivilegesTo_stage account authority).bind fun _ => .pure fun q h =>
          hweaken (fun _ hlowered _ => ⟨account, rfl, hlowered⟩) h

/-- Past the drop of a start under enforced hardening, the credentials are lowered. -/
theorem drop_stage (config : Configuration.Config) (authority : Authority) :
    Spec (Stage creds₀ marker 6 false none C) (drop sys config authority)
      (fun _ => Stage creds₀ marker 7 false none fun creds => config.agent.hardening = .enforced → ∃ account,
        sys.lookup serviceUser = .ok (some account) ∧ Caps.Lowered creds account authority)
      fun err => Ended sys creds₀ (some err) := by
  refine (dropPrivileges_stage authority).bind fun outcome => ?_
  have hweaken : ∀ {D D' : Creds → Prop} {q : Process}, (∀ c, D c → D' c) → Stage creds₀ marker 7 false none D q →
      Stage creds₀ marker 7 false none D' q := fun hd h => { h with creds := hd _ h.creds }
  cases outcome with
  | dropped => exact (log_stage _).weaken fun _ q h => hweaken (fun _ hlowered _ => hlowered rfl) h
  | skippedUnprivileged =>
    dsimp only
    split
    · exact Stage.throws (by decide) ⟨.dropPrivileges, rfl, List.mem_cons_of_mem _ List.mem_cons_self⟩
    · next hdev =>
      refine .pure fun q h => hweaken (fun _ _ henforced => absurd ?_ hdev) h
      rw [henforced]
      rfl

/-- What `startWriter` does on a router whose writer was not started. -/
private theorem run_startWriter (hr : p.router = some r) (hstarted : r.started = false) :
    (startWriter sys).run p =
      match sys.spawn p.steps.length with
      | some reason => (.ok (some reason),
          { p with router := some ((writerRuns sys p.steps.length r).startWriter false) })
      | none => (.ok none, { p with
          router := some ((writerRuns sys p.steps.length r).startWriter true)
          writer := some p.caps.creds }) := by
  obtain ⟨caps, level, router, writer, filter, steps⟩ := p
  obtain rfl : router = some r := hr
  show (if r.started then _ else _ : StartM (Option String)).run _ = _
  rw [if_neg (by simp [hstarted])]
  dsimp only
  cases sys.spawn steps.length <;> rfl

private theorem startWriter_started {spawned : Bool} (h : r.started = false) :
    (r.startWriter spawned).started = true := by
  cases spawned <;> simp [Router.startWriter, h]

private theorem startWriter_failed {writer : Option Creds} {k : Nat} {reason : String} (h : r.started = false)
    (hspawn : sys.spawn k = some reason) : Threaded sys (r.startWriter false) writer :=
  fun _ => .inr ⟨by simp [Router.startWriter, h], k, reason, hspawn⟩

/-- The writer thread is created, under the credentials of the process, or the startup ends. -/
theorem startAuditWriter_stage : Spec (Stage creds₀ marker 7 false filter C) (startAuditWriter sys)
    (fun _ => Stage creds₀ marker 8 true filter C) fun err => Ended sys creds₀ (some err) := by
  refine (note_stage rfl).bind fun _ => ?_
  refine Spec.bind (Q := fun res p => (res = none → Stage creds₀ marker 8 true filter C p) ∧
    ∀ reason, Ended sys creds₀ (some (.runtime reason)) p) ?_ fun res => ?_
  · intro p h
    obtain ⟨r, hr, hprepared, hstarted⟩ := h.router
    have hwindow : SameWindow r (writerRuns sys p.steps.length r) := writerRuns_window ..
    have hended : ∀ {q : Process}, q.phases = p.phases → Logs sys q → q.steps = p.steps → ∀ reason,
        Ended sys creds₀ (some (.runtime reason)) q := fun hphases hrouter hsteps reason => {
      order := ⟨8, by decide, hphases.trans h.phases, ⟨.startAuditWriter, rfl, List.mem_singleton.2 rfl⟩,
        fun hn => absurd hn (by decide)⟩
      router := hrouter
      services := fun s hs => absurd (hsteps ▸ hs) (h.fresh s) }
    rw [run_startWriter hr hstarted]
    cases hspawn : sys.spawn p.steps.length with
    | some reason => exact ⟨by rintro ⟨⟩, hended rfl ⟨_, rfl, startWriter_failed (hwindow.started.trans hstarted) hspawn⟩ rfl⟩
    | none =>
      refine ⟨fun _ => ?_, hended rfl ⟨_, rfl, .of_isSome rfl⟩ rfl⟩
      exact {
        phases := h.phases
        router := ⟨_, rfl, (hprepared.writerRuns _).startWriter true, startWriter_started (hwindow.started.trans hstarted)⟩
        creds := h.creds
        writer := rfl
        filter := h.filter
        untouched := fun hn => absurd hn (by decide)
        fresh := h.fresh }
  · cases res with
    | none => exact .pure fun p h => h.1 rfl
    | some reason => exact .throw fun p h => h.2 _

/-- The filter is installed if it is enabled; a failure leaves it uninstalled. -/
theorem installSeccomp_stage (config : Configuration.Config) :
    Spec (Stage creds₀ marker 8 started none C) (installSeccomp sys config)
      (fun installed p => (installed = true → sys.build.seccomp = true) ∧ Stage creds₀ marker 9 started
        (if installed then some (Seccomp.rules sys.target (config.authority sys.build)) else none) C p)
      fun err p => (∃ reason, err = .seccomp reason) ∧ Stage creds₀ marker 9 started none C p := by
  refine (note_stage rfl).bind fun _ => ?_
  split
  · exact .pure fun p h => ⟨by rintro ⟨⟩, h⟩
  · next henabled =>
    dsimp only
    cases sys.compile (Seccomp.rules sys.target (config.authority sys.build)) with
    | some reason => exact .throw fun p h => ⟨⟨reason, rfl⟩, h⟩
    | none =>
      refine (Spec.get fun _ h => h).bind fun p => ?_
      cases sys.install p.caps.creds with
      | some reason => exact .throw fun p h => ⟨⟨reason, rfl⟩, h⟩
      | none =>
        have hcompiled : sys.build.seccomp = true := by
          simp only [Bool.not_eq_true', Bool.not_eq_false] at henabled
          exact (Bool.and_eq_true_iff.1 henabled).1
        exact (Spec.modify fun q h => ⟨fun _ => hcompiled, { h with filter := rfl }⟩).bind fun _ => .pure fun q h => h

/-- Under enforced hardening the filter that cannot be installed ends the startup. -/
theorem sandbox_stage (config : Configuration.Config) :
    Spec (Stage creds₀ marker 8 started none C) (sandbox sys config)
      (fun installed p => (installed = true → sys.build.seccomp = true) ∧ Stage creds₀ marker 9 started
        (if installed then some (Seccomp.rules sys.target (config.authority sys.build)) else none) C p)
      fun err => Ended sys creds₀ (some err) := by
  refine (installSeccomp_stage config).tryCatch fun err => ?_
  refine Spec.intro fun herr => ?_
  obtain ⟨reason, rfl⟩ := herr
  dsimp only
  split
  · exact Stage.throws (by decide) ⟨.installSeccomp, rfl, List.mem_singleton.2 rfl⟩
  · exact (log_stage _).bind fun _ => .pure fun p h => ⟨by rintro ⟨⟩, h⟩

theorem serve_stage {config : Configuration.Config} {recovery : Bool} {channel : Option Nat}
    (hsandboxed : ∀ q, Stage creds₀ marker 10 true filter C q →
      Sandboxed sys ⟨config, recovery, channel, marker, q.caps.creds, q.router, q.writer, q.filter⟩) :
    Spec (Stage creds₀ marker 9 true filter C) (serve sys config recovery channel marker)
      (fun _ => Ended sys creds₀ none) fun err => Ended sys creds₀ (some err) := by
  refine (note_stage rfl).bind fun _ => ?_
  refine Spec.bind (Q := fun q p => Stage creds₀ marker 10 true filter C p ∧ p = q) (.get fun p h => ⟨h, rfl⟩) fun q => ?_
  refine Spec.bind (Q := fun _ p => p.writer.isSome = true ∧ ∀ outcome, Fits 10 outcome → Ended sys creds₀ outcome p) ?_
    fun _ => ?_
  · refine .modify fun p hp => ?_
    obtain ⟨h, rfl⟩ := hp
    obtain ⟨r, hr, -⟩ := h.router
    have hwriter : p.writer.isSome = true := by
      rw [h.writer]
      rfl
    refine ⟨hwriter, fun outcome hfits => ?_⟩
    exact {
      order := ⟨10, by decide, h.phases, hfits, fun hn => absurd hn (by decide)⟩
      router := ⟨r, hr, .of_isSome hwriter⟩
      services := fun s hs => by
        rcases List.mem_cons.1 hs with hs | hs
        · cases hs
          exact hsandboxed p h
        · exact absurd hs (h.fresh s) }
  · refine Spec.bind (Q := fun _ p => ∀ outcome, Fits 10 outcome → Ended sys creds₀ outcome p) ?_ fun _ => ?_
    · refine .modify fun p hp outcome hfits => ?_
      have h := hp.2 outcome hfits
      obtain ⟨r, hr, -⟩ := h.router
      exact {
        order := h.order
        router := ⟨perform sys.serving r, by simp only [hr]; rfl, .of_isSome hp.1⟩
        services := h.services }
    · cases sys.serve with
      | none => exact .pure fun p hp => hp none rfl
      | some err =>
        refine .throw fun p hp => hp _ ⟨.serve, rfl, ?_⟩
        cases err with
        | runtime reason => exact List.mem_cons_self
        | channel err => exact List.mem_cons_of_mem _ List.mem_cons_self

/-- What `check_hardening` leaves under enforced hardening. -/
theorem checkHardening_ok {config : Configuration.Config}
    (h : checkHardening config ⟨sys.build.seccomp, seccompMode sys.build, sys.fakeKernel⟩ = .ok ())
    (henforced : config.agent.hardening = .enforced) :
    sys.build.seccomp = true ∧ Seccomp.logMode sys.build = false ∧ sys.fakeKernel = false := by
  unfold checkHardening at h
  simp only [henforced, Configuration.Hardening.isEnforced, Bool.not_true, Bool.false_eq_true, if_false] at h
  split at h
  · cases h
  split at h
  · cases h
  next hcompiled =>
  split at h
  · cases h
  next hmode =>
  split at h
  · cases h
  next hreal =>
  have hseccomp : sys.build.seccomp = true := by simpa using hcompiled
  refine ⟨hseccomp, ?_, by simpa using hreal⟩
  simp only [ne_eq, Decidable.not_not, seccompMode, hseccomp, if_true, Seccomp.mode] at hmode
  cases hlog : Seccomp.logMode sys.build with
  | false => rfl
  | true =>
    rw [hlog] at hmode
    exact absurd hmode (by decide)

theorem serveAfterLogging_spec {configPath : Path} {config : Configuration.Config} (hvalid : config.Valid)
    (hmarker : sys.openMarker config.agent.statePath = .ok marker)
    (hbuild : config.agent.hardening = .enforced →
      sys.build.seccomp = true ∧ Seccomp.logMode sys.build = false ∧ sys.fakeKernel = false) :
    Spec (Stage creds₀ marker 4 false none fun _ => True)
      (serveAfterLogging sys configPath config marker marker.present) (fun _ => Ended sys creds₀ none)
      fun err => Ended sys creds₀ (some err) := by
  unfold serveAfterLogging
  refine (Spec.forM (fun warning => log_stage _) _).bind fun _ => (log_stage _).bind fun _ => ?_
  refine mountTable_stage.bind fun mounts => Spec.intro fun hmounts => ?_
  split
  · exact Stage.throws (by decide) ⟨.mountTable, rfl, List.mem_singleton.2 rfl⟩
  next hcovers =>
  refine (openChannel_stage _).bind fun channel => ?_
  refine (logIf_stage _ _).bind fun _ => (log_stage _).bind fun _ => (drop_stage config _).bind fun _ => ?_
  refine startAuditWriter_stage.bind fun _ => (sandbox_stage config).bind fun installed => Spec.intro fun hcompiled => ?_
  generalize hfilter : (if installed then some (Seccomp.rules sys.target (config.authority sys.build)) else none) = filter
  split
  · exact Stage.throws (by decide) ⟨.installSeccomp, rfl, List.mem_singleton.2 rfl⟩
  next hinstalled =>
  refine (log_stage _).bind fun _ => (logIf_stage _ _).bind fun _ => serve_stage fun q h => ?_
  have hunfrozen : ∀ t ∈ (FreezePlan.build mounts).targets, t.dev ≠ marker.dev := by
    intro t ht hdev
    exact hcovers (List.any_eq_true.2 ⟨t, ht, by simp [hdev]⟩)
  exact {
    valid := hvalid
    marker := hmarker
    unfrozen := ⟨mounts, hmounts, hunfrozen⟩
    recovery := rfl
    router := h.router
    writer := h.writer
    filter := by
      rw [h.filter, ← hfilter]
      cases installed with
      | true => exact .inr rfl
      | false => exact .inl rfl
    hardened := fun henforced => by
      obtain ⟨hseccomp, hlog, hreal⟩ := hbuild henforced
      have htrue : installed = true := by
        cases installed with
        | true => rfl
        | false => exact absurd (by rw [henforced]; rfl) hinstalled
      subst htrue
      exact ⟨hseccomp, hlog, hreal, h.creds henforced, h.filter.trans hfilter.symm⟩ }

/-! ### The settlement -/

/-- Nothing is left in the ring, records go to the queue, and there is a thread to deliver them; if no thread could be
created, the router knows that none will come. -/
structure Delivering (sys : System) (r : Router) (writer : Option Creds) : Prop where
  mode : r.mode = .normal
  ring : r.ring.lines = [] ∧ r.ring.lost = 0
  started : r.started = true
  thread : writer.isSome = true ∨ (r.exited = true ∧ ∃ k reason, sys.spawn k = some reason)

/-- The router is past its flush. -/
private structure Flushed (r : Router) : Prop where
  mode : r.mode = .normal
  ring : r.ring.lines = [] ∧ r.ring.lost = 0

private theorem flushed (r : Router) : Flushed r.flushToNormal := by
  obtain ⟨hmode, hring, -⟩ := r.flushToNormal_rest
  exact ⟨hmode, by rw [hring]; exact ⟨rfl, rfl⟩⟩

private theorem Flushed.writerRuns (h : Flushed r) (n : Nat) : Flushed (writerRuns sys n r) :=
  ⟨(writerRuns_window n r).mode.trans h.mode, by rw [writerRuns_ring]; exact h.ring⟩

/-- A flushed router whose writer is started now. -/
private theorem Flushed.startWriter {spawned : Bool} {writer : Option Creds} (h : Flushed r) (hstarted : r.started = false)
    (hthread : Threaded sys (r.startWriter spawned) writer) : Delivering sys (r.startWriter spawned) writer := by
  have hqueues := r.startWriter_queues spawned
  exact {
    mode := hqueues.mode.trans h.mode
    ring := by rw [hqueues.ring]; exact h.ring
    started := startWriter_started hstarted
    thread := hthread (startWriter_started hstarted) }

/-- Starting the writer of a flushed router, if it was not started before. -/
private theorem startWriter_delivering {steps : List Step} {caps : Proc} :
    Spec (fun p => p.steps = steps ∧ p.caps = caps ∧ ∃ r, p.router = some r ∧ Flushed r ∧ Threaded sys r p.writer)
      (startWriter sys)
      (fun _ p => p.steps = steps ∧ p.caps = caps ∧ ∃ r, p.router = some r ∧ Delivering sys r p.writer) F := by
  intro p hp
  obtain ⟨hsteps, hcaps, r, hr, hflushed, hthread⟩ := hp
  cases hstarted : r.started with
  | true =>
    have hrun : (startWriter sys).run p = (.ok none, p) := by
      obtain ⟨caps, level, router, writer, filter, steps⟩ := p
      obtain rfl : router = some r := hr
      show (if r.started then _ else _ : StartM (Option String)).run _ = _
      rw [if_pos hstarted]
      rfl
    rw [hrun]
    exact ⟨hsteps, hcaps, r, hr, hflushed.mode, hflushed.ring, hstarted, hthread hstarted⟩
  | false =>
    have hwaiting : (writerRuns sys p.steps.length r).started = false := (writerRuns_window ..).started.trans hstarted
    rw [run_startWriter hr hstarted]
    cases hspawn : sys.spawn p.steps.length with
    | none => exact ⟨hsteps, hcaps, _, rfl, (hflushed.writerRuns _).startWriter hwaiting (.of_isSome rfl)⟩
    | some reason =>
      exact ⟨hsteps, hcaps, _, rfl, (hflushed.writerRuns _).startWriter hwaiting (startWriter_failed hwaiting hspawn)⟩

theorem settlement_spec {steps : List Step} {caps : Proc} :
    Spec (fun p => p.steps = steps ∧ p.caps = caps ∧ Logs sys p) (settlement sys)
      (fun _ p => p.steps = .phase .settle :: .phase .startWriter :: .phase .flushToNormal :: steps ∧ p.caps = caps ∧
        ∃ r, p.router = some r ∧ Delivering sys r p.writer) F := by
  refine Spec.bind (Q := fun _ p => p.steps = .phase .flushToNormal :: steps ∧ p.caps = caps ∧ Logs sys p)
    (.modify fun p hp => ⟨by rw [hp.1], hp.2⟩) fun _ => ?_
  refine Spec.bind (Q := fun _ p => p.steps = .phase .flushToNormal :: steps ∧ p.caps = caps ∧
    ∃ r, p.router = some r ∧ Flushed r ∧ Threaded sys r p.writer) (.modify fun p hp => ?_) fun _ => ?_
  · obtain ⟨hsteps, hcaps, r, hr, hthread⟩ := hp
    have hruns : SameThread r (writerRuns sys p.steps.length r) := (writerRuns_window ..).toSameThread
    exact ⟨hsteps, hcaps, _, by simp only [hr]; rfl, flushed _, hthread.same (hruns.trans (flushToNormal_thread _))⟩
  refine Spec.bind (Q := fun _ p => p.steps = .phase .startWriter :: .phase .flushToNormal :: steps ∧ p.caps = caps ∧
    ∃ r, p.router = some r ∧ Flushed r ∧ Threaded sys r p.writer) (.modify fun p hp => ⟨by rw [hp.1], hp.2⟩) fun _ => ?_
  refine startWriter_delivering.bind fun _ => ?_
  refine Spec.bind (Q := fun _ p => p.steps = .phase .settle :: .phase .startWriter :: .phase .flushToNormal :: steps ∧
    p.caps = caps ∧ ∃ r, p.router = some r ∧ Delivering sys r p.writer) (.modify fun p hp => ⟨by rw [hp.1], hp.2⟩) fun _ => ?_
  refine .modify fun p hp => ?_
  obtain ⟨hsteps, hcaps, r, hr, hdelivering⟩ := hp
  have hwindow : SameWindow r (writerRuns sys p.steps.length r) := writerRuns_window ..
  exact ⟨hsteps, hcaps, _, by simp only [hr]; rfl, hwindow.mode.trans hdelivering.mode,
    by rw [writerRuns_ring]; exact hdelivering.ring, hwindow.started.trans hdelivering.started,
    hdelivering.thread.imp_right fun hnone => ⟨hwindow.exited hnone.1, hnone.2⟩⟩

/-! ### A run -/

/-- Before logging is up: nothing has changed but what is done. -/
structure Early (creds₀ : Creds) (n : Nat) (p : Process) : Prop where
  phases : p.phases = (sequence.take n).reverse
  caps : p.caps = ⟨creds₀, []⟩
  router : p.router = none
  writer : p.writer = none
  filter : p.filter = none
  fresh : ∀ s, .service s ∉ p.steps

/-- A run has ended.  One that never logged left nothing behind; any other one said why it failed, emptied the ring and
has a thread that delivers the records, unless none could be created. -/
structure Ran (sys : System) (creds₀ : Creds) (outcome : Option RunError) (p : Process) : Prop where
  order : ∃ n, Fits n outcome ∧ (n ≤ 6 → p.caps = ⟨creds₀, []⟩) ∧
    ((n ≤ 4 ∧ p.phases = (sequence.take n).reverse ∧ p.router = none ∧ p.writer = none ∧ p.filter = none) ∨
      (4 < n ∧ ∃ steps, p.steps = .phase .settle :: .phase .startWriter :: .phase .flushToNormal ::
          (outcome.toList.map fun err => .record (.startupFailed err)) ++ steps ∧
        steps.filterMap Step.phase? = (sequence.take n).reverse ∧ ∃ r, p.router = some r ∧ Delivering sys r p.writer))
  services : ∀ s, .service s ∈ p.steps → Sandboxed sys s

theorem Early.fails (h : Early creds₀ n p) (hn : n ≤ 4) (hfits : Fits n (some err)) : Ran sys creds₀ (some err) p where
  order := ⟨n, hfits, fun _ => h.caps, .inl ⟨hn, h.phases, h.router, h.writer, h.filter⟩⟩
  services := fun s hs => absurd hs (h.fresh s)

theorem Early.throws {α : Type} {Q : α → Process → Prop} (hn : n ≤ 4) (hfits : Fits n (some err)) :
    Spec (Early creds₀ n) (throw err : StartM α) Q fun err => Ran sys creds₀ (some err) :=
  .throw fun _ h => h.fails hn hfits

theorem note_early {ph : Phase} (hph : sequence[n]? = some ph) :
    Spec (Early creds₀ n) (note (.phase ph)) (fun _ => Early creds₀ (n + 1)) F := by
  intro p h
  have hrun : (note (.phase ph)).run p = (.ok ⟨⟩, { p with steps := .phase ph :: p.steps }) := rfl
  rw [hrun]
  exact {
    phases := by
      show ph :: p.phases = _
      rw [h.phases, List.take_add_one, hph]
      simp
    caps := h.caps
    router := h.router
    writer := h.writer
    filter := h.filter
    fresh := fun s hs => h.fresh s ((List.mem_cons.1 hs).resolve_left (by rintro ⟨⟩)) }

theorem loadConfig_early (path : Path) : Spec (Early creds₀ 0) (loadConfig sys path)
    (fun config p => config.Valid ∧ Early creds₀ 1 p) fun err => Ran sys creds₀ (some err) := by
  refine (note_early rfl).bind fun _ => ?_
  cases sys.file path with
  | error source => exact Early.throws (by decide) ⟨.loadConfig, rfl, List.mem_singleton.2 rfl⟩
  | ok text =>
    dsimp only
    cases hparse : Configuration.Config.parse sys.toml text with
    | error err => exact Early.throws (by decide) ⟨.loadConfig, rfl, List.mem_singleton.2 rfl⟩
    | ok config => exact .pure fun p h => ⟨Configuration.Config.valid_of_parse hparse, h⟩

theorem openMarker_early (path : Path) : Spec (Early creds₀ 2) (openMarker sys path)
    (fun marker p => sys.openMarker path = .ok marker ∧ Early creds₀ 3 p) fun err => Ran sys creds₀ (some err) := by
  refine (note_early rfl).bind fun _ => ?_
  cases sys.openMarker path with
  | error err => exact Early.throws (by decide) ⟨.openMarker, rfl, List.mem_singleton.2 rfl⟩
  | ok marker => exact .pure fun p h => ⟨rfl, h⟩

/-- In recovery mode the router is in `Ring` mode before the first record. -/
theorem initLogging_early (level : LogLevel) (marker : Marker) : Spec (Early creds₀ 3) (initLogging sys level marker.present)
    (fun _ => Stage creds₀ marker 4 false none fun _ => True) fun err => Ran sys creds₀ (some err) := by
  refine (note_early rfl).bind fun _ => ?_
  cases sys.subscriber with
  | some reason => exact Early.throws (by decide) ⟨.initLogging, rfl, List.mem_singleton.2 rfl⟩
  | none =>
    refine .modify fun p h => ?_
    exact {
      phases := h.phases
      router := ⟨_, rfl, .boot, by cases marker.present <;> rfl⟩
      creds := trivial
      writer := h.writer
      filter := h.filter
      untouched := fun _ => h.caps
      fresh := h.fresh }

/-- The sequence has ended, and a failure was reported. -/
structure Closing (sys : System) (creds₀ : Creds) (outcome : Option RunError) (p : Process) : Prop where
  order : ∃ n steps, 4 < n ∧ p.steps = (outcome.toList.map fun err => .record (.startupFailed err)) ++ steps ∧
    steps.filterMap Step.phase? = (sequence.take n).reverse ∧ Fits n outcome ∧ (n ≤ 6 → p.caps = ⟨creds₀, []⟩)
  router : Logs sys p
  services : ∀ s, .service s ∈ p.steps → Sandboxed sys s

theorem log_closing : Spec (Ended sys creds₀ (some err)) (log sys (.startupFailed err))
    (fun _ => Closing sys creds₀ (some err)) F := by
  intro p h
  have hrun : (log sys (.startupFailed err)).run p = (.ok ⟨⟩, { p with
      steps := .record (.startupFailed err) :: p.steps
      router := p.router.map fun r => if admits p.level (Record.startupFailed err).level then
        (writerRuns sys (p.steps.length + 1) r).writeRecord (sys.render (p.steps.length + 1) (.startupFailed err))
        else writerRuns sys (p.steps.length + 1) r }) := rfl
  rw [hrun]
  obtain ⟨n, hn, hphases, hfits, huntouched⟩ := h.order
  exact {
    order := ⟨n, p.steps, hn, rfl, hphases, hfits, huntouched⟩
    router := by
      obtain ⟨r, hr, hthread⟩ := h.router
      refine ⟨_, by simp only [hr]; rfl, hthread.same ?_⟩
      have hruns : SameThread r (writerRuns sys (p.steps.length + 1) r) := (writerRuns_window ..).toSameThread
      split
      · exact hruns.trans (writeRecord_window _ _).toSameThread
      · exact hruns
    services := fun s hs => h.services s ((List.mem_cons.1 hs).resolve_left (by rintro ⟨⟩)) }

theorem settlement_closing {outcome : Option RunError} :
    Spec (Closing sys creds₀ outcome) (settlement sys) (fun _ => Ran sys creds₀ outcome) F := by
  intro p hp
  have h := (settlement_spec : Spec _ (settlement sys) _ F) p ⟨rfl, rfl, hp.router⟩
  split at h
  · next q hrun =>
    obtain ⟨hq, hcaps, hdelivering⟩ := h
    obtain ⟨n, steps, hn, hsteps, hphases, hfits, huntouched⟩ := hp.order
    refine ⟨⟨n, hfits, fun hle => hcaps.trans (huntouched hle), .inr ⟨hn, steps, ?_, hphases, hdelivering⟩⟩, ?_⟩
    · rw [hq, hsteps]
      rfl
    · intro s hs
      rw [hq] at hs
      simp only [List.mem_cons, reduceCtorEq, false_or] at hs
      exact hp.services s hs
  · exact h

theorem checkHardening_error {config : Configuration.Config} {profile : BuildProfile}
    (h : checkHardening config profile = .error err) : err.exitCode = exConfig := by
  unfold checkHardening at h
  split at h
  · cases h
  split at h
  · cases h
    rfl
  split at h
  · cases h
    rfl
  split at h
  · cases h
    rfl
  split at h
  · cases h
    rfl
  · cases h

theorem runWith_spec (sys : System) (configPath : Path) (creds₀ : Creds) :
    Spec (Early creds₀ 0) (runWith sys configPath) (fun _ => Ran sys creds₀ none) fun err => Ran sys creds₀ (some err) := by
  refine (loadConfig_early configPath).bind fun config => Spec.intro fun hvalid => ?_
  refine Spec.bind (Q := fun profile p => profile = ⟨sys.build.seccomp, seccompMode sys.build, sys.fakeKernel⟩ ∧
    Early creds₀ 2 p) ((note_early rfl).bind fun _ => .pure fun p h => ⟨rfl, h⟩) fun profile => Spec.intro fun hprofile => ?_
  subst hprofile
  split
  · next err hcheck =>
    exact Early.throws (by decide) ⟨.buildProfile, rfl, List.mem_singleton.2 (checkHardening_error hcheck)⟩
  next hcheck =>
  refine (openMarker_early _).bind fun marker => Spec.intro fun hmarker => ?_
  refine (initLogging_early _ marker).bind fun _ => ?_
  refine (serveAfterLogging_spec hvalid hmarker (checkHardening_ok hcheck)).attempt.bind fun result => ?_
  cases result with
  | ok a =>
    refine settlement_closing.consequence (fun p h => ?_) (fun _ _ h => h) fun _ _ h => h
    obtain ⟨n, hn, hphases, hfits, huntouched⟩ := Ended.order h
    exact ⟨⟨n, p.steps, hn, rfl, hphases, hfits, huntouched⟩, Ended.router h, Ended.services h⟩
  | error err => exact log_closing.bind fun _ => settlement_closing.bind fun _ => .throw fun _ h => h

/-! ### The results -/

private theorem early_start (creds : Creds) : Early creds 0 (.start creds) :=
  ⟨rfl, rfl, rfl, rfl, rfl, fun _ => List.not_mem_nil⟩

/-- Whatever the system answers, the daemon serves only as `Sandboxed` says. -/
theorem hardened_start (sys : System) (configPath : Path) (creds : Creds) (s : Service)
    (h : .service s ∈ ((runWith sys configPath).run (.start creds)).2.steps) : Sandboxed sys s := by
  have hrun := runWith_spec sys configPath creds _ (early_start creds)
  split at hrun
  · next heq =>
    rw [heq] at h
    exact hrun.services s h
  · next err p heq =>
    rw [heq] at h
    exact hrun.services s h

/-- A machine that crashed while it was frozen: the marker is there, on a tmpfs, the channel is missing, and the
configuration is the empty file. -/
def crashedSystem : System where
  file := fun _ => .ok ""
  toml := fun _ => .ok .default
  build := ⟨true, false, false, false⟩
  target := .x86_64
  fakeKernel := false
  openMarker := fun path => .ok ⟨path, (0, 25), true⟩
  subscriber := none
  mounts := .ok [⟨1, 0, 8, 1, [slash], "ext4", "/dev/sda1"⟩]
  openDevice := fun _ => .error .ENOENT
  lookup := fun _ => .ok (some ⟨600, 600⟩)
  fault := fun _ => none
  spawn := fun _ => none
  compile := fun _ => none
  install := fun _ => none
  serve := none
  serving := []
  writer := fun _ => []
  render := fun _ _ => []

def Step.service? : Step → Option Service
  | .service s => some s
  | _ => none

/-- It serves, in recovery mode and hardened. -/
theorem hardened_start_crashed : ∃ s, .service s ∈ ((runWith crashedSystem []).run (.start Caps.rootCreds)).2.steps ∧
    s.recovery = true ∧ s.config.agent.hardening = .enforced ∧ Sandboxed crashedSystem s := by
  have hserved : (((runWith crashedSystem []).run (.start Caps.rootCreds)).2.steps.findSome? Step.service?).any
      (fun s => s.recovery && s.config.agent.hardening = .enforced) = true := by
    decide +kernel
  obtain ⟨s, hs, hmode⟩ := (Option.any_eq_true _ _).1 hserved
  obtain ⟨step, hstep, heq⟩ := List.exists_of_findSome?_eq_some hs
  obtain rfl : step = .service s := by
    cases step with
    | service s' => exact congrArg Step.service (Option.some.inj heq)
    | _ => cases heq
  simp only [Bool.and_eq_true, decide_eq_true_eq] at hmode
  exact ⟨s, hstep, hmode.1, hmode.2, hardened_start crashedSystem [] Caps.rootCreds s hstep⟩

/-- Every run goes through its phases in their order up to the one that ends it, with an exit code of that phase.  The
credentials are untouched before the drop.  A run whose logging came up ends with the settlement, after a record of the
failure if there is one, and leaves an empty ring and a writer thread, unless none could be created. -/
theorem startup_order (sys : System) (configPath : Path) (creds : Creds) :
    ∃ outcome, ((runWith sys configPath).run (.start creds)).1 = outcome.elim (.ok ()) .error ∧
      Ran sys creds outcome ((runWith sys configPath).run (.start creds)).2 := by
  have hrun := runWith_spec sys configPath creds _ (early_start creds)
  split at hrun
  · next heq =>
    rw [heq]
    exact ⟨none, rfl, hrun⟩
  · next err p heq =>
    rw [heq]
    exact ⟨some err, rfl, hrun⟩

end Startup

end Qeminga
