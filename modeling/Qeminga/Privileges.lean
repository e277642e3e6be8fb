import Mathlib.Data.Finset.Basic
import Qeminga.Lib.Fallible

/-!
# Dropping privileges

`kernel/caps.rs` against the credentials of a process as `capabilities(7)` describes them.  A call is refused when the
kernel does not permit it, and it may fail for any other reason.
-/

namespace Qeminga

/-- The capabilities in the order of their index. -/
inductive Capability
  | chown | dacOverride | dacReadSearch | fowner | fsetid | kill | setgid | setuid | setpcap | linuxImmutable
  | netBindService | netBroadcast | netAdmin | netRaw | ipcLock | ipcOwner | sysModule | sysRawio | sysChroot
  | sysPtrace | sysPacct | sysAdmin | sysBoot | sysNice | sysResource | sysTime | sysTtyConfig | mknod | lease
  | auditWrite | auditControl | setfcap | macOverride | macAdmin | syslog | wakeAlarm | blockSuspend | auditRead
  | perfmon | bpf | checkpointRestore
  deriving DecidableEq, Repr

/-- All capabilities, by index. -/
def Capability.all : List Capability :=
  [.chown, .dacOverride, .dacReadSearch, .fowner, .fsetid, .kill, .setgid, .setuid, .setpcap, .linuxImmutable,
    .netBindService, .netBroadcast, .netAdmin, .netRaw, .ipcLock, .ipcOwner, .sysModule, .sysRawio, .sysChroot,
    .sysPtrace, .sysPacct, .sysAdmin, .sysBoot, .sysNice, .sysResource, .sysTime, .sysTtyConfig, .mknod, .lease,
    .auditWrite, .auditControl, .setfcap, .macOverride, .macAdmin, .syslog, .wakeAlarm, .blockSuspend, .auditRead,
    .perfmon, .bpf, .checkpointRestore]

/-- The field of `Authority` that the final set depends on. -/
structure Authority where
  reboot : Bool
  deriving DecidableEq, Repr

def finalCaps : List Capability := [.sysAdmin, .sysBoot, .dacReadSearch]

def finalCapabilitySet (authority : Authority) : Finset Capability :=
  (finalCaps.filter fun cap => authority.reboot || cap ≠ .sysBoot).toFinset

structure Account where
  uid : Nat
  gid : Nat
  deriving DecidableEq, Repr

/-! ### The credentials of a process -/

structure Creds where
  ruid : Nat
  euid : Nat
  suid : Nat
  rgid : Nat
  egid : Nat
  sgid : Nat
  groups : List Nat
  permitted : Finset Capability
  effective : Finset Capability
  inheritable : Finset Capability
  ambient : Finset Capability
  bounding : Finset Capability
  keepCaps : Bool
  noNewPrivs : Bool
  effective_subset : effective ⊆ permitted

/-- The calls of `CapOps` that the drop makes. -/
inductive CapCall
  | setKeepcaps (keep : Bool)
  | setgroups (gid : Nat)
  | setresgid (gid : Nat)
  | setresuid (uid : Nat)
  | setPermitted (caps : Finset Capability)
  | setEffective (caps : Finset Capability)
  | bounding
  | dropBounding (cap : Capability)
  | clearInheritable
  | clearAmbient
  | setNoNewPrivs
  deriving DecidableEq

namespace Creds

/-- All uids leave 0. -/
def leavesRoot (c : Creds) (uid : Nat) : Bool := (c.ruid = 0 || c.euid = 0 || c.suid = 0) && uid ≠ 0

/-- The permitted set after a change of the uids: it goes when they leave 0, unless it is kept. -/
def permittedAs (c : Creds) (uid : Nat) : Finset Capability :=
  if c.leavesRoot uid ∧ c.keepCaps = false then ∅ else c.permitted

/-- The effective set after a change of the uids: it is cleared when the effective uid leaves 0, and raised to the
permitted set when it becomes 0. -/
def effectiveAs (c : Creds) (uid : Nat) : Finset Capability :=
  if c.leavesRoot uid ∧ c.keepCaps = false then ∅
  else if c.euid = 0 ∧ uid ≠ 0 then ∅
  else if c.euid ≠ 0 ∧ uid = 0 then c.permitted
  else c.effective

theorem effectiveAs_subset (c : Creds) (uid : Nat) : c.effectiveAs uid ⊆ c.permittedAs uid := by
  unfold effectiveAs permittedAs
  split
  · exact Finset.Subset.refl _
  · split
    · exact Finset.empty_subset _
    · split
      · exact Finset.Subset.refl _
      · exact c.effective_subset

/-- `setresuid(uid, uid, uid)`; the ambient set goes when the uids leave 0. -/
def changeUid (c : Creds) (uid : Nat) : Creds :=
  { c with
    ruid := uid
    euid := uid
    suid := uid
    permitted := c.permittedAs uid
    effective := c.effectiveAs uid
    ambient := if c.leavesRoot uid then ∅ else c.ambient
    effective_subset := c.effectiveAs_subset uid }

/-- What the kernel does with a call; `none` is `EPERM`.  `capset` lets the permitted set only shrink, wants the effective
set inside it, and takes from the ambient set what is no longer both permitted and inheritable. -/
def call (c : Creds) : CapCall → Option Creds
  | .setKeepcaps keep => some { c with keepCaps := keep }
  | .setgroups gid => if .setgid ∈ c.effective then some { c with groups := [gid] } else none
  | .setresgid gid =>
    if .setgid ∈ c.effective ∨ gid ∈ [c.rgid, c.egid, c.sgid] then some { c with rgid := gid, egid := gid, sgid := gid }
    else none
  | .setresuid uid =>
    if .setuid ∈ c.effective ∨ uid ∈ [c.ruid, c.euid, c.suid] then some (c.changeUid uid) else none
  | .setPermitted caps =>
    if h : caps ⊆ c.permitted ∧ c.effective ⊆ caps then
      some { c with permitted := caps, ambient := c.ambient ∩ (caps ∩ c.inheritable), effective_subset := h.2 }
    else none
  | .setEffective caps =>
    if h : caps ⊆ c.permitted then
      some { c with effective := caps, ambient := c.ambient ∩ (c.permitted ∩ c.inheritable), effective_subset := h }
    else none
  | .bounding => some c
  | .dropBounding cap => if .setpcap ∈ c.effective then some { c with bounding := c.bounding.erase cap } else none
  | .clearInheritable => some { c with inheritable := ∅, ambient := ∅ }
  | .clearAmbient => some { c with ambient := ∅ }
  | .setNoNewPrivs => some { c with noNewPrivs := true }

end Creds

/-! ### The drop -/

inductive CallResult
  | done | refused | failed
  deriving DecidableEq, Repr

/-- A call that was made, its result, and the credentials after it. -/
structure CapEntry where
  call : CapCall
  result : CallResult
  creds : Creds

/-- A process and the calls it has made, the latest first. -/
structure Proc where
  creds : Creds
  trace : List CapEntry

/-- `PrivilegeError::Step`; the kernel refused the call, or it failed with the text `reason`. -/
structure PrivilegeError where
  step : String
  reason : Option String
  deriving DecidableEq, Repr

abbrev CapM := ExceptT PrivilegeError (StateM Proc)

namespace Caps

/-- Makes a call.  `fault n` is another reason for which the `n`th call fails. -/
def step (fault : Nat → Option String) (name : String) (call : CapCall) : CapM Unit := fun p =>
  match fault p.trace.length with
  | some reason => (.error ⟨name, some reason⟩, { p with trace := ⟨call, .failed, p.creds⟩ :: p.trace })
  | none =>
    match p.creds.call call with
    | some creds => (.ok (), ⟨creds, ⟨call, .done, creds⟩ :: p.trace⟩)
    | none => (.error ⟨name, none⟩, { p with trace := ⟨call, .refused, p.creds⟩ :: p.trace })

def readBounding (fault : Nat → Option String) : CapM (Finset Capability) := do
  step fault "read bounding set" .bounding
  return (← get).creds.bounding

/-- The capabilities of the bounding set that do not stay, sorted by index. -/
def toDrop (bounding finals : Finset Capability) : List Capability :=
  Capability.all.filter fun cap => cap ∈ bounding ∧ cap ∉ finals

def dropPrivilegesTo (fault : Nat → Option String) (account : Account) (authority : Authority) : CapM Unit := do
  let finals := finalCapabilitySet authority
  let withSetpcap := insert .setpcap finals
  step fault "PR_SET_KEEPCAPS" (.setKeepcaps true)
  step fault "setgroups" (.setgroups account.gid)
  step fault "setresgid" (.setresgid account.gid)
  step fault "setresuid" (.setresuid account.uid)
  step fault "raise permitted" (.setPermitted withSetpcap)
  step fault "raise effective" (.setEffective withSetpcap)
  let bounding ← readBounding fault
  (toDrop bounding finals).forM fun cap => step fault "bounding set drop" (.dropBounding cap)
  step fault "set effective" (.setEffective finals)
  step fault "set permitted" (.setPermitted finals)
  step fault "clear inheritable" .clearInheritable
  step fault "clear ambient" .clearAmbient
  step fault "PR_SET_KEEPCAPS" (.setKeepcaps false)
  step fault "PR_SET_NO_NEW_PRIVS" .setNoNewPrivs

end Caps

end Qeminga
