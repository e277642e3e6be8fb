import Qeminga.Contract.DispatchAccounting
import Qeminga.Handlers
import Qeminga.Seccomp

/-!
# Least authority

The configuration decides which commands are enabled in three places: in the gate of the dispatcher, in the final
capability set with the filter of the system calls, and in what `guest-info` advertises.  Each command has a surface, the
calls and capabilities that nothing else needs; the sandbox is a base, which recovery needs, and the surfaces of the
enabled commands, no more (`least_authority`).
-/

namespace Qeminga

namespace Sandbox

open Seccomp (Syscall matched profile rules)

variable {target : Seccomp.Target} {authority : Configuration.Authority} {call : Syscall}

/-! ### What the rules match -/

private theorem any_plain {names : List String} :
    (names.map Seccomp.plain).any (fun rule => rule.admits call) = true ↔ call.name ∈ names := by
  rw [List.any_map, List.any_eq_true]
  constructor
  · rintro ⟨name, hname, hadmits⟩
    have heq : name = call.name := of_decide_eq_true (Bool.and_eq_true_iff.1 hadmits).1
    exact heq ▸ hname
  · intro h
    exact ⟨_, h, by simp [Seccomp.Rule.admits, Seccomp.plain]⟩

private theorem any_ite {c : Prop} [Decidable c] {filter : List Seccomp.Rule} :
    (if c then filter else []).any (fun rule => rule.admits call) = true ↔
      c ∧ filter.any (fun rule => rule.admits call) = true := by
  split <;> simp [*]

/-- A rule with one condition. -/
private theorem admits_cond {name : String} {index value : Nat} :
    Seccomp.Rule.admits ⟨name, [⟨index, value⟩]⟩ call = true ↔
      call.name = name ∧ call.args index % 2 ^ 32 = value % 2 ^ 32 := by
  simp only [Seccomp.Rule.admits, List.all_cons, List.all_nil, Bool.and_true, Bool.and_eq_true, decide_eq_true_eq,
    Seccomp.ArgEq.holds]
  exact and_congr_left' eq_comm

/-- The call is an `ioctl` with the request `request`. -/
def IsIoctl (request : Nat) (call : Syscall) : Prop := call.name = "ioctl" ∧ call.args 1 % 2 ^ 32 = request

/-- The call opens a netlink socket. -/
def IsNetlink (call : Syscall) : Prop := call.name = "socket" ∧ call.args 0 % 2 ^ 32 = Seccomp.afNetlink

/-- The call names a thread. -/
def IsSetName (call : Syscall) : Prop := call.name = "prctl" ∧ call.args 0 % 2 ^ 32 = Seccomp.prSetName

private theorem any_ioctl {trim : Bool} :
    ((Seccomp.ioctlRequests.filter fun request => trim || decide (request ≠ Seccomp.fitrim)).map
      fun request => (⟨"ioctl", [⟨1, request⟩]⟩ : Seccomp.Rule)).any (fun rule => rule.admits call) = true ↔
    IsIoctl Seccomp.fifreeze call ∨ IsIoctl Seccomp.fithaw call ∨ (trim = true ∧ IsIoctl Seccomp.fitrim call) := by
  cases trim <;> simp [Seccomp.ioctlRequests, admits_cond, IsIoctl, Seccomp.fifreeze, Seccomp.fithaw, Seccomp.fitrim]

theorem matched_rules : matched (rules target authority) call = true ↔
    call.name ∈ Seccomp.common ∨ (target = .x86_64 ∧ call.name ∈ Seccomp.x86_64Only) ∨
    (authority.information = true ∧ call.name ∈ Seccomp.information) ∨
    (authority.reboot = true ∧ call.name ∈ Seccomp.power) ∨
    (IsIoctl Seccomp.fifreeze call ∨ IsIoctl Seccomp.fithaw call ∨
      (authority.trim = true ∧ IsIoctl Seccomp.fitrim call)) ∨
    IsSetName call ∨ (authority.information = true ∧ IsNetlink call) := by
  have hname : Seccomp.Rule.admits ⟨"prctl", [⟨0, Seccomp.prSetName⟩]⟩ call = true ↔ IsSetName call := admits_cond
  have hnetlink : Seccomp.Rule.admits ⟨"socket", [⟨0, Seccomp.afNetlink⟩]⟩ call = true ↔ IsNetlink call := admits_cond
  unfold matched rules
  simp only [List.any_append, Bool.or_eq_true, any_plain, any_ite, any_ioctl, List.any_cons, List.any_nil, Bool.or_false,
    hname, hnetlink, or_assoc]

/-! ### Surfaces -/

/-- What every profile allows: the runtime, the channel, the marker, freeze and thaw. -/
def Base (target : Seccomp.Target) (call : Syscall) : Prop :=
  call.name ∈ Seccomp.common ∨ (target = .x86_64 ∧ call.name ∈ Seccomp.x86_64Only) ∨ IsIoctl Seccomp.fifreeze call ∨
    IsIoctl Seccomp.fithaw call ∨ IsSetName call

/-- The system calls that a handler needs beyond the base. -/
def Surface : Dispatcher.Handler → Syscall → Prop
  | .osinfo, call => call.name = "uname"
  | .fsinfo, call => call.name ∈ ["statfs", "fstatfs"]
  | .interfaces, call => call.name ∈ ["bind", "getsockname", "sendmsg", "recvmsg", "setsockopt"] ∨ IsNetlink call
  | .shutdown, call => call.name ∈ ["sync", "reboot"]
  | .fstrim, call => IsIoctl Seccomp.fitrim call
  | _, _ => False

def baseCaps : Finset Capability := {.sysAdmin, .dacReadSearch}

/-- The capabilities that a handler needs beyond the base. -/
def surfaceCaps : Dispatcher.Handler → Finset Capability
  | .shutdown => {.sysBoot}
  | _ => ∅

variable {config : Configuration.Config} {build : Configuration.Build} {handler : Dispatcher.Handler}

/-- The configuration enables the command of `handler`. -/
def Enabled (config : Configuration.Config) (build : Configuration.Build) (handler : Dispatcher.Handler) : Prop :=
  (config.switches build).enabled handler.command = true

theorem enabled_iff : Enabled config build handler ↔
    match handler with
    | .osinfo | .interfaces | .fsinfo => (config.authority build).information = true
    | .shutdown => (config.authority build).reboot = true
    | .fstrim => (config.authority build).trim = true
    | .suspend => (config.authority build).suspend = true
    | _ => True := by
  cases handler <;>
    simp [Enabled, Dispatcher.Handler.command, Features.enabled, Configuration.Config.switches,
      Configuration.Config.authority]

/-- The names of the surfaces are in no other part of the profile. -/
private theorem names_apart : ∀ name ∈ Seccomp.information ++ Seccomp.power ++ ["ioctl", "socket"],
    name ∉ Seccomp.common ∧ name ∉ Seccomp.x86_64Only ∧ name ≠ "prctl" := by
  decide +kernel

private theorem information_apart : ∀ name ∈ Seccomp.information,
    name ∉ Seccomp.power ∧ name ≠ "ioctl" ∧ name ≠ "socket" := by
  decide

private theorem power_apart : ∀ name ∈ Seccomp.power, name ∉ Seccomp.information ∧ name ≠ "ioctl" ∧ name ≠ "socket" := by
  decide

private theorem matched_information (h : call.name ∈ Seccomp.information) :
    matched (rules target authority) call = true ↔ authority.information = true := by
  obtain ⟨hcommon, honly, hprctl⟩ := names_apart _ (List.mem_append_left _ (List.mem_append_left _ h))
  obtain ⟨hpower, hioctl, hsocket⟩ := information_apart _ h
  simp [matched_rules, IsIoctl, IsSetName, IsNetlink, *]

private theorem matched_power (h : call.name ∈ Seccomp.power) :
    matched (rules target authority) call = true ↔ authority.reboot = true := by
  obtain ⟨hcommon, honly, hprctl⟩ := names_apart _ (List.mem_append_left _ (List.mem_append_right _ h))
  obtain ⟨hinformation, hioctl, hsocket⟩ := power_apart _ h
  simp [matched_rules, IsIoctl, IsSetName, IsNetlink, *]

private theorem matched_netlink (h : IsNetlink call) :
    matched (rules target authority) call = true ↔ authority.information = true := by
  obtain ⟨hcommon, honly, hprctl⟩ := names_apart call.name (by rw [h.1]; decide)
  have hinformation : call.name ∉ Seccomp.information := fun hm => (information_apart _ hm).2.2 h.1
  have hpower : call.name ∉ Seccomp.power := fun hm => (power_apart _ hm).2.2 h.1
  have hioctl : call.name ≠ "ioctl" := by rw [h.1]; decide
  simp [matched_rules, IsIoctl, IsSetName, *]

private theorem matched_fitrim (h : IsIoctl Seccomp.fitrim call) :
    matched (rules target authority) call = true ↔ authority.trim = true := by
  obtain ⟨hcommon, honly, hprctl⟩ := names_apart call.name (by rw [h.1]; decide)
  have hinformation : call.name ∉ Seccomp.information := fun hm => (information_apart _ hm).2.1 h.1
  have hpower : call.name ∉ Seccomp.power := fun hm => (power_apart _ hm).2.1 h.1
  have hsocket : call.name ≠ "socket" := by rw [h.1]; decide
  have hfreeze : ¬ IsIoctl Seccomp.fifreeze call := fun hf => absurd (hf.2.symm.trans h.2) (by decide)
  have hthaw : ¬ IsIoctl Seccomp.fithaw call := fun hf => absurd (hf.2.symm.trans h.2) (by decide)
  simp [matched_rules, IsSetName, IsNetlink, *]

/-- A call of the surface of `handler` is matched exactly when the command is enabled. -/
theorem matched_surface (h : Surface handler call) :
    matched (rules target (config.authority build)) call = true ↔ Enabled config build handler := by
  have hinformation : ∀ {names : List String}, (∀ name ∈ names, name ∈ Seccomp.information) → call.name ∈ names →
      (matched (rules target (config.authority build)) call = true ↔ (config.authority build).information = true) :=
    fun hsub hm => matched_information (hsub _ hm)
  rw [enabled_iff]
  cases handler with
  | osinfo =>
    have huname : ∀ name ∈ ["uname"], name ∈ Seccomp.information := by decide
    exact hinformation huname (List.mem_singleton.2 h)
  | fsinfo => exact hinformation (by decide) h
  | interfaces =>
    rcases h with h | h
    · exact hinformation (by decide) h
    · exact matched_netlink h
  | shutdown => exact matched_power h
  | fstrim => exact matched_fitrim h
  | _ => exact h.elim

/-- The rules are the base and the surfaces of the enabled commands. -/
theorem matched_iff : matched (rules target (config.authority build)) call = true ↔
    Base target call ∨ ∃ handler, Enabled config build handler ∧ Surface handler call := by
  constructor
  · intro h
    rcases matched_rules.1 h with h | h | ⟨ha, h⟩ | ⟨ha, h⟩ | (h | h | ⟨ha, h⟩) | h | ⟨ha, h⟩
    · exact .inl (.inl h)
    · exact .inl (.inr (.inl h))
    · simp only [Seccomp.information, List.mem_cons, List.not_mem_nil, or_false] at h
      rcases h with h | h | h | h | h | h | h | h
      · exact .inr ⟨.osinfo, enabled_iff.2 ha, h⟩
      · exact .inr ⟨.fsinfo, enabled_iff.2 ha, by simp [Surface, h]⟩
      · exact .inr ⟨.fsinfo, enabled_iff.2 ha, by simp [Surface, h]⟩
      all_goals exact .inr ⟨.interfaces, enabled_iff.2 ha, .inl (by simp [h])⟩
    · exact .inr ⟨.shutdown, enabled_iff.2 ha, h⟩
    · exact .inl (.inr (.inr (.inl h)))
    · exact .inl (.inr (.inr (.inr (.inl h))))
    · exact .inr ⟨.fstrim, enabled_iff.2 ha, h⟩
    · exact .inl (.inr (.inr (.inr (.inr h))))
    · exact .inr ⟨.interfaces, enabled_iff.2 ha, .inr h⟩
  · rintro (h | ⟨handler, henabled, h⟩)
    · rw [matched_rules]
      rcases h with h | h | h | h | h
      · exact .inl h
      · exact .inr (.inl h)
      · exact .inr (.inr (.inr (.inr (.inl (.inl h)))))
      · exact .inr (.inr (.inr (.inr (.inl (.inr (.inl h))))))
      · exact .inr (.inr (.inr (.inr (.inr (.inl h)))))
    · exact (matched_surface h).2 henabled

/-! ### What the filter does -/

theorem action_eq_allow_iff : (profile build target (config.authority build)).action call = .allow ↔
    matched (rules target (config.authority build)) call = true := by
  unfold Seccomp.Filter.action profile Seccomp.defaultAction
  cases matched (rules target (config.authority build)) call with
  | true => simp
  | false => cases Seccomp.logMode build <;> simp

theorem action_of_unmatched (h : matched (rules target (config.authority build)) call = false) :
    (profile build target (config.authority build)).action call = Seccomp.defaultAction build := by
  simp [Seccomp.Filter.action, profile, h]

/-- A build that logs stops nothing. -/
theorem passes_iff : (profile build target (config.authority build)).passes call = true ↔
    Seccomp.logMode build = true ∨ matched (rules target (config.authority build)) call = true := by
  unfold Seccomp.Filter.passes Seccomp.Filter.action profile Seccomp.defaultAction
  cases matched (rules target (config.authority build)) call <;> cases Seccomp.logMode build <;> simp

/-! ### Capabilities -/

theorem mem_finals {cap : Capability} : cap ∈ finalCapabilitySet (config.authority build).toAuthority ↔
    cap ∈ baseCaps ∨ ∃ handler, Enabled config build handler ∧ cap ∈ surfaceCaps handler := by
  have hsurface : (∃ handler, Enabled config build handler ∧ cap ∈ surfaceCaps handler) ↔
      (config.authority build).reboot = true ∧ cap = .sysBoot := by
    constructor
    · rintro ⟨handler, henabled, hcap⟩
      cases handler with
      | shutdown => exact ⟨enabled_iff.1 henabled, Finset.mem_singleton.1 hcap⟩
      | _ => exact absurd hcap (Finset.notMem_empty cap)
    · rintro ⟨hreboot, rfl⟩
      exact ⟨.shutdown, enabled_iff.2 hreboot, Finset.mem_singleton_self _⟩
  rw [hsurface]
  unfold finalCapabilitySet finalCaps baseCaps
  cases (config.authority build).reboot <;> cases cap <;> decide

theorem mem_finals_surface {cap : Capability} (h : cap ∈ surfaceCaps handler) :
    cap ∈ finalCapabilitySet (config.authority build).toAuthority ↔ Enabled config build handler := by
  rw [mem_finals]
  cases handler with
  | shutdown =>
    obtain rfl := Finset.mem_singleton.1 h
    refine ⟨?_, fun henabled => .inr ⟨.shutdown, henabled, h⟩⟩
    rintro (hbase | ⟨handler, henabled, hcap⟩)
    · exact absurd hbase (by decide)
    · cases handler with
      | shutdown => exact henabled
      | _ => exact absurd hcap (Finset.notMem_empty _)
  | _ => exact absurd h (Finset.notMem_empty cap)

/-! ### What the dispatcher runs -/

section

variable {dispatch : Dispatcher.Call} {req : Proto.Request} {log : Dispatcher.Log}

/-- The handler that runs is that of a command which is enabled. -/
theorem enabled_of_ran {event : Framing.DecodeEvent} (h : handler ∈ (dispatch.handle event .empty).2.ran) :
    dispatch.enabled.enabled handler.command = true := by
  cases event with
  | oversized n => exact absurd h List.not_mem_nil
  | frame bytes sentinel =>
    cases hparse : Proto.parseRequest dispatch.serde bytes with
    | error err =>
      have hran : (dispatch.handle (.frame bytes sentinel) .empty).2.ran = [] := by
        unfold Dispatcher.Call.handle
        simp only [hparse]
        rfl
      rw [hran] at h
      exact absurd h List.not_mem_nil
    | ok req =>
      rw [Dispatcher.handle_parsed hparse] at h
      rcases Dispatcher.result_spec dispatch req .empty with
        ⟨hdenial, other, hcommand, hresult⟩ | ⟨denial, err, -, hresult⟩
      · rw [hresult] at h
        obtain rfl := List.mem_singleton.1 h
        rw [hcommand]
        exact (Dispatcher.denial_eq_none_iff.1 hdenial).2.1
      · rw [hresult] at h
        exact absurd h List.not_mem_nil

/-- The dispatcher of a daemon with this configuration. -/
def configured (config : Configuration.Config) (build : Configuration.Build) (dispatch : Dispatcher.Call) :
    Dispatcher.Call :=
  { dispatch with features := config.switches build, suspendCompiled := build.suspendRam }

theorem enabled_configured : (configured config build dispatch).enabled = config.switches build := by
  simp [Dispatcher.Call.enabled, configured, Configuration.Config.switches, Configuration.Config.suspendRamEnabled]

end

/-! ### What is advertised -/

theorem advertised_iff : (∃ info ∈ Handlers.agentInfo config build, info.name = handler.command ∧ info.enabled = true) ↔
    Enabled config build handler := by
  have hswitches : ∀ name, Handlers.isEnabled config build name = (config.switches build).enabled name := fun _ => rfl
  unfold Handlers.agentInfo
  simp only [List.mem_map, exists_exists_and_eq_and, hswitches]
  constructor
  · rintro ⟨spec, -, hname, henabled⟩
    rw [hname] at henabled
    exact henabled
  · intro h
    obtain ⟨spec, hspec, hname⟩ :=
      List.mem_map.1 (Dispatcher.map_command ▸ List.mem_map_of_mem (Dispatcher.mem_handlers handler))
    exact ⟨spec, hspec, hname, by rw [hname]; exact h⟩

/-! ### The sandbox and the commands -/

/-- The call is of the base, or of the surface of an enabled command. -/
def Listed (config : Configuration.Config) (build : Configuration.Build) (target : Seccomp.Target) (call : Syscall) : Prop :=
  Base target call ∨ ∃ handler, Enabled config build handler ∧ Surface handler call

/-- The sandbox of a configuration, against the commands that it enables. -/
structure Least (config : Configuration.Config) (build : Configuration.Build) (target : Seccomp.Target) : Prop where
  /-- The filter allows the base and the surfaces of the enabled commands. -/
  allowed : ∀ call, (profile build target (config.authority build)).action call = .allow ↔ Listed config build target call
  /-- What it does with any other call is up to the build. -/
  unlisted : ∀ call, ¬ Listed config build target call →
    (profile build target (config.authority build)).action call = Seccomp.defaultAction build
  /-- No other call is done, except in a build that logs. -/
  passes : ∀ call, (profile build target (config.authority build)).passes call = true ↔
    Seccomp.logMode build = true ∨ Listed config build target call
  /-- No call of the surface of a disabled command is allowed, through a rule for another one either. -/
  surface : ∀ handler call, Surface handler call →
    ((profile build target (config.authority build)).action call = .allow ↔ Enabled config build handler)
  finals : ∀ cap, cap ∈ finalCapabilitySet (config.authority build).toAuthority ↔
    cap ∈ baseCaps ∨ ∃ handler, Enabled config build handler ∧ cap ∈ surfaceCaps handler
  capability : ∀ handler, ∀ cap ∈ surfaceCaps handler,
    (cap ∈ finalCapabilitySet (config.authority build).toAuthority ↔ Enabled config build handler)
  advertised : ∀ handler, (∃ info ∈ Handlers.agentInfo config build, info.name = handler.command ∧ info.enabled = true) ↔
    Enabled config build handler
  /-- Whatever arrives, a handler runs only within its sandbox. -/
  runs : ∀ dispatch event, ∀ handler ∈ ((configured config build dispatch).handle event .empty).2.ran,
    Enabled config build handler ∧
    (∀ call, Surface handler call → (profile build target (config.authority build)).action call = .allow) ∧
    surfaceCaps handler ⊆ finalCapabilitySet (config.authority build).toAuthority

/-- The gate, the filter, the capabilities and `guest-info` agree on every command of every configuration. -/
theorem least_authority (config : Configuration.Config) (build : Configuration.Build) (target : Seccomp.Target) :
    Least config build target where
  allowed := fun _ => action_eq_allow_iff.trans matched_iff
  unlisted := by
    intro call hunlisted
    refine action_of_unmatched ?_
    rw [← Bool.not_eq_true, matched_iff]
    exact hunlisted
  passes := fun _ => passes_iff.trans (or_congr_right matched_iff)
  surface := fun _ _ hcall => action_eq_allow_iff.trans (matched_surface hcall)
  finals := fun _ => mem_finals
  capability := fun _ _ => mem_finals_surface
  advertised := fun _ => advertised_iff
  runs := by
    intro dispatch event handler hran
    have henabled : Enabled config build handler := by
      have h := enabled_of_ran hran
      rwa [enabled_configured] at h
    exact ⟨henabled, fun _ hcall => action_eq_allow_iff.2 ((matched_surface hcall).2 henabled),
      fun _ hcap => (mem_finals_surface hcap).2 henabled⟩

/-- Nothing but the base is left to a daemon that only protects data. -/
example : (rules .aarch64 (Configuration.Config.authority
    { Configuration.Config.default with features := ⟨false, false, true, false, false⟩ } ⟨true, false, true, false⟩)).length =
    Seccomp.common.length + 3 := by
  decide

end Sandbox

end Qeminga
