import Qeminga.Context
import Qeminga.Dispatch
import Qeminga.Privileges
import Qeminga.Lib.Utf8

/-!
# The configuration

`config.rs`: the values of the configuration file with their defaults, the checks that `Config::validate` makes of them,
and the authority that they grant the process.  What the checks leave is `Config.Valid`; a configuration that fails one is
refused with the key it is about (`validate_error`).
-/

namespace Qeminga

namespace Configuration

/-! ### The file -/

inductive LogLevel
  | trace | debug | info | warn | error
  deriving DecidableEq, Repr

inductive Hardening
  | enforced | development
  deriving DecidableEq, Repr

def Hardening.isEnforced : Hardening → Bool
  | .enforced => true
  | .development => false

structure AgentConfig where
  configVersion : Nat
  channelPath : Path
  logLevel : LogLevel
  statePath : Path
  fsfreezeIdleTimeoutSecs : Nat
  fsfreezeMaxTimeoutSecs : Nat
  hardening : Hardening
  fsfreezeOperationTimeoutSecs : Option Nat
  deriving DecidableEq, Repr

structure RateLimits where
  pingSyncPerMin : Nat
  getCommandsPerMin : Nat
  fsfreezeFreezePerMin : Nat
  fstrimPerMin : Nat
  shutdownPerMin : Nat
  deriving DecidableEq, Repr

structure Features where
  suspendRam : Bool
  fstrim : Bool
  seccomp : Bool
  shutdown : Bool
  information : Bool
  deriving DecidableEq, Repr

structure Config where
  agent : AgentConfig
  rateLimits : RateLimits
  features : Features
  deriving DecidableEq, Repr

def configVersion : Nat := 1

def maxFsfreezeTimeoutSecs : Nat := 86400

def defaultFsfreezeOperationTimeoutSecs : Nat := 60

def AgentConfig.default : AgentConfig where
  configVersion := Configuration.configVersion
  channelPath := Utf8.encode "/dev/virtio-ports/org.qemu.guest_agent.0"
  logLevel := .info
  statePath := Utf8.encode "/run/qeminga/frozen"
  fsfreezeIdleTimeoutSecs := 30
  fsfreezeMaxTimeoutSecs := 300
  hardening := .enforced
  fsfreezeOperationTimeoutSecs := none

def RateLimits.default : RateLimits := ⟨120, 30, 10, 5, 2⟩

def Features.default : Features where
  suspendRam := false
  fstrim := true
  seccomp := true
  shutdown := true
  information := true

def Config.default : Config := ⟨.default, .default, .default⟩

/-- The deadline of a freeze operation: the value of the file, or the default under the hard cap. -/
def AgentConfig.operationTimeoutSecs (agent : AgentConfig) : Nat :=
  agent.fsfreezeOperationTimeoutSecs.getD (min defaultFsfreezeOperationTimeoutSecs agent.fsfreezeMaxTimeoutSecs)

/-! ### The build -/

/-- The Cargo features and settings that the binary was compiled with. -/
structure Build where
  seccomp : Bool
  seccompLog : Bool
  suspendRam : Bool
  debugAssertions : Bool
  deriving DecidableEq, Repr

/-! ### The checks -/

inductive ConfigError
  | io (path : Path) (source : String)
  | parse (path : Option Path) (message : String)
  | invalid (path : Option Path) (key : String) (reason : String)
  deriving DecidableEq, Repr

def ConfigError.withPath (err : ConfigError) (path : Path) : ConfigError :=
  match err with
  | .parse _ message => .parse (some path) message
  | .invalid _ key reason => .invalid (some path) key reason
  | .io p source => .io p source

/-- A check of `validate`: the value of `key` is refused, for `reason`, if it is `bad`. -/
structure Check where
  bad : Bool
  key : String
  reason : String
  deriving DecidableEq, Repr

def Check.run (check : Check) : Except ConfigError Unit :=
  if check.bad then .error (.invalid none check.key check.reason) else .ok ()

def isAbsolute (path : Path) : Bool := path.head? = some slash

namespace Config

variable (config : Config)

/-- The three timeouts against a day, in the order of the loop. -/
def timeouts : List (String × Nat) :=
  [("agent.fsfreeze_idle_timeout_secs", config.agent.fsfreezeIdleTimeoutSecs),
    ("agent.fsfreeze_max_timeout_secs", config.agent.fsfreezeMaxTimeoutSecs),
    ("agent.fsfreeze_operation_timeout_secs", config.agent.fsfreezeOperationTimeoutSecs.getD 0)]

def quotas : List (String × Nat) :=
  [("rate_limits.ping_sync_per_min", config.rateLimits.pingSyncPerMin),
    ("rate_limits.get_commands_per_min", config.rateLimits.getCommandsPerMin),
    ("rate_limits.fsfreeze_freeze_per_min", config.rateLimits.fsfreezeFreezePerMin),
    ("rate_limits.fstrim_per_min", config.rateLimits.fstrimPerMin),
    ("rate_limits.shutdown_per_min", config.rateLimits.shutdownPerMin)]

def validate : Except ConfigError Unit := do
  let agent := config.agent
  Check.run ⟨agent.configVersion ≠ configVersion, "agent.config_version",
    "unsupported version " ++ toString agent.configVersion ++ "; this build supports " ++ toString configVersion⟩
  Check.run ⟨agent.channelPath.isEmpty, "agent.channel_path", "must not be empty"⟩
  Check.run ⟨!isAbsolute agent.statePath, "agent.state_path",
    "must be an absolute path, got " ++ Utf8.lossy agent.statePath⟩
  Check.run ⟨agent.hardening.isEnforced && !config.features.seccomp, "features.seccomp",
    "false is refused under agent.hardening = \"enforced\"; a development host must say hardening = " ++
      "\"unenforced-development-only\""⟩
  Check.run ⟨agent.fsfreezeIdleTimeoutSecs = 0, "agent.fsfreeze_idle_timeout_secs", "must be greater than zero"⟩
  Check.run ⟨agent.fsfreezeOperationTimeoutSecs = some 0, "agent.fsfreeze_operation_timeout_secs",
    "must be greater than zero"⟩
  config.timeouts.forM fun timeout => Check.run ⟨maxFsfreezeTimeoutSecs < timeout.2, timeout.1,
    "must be at most " ++ toString maxFsfreezeTimeoutSecs ++ " (one day)"⟩
  Check.run ⟨agent.fsfreezeMaxTimeoutSecs < agent.fsfreezeIdleTimeoutSecs, "agent.fsfreeze_max_timeout_secs",
    "must be at least fsfreeze_idle_timeout_secs (" ++ toString agent.fsfreezeIdleTimeoutSecs ++ ")"⟩
  -- Only a value of the file is judged against the cap: an omitted one is derived under it.
  Check.run ⟨agent.fsfreezeMaxTimeoutSecs < agent.fsfreezeOperationTimeoutSecs.getD 0,
    "agent.fsfreeze_operation_timeout_secs",
    "must be at most fsfreeze_max_timeout_secs (" ++ toString agent.fsfreezeMaxTimeoutSecs ++ ")"⟩
  config.quotas.forM fun quota => Check.run ⟨quota.2 = 0, quota.1, "must be greater than zero"⟩

/-- `Config::parse`, over the parser of the TOML library. -/
def parse (toml : String → Except String Config) (text : String) : Except ConfigError Config :=
  match toml text with
  | .error message => .error (.parse none message)
  | .ok config =>
    match config.validate with
    | .error err => .error err
    | .ok () => .ok config

end Config

/-! ### What the checks leave -/

@[simp]
theorem Check.run_eq_ok {check : Check} : check.run = .ok () ↔ check.bad = false := by
  unfold Check.run
  cases check.bad <;> simp

/-- A check that refuses a value names its key. -/
theorem Check.of_run {check : Check} {err : ConfigError} (h : check.run = .error err) :
    check.bad = true ∧ err = .invalid none check.key check.reason := by
  unfold Check.run at h
  split at h
  next hbad => exact ⟨hbad, (Except.error.inj h).symm⟩
  next => cases h

private theorem bind_eq_ok {m : Except ConfigError Unit} {f : Unit → Except ConfigError Unit} :
    (m >>= f) = .ok () ↔ m = .ok () ∧ f () = .ok () := by
  cases m <;> simp [bind, Except.bind]

private theorem bind_eq_error {m : Except ConfigError Unit} {f : Unit → Except ConfigError Unit} {err : ConfigError} :
    (m >>= f) = .error err ↔ m = .error err ∨ m = .ok () ∧ f () = .error err := by
  cases m <;> simp [bind, Except.bind]

private theorem forM_eq_ok {α : Type} {f : α → Except ConfigError Unit} {xs : List α} :
    xs.forM f = .ok () ↔ ∀ x ∈ xs, f x = .ok () := by
  induction xs with
  | nil => simp [pure, Except.pure]
  | cons x xs ih =>
    show (f x >>= fun _ => xs.forM f) = _ ↔ _
    rw [bind_eq_ok, ih, List.forall_mem_cons]

private theorem of_forM_error {α : Type} {f : α → Except ConfigError Unit} {xs : List α} {err : ConfigError}
    (h : xs.forM f = .error err) : ∃ x ∈ xs, f x = .error err := by
  induction xs with
  | nil => cases h
  | cons x xs ih =>
    rcases bind_eq_error.1 h with h | ⟨-, h⟩
    · exact ⟨x, List.mem_cons_self, h⟩
    · obtain ⟨y, hy, hf⟩ := ih h
      exact ⟨y, List.mem_cons_of_mem x hy, hf⟩

namespace Config

variable {config : Config}

/-- The values of a configuration that is served. -/
structure Valid (config : Config) : Prop where
  version : config.agent.configVersion = configVersion
  channel : config.agent.channelPath ≠ []
  state : isAbsolute config.agent.statePath = true
  seccomp : config.agent.hardening = .enforced → config.features.seccomp = true
  idle : 0 < config.agent.fsfreezeIdleTimeoutSecs
  idle_le : config.agent.fsfreezeIdleTimeoutSecs ≤ config.agent.fsfreezeMaxTimeoutSecs
  max_le : config.agent.fsfreezeMaxTimeoutSecs ≤ maxFsfreezeTimeoutSecs
  operation : 0 < config.agent.operationTimeoutSecs
  operation_le : config.agent.operationTimeoutSecs ≤ config.agent.fsfreezeMaxTimeoutSecs
  quotas : ∀ quota ∈ config.quotas, 0 < quota.2

/-- What an error can name: a key whose value breaks its check. -/
inductive Faulty (config : Config) : String → Prop
  | version (h : config.agent.configVersion ≠ configVersion) : Faulty config "agent.config_version"
  | channel (h : config.agent.channelPath = []) : Faulty config "agent.channel_path"
  | state (h : isAbsolute config.agent.statePath = false) : Faulty config "agent.state_path"
  | seccomp (h : config.agent.hardening = .enforced ∧ config.features.seccomp = false) : Faulty config "features.seccomp"
  | idle (h : config.agent.fsfreezeIdleTimeoutSecs = 0) : Faulty config "agent.fsfreeze_idle_timeout_secs"
  | operation (h : config.agent.fsfreezeOperationTimeoutSecs = some 0) :
    Faulty config "agent.fsfreeze_operation_timeout_secs"
  | day {timeout : String × Nat} (h : timeout ∈ config.timeouts) (hday : maxFsfreezeTimeoutSecs < timeout.2) :
    Faulty config timeout.1
  | cap (h : config.agent.fsfreezeMaxTimeoutSecs < config.agent.fsfreezeIdleTimeoutSecs) :
    Faulty config "agent.fsfreeze_max_timeout_secs"
  | capped (h : config.agent.fsfreezeMaxTimeoutSecs < config.agent.fsfreezeOperationTimeoutSecs.getD 0) :
    Faulty config "agent.fsfreeze_operation_timeout_secs"
  | quota {quota : String × Nat} (h : quota ∈ config.quotas) (hzero : quota.2 = 0) : Faulty config quota.1

theorem validate_eq_ok : config.validate = .ok () ↔ config.Valid := by
  simp only [validate, bind_eq_ok, forM_eq_ok, Check.run_eq_ok, decide_eq_false_iff_not, ne_eq, Decidable.not_not, not_lt,
    Bool.not_eq_false', Bool.and_eq_false_imp, List.isEmpty_eq_false_iff]
  constructor
  · rintro ⟨hversion, hchannel, hstate, hseccomp, hidle, hzero, hday, hcap, hcapped, hquotas⟩
    obtain ⟨hidleDay, hmaxDay, hopDay⟩ : config.agent.fsfreezeIdleTimeoutSecs ≤ maxFsfreezeTimeoutSecs ∧
        config.agent.fsfreezeMaxTimeoutSecs ≤ maxFsfreezeTimeoutSecs ∧
        config.agent.fsfreezeOperationTimeoutSecs.getD 0 ≤ maxFsfreezeTimeoutSecs := by
      simpa [timeouts] using hday
    have hoperation : 0 < config.agent.operationTimeoutSecs ∧
        config.agent.operationTimeoutSecs ≤ config.agent.fsfreezeMaxTimeoutSecs := by
      unfold AgentConfig.operationTimeoutSecs defaultFsfreezeOperationTimeoutSecs
      cases hvalue : config.agent.fsfreezeOperationTimeoutSecs with
      | none =>
        simp only [Option.getD_none]
        omega
      | some secs =>
        simp only [hvalue, Option.getD_some, Option.some.injEq] at hcapped hzero ⊢
        omega
    exact {
      version := hversion
      channel := hchannel
      state := hstate
      seccomp := fun h => hseccomp (by rw [h]; rfl)
      idle := Nat.pos_of_ne_zero hidle
      idle_le := hcap
      max_le := hmaxDay
      operation := hoperation.1
      operation_le := hoperation.2
      quotas := fun quota hquota => Nat.pos_of_ne_zero (hquotas quota hquota) }
  · intro h
    have hvalue : config.agent.fsfreezeOperationTimeoutSecs.getD 0 ≤ config.agent.fsfreezeMaxTimeoutSecs ∧
        config.agent.fsfreezeOperationTimeoutSecs ≠ some 0 := by
      have hpos := h.operation
      have hle := h.operation_le
      unfold AgentConfig.operationTimeoutSecs at hpos hle
      cases hvalue : config.agent.fsfreezeOperationTimeoutSecs with
      | none => simp
      | some secs =>
        simp only [hvalue, Option.getD_some, ne_eq, Option.some.injEq] at hpos hle ⊢
        omega
    have hday : ∀ timeout ∈ config.timeouts, timeout.2 ≤ maxFsfreezeTimeoutSecs := by
      simpa [timeouts] using ⟨h.idle_le.trans h.max_le, h.max_le, hvalue.1.trans h.max_le⟩
    refine ⟨h.version, h.channel, h.state, fun henforced => h.seccomp ?_, Nat.ne_of_gt h.idle, hvalue.2, hday, h.idle_le,
      hvalue.1, fun quota hquota => Nat.ne_of_gt (h.quotas quota hquota)⟩
    cases hh : config.agent.hardening with
    | enforced => rfl
    | development => rw [hh] at henforced; cases henforced

/-- The error of `validate` names a key whose value breaks its check. -/
theorem validate_error {err : ConfigError} (h : config.validate = .error err) :
    ∃ key reason, err = .invalid none key reason ∧ config.Faulty key := by
  have named : ∀ {check : Check}, check.run = .error err → (check.bad = true → config.Faulty check.key) →
      ∃ key reason, err = .invalid none key reason ∧ config.Faulty key := fun hrun hfaulty =>
    ⟨_, _, (Check.of_run hrun).2, hfaulty (Check.of_run hrun).1⟩
  simp only [validate, bind_eq_error] at h
  rcases h with h | ⟨-, h | ⟨-, h | ⟨-, h | ⟨-, h | ⟨-, h | ⟨-, h | ⟨-, h | ⟨-, h | ⟨-, h⟩⟩⟩⟩⟩⟩⟩⟩⟩
  · exact named h fun hbad => .version (by simpa using hbad)
  · exact named h fun hbad => .channel (by simpa using hbad)
  · exact named h fun hbad => .state (by simpa using hbad)
  · refine named h fun hbad => .seccomp ?_
    cases hh : config.agent.hardening <;> simp_all [Hardening.isEnforced]
  · exact named h fun hbad => .idle (by simpa using hbad)
  · exact named h fun hbad => .operation (by simpa using hbad)
  · obtain ⟨timeout, hmem, hrun⟩ := of_forM_error h
    exact named hrun fun hbad => .day hmem (by simpa using hbad)
  · exact named h fun hbad => .cap (by simpa using hbad)
  · exact named h fun hbad => .capped (by simpa using hbad)
  · obtain ⟨quota, hmem, hrun⟩ := of_forM_error h
    exact named hrun fun hbad => .quota hmem (by simpa using hbad)

/-- What `parse` returns is valid. -/
theorem valid_of_parse {toml : String → Except String Config} {text : String} (h : parse toml text = .ok config) :
    config.Valid := by
  unfold parse at h
  split at h
  · cases h
  · split at h
    · cases h
    · next hvalid =>
      obtain rfl := Except.ok.inj h
      exact validate_eq_ok.1 hvalid

/-- The empty file is a valid configuration. -/
theorem default_valid : Config.default.Valid := validate_eq_ok.1 (by decide)

end Config

namespace Config

variable (config : Config)

/-! ### What it grants -/

def warnings (build : Build) : List String :=
  (if config.agent.hardening.isEnforced then [] else
    ["agent.hardening = \"unenforced-development-only\": the sandbox is not required; never for a production host"]) ++
  (if config.features.seccomp && !build.seccomp then
    ["features.seccomp = true has no effect: this binary was built without the \x60seccomp\x60 Cargo feature"] else []) ++
  (if config.features.suspendRam && !build.suspendRam then
    ["features.suspend_ram = true has no effect: this binary was built without the \x60suspend_ram\x60 Cargo feature"]
    else [])

def fstrimEnabled : Bool := config.features.fstrim

def suspendRamEnabled (build : Build) : Bool := build.suspendRam && config.features.suspendRam

def seccompEnabled (build : Build) : Bool := build.seccomp && config.features.seccomp

def shutdownEnabled : Bool := config.features.shutdown

def informationEnabled : Bool := config.features.information

end Config

/-- `Authority`; the capability drop reads `reboot` only. -/
structure Authority extends Qeminga.Authority where
  information : Bool
  trim : Bool
  suspend : Bool
  deriving DecidableEq, Repr

def Config.authority (config : Config) (build : Build) : Authority where
  reboot := config.shutdownEnabled
  information := config.informationEnabled
  trim := config.fstrimEnabled
  suspend := config.suspendRamEnabled build

/-- The switches of the dispatcher. -/
def Config.switches (config : Config) (build : Build) : Qeminga.Features where
  fstrim := config.fstrimEnabled
  suspendRam := config.suspendRamEnabled build
  shutdown := config.shutdownEnabled
  information := config.informationEnabled

/-- The timeouts of the freeze. -/
def Config.freeze (config : Config) : Qeminga.Config where
  operationTimeout := config.agent.operationTimeoutSecs
  idle := config.agent.fsfreezeIdleTimeoutSecs
  max := config.agent.fsfreezeMaxTimeoutSecs

end Configuration

end Qeminga
