import Qeminga.Configuration

/-!
# The seccomp profile

The allowlist of `seccomp.rs`, and what the filter of a build does with a call.  A condition on an argument compares the
low 32 bits.
-/

namespace Qeminga

namespace Seccomp

inductive Target
  | x86_64 | aarch64
  deriving DecidableEq, Repr

/-- A condition on one argument. -/
structure ArgEq where
  index : Nat
  value : Nat
  deriving DecidableEq, Repr

structure Rule where
  syscall : String
  conditions : List ArgEq
  deriving DecidableEq, Repr

def fifreeze : Nat := 0xC0045877

def fithaw : Nat := 0xC0045878

def fitrim : Nat := 0xC0185879

def ioctlRequests : List Nat := [fifreeze, fithaw, fitrim]

def prSetName : Nat := 15

def afNetlink : Nat := 16

def common : List String :=
  ["read", "write", "readv", "writev", "close", "openat", "fcntl", "lseek", "pread64", "pwrite64", "newfstatat", "statx",
    "fstat", "getdents64", "readlinkat", "faccessat", "faccessat2", "fsync", "unlinkat", "brk", "mmap", "munmap",
    "mprotect", "mremap", "madvise", "membarrier", "clone", "clone3", "set_robust_list", "get_robust_list",
    "set_tid_address", "gettid", "getpid", "tgkill", "rseq", "futex", "futex_waitv", "sched_yield", "sched_getaffinity",
    "prlimit64", "getrlimit", "exit", "exit_group", "epoll_create1", "epoll_ctl", "epoll_pwait", "epoll_pwait2",
    "eventfd2", "ppoll", "pipe2", "socketpair", "sendto", "recvfrom", "rt_sigaction", "rt_sigprocmask", "rt_sigreturn",
    "sigaltstack", "restart_syscall", "clock_gettime", "clock_nanosleep", "nanosleep", "getuid", "geteuid", "getgid",
    "getegid", "getrandom"]

def information : List String :=
  ["uname", "statfs", "fstatfs", "bind", "getsockname", "sendmsg", "recvmsg", "setsockopt"]

def power : List String := ["sync", "reboot"]

def x86_64Only : List String := ["epoll_wait"]

def plain (name : String) : Rule := ⟨name, []⟩

def rules (target : Target) (authority : Configuration.Authority) : List Rule :=
  common.map plain ++
  (if target = .x86_64 then x86_64Only.map plain else []) ++
  (if authority.information then information.map plain else []) ++
  (if authority.reboot then power.map plain else []) ++
  ((ioctlRequests.filter fun request => authority.trim || request ≠ fitrim).map fun request =>
    ⟨"ioctl", [⟨1, request⟩]⟩) ++
  [⟨"prctl", [⟨0, prSetName⟩]⟩] ++
  (if authority.information then [⟨"socket", [⟨0, afNetlink⟩]⟩] else [])

/-! ### The mode of the filter -/

/-- `log_mode`: a release build always enforces. -/
def logMode (build : Configuration.Build) : Bool := build.seccompLog && build.debugAssertions

def mode (build : Configuration.Build) : String := if logMode build then "log" else "enforce"

/-- What the kernel is told to do with a call; `log` lets it through. -/
inductive FilterAction
  | allow | log | killProcess
  deriving DecidableEq, Repr

def defaultAction (build : Configuration.Build) : FilterAction := if logMode build then .log else .killProcess

/-! ### The filter -/

/-- A filter of `seccompiler`. -/
structure Filter where
  mismatchAction : FilterAction
  matchAction : FilterAction
  filter : List Rule
  deriving DecidableEq, Repr

/-- The document of `profile_json`. -/
def profile (build : Configuration.Build) (target : Target) (authority : Configuration.Authority) : Filter :=
  ⟨defaultAction build, .allow, rules target authority⟩

/-- A system call with the values of its argument registers. -/
structure Syscall where
  name : String
  args : Nat → Nat

def ArgEq.holds (cond : ArgEq) (call : Syscall) : Bool := call.args cond.index % 2 ^ 32 = cond.value % 2 ^ 32

def Rule.admits (rule : Rule) (call : Syscall) : Bool :=
  rule.syscall = call.name && rule.conditions.all fun cond => cond.holds call

def matched (filter : List Rule) (call : Syscall) : Bool := filter.any fun rule => rule.admits call

def Filter.action (f : Filter) (call : Syscall) : FilterAction :=
  if matched f.filter call then f.matchAction else f.mismatchAction

/-- The call is done. -/
def Filter.passes (f : Filter) (call : Syscall) : Bool := f.action call ≠ .killProcess

end Seccomp

end Qeminga
