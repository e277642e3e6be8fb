import Mathlib.Data.List.Basic

/-!
# The kernel shim

The errors of `kernel/mod.rs` with their classification, and the verified handle `Mount` every ioctl goes through.
A `KernelError.errno` is the ioctl's own answer; the other two say that no ioctl was issued.
-/

namespace Qeminga

/-- `(major, minor)` of a superblock. -/
abbrev Dev := Nat × Nat

/-- A pathname, byte for byte. -/
abbrev Path := List UInt8

/-- The errnos the agent tells apart; every other one by its number. -/
inductive Errno
  | EPERM | ENOENT | EACCES | EBUSY | EEXIST | EINVAL | ENOTTY | ENOSYS | EOPNOTSUPP
  | other (code : Nat)
  deriving DecidableEq, Repr

inductive KernelError
  | errno (e : Errno)
  | open (e : Errno)
  | wrongFilesystem (expected found : Dev)
  deriving DecidableEq, Repr

namespace KernelError

/-- The underlying errno, if the failure came from a system call. -/
def toErrno : KernelError → Option Errno
  | .errno e => some e
  | .open e => some e
  | .wrongFilesystem _ _ => none

/-- The ioctl was issued and this is its answer. -/
def isIoctlAnswer : KernelError → Bool
  | .errno _ => true
  | _ => false

def isNotSupported : KernelError → Bool
  | .errno .EOPNOTSUPP => true
  | .errno .ENOTTY => true
  | .errno .ENOSYS => true
  | _ => false

def isBusy : KernelError → Bool
  | .errno .EBUSY => true
  | _ => false

def isPermission (err : KernelError) : Bool :=
  err.toErrno = some .EPERM || err.toErrno = some .EACCES

def isInvalid : KernelError → Bool
  | .errno .EINVAL => true
  | _ => false

/-- For `FITHAW`: the ioctl's answer that the filesystem is not frozen, or cannot be. -/
def endsDrain (err : KernelError) : Bool := err.isInvalid || err.isNotSupported

theorem isIoctlAnswer_of_endsDrain {err : KernelError} (h : err.endsDrain = true) : err.isIoctlAnswer = true := by
  cases err with
  | errno e => rfl
  | «open» e => simp [endsDrain, isInvalid, isNotSupported] at h
  | wrongFilesystem a b => simp [endsDrain, isInvalid, isNotSupported] at h

end KernelError

/-- An open mountpoint whose filesystem was verified to be `dev`; `fd` is the descriptor, which is never reused
here, so that it names the handle. -/
structure Mount where
  mountpoint : Path
  dev : Dev
  fd : Nat
  deriving DecidableEq, Repr

/-- The superblocks a list of handles is on. -/
def devs (ms : List Mount) : List Dev := ms.map Mount.dev

@[simp] theorem devs_nil : devs [] = [] := rfl

@[simp] theorem devs_cons (m : Mount) (ms : List Mount) : devs (m :: ms) = m.dev :: devs ms := rfl

@[simp] theorem devs_append (ms ns : List Mount) : devs (ms ++ ns) = devs ms ++ devs ns := List.map_append

@[simp] theorem devs_reverse (ms : List Mount) : devs ms.reverse = (devs ms).reverse := List.map_reverse

theorem dev_mem_devs {m : Mount} {ms : List Mount} (h : m ∈ ms) : m.dev ∈ devs ms := List.mem_map_of_mem h

end Qeminga
