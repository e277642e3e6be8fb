import Mathlib.Data.List.Induction
import Qeminga.Interfaces

/-!
# The interface report

What the reply has of the records: an interface for each name that no loopback record carries, in the order of the names,
with the addresses that may be shown, in the order of the kernel.  The records of different interfaces do not meet.
-/

namespace Qeminga

namespace Interfaces

open Ip

variable {records records' : List RawAddr} {record : RawAddr} {name : String} {w : Nat}

/-! ### Masks -/

/-- The set bits come first. -/
def ContiguousBits (bits : BitVec w) : Prop := ∃ k, ∀ i < w, bits.getMsbD i = decide (i < k)

/-- The address is in the network that has the first `len` bits of `net`. -/
def InNet (bits net : BitVec w) (len : Nat) : Prop := bits.toNat / 2 ^ (w - len) = net.toNat / 2 ^ (w - len)

/-- `127/8`, `169.254/16`, `::1` and `fe80::/10`. -/
def Hidden : IpAddr → Prop
  | .v4 bits => InNet bits 0x7f000000#32 8 ∨ InNet bits 0xa9fe0000#32 16
  | .v6 bits => bits = 1#128 ∨ InNet bits 0xfe800000000000000000000000000000#128 10

/-- The mask is contiguous. -/
def Contiguous : IpAddr → Prop
  | .v4 mask => ContiguousBits mask
  | .v6 mask => ContiguousBits mask

/-- The number of leading ones of a mask. -/
def ones : IpAddr → Nat
  | .v4 mask => leadingOnes mask
  | .v6 mask => leadingOnes mask

/-- The record has an address that may be shown, and `ip` shows it. -/
def Shows (record : RawAddr) (ip : IpAddress) : Prop :=
  ∃ addr, record.addr = some addr ∧ ¬ Hidden addr ∧ ip.ipAddress = display addr ∧ ip.ipAddressType = addressType addr ∧
    ((∃ mask, record.netmask = some mask ∧ Contiguous mask ∧ ip.netPrefix = ones mask) ∨
      (∀ mask, record.netmask = some mask → ¬ Contiguous mask) ∧ ip.netPrefix = hostPrefix addr)

end Interfaces

end Qeminga
