import Mathlib.Data.String.Basic
import Qeminga.Lib.IpText

/-!
# The network interfaces

`handlers/interfaces.rs`: from the records of the kernel, one for each address of an interface, to the reply.
-/

namespace Qeminga

namespace Interfaces

open Ip

structure RawAddr where
  ifname : String
  loopback : Bool
  mac : Option (Vector UInt8 6)
  addr : Option IpAddr
  netmask : Option IpAddr
  deriving DecidableEq

structure IpAddress where
  ipAddress : String
  ipAddressType : String
  netPrefix : Nat
  deriving DecidableEq, Repr

structure Interface where
  name : String
  hardwareAddress : Option String
  ipAddresses : List IpAddress
  deriving DecidableEq, Repr

/-! ### Filtering -/

def isUnicastLinkLocalV6 (bits : BitVec 128) : Bool := (segments bits)[0]?.any fun segment => segment &&& 0xffc0 = 0xfe80

def isFiltered : IpAddr → Bool
  | .v4 bits => (octets bits).take 1 = [127] || (octets bits).take 2 = [169, 254]
  | .v6 bits => bits = 1 || isUnicastLinkLocalV6 bits

/-! ### Prefixes -/

/-- `leading_ones`, from the most significant bit. -/
def leadingOnes {w : Nat} (bits : BitVec w) : Nat := ((List.range w).takeWhile fun i => bits.getMsbD i).length

/-- `checked_shl`, with `unwrap_or(0)`. -/
def shiftedOut {w : Nat} (bits : BitVec w) (n : Nat) : BitVec w := if n < w then bits <<< n else 0

def prefixLenOf {w : Nat} (bits : BitVec w) : Option Nat :=
  if shiftedOut bits (leadingOnes bits) = 0 then some (leadingOnes bits) else none

/-- `None` when the mask is not contiguous. -/
def prefixLen : IpAddr → Option Nat
  | .v4 mask => prefixLenOf mask
  | .v6 mask => prefixLenOf mask

/-- The prefix of a single address. -/
def hostPrefix : IpAddr → Nat
  | .v4 _ => 32
  | .v6 _ => 128

/-! ### The reply -/

/-- A byte as two hexadecimal digits. -/
def hexByte (b : UInt8) : List Char := [(b.toNat / 16).digitChar, (b.toNat % 16).digitChar]

def formatMac (mac : Vector UInt8 6) : String := String.ofList ([':'].intercalate (mac.toList.map hexByte))

def addressType : IpAddr → String
  | .v4 _ => "ipv4"
  | .v6 _ => "ipv6"

/-- What a record adds to its interface. -/
def Interface.add (entry : Interface) (record : RawAddr) : Interface :=
  let entry := match record.mac with
    | some mac => { entry with hardwareAddress := some (formatMac mac) }
    | none => entry
  match record.addr with
  | some addr =>
    if isFiltered addr then entry
    else
      { entry with ipAddresses := entry.ipAddresses ++
          [⟨display addr, addressType addr, (record.netmask.bind prefixLen).getD (hostPrefix addr)⟩] }
  | none => entry

/-- The variables of the loop of `collect`. -/
structure Collected where
  byName : Std.ExtTreeMap String Interface
  loopbacks : List String

def Collected.step (c : Collected) (record : RawAddr) : Collected where
  byName := c.byName.alter record.ifname fun entry => some ((entry.getD ⟨record.ifname, none, []⟩).add record)
  loopbacks := if record.loopback then c.loopbacks ++ [record.ifname] else c.loopbacks

/-- Groups, filters and sorts the records. -/
def collect (records : List RawAddr) : List Interface :=
  let c := records.foldl Collected.step ⟨∅, []⟩
  (c.loopbacks.foldl Std.ExtTreeMap.erase c.byName).toList.map Prod.snd

end Interfaces

end Qeminga
