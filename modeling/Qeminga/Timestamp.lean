import Mathlib.Algebra.GroupWithZero.Nat
import Mathlib.Data.List.Basic

/-!
# Timestamps

`format_utc` and `civil_from_days` of `audit.rs`.  The calendar arithmetic is that of `u64`: an operation that leaves the
range has no result.
-/

namespace Qeminga

/-! ### Arithmetic of `u64` -/

namespace U64

def add (a b : Nat) : Option Nat := if a + b < 2 ^ 64 then some (a + b) else none

def mul (a b : Nat) : Option Nat := if a * b < 2 ^ 64 then some (a * b) else none

def sub (a b : Nat) : Option Nat := if b ≤ a then some (a - b) else none

theorem add_bind {α : Type} {a b : Nat} (h : a + b < 2 ^ 64) (f : Nat → Option α) : (add a b >>= f) = f (a + b) := by
  rw [add, if_pos h]
  rfl

theorem mul_bind {α : Type} {a b : Nat} (h : a * b < 2 ^ 64) (f : Nat → Option α) : (mul a b >>= f) = f (a * b) := by
  rw [mul, if_pos h]
  rfl

theorem sub_bind {α : Type} {a b : Nat} (h : b ≤ a) (f : Nat → Option α) : (sub a b >>= f) = f (a - b) := by
  rw [sub, if_pos h]
  rfl

end U64

namespace Timestamp

open U64

/-- Days since 1970-01-01 as a year, a month and a day. -/
def civilFromDays (days : Nat) : Option (Nat × Nat × Nat) := do
  let z ← add days 719468
  let era := z / 146097
  let doe ← sub z (← mul era 146097)
  let yoe := (← sub (← add (← sub doe (doe / 1460)) (doe / 36524)) (doe / 146096)) / 365
  let y ← add yoe (← mul era 400)
  let doy ← sub doe (← sub (← add (← mul 365 yoe) (yoe / 4)) (yoe / 100))
  let mp := (← add (← mul 5 doy) 2) / 153
  let d ← add (← sub doy ((← add (← mul 153 mp) 2) / 5)) 1
  let m ← if mp < 10 then add mp 3 else sub mp 9
  let y ← if m ≤ 2 then add y 1 else some y
  return (y, m, d)

/-- `std::time::Duration`, and its invariant. -/
structure Duration where
  secs : Nat
  nanos : Nat
  secs_lt : secs < 2 ^ 64
  nanos_lt : nanos < 1000000000

def Duration.zero : Duration := ⟨0, 0, by decide, by decide⟩

def Duration.subsecMillis (d : Duration) : Nat := d.nanos / 1000000

/-- `std::time::SystemTime`: nanoseconds from the epoch; a `Duration` has room for those after it. -/
abbrev SystemTime := { nanos : Int // nanos.toNat < 2 ^ 64 * 1000000000 }

/-- `duration_since(UNIX_EPOCH)`; there is none before the epoch. -/
def SystemTime.durationSinceEpoch (time : SystemTime) : Option Duration :=
  if 0 ≤ time.val then
    some ⟨time.val.toNat / 1000000000, time.val.toNat % 1000000000, by have := time.property; omega, by omega⟩
  else none

/-- The numbers in a timestamp. -/
@[ext]
structure Utc where
  year : Nat
  month : Nat
  day : Nat
  hour : Nat
  minute : Nat
  second : Nat
  millis : Nat
  deriving DecidableEq, Repr

/-- A number in at least `width` digits. -/
def padded (width n : Nat) : List Char := (Nat.toDigits 10 n).leftpad width '0'

def Utc.text (u : Utc) : String :=
  String.ofList (padded 4 u.year ++ '-' :: (padded 2 u.month ++ '-' :: (padded 2 u.day ++ 'T' :: (padded 2 u.hour ++ ':' ::
    (padded 2 u.minute ++ ':' :: (padded 2 u.second ++ '.' :: (padded 3 u.millis ++ ['Z'])))))))

/-- The numbers that `format_utc` writes. -/
def utc (time : SystemTime) : Option Utc := do
  let sinceEpoch := time.durationSinceEpoch.getD .zero
  let secs := sinceEpoch.secs
  let millis := sinceEpoch.subsecMillis
  let days := secs / 86400
  let secsOfDay := secs % 86400
  let (year, month, day) ← civilFromDays days
  return ⟨year, month, day, secsOfDay / 3600, secsOfDay % 3600 / 60, secsOfDay % 60, millis⟩

def formatUtc (time : SystemTime) : Option String := (utc time).map Utc.text

end Timestamp

end Qeminga
