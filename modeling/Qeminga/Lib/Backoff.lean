import Mathlib.Algebra.Order.Ring.Nat

/-!
# Bounded exponential backoff

A delay that doubles from `initial` up to `max`.  Both ways to write the doubling are used: `min (2 * d) max` on a delay that
is in use (`after_succ`), and a `clamp` that also starts one (`clamp_after`).  Attempts with these delays between them are
`Spaced`.
-/

/-- The bounds of a delay that doubles. -/
structure Backoff where
  initial : Nat
  max : Nat
  deriving DecidableEq, Repr

namespace Backoff

variable (b : Backoff)

/-- The delay after it has doubled `k` times. -/
def after (k : Nat) : Nat := min (b.initial * 2 ^ k) b.max

/-- The delays that pass until the delay has doubled `k` times. -/
def elapsed : Nat → Nat
  | 0 => 0
  | k + 1 => elapsed k + b.after k

variable {b} {k : Nat}

theorem after_zero (h : b.initial ≤ b.max) : b.after 0 = b.initial := by simp [after, h]

theorem after_le_max : b.after k ≤ b.max := Nat.min_le_right ..

theorem initial_le_after (h : b.initial ≤ b.max) : b.initial ≤ b.after k :=
  Nat.le_min.2 ⟨Nat.le_mul_of_pos_right _ (Nat.two_pow_pos k), h⟩

/-- A delay in use doubles. -/
theorem after_succ : min (b.after k * 2) b.max = b.after (k + 1) := by
  have hpow : b.initial * 2 ^ (k + 1) = b.initial * 2 ^ k * 2 := by rw [Nat.pow_succ, Nat.mul_assoc]
  unfold after
  omega

/-- A delay in use doubles under `clamp`. -/
theorem clamp_after (h : b.initial ≤ b.max) : Max.max b.initial (min (b.after k * 2) b.max) = b.after (k + 1) := by
  rw [after_succ]
  exact Nat.max_eq_right (initial_le_after h)

/-- The first delay under `clamp`. -/
theorem clamp_zero (h : b.initial ≤ b.max) : Max.max b.initial (min (0 * 2) b.max) = b.after 0 := by
  rw [after_zero h]
  omega

/-! ### Attempts -/

/-- Between the attempt `i` and the next one there is the delay that has doubled `i` times. -/
def Spaced (b : Backoff) (times : List Nat) : Prop :=
  ∀ i t t', times[i]? = some t → times[i + 1]? = some t' → t + b.after i ≤ t'

theorem spaced_nil : b.Spaced [] := by
  intro i t t' h
  cases h

/-- One more attempt, after the delay. -/
theorem Spaced.concat {times : List Nat} {now : Nat} (h : b.Spaced times)
    (hlast : ∀ i t, times.length = i + 1 → times[i]? = some t → t + b.after i ≤ now) : b.Spaced (times ++ [now]) := by
  intro i t t' ht ht'
  have hlen : i + 1 < (times ++ [now]).length := (List.getElem?_eq_some_iff.1 ht').1
  rw [List.length_append, List.length_singleton] at hlen
  rw [List.getElem?_append_left (by omega)] at ht
  by_cases hi : i + 1 < times.length
  · rw [List.getElem?_append_left hi] at ht'
    exact h i t t' ht ht'
  · have hlength : times.length = i + 1 := by omega
    rw [List.getElem?_append_right (by omega), hlength, Nat.sub_self] at ht'
    obtain rfl := Option.some.inj ht'
    exact hlast i t hlength ht

end Backoff
