import Qeminga.Audit
import Qeminga.Lib.Window

/-!
# What the ring holds

The ring of the audit log after any sequence of pushes since its last drain: the longest suffix of the lines that fits
its capacity, where a line that is longer than the whole capacity counts as lost and evicts nothing.  The eviction of
`push` pops the oldest lines one by one; it is `Window.Longest.drop` for the room beside the new line.
-/

namespace Qeminga

open Window (Longest total)

namespace LineRing

inductive Op
  | push (line : Bytes)
  | drain
  deriving DecidableEq, Repr

def apply (r : LineRing) : Op → LineRing
  | .push line => r.push line
  | .drain => r.drain

/-- What `drain` returns. -/
def drained (r : LineRing) : Nat × List Bytes := (r.lost, r.lines)

/-- The lines pushed since the last drain, in order. -/
def sinceDrain (ops : List Op) : List Bytes :=
  ops.foldl (fun lines op => match op with | .push line => lines ++ [line] | .drain => []) []

/-- The eviction loop of `push` finds the ring empty and still too little room: its `None` branch. -/
def runsDry (n capacity : Nat) : (lines : List Bytes) → (used : Nat) → Bool
  | [], used => decide (capacity < saturatingAdd used n)
  | old :: lines, used => decide (capacity < saturatingAdd used n) && runsDry n capacity lines (used - old.length)

/-! ### The eviction -/

variable {n capacity : Nat} {lines : List Bytes} {lost : Nat}

private theorem lt_saturatingAdd {used : Nat} (h : capacity < maxCount ∨ used + n ≤ maxCount) :
    capacity < saturatingAdd used n ↔ capacity < used + n := by
  unfold saturatingAdd
  omega

private theorem min_min_add (a b m : Nat) : min (min a m + b) m = min (a + b) m := by
  omega

private theorem min_saturatingAdd (a k : Nat) : min (saturatingAdd a 1 + k) maxCount = min (a + (k + 1)) maxCount := by
  rw [saturatingAdd, min_min_add, Nat.add_assoc, Nat.add_comm 1]

/-- The loop leaves the longest suffix that fits beside the new line, and the counters agree with it. -/
theorem evict_longest (hn : n ≤ capacity) (hc : capacity < maxCount ∨ total List.length lines + n ≤ maxCount)
    (hl : lost ≤ maxCount) :
    Longest List.length (capacity - n) lines (evict n capacity lines (total List.length lines) lost).2.1 ∧
      (evict n capacity lines (total List.length lines) lost).1 =
        total List.length (evict n capacity lines (total List.length lines) lost).2.1 ∧
      (evict n capacity lines (total List.length lines) lost).2.2 =
        min (lost + (lines.length - (evict n capacity lines (total List.length lines) lost).2.1.length)) maxCount := by
  induction lines generalizing lost with
  | nil => exact ⟨.refl (by simp), rfl, by simp [evict, hl]⟩
  | cons old lines ih =>
    rw [evict]
    by_cases hfull : capacity < saturatingAdd (total List.length (old :: lines)) n
    · rw [if_pos hfull]
      rw [lt_saturatingAdd hc] at hfull
      have hused : total List.length (old :: lines) - old.length = total List.length lines := by simp
      rw [hused]
      have hone : saturatingAdd lost 1 ≤ maxCount := Nat.min_le_right ..
      obtain ⟨hlongest, htotal, hlost⟩ := ih (hc.imp_right fun h => by simp at h; omega) hone
      refine ⟨hlongest.drop (by omega), htotal, ?_⟩
      have hle := hlongest.suffix.length_le
      rw [hlost, min_saturatingAdd, List.length_cons, Nat.succ_sub hle]
    · rw [if_neg hfull]
      rw [lt_saturatingAdd hc] at hfull
      exact ⟨.refl (by omega), rfl, by simp [hl]⟩

/-- The loop never runs dry: a line that fits the capacity fits the empty ring. -/
theorem not_runsDry (hn : n ≤ capacity) (hc : capacity < maxCount ∨ total List.length lines + n ≤ maxCount) :
    runsDry n capacity lines (total List.length lines) = false := by
  induction lines with
  | nil =>
    have hroom : ¬ capacity < saturatingAdd 0 n := by
      unfold saturatingAdd
      omega
    exact decide_eq_false hroom
  | cons old lines ih =>
    have hused : total List.length (old :: lines) - old.length = total List.length lines := by simp
    rw [runsDry, hused, ih (hc.imp_right fun h => by simp at h; omega), Bool.and_false]

/-! ### The pushes -/

/-- The ring after the lines `pushed`. -/
structure Holds (capacity : Nat) (pushed : List Bytes) (r : LineRing) : Prop where
  size : r.capacity = capacity
  longest : Longest List.length capacity (pushed.filter fun line => line.length ≤ capacity) r.lines
  used : r.used = total List.length r.lines
  lost : r.lost = min (pushed.length - r.lines.length) maxCount

theorem holds_empty : Holds capacity [] ⟨capacity, 0, [], 0⟩ := ⟨rfl, .refl (by simp), rfl, by simp⟩

theorem Holds.length_le {pushed : List Bytes} {r : LineRing} (h : Holds capacity pushed r) :
    r.lines.length ≤ pushed.length :=
  Nat.le_trans h.longest.suffix.length_le (List.length_filter_le _ _)

theorem Holds.push {pushed : List Bytes} {r : LineRing} {line : Bytes} (h : Holds capacity pushed r)
    (hc : capacity < maxCount ∨ total List.length r.lines + line.length ≤ maxCount) :
    Holds capacity (pushed ++ [line]) (r.push line) := by
  have hle := h.length_le
  unfold LineRing.push
  by_cases hlong : capacity < line.length
  · have hnot : ¬ line.length ≤ capacity := by omega
    rw [if_pos (by rw [h.size]; exact hlong)]
    refine ⟨h.size, by simpa [List.filter_append, hnot] using h.longest, h.used, ?_⟩
    simp only [h.lost, saturatingAdd, min_min_add, List.length_append, List.length_singleton, Nat.succ_sub hle]
  · have hfits : line.length ≤ capacity := by omega
    rw [if_neg (by rw [h.size]; exact hlong), h.size, h.used]
    have hevict := evict_longest hfits hc (by rw [h.lost]; exact Nat.min_le_right .. : r.lost ≤ maxCount)
    generalize evict line.length capacity r.lines (total List.length r.lines) r.lost = x at hevict ⊢
    obtain ⟨hlongest, htotal, hlost⟩ := hevict
    refine ⟨rfl, ?_, ?_, ?_⟩
    · simp only [List.filter_append, List.filter_singleton, hfits, decide_true, cond_true]
      exact h.longest.concat hfits hlongest
    · simp [htotal]
    · have hsub := hlongest.suffix.length_le
      have hcount : pushed.length - r.lines.length + (r.lines.length - x.2.1.length) =
          pushed.length + 1 - (x.2.1.length + 1) := by
        omega
      simp only [hlost, h.lost, min_min_add, hcount, List.length_append, List.length_singleton]

/-! ### A run of the ring -/

/-- The lines are in memory while they are pushed.  This matters for a ring of the largest capacity only, whose loop
compares with a sum that saturates there. -/
def Addressable (capacity : Nat) (ops : List Op) : Prop :=
  capacity < maxCount ∨ ∀ p, p <+: ops → total List.length (sinceDrain p) ≤ maxCount

private theorem total_le_of_sublist {l l' : List Bytes} (h : l.Sublist l') : total List.length l ≤ total List.length l' := by
  induction h with
  | slnil => exact Nat.le_refl _
  | cons a _ ih => simp; omega
  | cons_cons a _ ih => simp; omega

private theorem sinceDrain_push (ops : List Op) (line : Bytes) :
    sinceDrain (ops ++ [.push line]) = sinceDrain ops ++ [line] := by
  simp [sinceDrain]

private theorem sinceDrain_drain (ops : List Op) : sinceDrain (ops ++ [.drain]) = [] := by
  simp [sinceDrain]

/-- There is room to count the next line beside those that are held. -/
private theorem Holds.counts {ops : List Op} {r : LineRing} {line : Bytes} (h : Holds capacity (sinceDrain ops) r)
    (ha : Addressable capacity (ops ++ [.push line])) :
    capacity < maxCount ∨ total List.length r.lines + line.length ≤ maxCount := by
  refine ha.imp_right fun hall => ?_
  have hle := total_le_of_sublist (h.longest.suffix.sublist.trans List.filter_sublist)
  have := hall _ (List.prefix_refl _)
  rw [sinceDrain_push] at this
  simp at this
  omega

private theorem Addressable.of_prefix {ops p : List Op} (h : Addressable capacity ops) (hp : p <+: ops) :
    Addressable capacity p :=
  h.imp_right fun hall q hq => hall q (hq.trans hp)

theorem holds_run {ops : List Op} (h : Addressable capacity ops) :
    Holds capacity (sinceDrain ops) (ops.foldl apply (withCapacity capacity)) := by
  induction ops using List.reverseRecOn with
  | nil => exact holds_empty
  | append_singleton ops op ih =>
    have ih := ih (h.of_prefix (List.prefix_append _ _))
    rw [List.foldl_append, List.foldl_cons, List.foldl_nil]
    cases op with
    | push line =>
      rw [sinceDrain_push]
      exact ih.push (ih.counts h)
    | drain =>
      rw [sinceDrain_drain, apply, drain, ih.size]
      exact holds_empty

/-- After any pushes and drains the ring holds, of the lines pushed since the last drain and not longer than the
capacity, the longest suffix that fits; `used` is its length in bytes and `lost` counts all others, up to the saturation;
the eviction never finds the ring empty; and a drain hands out the lines and the count and leaves an empty ring. -/
theorem ring_content (capacity : Nat) (ops : List Op) (h : Addressable capacity ops) :
    Longest List.length capacity ((sinceDrain ops).filter fun line => line.length ≤ capacity)
        (ops.foldl apply (withCapacity capacity)).lines ∧
      (ops.foldl apply (withCapacity capacity)).used = total List.length (ops.foldl apply (withCapacity capacity)).lines ∧
      (ops.foldl apply (withCapacity capacity)).used ≤ capacity ∧
      (ops.foldl apply (withCapacity capacity)).lost =
        min ((sinceDrain ops).length - (ops.foldl apply (withCapacity capacity)).lines.length) maxCount ∧
      (∀ p line, p ++ [.push line] <+: ops → line.length ≤ capacity →
        runsDry line.length capacity (p.foldl apply (withCapacity capacity)).lines
          (p.foldl apply (withCapacity capacity)).used = false) ∧
      (ops.foldl apply (withCapacity capacity)).drained =
        (min ((sinceDrain ops).length - (ops.foldl apply (withCapacity capacity)).lines.length) maxCount,
          (ops.foldl apply (withCapacity capacity)).lines) ∧
      (ops.foldl apply (withCapacity capacity)).drain = withCapacity capacity := by
  have hr := holds_run h
  refine ⟨hr.longest, hr.used, by rw [hr.used]; exact hr.longest.fits, hr.lost, fun p line hp hline => ?_, ?_, ?_⟩
  · have ha := h.of_prefix hp
    have hr := holds_run (ha.of_prefix (List.prefix_append _ _))
    rw [hr.used]
    exact not_runsDry hline (hr.counts ha)
  · rw [drained, hr.lost]
  · rw [drain, hr.size]
    rfl

/-- A line of exactly the capacity evicts the others but the empty one, and a longer line evicts nothing. -/
theorem ring_content_of_boundary :
    Addressable 4 [.push [1, 2], .push [], .push [3], .drain, .push [1], .push [], .push [2, 3, 4, 5], .push [6, 7, 8, 9, 10]] ∧
      Longest List.length 4 [[1], [], [2, 3, 4, 5]]
        (List.foldl apply (withCapacity 4) [.push [1, 2], .push [], .push [3], .drain, .push [1], .push [],
          .push [2, 3, 4, 5], .push [6, 7, 8, 9, 10]]).lines ∧
      (List.foldl apply (withCapacity 4) [.push [1, 2], .push [], .push [3], .drain, .push [1], .push [],
          .push [2, 3, 4, 5], .push [6, 7, 8, 9, 10]]).lost = 2 := by
  have ha : ∀ ops, Addressable 4 ops := fun _ => .inl (by simp [maxCount])
  obtain ⟨hlongest, -⟩ := ring_content 4 [.push [1, 2], .push [], .push [3], .drain, .push [1], .push [],
    .push [2, 3, 4, 5], .push [6, 7, 8, 9, 10]] (ha _)
  exact ⟨ha _, by simpa [sinceDrain] using hlongest, by simp [apply, LineRing.push, evict, withCapacity, saturatingAdd, maxCount, drain]⟩

end LineRing

end Qeminga
