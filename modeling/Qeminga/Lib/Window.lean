import Mathlib.Algebra.GroupWithZero.Nat
import Mathlib.Data.List.Basic
import Mathlib.Data.List.Infix

/-!
# The longest suffix within a budget

A FIFO with a budget keeps, of a list of weighted elements, the longest suffix that fits (`Longest`).  It is found by
dropping the oldest element as long as the rest does not fit (`Longest.drop`, `Longest.refl`), and it can be kept up to
date: for one more element, drop what is too much beside it and append it (`Longest.concat`).
-/

namespace Window

variable {α : Type*} (weight : α → Nat)

def total (l : List α) : Nat := (l.map weight).sum

/-- Of the suffixes of `l` of weight at most `c`, the longest is `s`: each of them is a suffix of it. -/
structure Longest (c : Nat) (l s : List α) : Prop where
  suffix : s <:+ l
  fits : total weight s ≤ c
  longest : ∀ u, u <:+ l → total weight u ≤ c → u <:+ s

variable {weight} {c : Nat} {l s s' : List α} {x : α}

@[simp] theorem total_nil : total weight [] = 0 := rfl

@[simp] theorem total_cons : total weight (x :: l) = weight x + total weight l := by
  simp [total]

@[simp] theorem total_append : total weight (l ++ s) = total weight l + total weight s := by
  simp [total]

namespace Longest

theorem refl (h : total weight l ≤ c) : Longest weight c l l := ⟨List.suffix_rfl, h, fun _ hu _ => hu⟩

/-- An element that is too much at the front is dropped. -/
theorem drop (h : Longest weight c l s) (hx : c < total weight (x :: l)) : Longest weight c (x :: l) s := by
  refine ⟨h.suffix.trans (List.suffix_cons x l), h.fits, fun u hu hfits => ?_⟩
  rcases List.suffix_cons_iff.1 hu with rfl | hu
  · omega
  · exact h.longest u hu hfits

/-- One more element at the end: what does not fit beside it is dropped. -/
theorem concat (h : Longest weight c l s) (hx : weight x ≤ c) (h' : Longest weight (c - weight x) s s') :
    Longest weight c (l ++ [x]) (s' ++ [x]) := by
  have hfits := h'.fits
  refine ⟨?_, by simp; omega, fun u hu hle => ?_⟩
  · obtain ⟨pre, rfl⟩ := h'.suffix.trans h.suffix
    exact ⟨pre, by simp⟩
  · rcases List.suffix_concat_iff.1 hu with rfl | ⟨v, rfl, hv⟩
    · exact List.nil_suffix
    · simp only [total_append, total_cons, total_nil] at hle
      obtain ⟨pre, rfl⟩ := h'.longest v (h.longest v hv (by omega)) (by omega)
      exact ⟨pre, by simp⟩

end Longest

end Window
