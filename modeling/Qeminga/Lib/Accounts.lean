import Mathlib.Data.List.Basic

/-!
# Accounts of a stream

A list of items accounts for an input if the input splits into consecutive pieces, one for each item, and each item covers
its piece.  An item may be the element itself, or a summary of a piece that was left out.
-/

variable {ι α : Type*}

/-- The items account for the input, piece by piece. -/
inductive Accounts (covers : ι → List α → Prop) : List ι → List α → Prop
  | nil : Accounts covers [] []
  | cons {item : ι} {piece : List α} {items : List ι} {input : List α} (h : covers item piece)
      (hrest : Accounts covers items input) : Accounts covers (item :: items) (piece ++ input)

namespace Accounts

variable {covers : ι → List α → Prop} {xs ys zs : List ι} {input : List α}

theorem singleton {item : ι} {piece : List α} (h : covers item piece) : Accounts covers [item] piece := by
  have := Accounts.cons h .nil
  rwa [List.append_nil] at this

theorem append {a b : List α} (h : Accounts covers xs a) (h' : Accounts covers ys b) :
    Accounts covers (xs ++ ys) (a ++ b) := by
  induction h with
  | nil => exact h'
  | cons hc _ ih =>
    rw [List.cons_append, List.append_assoc]
    exact .cons hc ih

theorem cons_inv {item : ι} (h : Accounts covers (item :: xs) input) :
    ∃ piece rest, input = piece ++ rest ∧ covers item piece ∧ Accounts covers xs rest := by
  cases h with
  | cons hc hrest => exact ⟨_, _, rfl, hc, hrest⟩

theorem append_inv (h : Accounts covers (xs ++ ys) input) :
    ∃ a b, input = a ++ b ∧ Accounts covers xs a ∧ Accounts covers ys b := by
  induction xs generalizing input with
  | nil => exact ⟨[], input, rfl, .nil, h⟩
  | cons item xs ih =>
    obtain ⟨piece, rest, rfl, hc, hrest⟩ := cons_inv h
    obtain ⟨a, b, rfl, ha, hb⟩ := ih hrest
    exact ⟨piece ++ a, b, (List.append_assoc ..).symm, .cons hc ha, hb⟩

theorem singleton_inv {item : ι} (h : Accounts covers [item] input) : covers item input := by
  obtain ⟨piece, rest, rfl, hc, hrest⟩ := cons_inv h
  cases hrest
  rwa [List.append_nil]

/-- A stretch of the account is replaced by another that covers the same. -/
theorem replace (h : Accounts covers (xs ++ ys ++ zs) input) {ys' : List ι}
    (hys : ∀ piece, Accounts covers ys piece → Accounts covers ys' piece) : Accounts covers (xs ++ ys' ++ zs) input := by
  obtain ⟨ab, c, rfl, hab, hc⟩ := append_inv h
  obtain ⟨a, b, rfl, ha, hb⟩ := append_inv hab
  exact (ha.append (hys b hb)).append hc

/-- The elements that items stand for themselves come from the input, in order. -/
theorem sublist {part : ι → Option α} (hpart : ∀ {item piece}, covers item piece → (part item).toList.Sublist piece)
    (h : Accounts covers xs input) : (xs.filterMap part).Sublist input := by
  induction h with
  | nil => exact .slnil
  | @cons item piece items input hc _ ih =>
    have hcons : (item :: items).filterMap part = (part item).toList ++ items.filterMap part := by
      cases hp : part item <;> simp [hp]
    rw [hcons]
    exact (hpart hc).append ih

end Accounts
