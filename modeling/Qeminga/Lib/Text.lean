import Mathlib.Data.List.Basic

/-!
# Cutting texts

Texts are lists, of bytes or of characters.
-/

namespace Text

variable {α : Type} [DecidableEq α]

/-- The text before the first `sep`, and the text after it. -/
def splitOnce (sep : α) : List α → Option (List α × List α)
  | [] => none
  | x :: xs => if x = sep then some ([], xs) else (splitOnce sep xs).map fun p => (x :: p.1, p.2)

theorem splitOnce_append_cons {sep : α} {xs : List α} (h : sep ∉ xs) (ys : List α) :
    splitOnce sep (xs ++ sep :: ys) = some (xs, ys) := by
  induction xs with
  | nil => simp [splitOnce]
  | cons x xs ih =>
    obtain ⟨hx, hxs⟩ := not_or.1 (mt List.mem_cons.2 h)
    simp only [List.cons_append, splitOnce, if_neg (Ne.symm hx), ih hxs, Option.map_some]

theorem append_cons_inj {sep : α} {xs xs' ys ys' : List α} (hxs : sep ∉ xs) (hxs' : sep ∉ xs')
    (h : xs ++ sep :: ys = xs' ++ sep :: ys') : xs = xs' ∧ ys = ys' := by
  have hsplit := splitOnce_append_cons hxs ys
  rw [h, splitOnce_append_cons hxs'] at hsplit
  exact ⟨(congrArg Prod.fst (Option.some.inj hsplit)).symm, (congrArg Prod.snd (Option.some.inj hsplit)).symm⟩

theorem splitOnce_eq_none {sep : α} {xs : List α} : splitOnce sep xs = none ↔ sep ∉ xs := by
  induction xs with
  | nil => simp [splitOnce]
  | cons x xs ih =>
    by_cases hx : x = sep
    · simp [splitOnce, hx]
    · simp [splitOnce, if_neg hx, ih, Ne.symm hx]

theorem notMem_intercalate {x sep : α} {xss : List (List α)} (hne : x ≠ sep) (h : ∀ xs ∈ xss, x ∉ xs) :
    x ∉ [sep].intercalate xss := by
  induction xss with
  | nil => exact List.not_mem_nil
  | cons xs xss ih =>
    obtain ⟨hxs, hxss⟩ := List.forall_mem_cons.1 h
    by_cases hnil : xss = []
    · rw [hnil, List.intercalate_singleton]
      exact hxs
    · rw [List.intercalate_cons_of_ne_nil hnil]
      simp [hxs, hne, ih hxss]

theorem notMem_of_mem_splitOn {sep : α} {xs ys : List α} (h : ys ∈ xs.splitOn sep) : sep ∉ ys := by
  induction xs generalizing ys with
  | nil =>
    obtain rfl := List.mem_singleton.1 h
    exact List.not_mem_nil
  | cons x xs ih =>
    rw [List.splitOn_cons_eq_if_modifyHead] at h
    split at h
    · rcases List.mem_cons.1 h with rfl | h
      · exact List.not_mem_nil
      · exact ih h
    · next hx =>
      cases hsplit : xs.splitOn sep with
      | nil => exact absurd hsplit (List.splitOn_ne_nil _ _)
      | cons zs zss =>
        rw [hsplit, List.modifyHead_cons] at h
        rcases List.mem_cons.1 h with rfl | h
        · have hzs : sep ∉ zs := ih (hsplit ▸ List.mem_cons_self)
          have hne : sep ≠ x := by
            rintro rfl
            exact hx (beq_self_eq_true sep)
          simp [hzs, hne]
        · exact ih (hsplit ▸ List.mem_cons_of_mem _ h)

/-- Replaces the `i`th of the parts that `sep` separates. -/
def setPart (sep : α) (xs : List α) (i : Nat) (ys : List α) : List α := [sep].intercalate ((xs.splitOn sep).set i ys)

theorem splitOn_setPart {sep : α} {ys : List α} (h : sep ∉ ys) (xs : List α) (i : Nat) :
    (setPart sep xs i ys).splitOn sep = (xs.splitOn sep).set i ys := by
  refine List.splitOn_intercalate sep (fun zs hzs => ?_) ?_
  · rcases List.mem_or_eq_of_mem_set hzs with hzs | rfl
    · exact notMem_of_mem_splitOn hzs
    · exact h
  · rw [Ne, List.set_eq_nil_iff]
    exact List.splitOn_ne_nil _ _

/-- Blocks that each end with `sep`, and have it nowhere else. -/
theorem splitOn_flatMap {β : Type} {sep : α} {f : β → List α} {xs : List β} (h : ∀ x ∈ xs, sep ∉ f x) :
    (xs.flatMap fun x => f x ++ [sep]).splitOn sep = xs.map f ++ [[]] := by
  induction xs with
  | nil => simp
  | cons x xs ih =>
    obtain ⟨hx, hxs⟩ := List.forall_mem_cons.1 h
    rw [List.flatMap_cons, List.append_assoc, List.singleton_append, List.splitOn_append_cons_self_of_not_mem hx, ih hxs]
    rfl

end Text
