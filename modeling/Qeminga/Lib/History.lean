import Mathlib.Data.List.Basic

/-!
# Histories

A history lists events, the latest first.  `Justified P` says that `P` held of each event and the events before it at
the time it was recorded, so a property of every suffix is proved one event at a time.
-/

variable {ε : Type*}

/-- Each event of the history, with the events before it, satisfies `P`. -/
def Justified (P : ε → List ε → Prop) : List ε → Prop
  | [] => True
  | e :: older => P e older ∧ Justified P older

namespace Justified

variable {P : ε → List ε → Prop}

theorem of_append {newer older : List ε} {e : ε} (h : Justified P (newer ++ e :: older)) : P e older := by
  induction newer with
  | nil => exact h.1
  | cons _ _ ih => exact ih h.2

theorem of_suffix {log older : List ε} (h : Justified P log) (hs : older <:+ log) : Justified P older := by
  obtain ⟨newer, rfl⟩ := hs
  induction newer with
  | nil => exact h
  | cons _ _ ih => exact ih h.2

/-- Events of which `P` says nothing. -/
theorem append {new log : List ε} (h : Justified P log) (hnew : ∀ e ∈ new, ∀ older, P e older) :
    Justified P (new ++ log) := by
  induction new with
  | nil => exact h
  | cons e new ih => exact ⟨hnew e List.mem_cons_self _, ih fun e' he' => hnew e' (List.mem_cons_of_mem _ he')⟩

end Justified
