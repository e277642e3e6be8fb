import Mathlib.Logic.Function.Basic

/-!
# Pools of tasks over a shared context

A pool is a context that its tasks share and the tasks by identity; a task's private state is changed by that task
only.  An invariant of a pool has a global part `G` on the context and a local part `L` on each task, and is kept by
a step of one task if the step keeps `G`, establishes `L` for the task (and for a task it spawns), and does not
disturb the local parts of the others.  The rules for a step lead from one invariant to another, so that the
invariant may depend on a history that the step extends.
-/

structure Pool (C T : Type*) where
  ctx : C
  tasks : Nat → Option T
  next : Nat

namespace Pool

variable {C T : Type*}

/-- Adds a task under the next identity. -/
def spawn (p : Pool C T) (c : C) (t : T) : Pool C T := ⟨c, Function.update p.tasks p.next (some t), p.next + 1⟩

/-- The task `i` has changed the context to `c` and itself to `t`, and has spawned `new`. -/
def apply (p : Pool C T) (i : Nat) (c : C) (t : T) (new : Option T) : Pool C T :=
  match new with
  | some t' => ⟨c, Function.update (Function.update p.tasks i (some t)) p.next (some t'), p.next + 1⟩
  | none => ⟨c, Function.update p.tasks i (some t), p.next⟩

@[simp] theorem spawn_ctx (p : Pool C T) (c : C) (t : T) : (p.spawn c t).ctx = c := rfl

@[simp] theorem apply_ctx (p : Pool C T) (i : Nat) (c : C) (t : T) (new : Option T) : (p.apply i c t new).ctx = c := by
  cases new <;> rfl

private theorem update_eq_some {f : Nat → Option T} {i j : Nat} {t u : T}
    (h : Function.update f i (some t) j = some u) : (j = i ∧ u = t) ∨ (j ≠ i ∧ f j = some u) := by
  by_cases hj : j = i
  · subst hj
    rw [Function.update_self] at h
    exact .inl ⟨rfl, (Option.some.inj h).symm⟩
  · rw [Function.update_of_ne hj] at h
    exact .inr ⟨hj, h⟩

/-- The tasks of a pool after a spawn: the new one, or one that was there. -/
theorem spawn_tasks {p : Pool C T} {c : C} {t u : T} {j : Nat} (h : (p.spawn c t).tasks j = some u) :
    (j = p.next ∧ u = t) ∨ (j ≠ p.next ∧ p.tasks j = some u) := update_eq_some h

/-- The tasks of a pool after a step of the task `i`: the spawned one, the task itself, or another one. -/
theorem apply_tasks {p : Pool C T} {i j : Nat} {c : C} {t u : T} {new : Option T}
    (h : (p.apply i c t new).tasks j = some u) :
    (j = p.next ∧ new = some u) ∨ (j = i ∧ u = t) ∨ (j ≠ i ∧ p.tasks j = some u) := by
  cases new with
  | none => exact .inr (update_eq_some h)
  | some t' =>
    rcases update_eq_some h with ⟨hj, rfl⟩ | ⟨_, ht⟩
    · exact .inl ⟨hj, rfl⟩
    · exact .inr (update_eq_some ht)

theorem spawn_of_ne {p : Pool C T} {j : Nat} {c : C} {t : T} (h : j ≠ p.next) : (p.spawn c t).tasks j = p.tasks j :=
  Function.update_of_ne h ..

theorem apply_self {p : Pool C T} {i : Nat} {c : C} {t : T} {new : Option T} (h : i ≠ p.next) :
    (p.apply i c t new).tasks i = some t := by
  cases new with
  | none => exact Function.update_self ..
  | some t' => exact (Function.update_of_ne h ..).trans (Function.update_self ..)

theorem apply_of_ne {p : Pool C T} {i j : Nat} {c : C} {t : T} {new : Option T} (hi : j ≠ i) (hn : j ≠ p.next) :
    (p.apply i c t new).tasks j = p.tasks j := by
  cases new with
  | none => exact Function.update_of_ne hi ..
  | some t' => exact (Function.update_of_ne hn ..).trans (Function.update_of_ne hi ..)

theorem apply_spawned {p : Pool C T} {i : Nat} {c : C} {t t' : T} :
    (p.apply i c t (some t')).tasks p.next = some t' := Function.update_self ..

/-- No task leaves the pool. -/
theorem apply_present {p : Pool C T} {i j : Nat} {c : C} {t : T} {new : Option T}
    (h : j = i ∨ (p.tasks j).isSome = true) : ((p.apply i c t new).tasks j).isSome = true := by
  cases new with
  | none =>
    by_cases hj : j = i
    · simp [apply, hj]
    · simpa [apply, hj] using h
  | some t' =>
    by_cases hn : j = p.next
    · simp [apply, hn]
    · by_cases hj : j = i
      · subst hj
        simp [apply, hn]
      · simpa [apply, hn, hj] using h

theorem spawn_present {p : Pool C T} {j : Nat} {c : C} {t : T} (h : j = p.next ∨ (p.tasks j).isSome = true) :
    ((p.spawn c t).tasks j).isSome = true := by
  by_cases hj : j = p.next
  · simp [spawn, hj]
  · simpa [spawn, hj] using h

/-- An invariant with a global part `G`, which may speak of the next identity, and a local part `L`; the identities
in use are below the next one. -/
structure Holds (G : C → Nat → Prop) (L : C → Nat → T → Prop) (p : Pool C T) : Prop where
  glob : G p.ctx p.next
  loc : ∀ {i t}, p.tasks i = some t → L p.ctx i t
  bound : ∀ {i t}, p.tasks i = some t → i < p.next

variable {G G' : C → Nat → Prop} {L L' : C → Nat → T → Prop} {p : Pool C T}

theorem le_apply_next (p : Pool C T) (i : Nat) (c : C) (t : T) (new : Option T) : p.next ≤ (p.apply i c t new).next := by
  cases new with
  | none => exact Nat.le_refl _
  | some t' => exact Nat.le_succ _

/-- A step of one task. -/
theorem Holds.apply (h : p.Holds G L) {i : Nat} {t : T} (hi : p.tasks i = some t) {c : C} {t' : T} {new : Option T}
    (hG : G' c (p.apply i c t' new).next) (hL : L' c i t') (hnew : ∀ u, new = some u → L' c p.next u)
    (hother : ∀ j u, j ≠ i → p.tasks j = some u → L p.ctx j u → L' c j u) : (p.apply i c t' new).Holds G' L' where
  glob := by rw [apply_ctx]; exact hG
  loc := by
    intro j u hj
    rw [apply_ctx]
    rcases apply_tasks hj with ⟨rfl, hn⟩ | ⟨rfl, rfl⟩ | ⟨hne, ht⟩
    · exact hnew u hn
    · exact hL
    · exact hother j u hne ht (h.loc ht)
  bound := by
    intro j u hj
    have hle := p.le_apply_next i c t' new
    rcases apply_tasks hj with ⟨rfl, hn⟩ | ⟨rfl, rfl⟩ | ⟨hne, ht⟩
    · subst hn; exact Nat.lt_succ_self _
    · exact Nat.lt_of_lt_of_le (h.bound hi) hle
    · exact Nat.lt_of_lt_of_le (h.bound ht) hle

/-- A new task. -/
theorem Holds.spawn (h : p.Holds G L) {c : C} {t : T} (hG : G' c (p.next + 1)) (hL : L' c p.next t)
    (hother : ∀ j u, j < p.next → p.tasks j = some u → L p.ctx j u → L' c j u) : (p.spawn c t).Holds G' L' where
  glob := hG
  loc := by
    intro j u hj
    rcases spawn_tasks hj with ⟨rfl, rfl⟩ | ⟨_, ht⟩
    · exact hL
    · exact hother j u (h.bound ht) ht (h.loc ht)
  bound := by
    intro j u hj
    rcases spawn_tasks hj with ⟨rfl, rfl⟩ | ⟨_, ht⟩
    · exact Nat.lt_succ_self _
    · exact Nat.lt_succ_of_lt (h.bound ht)

/-- A step of the environment, which changes the context only. -/
theorem Holds.withCtx (h : p.Holds G L) {c : C} (hG : G' c p.next)
    (hother : ∀ j u, p.tasks j = some u → L p.ctx j u → L' c j u) : ({ p with ctx := c } : Pool C T).Holds G' L' where
  glob := hG
  loc := fun ht => hother _ _ ht (h.loc ht)
  bound := h.bound

end Pool
