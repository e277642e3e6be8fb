import Mathlib.Data.List.Basic

/-!
# Programs that change a state and may fail

Pre- and postconditions for programs in `ExceptT ε (StateM σ)`: a failure ends the program and keeps the state it left.
A triple has a postcondition for the two ways to end.  `Triple.bind` composes; what a failed part leaves is what the
whole program leaves.  `Spec` is the triple whose postcondition of a failure speaks of the error too, as a program needs
that recovers from a part of it.
-/

namespace Fallible

variable {ε σ α β : Type}

/-- From a state with `P`, `m` ends in a state with `Q`, or fails in a state with `E`. -/
def Triple (P : σ → Prop) (m : ExceptT ε (StateM σ) α) (Q : α → σ → Prop) (E : σ → Prop) : Prop :=
  ∀ s, P s → (∀ a s', m.run s = (.ok a, s') → Q a s') ∧ ∀ e s', m.run s = (.error e, s') → E s'

variable {P P' : σ → Prop} {Q : α → σ → Prop} {R : β → σ → Prop} {E : σ → Prop} {m : ExceptT ε (StateM σ) α}

theorem run_bind (m : ExceptT ε (StateM σ) α) (f : α → ExceptT ε (StateM σ) β) (s : σ) :
    (m >>= f).run s =
      match m.run s with
      | (.ok a, s') => (f a).run s'
      | (.error e, s') => (.error e, s') := by
  show (ExceptT.bind m f).run s = _
  simp only [ExceptT.bind, ExceptT.run, ExceptT.mk, bind, StateT.bind]
  cases m s with
  | mk r s' => cases r <;> rfl

theorem run_tryCatch (m : ExceptT ε (StateM σ) α) (f : ε → ExceptT ε (StateM σ) α) (s : σ) :
    (tryCatch m f : ExceptT ε (StateM σ) α).run s =
      match m.run s with
      | (.ok a, s') => (.ok a, s')
      | (.error e, s') => (f e).run s' := by
  have hrun : (tryCatch m f : ExceptT ε (StateM σ) α).run s = StateT.bind m (fun res =>
      match res with
      | .ok a => (StateT.pure (.ok a) : StateM σ (Except ε α))
      | .error e => f e) s := rfl
  rw [hrun]
  simp only [StateT.bind, bind, ExceptT.run]
  cases m s with
  | mk r s' => cases r <;> rfl

/-- A run that ends: its result has the postcondition. -/
theorem ends_ok {s t : σ} {a : α} (h : m.run s = (.ok a, t)) (hq : Q a t) :
    (∀ a s', m.run s = (.ok a, s') → Q a s') ∧ ∀ e s', m.run s = (.error e, s') → E s' := by
  rw [h]
  refine ⟨fun a' s' hr => ?_, fun e s' hr => ?_⟩
  · obtain ⟨ha, rfl⟩ := Prod.mk.inj hr
    obtain rfl := Except.ok.inj ha
    exact hq
  · cases (Prod.mk.inj hr).1

/-- A run that fails: the state that it leaves has the postcondition of a failure. -/
theorem ends_error {s t : σ} {e : ε} (h : m.run s = (.error e, t)) (he : E t) :
    (∀ a s', m.run s = (.ok a, s') → Q a s') ∧ ∀ e s', m.run s = (.error e, s') → E s' := by
  rw [h]
  refine ⟨fun a' s' hr => ?_, fun e s' hr => ?_⟩
  · cases (Prod.mk.inj hr).1
  · obtain ⟨-, rfl⟩ := Prod.mk.inj hr
    exact he

/-- The rule of consequence. -/
theorem Triple.consequence {Q' : α → σ → Prop} (h : Triple P m Q E) (hp : ∀ s, P' s → P s) (hq : ∀ a s, Q a s → Q' a s) :
    Triple P' m Q' E := fun s hs =>
  ⟨fun a s' hr => hq a s' ((h s (hp s hs)).1 a s' hr), (h s (hp s hs)).2⟩

theorem Triple.weaken_error {E' : σ → Prop} (h : Triple P m Q E) (he : ∀ s, E s → E' s) : Triple P m Q E' := fun s hs =>
  ⟨(h s hs).1, fun e s' hr => he s' ((h s hs).2 e s' hr)⟩

theorem Triple.pure {a : α} (h : ∀ s, P s → Q a s) : Triple P (pure a : ExceptT ε (StateM σ) α) Q E :=
  fun s hs => ends_ok rfl (h s hs)

/-- Reading the state. -/
theorem Triple.get {Q : σ → σ → Prop} (h : ∀ s, P s → Q s s) : Triple P (get : ExceptT ε (StateM σ) σ) Q E :=
  fun s hs => ends_ok rfl (h s hs)

theorem Triple.bind {f : α → ExceptT ε (StateM σ) β} (h : Triple P m Q E) (hf : ∀ a, Triple (Q a) (f a) R E) :
    Triple P (m >>= f) R E := by
  intro s hs
  obtain ⟨hok, herr⟩ := h s hs
  cases hm : m.run s with
  | mk r s' =>
    cases r with
    | ok a =>
      have hrun : (m >>= f).run s = (f a).run s' := by rw [run_bind, hm]
      rw [hrun]
      exact hf a s' (hok a s' hm)
    | error e =>
      have hrun : (m >>= f).run s = (.error e, s') := by rw [run_bind, hm]
      exact ends_error hrun (herr e s' hm)

/-- The rule for a loop over a list: `I` holds before each round, of the elements that are yet to come. -/
theorem Triple.forM {γ : Type} {body : γ → ExceptT ε (StateM σ) PUnit} {I : List γ → σ → Prop}
    (h : ∀ x xs, Triple (I (x :: xs)) (body x) (fun _ => I xs) E) (xs : List γ) :
    Triple (I xs) (xs.forM body) (fun _ => I []) E := by
  induction xs with
  | nil => exact .pure fun _ hs => hs
  | cons x xs ih => exact (h x xs).bind fun _ => ih

/-! ### Triples with the error -/

/-- From a state with `P`, `m` ends in a state with `Q`, or fails with an error and in a state with `E`. -/
def Spec (P : σ → Prop) (m : ExceptT ε (StateM σ) α) (Q : α → σ → Prop) (E : ε → σ → Prop) : Prop :=
  ∀ s, P s → match m.run s with
    | (.ok a, s') => Q a s'
    | (.error e, s') => E e s'

section

variable {Q' : α → σ → Prop} {F F' : ε → σ → Prop}

theorem Spec.consequence (h : Spec P m Q F) (hp : ∀ s, P' s → P s) (hq : ∀ a s, Q a s → Q' a s)
    (he : ∀ e s, F e s → F' e s) : Spec P' m Q' F' := by
  intro s hs
  have hrun := h s (hp s hs)
  split
  · next a s' heq =>
    rw [heq] at hrun
    exact hq a s' hrun
  · next e s' heq =>
    rw [heq] at hrun
    exact he e s' hrun

theorem Spec.weaken (h : Spec P m Q F) (hq : ∀ a s, Q a s → Q' a s) : Spec P m Q' F :=
  h.consequence (fun _ hs => hs) hq fun _ _ he => he

/-- A precondition that does not speak of the state. -/
theorem Spec.intro {p : Prop} (h : p → Spec P m Q F) : Spec (fun s => p ∧ P s) m Q F := fun s hs => h hs.1 s hs.2

theorem Spec.pure {a : α} (h : ∀ s, P s → Q a s) : Spec P (pure a : ExceptT ε (StateM σ) α) Q F := h

theorem Spec.throw {e : ε} (h : ∀ s, P s → F e s) : Spec P (throw e : ExceptT ε (StateM σ) α) Q F := h

/-- Reading the state. -/
theorem Spec.get {Q : σ → σ → Prop} (h : ∀ s, P s → Q s s) : Spec P (get : ExceptT ε (StateM σ) σ) Q F := h

theorem Spec.modify {f : σ → σ} {Q : PUnit → σ → Prop} (h : ∀ s, P s → Q ⟨⟩ (f s)) :
    Spec P (modify f : ExceptT ε (StateM σ) PUnit) Q F := h

theorem Spec.bind {f : α → ExceptT ε (StateM σ) β} (h : Spec P m Q F) (hf : ∀ a, Spec (Q a) (f a) R F) :
    Spec P (m >>= f) R F := by
  intro s hs
  have hm := h s hs
  rw [run_bind]
  split at hm
  · next a s' heq => exact hf a s' hm
  · next e s' heq => exact hm

/-- Recovery from a failure. -/
theorem Spec.tryCatch {f : ε → ExceptT ε (StateM σ) α} (h : Spec P m Q F) (hf : ∀ e, Spec (F e) (f e) Q F') :
    Spec P (tryCatch m f) Q F' := by
  intro s hs
  have hm := h s hs
  rw [run_tryCatch]
  split at hm
  · next a s' heq => exact hm
  · next e s' heq => exact hf e s' hm

/-- Taking the result of a part, whichever way it ends. -/
theorem Spec.attempt (h : Spec P m Q F) :
    Spec P (ExceptT.lift m.run : ExceptT ε (StateM σ) (Except ε α))
      (fun r s => match r with | .ok a => Q a s | .error e => F e s) F' := by
  intro s hs
  have hm := h s hs
  have hrun : (ExceptT.lift m.run : ExceptT ε (StateM σ) (Except ε α)).run s =
      (.ok (m.run s).1, (m.run s).2) := rfl
  rw [hrun]
  split at hm
  · next a s' heq =>
    rw [heq]
    exact hm
  · next e s' heq =>
    rw [heq]
    exact hm

/-- The rule for a loop that keeps `P`. -/
theorem Spec.forM {γ : Type} {body : γ → ExceptT ε (StateM σ) PUnit} (h : ∀ x, Spec P (body x) (fun _ => P) F)
    (xs : List γ) : Spec P (xs.forM body) (fun _ => P) F := by
  induction xs with
  | nil => exact .pure fun _ hs => hs
  | cons x xs ih => exact (h x).bind fun _ => ih

end

end Fallible
