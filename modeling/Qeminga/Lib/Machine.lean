import Mathlib.Data.List.Basic

/-!
# Machines: runs, reachable states and invariants

A machine is a partial step function `step : σ → α → Option σ`; an action `α` carries every choice of the
environment.  `ok : σ → α → σ → Prop` restricts which transitions the environment allows, so that one machine is run
under different assumptions.  `Steps` is a run, `Reach` a run from an initial state, and `execute` runs a fixed list
of actions, for concrete runs.
-/

namespace Machine

variable {σ α : Type*} (step : σ → α → Option σ) (ok : σ → α → σ → Prop)

/-- A run of permitted steps. -/
inductive Steps : σ → σ → Prop
  | refl (s : σ) : Steps s s
  | tail {s t u : σ} {a : α} : Steps s t → step t a = some u → ok t a u → Steps s u

/-- The states of the runs that begin in `init`. -/
def Reach (init : σ → Prop) (s : σ) : Prop := ∃ s₀, init s₀ ∧ Steps step ok s₀ s

/-- Runs a list of actions; `none` when one of them is not enabled. -/
def execute : σ → List α → Option σ
  | s, [] => some s
  | s, a :: as => (step s a).bind (execute · as)

/-- Every transition of the list of actions passes the check `chk`. -/
def permitted (chk : σ → α → σ → Bool) : σ → List α → Bool
  | _, [] => true
  | s, a :: as =>
    match step s a with
    | some t => chk s a t && permitted chk t as
    | none => false

/-- The machine beside an observer, who reads its transitions and does not take part in them. -/
def observed {μ : Type*} (observe : μ → σ → α → σ → μ) (s : σ × μ) (a : α) : Option (σ × μ) :=
  (step s.1 a).map fun t => (t, observe s.2 s.1 a t)

variable {step ok}

theorem Reach.init {init : σ → Prop} {s : σ} (h : init s) : Reach step ok init s := ⟨s, h, .refl s⟩

theorem Reach.tail {init : σ → Prop} {s t : σ} {a : α} (h : Reach step ok init s) (hs : step s a = some t)
    (hok : ok s a t) : Reach step ok init t := by
  obtain ⟨s₀, h₀, hr⟩ := h
  exact ⟨s₀, h₀, hr.tail hs hok⟩

theorem Reach.of_init {init init' : σ → Prop} (h : ∀ s, init s → init' s) {s : σ} (hr : Reach step ok init s) :
    Reach step ok init' s := by
  obtain ⟨s₀, h₀, hs⟩ := hr
  exact ⟨s₀, h s₀ h₀, hs⟩

/-- A run from a reachable state. -/
theorem Reach.steps {init : σ → Prop} {s t : σ} (hr : Reach step ok init s) (h : Steps step ok s t) :
    Reach step ok init t := by
  induction h with
  | refl => exact hr
  | tail _ hst hok ih => exact ih.tail hst hok

theorem Reach.mono {ok' : σ → α → σ → Prop} (h : ∀ s a t, ok s a t → ok' s a t) {init : σ → Prop} {s : σ}
    (hr : Reach step ok init s) : Reach step ok' init s := by
  obtain ⟨s₀, h₀, hs⟩ := hr
  refine ⟨s₀, h₀, ?_⟩
  clear h₀
  induction hs with
  | refl => exact .refl _
  | tail _ hst hok ih => exact ih.tail hst (h _ _ _ hok)

/-- The invariant rule, relative to what is already known of the reachable states: what holds initially and is kept
by every permitted step between reachable states holds in every reachable state. -/
theorem Reach.invariant {init I : σ → Prop} (hinit : ∀ s, init s → I s)
    (hstep : ∀ s a t, Reach step ok init s → I s → step s a = some t → ok s a t → I t) {s : σ}
    (h : Reach step ok init s) : I s := by
  obtain ⟨s₀, h₀, hr⟩ := h
  induction hr with
  | refl => exact hinit _ h₀
  | tail hrun hst hok ih => exact hstep _ _ _ ⟨s₀, h₀, hrun⟩ ih hst hok

/-- The invariant rule along a run from a reachable state. -/
theorem Reach.invariant_from {init I : σ → Prop} {s t : σ} (hr : Reach step ok init s) (h : Steps step ok s t) (hs : I s)
    (hstep : ∀ s a t, Reach step ok init s → I s → step s a = some t → ok s a t → I t) : I t := by
  have hboth : Reach step ok init t ∧ I t := by
    induction h with
    | refl => exact ⟨hr, hs⟩
    | tail _ hst hok ih => exact ⟨ih.1.tail hst hok, hstep _ _ _ ih.1 ih.2 hst hok⟩
  exact hboth.2

/-- What an observer sees is a run of the machine. -/
theorem Reach.of_observed {μ : Type*} {observe : μ → σ → α → σ → μ} {init : σ → Prop} {m₀ : σ → μ} {s : σ × μ}
    (h : Reach (observed step observe) (fun s a t => ok s.1 a t.1) (fun s => init s.1 ∧ s.2 = m₀ s.1) s) :
    Reach step ok init s.1 := by
  refine h.invariant (I := fun s => Reach step ok init s.1) (fun s h => .init h.1) (fun s a t _ ih hs hok => ?_)
  obtain ⟨t, ht, rfl⟩ := Option.map_eq_some_iff.1 hs
  exact ih.tail ht hok

/-- A checked list of actions is a run. -/
theorem Steps.execute {chk : σ → α → σ → Bool} (hchk : ∀ s a t, chk s a t = true → ok s a t) {as : List α} {s t : σ}
    (h : Machine.execute step s as = some t) (hp : permitted step chk s as = true) : Steps step ok s t := by
  have hrun : ∀ {r : σ}, Steps step ok r s → Steps step ok r t := by
    induction as generalizing s with
    | nil =>
      obtain rfl : s = t := Option.some.inj h
      exact id
    | cons a as ih =>
      obtain ⟨u, hu, hrest⟩ := Option.bind_eq_some_iff.1 h
      simp only [permitted, hu, Bool.and_eq_true] at hp
      exact fun hr => ih hrest hp.2 (hr.tail hu (hchk _ _ _ hp.1))
  exact hrun (.refl s)

/-- A list of actions that is checked in the reachable states it passes runs to its end. -/
theorem Reach.execute {init : σ → Prop} {chk : σ → α → σ → Bool}
    (hchk : ∀ s a t, Reach step ok init s → chk s a t = true → ok s a t) {as : List α} {s t : σ}
    (hr : Reach step ok init s) (h : Machine.execute step s as = some t) (hp : permitted step chk s as = true) :
    Reach step ok init t := by
  induction as generalizing s with
  | nil =>
    obtain rfl : s = t := Option.some.inj h
    exact hr
  | cons a as ih =>
    obtain ⟨u, hu, hrest⟩ := Option.bind_eq_some_iff.1 h
    simp only [permitted, hu, Bool.and_eq_true] at hp
    exact ih (hr.tail hu (hchk _ _ _ hr hp.1)) hrest hp.2

/-- A checked list of actions from an initial state that runs to a state with the property `p`. -/
theorem Reach.of_checked (chk : σ → α → σ → Bool) {init : σ → Prop}
    (hchk : ∀ s a t, Reach step ok init s → chk s a t = true → ok s a t) (as : List α) (p : σ → Bool) {s : σ}
    (hinit : init s) (hp : permitted step chk s as = true) (h : (Machine.execute step s as).any p = true) :
    ∃ t, Reach step ok init t ∧ p t = true := by
  cases he : Machine.execute step s as with
  | none => rw [he] at h; cases h
  | some t =>
    rw [he] at h
    exact ⟨t, Reach.execute hchk (.init hinit) he hp, h⟩

/-- The same for a check that does not need to know that the states are reachable. -/
theorem Reach.of_execute (chk : σ → α → σ → Bool) (hchk : ∀ s a t, chk s a t = true → ok s a t) (as : List α)
    (p : σ → Bool) {init : σ → Prop} {s : σ} (hinit : init s) (hp : permitted step chk s as = true)
    (h : (Machine.execute step s as).any p = true) : ∃ t, Reach step ok init t ∧ p t = true :=
  Reach.of_checked chk (fun s a t _ => hchk s a t) as p hinit hp h

end Machine
