import Qeminga.Blocking
import Qeminga.Invariant.Drains
import Mathlib.Data.List.Count
import Mathlib.Data.List.Nodup
import Mathlib.Data.List.Perm.Basic

/-!
# What a thaw does and reports

`thaw_blocking` drains every handle it holds and every planned target it can open, whatever fails; it returns `Ok` exactly
if nothing failed, and keeps the handles whose drain was incomplete.
-/

namespace Qeminga

/-! ### The history of a thaw -/

def Deed.drain? : Deed → Option (Mount × Drained)
  | .drained m r => some (m, r)
  | .unreachable _ => none

def Deed.unreachable? : Deed → Option Target
  | .drained _ _ => none
  | .unreachable t => some t

/-- The drains, with their results. -/
def drainsOf (deeds : List Deed) : List (Mount × Drained) := deeds.filterMap Deed.drain?

/-- The handles drained. -/
def drainedOf (deeds : List Deed) : List Mount := (drainsOf deeds).map Prod.fst

/-- The targets that could not be reached. -/
def unreachedOf (deeds : List Deed) : List Target := deeds.filterMap Deed.unreachable?

/-- The `FITHAW`s of a drain. -/
def Drained.calls (r : Drained) : Nat := r.successes + if r.capped then 0 else 1

@[simp] theorem drainsOf_drained (deeds : List Deed) (m : Mount) (r : Drained) :
    drainsOf (deeds ++ [.drained m r]) = drainsOf deeds ++ [(m, r)] := by simp [drainsOf, Deed.drain?]

@[simp] theorem drainsOf_unreachable (deeds : List Deed) (t : Target) :
    drainsOf (deeds ++ [.unreachable t]) = drainsOf deeds := by simp [drainsOf, Deed.drain?]

@[simp] theorem unreachedOf_drained (deeds : List Deed) (m : Mount) (r : Drained) :
    unreachedOf (deeds ++ [.drained m r]) = unreachedOf deeds := by simp [unreachedOf, Deed.unreachable?]

@[simp] theorem unreachedOf_unreachable (deeds : List Deed) (t : Target) :
    unreachedOf (deeds ++ [.unreachable t]) = unreachedOf deeds ++ [t] := by simp [unreachedOf, Deed.unreachable?]

namespace ThawState

/-! ### The running result says what was done -/

/-- The running result of a thaw is what its history says. -/
structure Truthful (st : ThawState) : Prop where
  thawed : st.thawed = (drainsOf st.deeds).countP fun x => 0 < x.2.successes
  keep : st.keep = ((drainsOf st.deeds).filter fun x => x.2.incomplete.isSome).map Prod.fst
  failed : st.unrecoverable = none ↔ (∀ x ∈ drainsOf st.deeds, x.2.incomplete = none) ∧ unreachedOf st.deeds = []

theorem default_truthful : default.Truthful := ⟨rfl, rfl, by simp [default, drainsOf, unreachedOf]⟩

theorem settle_deeds (st : ThawState) (m : Mount) (r : Drained) : (st.settle m r).deeds = st.deeds ++ [.drained m r] := by
  unfold settle
  split <;> rfl

theorem Truthful.settle {st : ThawState} (h : st.Truthful) (m : Mount) (r : Drained) : (st.settle m r).Truthful := by
  have hcount : st.thawed + r.counted = (drainsOf st.deeds ++ [(m, r)]).countP fun x => 0 < x.2.successes := by
    rw [List.countP_append, ← h.thawed, Drained.counted]
    by_cases hr : 0 < r.successes <;> simp [hr]
  have hfailed := h.failed
  unfold ThawState.settle
  cases hr : r.incomplete with
  | some reason =>
    refine ⟨?_, ?_, ?_⟩
    · simpa using hcount
    · simp [h.keep, List.filter_append, hr]
    · refine iff_of_false (by simp) fun hall => ?_
      have := hall.1 (m, r) (by simp)
      simp [hr] at this
  | none =>
    refine ⟨?_, ?_, ?_⟩
    · simpa using hcount
    · simp [h.keep, List.filter_append, hr]
    · simp only [drainsOf_drained, unreachedOf_drained, List.mem_append, List.mem_singleton]
      rw [hfailed]
      constructor
      · rintro ⟨hall, hnil⟩
        refine ⟨fun x hx => ?_, hnil⟩
        rcases hx with hx | rfl
        · exact hall x hx
        · exact hr
      · rintro ⟨hall, hnil⟩
        exact ⟨fun x hx => hall x (.inl hx), hnil⟩

theorem Truthful.unreached {st : ThawState} (h : st.Truthful) (t : Target) (attempts : Attempts) :
    (st.unreached t attempts).Truthful := by
  refine ⟨?_, ?_, ?_⟩
  · simpa [ThawState.unreached] using h.thawed
  · simpa [ThawState.unreached] using h.keep
  · simp [ThawState.unreached]

end ThawState

section

variable {σ : Type} {ops : KernelOps σ}

variable (ops) in
theorem thawTargets_truthful (ts : List Target) (retained : List Mount) {st : ThawState} (h : st.Truthful) (s : σ) :
    (thawTargets ops ts retained st s).2.1.Truthful := by
  induction ts generalizing retained st s with
  | nil => exact h
  | cons t ts ih =>
    rw [thawTargets]
    split
    · exact ih _ (h.settle _ _) _
    · split
      · exact ih _ (h.settle _ _) _
      · exact ih _ (h.unreached _ _) _

variable (ops) in
theorem thawRetained_truthful (ms : List Mount) {st : ThawState} (h : st.Truthful) (s : σ) :
    (thawRetained ops ms st s).1.Truthful := by
  induction ms generalizing st s with
  | nil => exact h
  | cons m ms ih => exact ih (h.settle _ _) _

end

/-! ### The calls of a thaw -/

/-- A system call that changes something. -/
inductive SysCall
  | fithaw (m : Mount)
  | removeMarker
  deriving DecidableEq, Repr

/-- The same kernel and marker, with a record of the calls. -/
def KernelOps.logged {σ : Type} (ops : KernelOps σ) : KernelOps (σ × List SysCall) where
  openMount path dev s := ((ops.openMount path dev s.1).1, (ops.openMount path dev s.1).2, s.2)
  fithaw m s := ((ops.fithaw m s.1).1, (ops.fithaw m s.1).2, s.2 ++ [.fithaw m])
  removeMarker s := ((ops.removeMarker s.1).1, (ops.removeMarker s.1).2, s.2 ++ [.removeMarker])
  dev_of_openMount h := ops.dev_of_openMount h

/-- The `FITHAW`s of the drains in a history. -/
def fithawsOf (deeds : List Deed) : List SysCall :=
  (drainsOf deeds).flatMap fun x => List.replicate x.2.calls (.fithaw x.1)

/-- The calls that a report tells of. -/
def ThawReport.calls (rep : ThawReport) : List SysCall :=
  fithawsOf rep.deeds ++ if rep.removed.isSome then [.removeMarker] else []

section

variable {σ : Type} (ops : KernelOps σ)

private theorem drainLoop_logged (m : Mount) (iterations n : Nat) (s : σ) (log : List SysCall) :
    ∃ k, k + n = (drainLoop (ops.fithaw m) iterations n s).1.calls ∧
      drainLoop (ops.logged.fithaw m) iterations n (s, log) =
        ((drainLoop (ops.fithaw m) iterations n s).1, (drainLoop (ops.fithaw m) iterations n s).2,
          log ++ List.replicate k (.fithaw m)) := by
  induction iterations generalizing n s log with
  | zero => exact ⟨0, by simp [drainLoop, Drained.calls], by simp [drainLoop]⟩
  | succ i ih =>
    simp only [drainLoop, KernelOps.logged]
    rcases ops.fithaw m s with ⟨ans, s'⟩
    cases ans with
    | ok u =>
      obtain ⟨k, hk, heq⟩ := ih (n + 1) s' (log ++ [.fithaw m])
      have hk' : k + 1 + n = (drainLoop (ops.fithaw m) i (n + 1) s').1.calls := by omega
      rw [List.append_assoc, List.singleton_append, ← List.replicate_succ] at heq
      exact ⟨k + 1, hk', heq⟩
    | error err => exact ⟨1, by simp [Drained.calls, Nat.add_comm], rfl⟩

private theorem ThawState.drain_logged (st : ThawState) (m : Mount) (s : σ) :
    st.drain ops.logged m (s, fithawsOf st.deeds) =
      ((st.drain ops m s).1, (st.drain ops m s).2, fithawsOf (st.drain ops m s).1.deeds) := by
  obtain ⟨k, hk, heq⟩ := drainLoop_logged ops m maxThawIterations 0 s (fithawsOf st.deeds)
  simp only [ThawState.drain, Qeminga.drain, heq, settle_deeds]
  rw [Nat.add_zero] at hk
  rw [hk]
  simp [fithawsOf]

private theorem openPaths_logged (dev : Dev) (path : Path) (paths : List Path) (attempts : Attempts) (s : σ)
    (log : List SysCall) :
    openPaths ops.logged dev path paths attempts (s, log) =
      ((openPaths ops dev path paths attempts s).1, (openPaths ops dev path paths attempts s).2, log) := by
  induction paths generalizing path attempts s with
  | nil =>
    simp only [openPaths, KernelOps.logged]
    rcases ops.openMount path dev s with ⟨_ | _, s'⟩ <;> rfl
  | cons next paths ih =>
    rw [openPaths, openPaths]
    simp only [KernelOps.logged]
    rcases ops.openMount path dev s with ⟨err | m, s'⟩
    · exact ih ..
    · rfl

private theorem thawTargets_logged (ts : List Target) (retained : List Mount) (st : ThawState) (s : σ) :
    thawTargets ops.logged ts retained st (s, fithawsOf st.deeds) =
      ((thawTargets ops ts retained st s).1, (thawTargets ops ts retained st s).2.1,
        (thawTargets ops ts retained st s).2.2, fithawsOf (thawTargets ops ts retained st s).2.1.deeds) := by
  induction ts generalizing retained st s with
  | nil => rfl
  | cons t ts ih =>
    rw [thawTargets, thawTargets]
    cases ThawBlocking.takeDev t.dev retained with
    | some x => simp only [ThawState.drain_logged, ih]
    | none =>
      simp only [openTarget, openPaths_logged]
      rcases openPaths ops t.dev t.openPaths.1 t.openPaths.2 [] s with ⟨attempts | m, s'⟩
      · have hdeeds : fithawsOf st.deeds = fithawsOf (st.unreached t attempts).deeds := by
          simp [fithawsOf, ThawState.unreached]
        simp only [hdeeds, ih]
      · simp only [ThawState.drain_logged, ih]

private theorem thawRetained_logged (ms : List Mount) (st : ThawState) (s : σ) :
    thawRetained ops.logged ms st (s, fithawsOf st.deeds) =
      ((thawRetained ops ms st s).1, (thawRetained ops ms st s).2, fithawsOf (thawRetained ops ms st s).1.deeds) := by
  induction ms generalizing st s with
  | nil => rfl
  | cons m ms ih => simp only [thawRetained, ThawState.drain_logged, ih]

private theorem thawEnd_logged (discovery : Option ThawFailure) (st : ThawState) (s : σ) :
    thawEnd ops.logged discovery st (s, fithawsOf st.deeds) =
      ((thawEnd ops discovery st s).1, (thawEnd ops discovery st s).2, (thawEnd ops discovery st s).1.calls) := by
  unfold thawEnd ThawReport.calls
  cases st.unrecoverable with
  | some failure => simp
  | none =>
    cases discovery with
    | some failure => simp
    | none =>
      simp only [KernelOps.logged]
      rcases ops.removeMarker s with ⟨(_ | _ | _) | _, s'⟩ <;> rfl

/-- The report tells of all the `FITHAW`s and of the removal of the marker, in order. -/
theorem thawBlocking_logged (plan : Option (Except ThawFailure FreezePlan)) (held : List Mount) (s : σ) :
    thawBlocking ops.logged plan held (s, []) =
      ((thawBlocking ops plan held s).1, (thawBlocking ops plan held s).2, (thawBlocking ops plan held s).1.calls) := by
  have h := thawTargets_logged ops (plannedTargets plan) held .default s
  rw [show fithawsOf ThawState.default.deeds = [] from rfl] at h
  simp only [thawBlocking, h, thawRetained_logged, thawEnd_logged]

end

/-! ### Every handle and every target has its turn -/

/-- The planned targets for which no handle is held. -/
def unheld (ts : List Target) (held : List Mount) : List Target := ts.filter fun t => t.dev ∉ devs held

/-- The pathnames `open_target` may open. -/
def Target.pathnames (t : Target) : List Path := t.openPaths.1 :: t.openPaths.2

section

variable {σ : Type} (ops : KernelOps σ)

/-- `m` was opened on the device of `t`, through one of its pathnames. -/
def OpenedFor (t : Target) (m : Mount) : Prop :=
  m.dev = t.dev ∧ ∃ path ∈ t.pathnames, ∃ s, (ops.openMount path t.dev s).1 = .ok m

/-- Every pathname of `t` was tried in vain. -/
def Unopened (t : Target) : Prop := ∀ path ∈ t.pathnames, ∃ s err, (ops.openMount path t.dev s).1 = .error err

variable {ops}

private theorem openPaths_ok {dev : Dev} {path : Path} {paths : List Path} {attempts : Attempts} {s : σ} {m : Mount}
    (h : (openPaths ops dev path paths attempts s).1 = .ok m) :
    ∃ p ∈ path :: paths, ∃ s, (ops.openMount p dev s).1 = .ok m := by
  induction paths generalizing path attempts s with
  | nil =>
    rw [openPaths] at h
    rcases hopen : ops.openMount path dev s with ⟨err | m', s'⟩
    · simp [hopen] at h
    · simp only [hopen] at h
      obtain rfl := Except.ok.inj h
      exact ⟨path, List.mem_cons_self, s, by rw [hopen]⟩
  | cons next paths ih =>
    rw [openPaths] at h
    rcases hopen : ops.openMount path dev s with ⟨err | m', s'⟩
    · simp only [hopen] at h
      obtain ⟨p, hp, hs⟩ := ih h
      exact ⟨p, List.mem_cons_of_mem _ hp, hs⟩
    · simp only [hopen] at h
      obtain rfl := Except.ok.inj h
      exact ⟨path, List.mem_cons_self, s, by rw [hopen]⟩

private theorem openPaths_error {dev : Dev} {path : Path} {paths : List Path} {attempts attempts' : Attempts} {s : σ}
    (h : (openPaths ops dev path paths attempts s).1 = .error attempts') :
    ∀ p ∈ path :: paths, ∃ s err, (ops.openMount p dev s).1 = .error err := by
  induction paths generalizing path attempts s with
  | nil =>
    rw [openPaths] at h
    rcases hopen : ops.openMount path dev s with ⟨err | m', s'⟩
    · intro p hp
      obtain rfl := List.mem_singleton.1 hp
      exact ⟨s, err, by rw [hopen]⟩
    · simp [hopen] at h
  | cons next paths ih =>
    rw [openPaths] at h
    rcases hopen : ops.openMount path dev s with ⟨err | m', s'⟩
    · simp only [hopen] at h
      intro p hp
      rcases List.mem_cons.1 hp with rfl | hp
      · exact ⟨s, err, by rw [hopen]⟩
      · exact ih h p hp
    · simp [hopen] at h

theorem openTarget_ok {t : Target} {s : σ} {m : Mount} (h : (openTarget ops t s).1 = .ok m) : OpenedFor ops t m := by
  obtain ⟨p, hp, s', hs⟩ := openPaths_ok h
  exact ⟨ops.dev_of_openMount hs, p, hp, s', hs⟩

theorem openTarget_error {t : Target} {s : σ} {attempts : Attempts} (h : (openTarget ops t s).1 = .error attempts) :
    Unopened ops t := openPaths_error h

theorem drainedOf_drain (st : ThawState) (m : Mount) (s : σ) :
    drainedOf (st.drain ops m s).1.deeds = drainedOf st.deeds ++ [m] := by
  simp [ThawState.drain, ThawState.settle_deeds, drainedOf]

theorem unreachedOf_drain (st : ThawState) (m : Mount) (s : σ) :
    unreachedOf (st.drain ops m s).1.deeds = unreachedOf st.deeds := by
  simp [ThawState.drain, ThawState.settle_deeds]

/-- What the loop over the targets has done between `st` and `st'`, with the handles `left`: it has opened `opened`, and
could not reach `us`. -/
structure Walked (ops : KernelOps σ) (ts : List Target) (retained : List Mount) (st st' : ThawState) (left : List Mount)
    (opened : List Mount) (us : List Target) : Prop where
  drained : ∃ ms, drainedOf st'.deeds = drainedOf st.deeds ++ ms ∧ (ms ++ left).Perm (retained ++ opened)
  unreached : unreachedOf st'.deeds = unreachedOf st.deeds ++ us
  turns : (devs opened ++ FreezePlan.targetDevs us).Perm (FreezePlan.targetDevs (unheld ts retained))
  opened : ∀ m ∈ opened, ∃ t ∈ unheld ts retained, OpenedFor ops t m
  sublist : us.Sublist (unheld ts retained)
  unopened : ∀ t ∈ us, Unopened ops t

/-- The device of a target whose handle is held is not that of a later target. -/
private theorem unheld_take {t : Target} {ts : List Target} {retained rest : List Mount} {m : Mount}
    (hnodup : (FreezePlan.targetDevs (t :: ts)).Nodup) (hdev : m.dev = t.dev) (hperm : retained.Perm (m :: rest)) :
    unheld (t :: ts) retained = unheld ts rest := by
  have hmem : ∀ d, d ∈ devs retained ↔ d = t.dev ∨ d ∈ devs rest := fun d => by
    rw [devs, (hperm.map Mount.dev).mem_iff, List.map_cons, List.mem_cons, hdev, devs]
  unfold unheld
  rw [List.filter_cons_of_neg (by simp [hmem])]
  apply List.filter_congr
  intro u hu
  have hne : u.dev ≠ t.dev := fun he =>
    (List.nodup_cons.1 hnodup).1 (he ▸ List.mem_map_of_mem hu)
  simp [hmem, hne]

variable (ops) in
theorem thawTargets_walked (ts : List Target) (retained : List Mount) (st : ThawState) (s : σ)
    (hnodup : (FreezePlan.targetDevs ts).Nodup) :
    ∃ opened us, Walked ops ts retained st (thawTargets ops ts retained st s).2.1 (thawTargets ops ts retained st s).1
      opened us := by
  induction ts generalizing retained st s with
  | nil =>
    refine ⟨[], [], ⟨[], ?_, ?_⟩, ?_, .refl _, by rintro m ⟨⟩, .refl _, by rintro t ⟨⟩⟩
    · rw [thawTargets, List.append_nil]
    · simp [thawTargets]
    · rw [thawTargets, List.append_nil]
  | cons t ts ih =>
    have hts : (FreezePlan.targetDevs ts).Nodup := (List.nodup_cons.1 hnodup).2
    rw [thawTargets]
    cases htake : ThawBlocking.takeDev t.dev retained with
    | some x =>
      obtain ⟨m, rest⟩ := x
      obtain ⟨hdev, hperm⟩ := ThawBlocking.takeDev_eq_some htake
      obtain ⟨opened, us, w⟩ := ih rest (st.drain ops m s).1 (st.drain ops m s).2 hts
      have hunheld := unheld_take hnodup hdev hperm
      obtain ⟨ms, hms, hleft⟩ := w.drained
      refine ⟨opened, us, ⟨m :: ms, ?_, ?_⟩, ?_, ?_, ?_, ?_, w.unopened⟩
      · rw [hms, drainedOf_drain, List.append_assoc, List.singleton_append]
      · exact (hleft.cons m).trans (hperm.symm.append_right opened)
      · rw [w.unreached, unreachedOf_drain]
      · exact hunheld ▸ w.turns
      · exact hunheld ▸ w.opened
      · exact hunheld ▸ w.sublist
    | none =>
      have hunheld : unheld (t :: ts) retained = t :: unheld ts retained :=
        List.filter_cons_of_pos (by simpa using ThawBlocking.takeDev_eq_none htake)
      rcases hopen : openTarget ops t s with ⟨attempts | m, s'⟩
      · obtain ⟨opened, us, w⟩ := ih retained (st.unreached t attempts) s' hts
        obtain ⟨ms, hms, hleft⟩ := w.drained
        refine ⟨opened, t :: us, ⟨ms, ?_, hleft⟩, ?_, ?_, ?_, ?_, ?_⟩
        · rw [hms]
          simp [ThawState.unreached, drainedOf]
        · rw [w.unreached]
          simp [ThawState.unreached]
        · rw [hunheld]
          exact List.perm_middle.trans (w.turns.cons t.dev)
        · rw [hunheld]
          exact fun m hm => (w.opened m hm).imp fun _ h => ⟨List.mem_cons_of_mem _ h.1, h.2⟩
        · exact hunheld ▸ w.sublist.cons_cons t
        · intro u hu
          rcases List.mem_cons.1 hu with rfl | hu
          · exact openTarget_error (by rw [hopen])
          · exact w.unopened u hu
      · obtain ⟨opened, us, w⟩ := ih retained (st.drain ops m s').1 (st.drain ops m s').2 hts
        obtain ⟨ms, hms, hleft⟩ := w.drained
        have hm : OpenedFor ops t m := openTarget_ok (by rw [hopen])
        refine ⟨m :: opened, us, ⟨m :: ms, ?_, ?_⟩, ?_, ?_, ?_, ?_, w.unopened⟩
        · rw [hms, drainedOf_drain, List.append_assoc, List.singleton_append]
        · exact (hleft.cons m).trans List.perm_middle.symm
        · rw [w.unreached, unreachedOf_drain]
        · rw [hunheld, devs_cons, hm.1]
          exact w.turns.cons t.dev
        · intro n hn
          rw [hunheld]
          rcases List.mem_cons.1 hn with rfl | hn
          · exact ⟨t, List.mem_cons_self, hm⟩
          · exact (w.opened n hn).imp fun _ h => ⟨List.mem_cons_of_mem _ h.1, h.2⟩
        · exact hunheld ▸ w.sublist.cons t

variable (ops) in
theorem thawRetained_deeds (ms : List Mount) (st : ThawState) (s : σ) :
    drainedOf (thawRetained ops ms st s).1.deeds = drainedOf st.deeds ++ ms ∧
      unreachedOf (thawRetained ops ms st s).1.deeds = unreachedOf st.deeds := by
  induction ms generalizing st s with
  | nil => exact ⟨(List.append_nil _).symm, rfl⟩
  | cons m ms ih =>
    obtain ⟨hd, hu⟩ := ih (st.drain ops m s).1 (st.drain ops m s).2
    refine ⟨?_, ?_⟩
    · rw [thawRetained, hd, drainedOf_drain, List.append_assoc, List.singleton_append]
    · rw [thawRetained, hu, unreachedOf_drain]

end

/-! ### The report of a thaw -/

/-- The work of a thaw, and the report of it. -/
structure ThawReport.Exact {σ : Type} (ops : KernelOps σ) (plan : Option (Except ThawFailure FreezePlan))
    (held : List Mount) (rep : ThawReport) : Prop where
  /-- Each held handle is drained, -/
  handles : ∀ m ∈ held, m ∈ drainedOf rep.deeds
  /-- and no superblock is drained twice. -/
  once : (devs (drainedOf rep.deeds)).Nodup
  /-- A target without a held handle is either drained or recorded as unreachable, -/
  targets : ∀ t ∈ unheld (plannedTargets plan) held,
    Xor (∃ m ∈ drainedOf rep.deeds, OpenedFor ops t m) (t ∈ unreachedOf rep.deeds)
  /-- the latter only if it could not be opened. -/
  unreached : (unreachedOf rep.deeds).Sublist (unheld (plannedTargets plan) held) ∧
    ∀ t ∈ unreachedOf rep.deeds, Unopened ops t ∧ t.dev ∉ devs (drainedOf rep.deeds)
  /-- Nothing else is drained. -/
  others : ∀ m ∈ drainedOf rep.deeds, m ∈ held ∨ ∃ t ∈ unheld (plannedTargets plan) held, OpenedFor ops t m
  ok : (∃ n, rep.result = .ok n) ↔
    (∀ x ∈ drainsOf rep.deeds, x.2.incomplete = none) ∧ unreachedOf rep.deeds = [] ∧ discoveryFailure plan = none ∧
      (rep.removed = some (.ok ()) ∨ rep.removed = some (.error .absent))
  count : ∀ n, rep.result = .ok n → n = ((drainsOf rep.deeds).countP fun x => 0 < x.2.successes) ∧ rep.held = []
  kept : rep.held = ((drainsOf rep.deeds).filter fun x => x.2.incomplete.isSome).map Prod.fst
  marker : ∀ failure, rep.result = .error failure →
    rep.removed = none ∨ ∃ err, failure = .marker err ∧ rep.removed = some (.error err)

section

variable {σ : Type} {ops : KernelOps σ}

theorem thawEnd_deeds (discovery : Option ThawFailure) (st : ThawState) (s : σ) :
    (thawEnd ops discovery st s).1.deeds = st.deeds ∧ (thawEnd ops discovery st s).1.held = st.keep := by
  unfold thawEnd
  split
  · exact ⟨rfl, rfl⟩
  · exact ⟨rfl, rfl⟩
  · split <;> exact ⟨rfl, rfl⟩

/-- `Ok` says that nothing failed and that the marker is gone. -/
theorem thawEnd_ok (discovery : Option ThawFailure) (st : ThawState) (s : σ) (n : Nat) :
    (thawEnd ops discovery st s).1.result = .ok n ↔
      n = st.thawed ∧ st.unrecoverable = none ∧ discovery = none ∧
        ((thawEnd ops discovery st s).1.removed = some (.ok ()) ∨
          (thawEnd ops discovery st s).1.removed = some (.error .absent)) := by
  unfold thawEnd
  cases st.unrecoverable with
  | some failure => simp
  | none =>
    cases discovery with
    | some failure => simp
    | none =>
      rcases ops.removeMarker s with ⟨(_ | _ | _) | _, s'⟩ <;> simp [eq_comm]

theorem thawEnd_error {discovery : Option ThawFailure} {st : ThawState} {s : σ} {failure : ThawFailure}
    (h : (thawEnd ops discovery st s).1.result = .error failure) :
    (thawEnd ops discovery st s).1.removed = none ∨
      ∃ err, failure = .marker err ∧ (thawEnd ops discovery st s).1.removed = some (.error err) := by
  revert h
  unfold thawEnd
  cases st.unrecoverable with
  | some failure => simp
  | none =>
    cases discovery with
    | some failure => simp
    | none =>
      rcases ops.removeMarker s with ⟨(_ | _ | _) | _, s'⟩ <;> simp [eq_comm]

variable (ops) in
/-- The handles drained are those held and those opened for the targets without a held handle. -/
theorem thawBlocking_walked (plan : Option (Except ThawFailure FreezePlan)) (held : List Mount) (s : σ)
    (hnodup : (FreezePlan.targetDevs (plannedTargets plan)).Nodup) :
    ∃ opened, (drainedOf (thawBlocking ops plan held s).1.deeds).Perm (held ++ opened) ∧
      (devs opened ++ FreezePlan.targetDevs (unreachedOf (thawBlocking ops plan held s).1.deeds)).Perm
        (FreezePlan.targetDevs (unheld (plannedTargets plan) held)) ∧
      (∀ m ∈ opened, ∃ t ∈ unheld (plannedTargets plan) held, OpenedFor ops t m) ∧
      (unreachedOf (thawBlocking ops plan held s).1.deeds).Sublist (unheld (plannedTargets plan) held) ∧
      ∀ t ∈ unreachedOf (thawBlocking ops plan held s).1.deeds, Unopened ops t := by
  obtain ⟨opened, us, w⟩ := thawTargets_walked ops (plannedTargets plan) held .default s hnodup
  obtain ⟨ms, hms, hleft⟩ := w.drained
  have hus := w.unreached
  rw [show drainedOf ThawState.default.deeds = [] from rfl, List.nil_append] at hms
  rw [show unreachedOf ThawState.default.deeds = [] from rfl, List.nil_append] at hus
  unfold thawBlocking
  generalize thawTargets ops (plannedTargets plan) held .default s = x at *
  obtain ⟨hd, hu⟩ := thawRetained_deeds ops x.1.reverse x.2.1 x.2.2
  simp only [(thawEnd_deeds _ _ _).1, hd, hu, hms, hus]
  refine ⟨opened, ?_, w.turns, w.opened, w.sublist, w.unopened⟩
  exact ((List.reverse_perm x.1).append_left ms).trans hleft

end

/-- `thaw_blocking` drains each handle it holds, and each planned target it can open, once; it succeeds exactly if nothing
failed, reports what is left, and leaves the marker alone after a failure.  The report tells of all its calls. -/
theorem thawBlocking_exact {σ : Type} (ops : KernelOps σ) (plan : Option (Except ThawFailure FreezePlan))
    (held : List Mount) (s : σ) (hplan : ∀ p, plan = some (.ok p) → ∃ entries restrict, p = buildPlan entries restrict)
    (hheld : (devs held).Nodup) :
    (thawBlocking ops plan held s).1.Exact ops plan held ∧
      thawBlocking ops.logged plan held (s, []) =
        ((thawBlocking ops plan held s).1, (thawBlocking ops plan held s).2, (thawBlocking ops plan held s).1.calls) := by
  refine ⟨?_, thawBlocking_logged ops plan held s⟩
  have hnodup : (FreezePlan.targetDevs (plannedTargets plan)).Nodup := by
    rcases plan with _ | _ | p
    · exact List.nodup_nil
    · exact List.nodup_nil
    · obtain ⟨entries, restrict, rfl⟩ := hplan p rfl
      exact buildPlan_nodup entries restrict
  have hunheld : (FreezePlan.targetDevs (unheld (plannedTargets plan) held)).Nodup :=
    (List.filter_sublist.map _).nodup hnodup
  obtain ⟨opened, hperm, hturns, hopened, hsub, hunopened⟩ := thawBlocking_walked ops plan held s hnodup
  have hdevs : (devs (drainedOf (thawBlocking ops plan held s).1.deeds)).Perm (devs held ++ devs opened) := by
    rw [← devs_append]
    exact hperm.map _
  -- the devices of the opened handles and of the unreachable targets are those of the targets without a held handle
  obtain ⟨hopens, -, hapart⟩ := List.nodup_append.1 (hturns.nodup_iff.2 hunheld)
  have hfree : ∀ d ∈ FreezePlan.targetDevs (unheld (plannedTargets plan) held), d ∉ devs held := by
    intro d hd
    obtain ⟨t, ht, rfl⟩ := List.mem_map.1 hd
    simpa using (List.mem_filter.1 ht).2
  have hunreached : ∀ t ∈ unreachedOf (thawBlocking ops plan held s).1.deeds,
      t.dev ∉ devs (drainedOf (thawBlocking ops plan held s).1.deeds) := by
    intro t ht hd
    rcases List.mem_append.1 (hdevs.mem_iff.1 hd) with hd | hd
    · exact hfree t.dev (List.mem_map_of_mem (hsub.subset ht)) hd
    · exact hapart t.dev hd t.dev (List.mem_map_of_mem ht) rfl
  have htruth := thawRetained_truthful ops (thawTargets ops (plannedTargets plan) held .default s).1.reverse
    (thawTargets_truthful ops (plannedTargets plan) held ThawState.default_truthful s)
    (thawTargets ops (plannedTargets plan) held .default s).2.2
  have hkept : (thawBlocking ops plan held s).1.held = _ := (thawEnd_deeds _ _ _).2.trans htruth.keep
  have hok (n : Nat) : (thawBlocking ops plan held s).1.result = .ok n ↔ _ := thawEnd_ok _ _ _ n
  rw [htruth.failed, htruth.thawed] at hok
  have hdeeds : (thawBlocking ops plan held s).1.deeds = _ := (thawEnd_deeds _ _ _).1
  rw [← hdeeds] at hkept
  simp only [← hdeeds] at hok
  constructor
  case handles => exact fun m hm => hperm.mem_iff.2 (List.mem_append_left _ hm)
  case once =>
    refine hdevs.nodup_iff.2 (List.nodup_append.2 ⟨hheld, hopens, fun d hd d' hd' he => ?_⟩)
    exact hfree d' (hturns.mem_iff.1 (List.mem_append_left _ hd')) (he ▸ hd)
  case targets =>
    intro t ht
    rcases List.mem_append.1 (hturns.mem_iff.2 (List.mem_map_of_mem ht)) with hd | hd
    · obtain ⟨m, hm, he⟩ := List.mem_map.1 hd
      obtain ⟨u, hu, hum⟩ := hopened m hm
      obtain rfl : u = t := List.inj_on_of_nodup_map hunheld hu ht (hum.1.symm.trans he)
      have hdrained := hperm.mem_iff.2 (List.mem_append_right held hm)
      exact .inl ⟨⟨m, hdrained, hum⟩, fun hu' => hunreached u hu' (he ▸ dev_mem_devs hdrained)⟩
    · obtain ⟨u, hu, he⟩ := List.mem_map.1 hd
      obtain rfl : u = t := List.inj_on_of_nodup_map hunheld (hsub.subset hu) ht he
      refine .inr ⟨hu, ?_⟩
      rintro ⟨m, hm, hum⟩
      exact hunreached u hu (hum.1 ▸ dev_mem_devs hm)
  case unreached => exact ⟨hsub, fun t ht => ⟨hunopened t ht, hunreached t ht⟩⟩
  case others => exact fun m hm => (List.mem_append.1 (hperm.mem_iff.1 hm)).imp_right (hopened m)
  case ok =>
    constructor
    · rintro ⟨n, hn⟩
      obtain ⟨-, ⟨hall, hnil⟩, hrest⟩ := (hok n).1 hn
      exact ⟨hall, hnil, hrest⟩
    · rintro ⟨hall, hnil, hrest⟩
      exact ⟨_, (hok _).2 ⟨rfl, ⟨hall, hnil⟩, hrest⟩⟩
  case count =>
    intro n hn
    obtain ⟨hcount, ⟨hall, -⟩, -⟩ := (hok n).1 hn
    refine ⟨hcount, ?_⟩
    rw [hkept, List.map_eq_nil_iff, List.filter_eq_nil_iff]
    intro x hx
    simp [hall x hx]
  case kept => exact hkept
  case marker => exact fun failure hf => thawEnd_error hf

/-- Every `FITHAW` is denied on the superblock `8:2` and every other superblock is not frozen; `/b` leads nowhere. -/
def deniedOps : KernelOps Unit where
  openMount path dev _ := if path = [slash, 98] then (.error (.open .ENOENT), ()) else (.ok ⟨path, dev, 9⟩, ())
  fithaw m _ := if m.dev = (8, 2) then (.error (.errno .EPERM), ()) else (.error (.errno .EINVAL), ())
  removeMarker _ := (.ok (), ())
  dev_of_openMount := by
    intro path dev s m h
    split at h
    · cases h
    · obtain rfl := Except.ok.inj h
      rfl

/-- Three filesystems, mounted at `/`, `/a` and `/b`. -/
def threeEntries : List MountEntry :=
  [⟨1, 0, 8, 1, [slash], "ext4", "/dev/sda1"⟩, ⟨2, 1, 8, 2, [slash, 97], "xfs", "/dev/sda2"⟩,
    ⟨3, 1, 8, 3, [slash, 98], "ext4", "/dev/sda3"⟩]

theorem thawBlocking_exact_of_denied :
    (thawBlocking deniedOps (some (.ok (buildPlan threeEntries none))) [⟨[slash, 97], (8, 2), 7⟩] ()).1.Exact deniedOps
        (some (.ok (buildPlan threeEntries none))) [⟨[slash, 97], (8, 2), 7⟩] ∧
      (thawBlocking deniedOps.logged (some (.ok (buildPlan threeEntries none))) [⟨[slash, 97], (8, 2), 7⟩] ((), [])).2.2 =
        [.fithaw ⟨[slash], (8, 1), 9⟩, .fithaw ⟨[slash, 97], (8, 2), 7⟩] := by
  have h := thawBlocking_exact deniedOps (some (.ok (buildPlan threeEntries none))) [⟨[slash, 97], (8, 2), 7⟩] ()
    (fun p hp => ⟨threeEntries, none, by cases hp; rfl⟩) (by decide)
  refine ⟨h.1, ?_⟩
  rw [h.2]
  decide

end Qeminga
