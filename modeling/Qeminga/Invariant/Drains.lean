import Qeminga.Environment
import Qeminga.Invariant.WellFormed

/-!
# What a drain still answers for

A pass over held handles and the drain of a thaw go from handle to handle.  `DrainHeld.mounts` are the handles that a
pass has not released, `ThawBlocking.drains` and `ThawBlocking.finds` say through what a thaw still reaches a
superblock: a handle it has, or a target it has yet to open or could not open.  With an honest kernel, a superblock
that the agent froze is dropped from these only once it is no longer frozen.
-/

namespace Qeminga

/-! ### One handle -/

theorem Ctx.own_of_fithaw {c c' : Ctx} {i : TaskId} {d x : Dev} {r : Except KernelError Unit}
    (h : c.fithaw i d r = some c') (hx : c'.own x = true) : c.own x = true := by
  rcases Ctx.fithaw_cases h with ⟨-, -, rfl⟩ | ⟨err, -, rfl⟩
  · by_cases hxd : x = d
    · subst hxd
      simp only [Function.update_self, Bool.and_eq_true] at hx
      exact hx.1
    · simpa [Function.update_of_ne hxd] using hx
  · exact hx

/-- A drain that completed left its superblock thawed. -/
theorem Ctx.own_of_complete {c c' : Ctx} {i : TaskId} {d : Dev} {r : Except KernelError Unit} {n : Nat} {res : Drained}
    (hfrozen : ∀ x, c.own x = true → 0 < c.depth x) (h : c.fithaw i d r = some c')
    (hon : ∀ e ∈ news c c', honestThaw c e = true) (hcall : drainCall n r = .ended res)
    (hres : res.incomplete = none) : c'.own d = false := by
  obtain ⟨err, rfl, hends, -⟩ := incomplete_drainCall_eq_none hcall hres
  have hdepth := depth_of_endsDrain h hon hends
  rw [Bool.eq_false_iff]
  intro hd
  have := hfrozen d (Ctx.own_of_fithaw h hd)
  omega

/-! ### A pass over held handles -/

namespace DrainHeld

/-- A `FITHAW` of a pass: the drain of the first handle goes on, or the handle is kept, or it is released. -/
theorem fithaw_cases {j : DrainHeld} {m : Mount} {rest : List Mount} (htodo : j.todo = m :: rest)
    (r : Except KernelError Unit) :
    (∃ n, j.fithaw r = { j with successes := n }) ∨
      (∃ res reason, Qeminga.drainCall j.successes r = .ended res ∧ res.incomplete = some reason ∧
        j.fithaw r = { j with todo := rest, successes := 0, recovered := j.recovered + res.counted, keep := j.keep ++ [m]
                              incomplete := j.incomplete.or (some (m.mountpoint, reason)) }) ∨
      ∃ res, Qeminga.drainCall j.successes r = .ended res ∧ res.incomplete = none ∧
        j.fithaw r = { j with todo := rest, successes := 0, recovered := j.recovered + res.counted
                              released := j.released ++ [m] } := by
  unfold fithaw
  rw [htodo]
  simp only
  cases hcall : Qeminga.drainCall j.successes r with
  | going n => exact .inl ⟨n, rfl⟩
  | ended res =>
    simp only [settle]
    cases hres : res.incomplete with
    | some reason => exact .inr (.inl ⟨res, reason, rfl, hres, by simp⟩)
    | none => exact .inr (.inr ⟨res, rfl, hres, by simp⟩)

/-- A superblock that stays frozen stays with the handles of the pass. -/
theorem mem_mounts_fithaw {j : DrainHeld} {m : Mount} {rest : List Mount} (htodo : j.todo = m :: rest) {c c' : Ctx}
    {i : TaskId} {r : Except KernelError Unit} (hfrozen : ∀ x, c.own x = true → 0 < c.depth x)
    (h : c.fithaw i m.dev r = some c') (hon : ∀ e ∈ news c c', honestThaw c e = true) {x : Dev}
    (hx : c'.own x = true) (hm : x ∈ devs j.mounts) : x ∈ devs (j.fithaw r).mounts := by
  rcases fithaw_cases htodo r with ⟨n, he⟩ | ⟨res, reason, -, -, he⟩ | ⟨res, hcall, hres, he⟩
  · rw [he]
    exact hm
  · rw [he]
    simp only [mounts, htodo, devs_append, devs_cons, devs_nil, List.mem_append, List.mem_cons, List.not_mem_nil,
      or_false] at hm ⊢
    tauto
  · have hne : x ≠ m.dev := by
      rintro rfl
      rw [Ctx.own_of_complete hfrozen h hon hcall hres] at hx
      cases hx
    rw [he]
    simp only [mounts, htodo, devs_append, devs_cons, List.mem_append, List.mem_cons, hne, false_or] at hm ⊢
    exact hm

@[simp] theorem mem_devs_mounts_start (held : List Mount) (x : Dev) : x ∈ devs (start held).mounts ↔ x ∈ devs held := by
  simp [start, mounts]

/-- A pass without a handle left and without an incomplete drain has released every handle. -/
theorem mounts_eq_nil {j : DrainHeld} (hw : j.WF) (htodo : j.todo = []) (hinc : j.incomplete = none) : j.mounts = [] := by
  have hkeep : j.keep = [] := by
    by_contra hk
    have := hw hk
    rw [hinc] at this
    cases this
  rw [mounts, htodo, hkeep]
  rfl

end DrainHeld

/-- A rollback that settles `Thawed` has released every handle. -/
theorem Rollback.mounts_of_thawed {j : Rollback} (hw : j.WF) (hf : j.finished = true)
    (ht : j.terminal = .thawed) : j.drain.mounts = [] := by
  have htodo : j.drain.todo = [] := by
    simp only [Rollback.finished, Bool.and_eq_true, List.isEmpty_iff] at hf
    exact hf.1
  refine DrainHeld.mounts_eq_nil hw.drain htodo ?_
  cases hinc : j.drain.incomplete with
  | none => rfl
  | some x => simp [Rollback.terminal, Rollback.failure, hinc, FreezeFailure.retainsFrozenState] at ht

/-! ### The drain of a thaw -/

namespace ThawBlocking

/-- The thaw has a handle on `x`. -/
def drains (j : ThawBlocking) (x : Dev) : Prop :=
  x ∈ devs j.retained ∨ x ∈ devs j.keep ∨ ∃ m n, j.stage = .drain m n ∧ m.dev = x

/-- The thaw has yet to read the table, `x` is one of the targets left, or something failed. -/
def finds (j : ThawBlocking) (x : Dev) : Prop :=
  j.stage = .table ∨ (∃ t ∈ j.rest, t.dev = x) ∨
    (∃ t path paths attempts, j.stage = .open t path paths attempts ∧ t.dev = x) ∨
    j.unrecoverable.isSome ∨ j.discovery.isSome

/-- The end of a thaw is reached with every handle drained, and its success only if nothing failed. -/
structure WF (j : ThawBlocking) : Prop where
  keep : j.keep ≠ [] → j.unrecoverable.isSome
  ended : (j.stage = .unlink ∨ ∃ r, j.stage = .done r) → j.retained = [] ∧ j.rest = []
  clean : (j.stage = .unlink ∨ ∃ n, j.stage = .done (.ok n)) → j.unrecoverable = none ∧ j.discovery = none

theorem takeDev_eq_some {dev : Dev} {ms : List Mount} {m : Mount} {rest : List Mount}
    (h : takeDev dev ms = some (m, rest)) : m.dev = dev ∧ ms.Perm (m :: rest) := by
  obtain ⟨m', hm, he⟩ := Option.map_eq_some_iff.1 h
  cases he
  obtain ⟨hdev, as, bs, rfl, has⟩ := List.find?_eq_some_iff_append.1 hm
  refine ⟨by simpa using hdev, ?_⟩
  rw [List.eraseP_append_right _ (fun a ha => by simpa using has a ha), List.eraseP_cons_of_pos (by simpa using hdev)]
  exact List.perm_middle

theorem takeDev_eq_none {dev : Dev} {ms : List Mount} (h : takeDev dev ms = none) : dev ∉ devs ms := by
  intro hd
  obtain ⟨m, hm, rfl⟩ := List.mem_map.1 hd
  have hf := List.find?_eq_none.1 (Option.map_eq_none_iff.1 h) m hm
  simp at hf

/-- What comes after a target. -/
theorem advance_cases (j : ThawBlocking) :
    (∃ t ts m retained, j.rest = t :: ts ∧ m.dev = t.dev ∧ j.retained.Perm (m :: retained) ∧
        j.advance = { j with stage := .drain m 0, rest := ts, retained := retained }) ∨
      (∃ t ts, j.rest = t :: ts ∧ t.dev ∉ devs j.retained ∧
        j.advance = { j with stage := .open t t.openPaths.1 t.openPaths.2 [], rest := ts }) ∨
      (∃ m retained, j.rest = [] ∧ j.retained = retained ++ [m] ∧
        j.advance = { j with stage := .drain m 0, retained := retained }) ∨
      (∃ failure, j.rest = [] ∧ j.retained = [] ∧ (j.unrecoverable.isSome ∨ j.discovery.isSome) ∧
        j.advance = { j with stage := .done (.error failure) }) ∨
      (j.rest = [] ∧ j.retained = [] ∧ j.unrecoverable = none ∧ j.discovery = none ∧
        j.advance = { j with stage := .unlink }) := by
  cases hrest : j.rest with
  | cons t ts =>
    cases htake : takeDev t.dev j.retained with
    | some x =>
      obtain ⟨m, retained⟩ := x
      obtain ⟨hdev, hperm⟩ := takeDev_eq_some htake
      exact .inl ⟨t, ts, m, retained, rfl, hdev, hperm, by simp only [advance, hrest, htake]⟩
    | none => exact .inr (.inl ⟨t, ts, rfl, takeDev_eq_none htake, by simp only [advance, hrest, htake]⟩)
  | nil =>
    refine .inr (.inr ?_)
    cases hlast : j.retained.getLast? with
    | some m =>
      refine .inl ⟨m, j.retained.dropLast, rfl, ?_, by simp only [advance, hrest, hlast]⟩
      exact (List.dropLast_append_getLast? m hlast).symm
    | none =>
      refine .inr ?_
      have hret := List.getLast?_eq_none_iff.1 hlast
      cases hu : j.unrecoverable with
      | some failure =>
        exact .inl ⟨failure, rfl, hret, .inl rfl, by simp only [advance, hrest, hlast, hu]⟩
      | none =>
        cases hd : j.discovery with
        | some failure =>
          exact .inl ⟨failure, rfl, hret, .inr rfl, by simp only [advance, hrest, hlast, hu, hd]⟩
        | none => exact .inr ⟨rfl, hret, rfl, rfl, by simp only [advance, hrest, hlast, hu, hd]⟩

theorem drains_advance {j : ThawBlocking} {x : Dev} (h : x ∈ devs j.retained ∨ x ∈ devs j.keep) :
    j.advance.drains x := by
  rcases j.advance_cases with ⟨t, ts, m, retained, -, -, hperm, he⟩ | ⟨t, ts, -, -, he⟩ | ⟨m, retained, -, hret, he⟩ |
    ⟨failure, -, hret, -, he⟩ | ⟨-, hret, -, -, he⟩
  · rw [he]
    rcases h with h | h
    · have := (hperm.map Mount.dev).mem_iff.1 h
      rcases List.mem_cons.1 this with rfl | h
      · exact .inr (.inr ⟨m, 0, rfl, rfl⟩)
      · exact .inl h
    · exact .inr (.inl h)
  · rw [he]
    exact h.imp id .inl
  · rw [he]
    rw [hret, devs_append, List.mem_append] at h
    rcases h with (h | h) | h
    · exact .inl h
    · exact .inr (.inr ⟨m, 0, rfl, (List.mem_singleton.1 h).symm⟩)
    · exact .inr (.inl h)
  · rw [he]
    exact h.imp id .inl
  · rw [he]
    exact h.imp id .inl

theorem finds_advance {j : ThawBlocking} {x : Dev}
    (h : (∃ t ∈ j.rest, t.dev = x) ∨ j.unrecoverable.isSome ∨ j.discovery.isSome) :
    j.advance.drains x ∨ j.advance.finds x := by
  rcases h with ⟨t', ht', hx⟩ | h
  · rcases j.advance_cases with ⟨t, ts, m, retained, hrest, hdev, -, he⟩ | ⟨t, ts, hrest, -, he⟩ | ⟨m, retained, hrest, -⟩ |
      ⟨failure, hrest, -⟩ | ⟨hrest, -⟩
    · rw [hrest] at ht'
      rw [he]
      rcases List.mem_cons.1 ht' with rfl | ht'
      · exact .inl (.inr (.inr ⟨m, 0, rfl, hdev.trans hx⟩))
      · exact .inr (.inr (.inl ⟨t', ht', hx⟩))
    · rw [hrest] at ht'
      rw [he]
      rcases List.mem_cons.1 ht' with rfl | ht'
      · exact .inr (.inr (.inr (.inl ⟨_, _, _, _, rfl, hx⟩)))
      · exact .inr (.inr (.inl ⟨t', ht', hx⟩))
    all_goals
      rw [hrest] at ht'
      cases ht'
  · right
    rcases j.advance_cases with ⟨t, ts, m, retained, -, -, -, he⟩ | ⟨t, ts, -, -, he⟩ | ⟨m, retained, -, -, he⟩ |
      ⟨failure, -, -, -, he⟩ | ⟨-, -, -, -, he⟩ <;>
    · rw [he]
      exact .inr (.inr (.inr h))

theorem advance_wf {j : ThawBlocking} (hkeep : j.keep ≠ [] → j.unrecoverable.isSome) : j.advance.WF := by
  rcases j.advance_cases with ⟨t, ts, m, retained, -, -, -, he⟩ | ⟨t, ts, -, -, he⟩ | ⟨m, retained, -, -, he⟩ |
    ⟨failure, hrest, hret, -, he⟩ | ⟨hrest, hret, hu, hd, he⟩ <;> rw [he]
  · exact ⟨hkeep, by simp, by simp⟩
  · exact ⟨hkeep, by simp, by simp⟩
  · exact ⟨hkeep, by simp, by simp⟩
  · exact ⟨hkeep, fun _ => ⟨hret, hrest⟩, by simp⟩
  · exact ⟨hkeep, fun _ => ⟨hret, hrest⟩, fun _ => ⟨hu, hd⟩⟩

theorem start_wf (discover : Bool) (held : List Mount) : (start discover held).WF := by
  unfold start
  cases discover with
  | true => exact ⟨fun h => absurd rfl h, by simp, by simp⟩
  | false => exact advance_wf (j := ⟨.table, [], held, 0, none, [], none⟩) fun h => absurd rfl h

theorem drains_start {discover : Bool} {held : List Mount} {x : Dev} (h : x ∈ devs held) :
    (start discover held).drains x := by
  unfold start
  cases discover with
  | true => exact .inl h
  | false => exact drains_advance (j := ⟨.table, [], held, 0, none, [], none⟩) (.inl h)

theorem finds_start (held : List Mount) (x : Dev) : (start true held).finds x := .inl rfl

/-- A thaw that goes to the removal of the marker, or succeeds, answers for nothing any more. -/
theorem WF.settled {j : ThawBlocking} (h : j.WF) (hs : j.stage = .unlink ∨ ∃ n, j.stage = .done (.ok n)) (x : Dev) :
    ¬ (j.drains x ∨ j.finds x) := by
  obtain ⟨hu, hd⟩ := h.clean hs
  obtain ⟨hret, hrest⟩ := h.ended (hs.imp id fun h => h.imp' (fun _ => _) fun _ => id)
  have hkeep : j.keep = [] := by
    by_contra hk
    have := h.keep hk
    rw [hu] at this
    cases this
  rintro ((h | h | ⟨m, n, h, -⟩) | h | ⟨t, h, -⟩ | ⟨t, _, _, _, h, -⟩ | h | h)
  · rw [hret] at h; cases h
  · rw [hkeep] at h; cases h
  · rcases hs with hs | ⟨_, hs⟩ <;> rw [hs] at h <;> cases h
  · rcases hs with hs | ⟨_, hs⟩ <;> rw [hs] at h <;> cases h
  · rw [hrest] at h; cases h
  · rcases hs with hs | ⟨_, hs⟩ <;> rw [hs] at h <;> cases h
  · rw [hu] at h; cases h
  · rw [hd] at h; cases h

/-- At its end a thaw has handles on what it keeps only. -/
theorem WF.keeps {j : ThawBlocking} (h : j.WF) {r : Except ThawFailure Nat} (hs : j.stage = .done r) {x : Dev}
    (hx : j.drains x) : x ∈ devs j.keep := by
  rcases hx with hx | hx | ⟨m, n, hx, -⟩
  · rw [(h.ended (.inr ⟨r, hs⟩)).1] at hx
    cases hx
  · exact hx
  · rw [hs] at hx
    cases hx

/-- A `FITHAW` of a thaw: the drain of the handle goes on, or the handle is kept, or it is done with. -/
theorem fithaw_cases (j : ThawBlocking) (m : Mount) (n : Nat) (r : Except KernelError Unit) :
    (∃ n', j.fithaw m n r = { j with stage := .drain m n' }) ∨
      (∃ res failure, drainCall n r = .ended res ∧ res.incomplete.isSome ∧
        j.fithaw m n r = advance { j with thawed := j.thawed + res.counted, keep := j.keep ++ [m]
                                          unrecoverable := j.unrecoverable.or (some failure) }) ∨
      ∃ res, drainCall n r = .ended res ∧ res.incomplete = none ∧
        j.fithaw m n r = advance { j with thawed := j.thawed + res.counted } := by
  unfold fithaw
  cases hcall : drainCall n r with
  | going n' => exact .inl ⟨n', rfl⟩
  | ended res =>
    simp only [settle]
    cases hres : res.incomplete with
    | some reason => exact .inr (.inl ⟨res, .incomplete m.mountpoint reason, rfl, by simp [hres], rfl⟩)
    | none => exact .inr (.inr ⟨res, rfl, hres, rfl⟩)

theorem Call.wf {c c' : Ctx} {i : TaskId} {j j' : ThawBlocking} (h : j.Call c i c' j') (hw : j.WF) : j'.WF := by
  cases h with
  | discovered entries hs => exact advance_wf hw.keep
  | undiscovered message hs => exact advance_wf hw.keep
  | opened hs => exact ⟨hw.keep, by simp, by simp⟩
  | @notOpened t path paths attempts err hs =>
    cases paths with
    | cons next paths => exact ⟨hw.keep, by simp [ThawBlocking.opened], by simp [ThawBlocking.opened]⟩
    | nil => exact advance_wf fun _ => by simp
  | @fithaw m n r c' hs hc =>
    rcases j.fithaw_cases m n r with ⟨n', he⟩ | ⟨res, failure, -, -, he⟩ | ⟨res, -, -, he⟩ <;> rw [he]
    · exact ⟨hw.keep, by simp, by simp⟩
    · exact advance_wf fun _ => by simp
    · exact advance_wf hw.keep
  | @unlinked ans c' r hs hc =>
    have hend := hw.ended (.inl hs)
    have hclean := hw.clean (.inl hs)
    unfold removed
    split
    · exact ⟨hw.keep, fun _ => hend, fun _ => hclean⟩
    · exact ⟨hw.keep, fun _ => hend, fun _ => hclean⟩
    · exact ⟨hw.keep, fun _ => hend, by simp⟩

section Cover

variable {c c' : Ctx} {i : TaskId} {j j' : ThawBlocking} {x : Dev}

/-- A superblock that stays frozen stays with the handles of the thaw. -/
theorem Call.drains (h : j.Call c i c' j') (hfrozen : ∀ x, c.own x = true → 0 < c.depth x)
    (hon : ∀ e ∈ news c c', honestThaw c e = true) (hx : c'.own x = true) (hj : j.drains x) : j'.drains x := by
  have hkeep : ∀ {stage : ThawStage}, j.stage = stage → (∀ m n, stage ≠ .drain m n) →
      x ∈ devs j.retained ∨ x ∈ devs j.keep := by
    intro stage hs hne
    rcases hj with h | h | ⟨m, n, h, -⟩
    · exact .inl h
    · exact .inr h
    · exact absurd (hs.symm.trans h) (hne m n)
  cases h with
  | discovered entries hs => exact drains_advance (hkeep hs (by simp))
  | undiscovered message hs => exact drains_advance (hkeep hs (by simp))
  | opened hs => exact (hkeep hs (by simp)).imp id .inl
  | @notOpened t path paths attempts err hs =>
    cases paths with
    | cons next paths => exact (hkeep hs (by simp)).imp id .inl
    | nil => exact drains_advance (hkeep hs (by simp))
  | @fithaw m n r c' hs hc =>
    have hcase : x = m.dev ∨ x ∈ devs j.retained ∨ x ∈ devs j.keep := by
      rcases hj with h | h | ⟨m', n', h, rfl⟩
      · exact .inr (.inl h)
      · exact .inr (.inr h)
      · rw [hs] at h
        cases h
        exact .inl rfl
    rcases j.fithaw_cases m n r with ⟨n', he⟩ | ⟨res, failure, -, -, he⟩ | ⟨res, hcall, hres, he⟩ <;> rw [he]
    · rcases hcase with rfl | h | h
      · exact .inr (.inr ⟨m, n', rfl, rfl⟩)
      · exact .inl h
      · exact .inr (.inl h)
    · refine drains_advance ?_
      rcases hcase with rfl | h | h
      · exact .inr (by simp)
      · exact .inl h
      · exact .inr (by simp [h])
    · refine drains_advance (hcase.resolve_left ?_)
      rintro rfl
      rw [Ctx.own_of_complete hfrozen hc hon hcall hres] at hx
      cases hx
  | @unlinked ans c' r hs hc =>
    have := hkeep hs (by simp)
    unfold removed
    split <;> exact this.imp id .inl

/-- A superblock that stays frozen is found, if the mount table lists it or there is a handle on it. -/
theorem Call.finds (h : j.Call c i c' j') {handles : TaskId → List Mount} (hhandles : handles i = j.retained)
    (hlist : ∀ e ∈ news c c', TableListsOwn handles c e) (hx : c.own x = true) (hj : j.finds x) :
    j'.drains x ∨ j'.finds x := by
  have hkeep : ∀ {stage : ThawStage}, j.stage = stage → stage ≠ .table → (∀ t p ps as, stage ≠ .open t p ps as) →
      (∃ t ∈ j.rest, t.dev = x) ∨ j.unrecoverable.isSome ∨ j.discovery.isSome := by
    intro stage hs hne hne'
    rcases hj with h | h | ⟨t, p, ps, as, h, -⟩ | h
    · exact absurd (hs.symm.trans h) hne
    · exact .inl h
    · exact absurd (hs.symm.trans h) (hne' t p ps as)
    · exact .inr h
  have hopen : ∀ {t : Target} {path : Path} {paths : List Path} {attempts : Attempts},
      j.stage = .open t path paths attempts →
      t.dev = x ∨ (∃ t ∈ j.rest, t.dev = x) ∨ j.unrecoverable.isSome ∨ j.discovery.isSome := by
    intro t path paths attempts hs
    rcases hj with h | h | ⟨t', _, _, _, h, hd⟩ | h
    · rw [hs] at h; cases h
    · exact .inr (.inl h)
    · rw [hs] at h; cases h; exact .inl hd
    · exact .inr (.inr h)
  cases h with
  | discovered entries hs =>
    have hn : news c (c.note (.discovered i entries)) = [.discovered i entries] := news_eq rfl
    have hl : TableListsOwn handles c (.discovered i entries) := hlist _ (by rw [hn]; exact List.mem_cons_self)
    rcases hl x hx with hm | hrow
    · rw [hhandles] at hm
      exact .inl (drains_advance (.inl hm))
    · obtain ⟨t, ht, hd⟩ := List.mem_map.1 ((FreezePlan.mem_build entries x).2 hrow)
      exact finds_advance (.inl ⟨t, ht, hd⟩)
  | undiscovered message hs => exact finds_advance (.inr (.inr rfl))
  | @opened t path paths attempts hs =>
    rcases hopen hs with h | h | h
    · exact .inl (.inr (.inr ⟨_, _, rfl, h⟩))
    · exact .inr (.inr (.inl h))
    · exact .inr (.inr (.inr (.inr h)))
  | @notOpened t path paths attempts err hs =>
    cases paths with
    | cons next paths =>
      rcases hopen hs with h | h | h
      · exact .inr (.inr (.inr (.inl ⟨t, _, _, _, rfl, h⟩)))
      · exact .inr (.inr (.inl h))
      · exact .inr (.inr (.inr (.inr h)))
    | nil => exact finds_advance (.inr (.inl (by simp)))
  | @fithaw m n r c' hs hc =>
    have := hkeep hs (by simp) (by simp)
    rcases j.fithaw_cases m n r with ⟨n', he⟩ | ⟨res, failure, -, -, he⟩ | ⟨res, -, -, he⟩ <;> rw [he]
    · exact .inr (.inr (this.imp id .inr))
    · exact finds_advance (.inr (.inl (by simp)))
    · exact finds_advance this
  | @unlinked ans c' r hs hc =>
    have := hkeep hs (by simp) (by simp)
    unfold removed
    split <;> exact .inr (.inr (this.imp id .inr))

end Cover

end ThawBlocking

end Qeminga
