import Qeminga.Invariant.Tokens

/-!
# Registered operations

Every operation that a driver drives, that is in the slot or that a thaw has joined was started, and the identity of
a started operation is never given to another task (`Registry.reach`).  So what the history says of an operation, and
the operation's atomics, belong to one driver.
-/

namespace Qeminga

/-- The operation `op` was started. -/
def Started (c : Ctx) (op : TaskId) : Prop := ∃ restrict now, .started op restrict now ∈ c.log

/-- The operation a thaw has joined. -/
def ThawPc.joins : ThawPc → Option TaskId
  | .requestAbort op => some op
  | .notify op => some op
  | .waitSettled op => some op
  | .joinClaim op => some op
  | .readProgress op => some op
  | .answer _ joined => joined
  | _ => none

def Task.joins : Task → Option TaskId
  | .thaw _ pc => pc.joins
  | _ => none

theorem Ctx.Adds.mem {i : TaskId} {c c' : Ctx} (h : c.Adds i c') {e : Event} (he : e ∈ c.log) : e ∈ c'.log := by
  obtain ⟨new, hn, -⟩ := h
  rw [hn]
  exact List.mem_append_right _ he

theorem Ctx.Adds.mem_or {i : TaskId} {c c' : Ctx} (h : c.Adds i c') {e : Event} (he : e ∈ c'.log) :
    e ∈ c.log ∨ e.By i := by
  obtain ⟨new, hn, hby⟩ := h
  rw [hn] at he
  exact (List.mem_append.1 he).symm.imp id (hby e)

theorem Started.mono {i op : TaskId} {c c' : Ctx} (h : Started c op) (ha : c.Adds i c') : Started c' op := by
  obtain ⟨r, n, he⟩ := h
  exact ⟨r, n, ha.mem he⟩

variable {cfg : Config} {c c' : Ctx} {i fresh : TaskId} {t t' : Task} {new : Option Dog}

/-- A step of a task leaves the slot or clears it. -/
theorem Driver.Move.slot {d d' : Driver} (hm : Driver.Move cfg c i fresh d c' d' new) :
    c'.slot = c.slot ∨ c'.slot = none := by
  cases hm
  case call hc => exact .inl hc.calls.slot
  case drain hc => exact .inl (Ctx.fithaw_calls hc).slot
  case interrupt hc => rcases hc with rfl | rfl <;> exact .inl (by simp)
  case retire =>
    simp only [Ctx.retire_eq]
    split
    · exact .inr rfl
    · exact .inl rfl
  all_goals exact .inl (by simp)

theorem Thaw.Move.slot {pc pc' : ThawPc} (hm : Thaw.Move cfg c i fresh pc c' pc' new) : c'.slot = c.slot := by
  cases hm
  case call hc => exact hc.calls.slot
  all_goals simp

theorem Task.Move.slot (hm : Task.Move cfg c i fresh t c' t' new) : c'.slot = c.slot ∨ c'.slot = none := by
  cases hm with
  | driver h => exact h.slot
  | thaw h => exact .inl h.slot
  | startInstall => exact .inl (by simp)
  | _ => exact .inl rfl

/-- A thaw joins the operation that it finds in the slot. -/
theorem Thaw.Move.joins {pc pc' : ThawPc} (hm : Thaw.Move cfg c i fresh pc c' pc' new) {op : TaskId}
    (h : pc'.joins = some op) : pc.joins = some op ∨ c.slot = some op := by
  cases hm
  case found hs =>
    cases h
    exact .inr hs
  case hold tk outcome held =>
    cases outcome with
    | ok n => cases h
    | error failure =>
      simp only [Thaw.settles] at h
      split at h <;> cases h
  all_goals first
    | exact .inl h
    | cases h

namespace Registry

structure Glob (c : Ctx) (next : TaskId) : Prop where
  started : ∀ op, Started c op → op < next
  slot : ∀ op, c.slot = some op → Started c op
  authors : ∀ e ∈ c.log, ∀ j, e.author = some j → j < next

structure Loc (c : Ctx) (i : TaskId) (t : Task) : Prop where
  driver : ∀ d, t = .driver d → Started c i
  joins : ∀ op, t.joins = some op → Started c op

theorem Loc.mono {j : TaskId} (h : Loc c i t) (ha : c.Adds j c') : Loc c' i t :=
  ⟨fun d hd => (h.driver d hd).mono ha, fun op ho => (h.joins op ho).mono ha⟩

private theorem loc_of_none {c : Ctx} {i : TaskId} {t : Task} (hd : ∀ d, t ≠ .driver d) (hj : t.joins = none) :
    Loc c i t := ⟨fun d h => absurd h (hd d), fun op h => by rw [hj] at h; cases h⟩

private theorem move (hm : Task.Move cfg c i fresh t c' t' new) {next : TaskId} (hi : i < next) (hg : Glob c next)
    (hl : Loc c i t) : Glob c' next ∧ Loc c' i t' := by
  have ha := hm.grows.log
  refine ⟨⟨?_, fun op ho => ?_, fun e he j hj => ?_⟩, ⟨fun d hd => ?_, fun op ho => ?_⟩⟩
  · rintro op ⟨r, n, he⟩
    rcases ha.mem_or he with he | he
    · exact hg.started op ⟨r, n, he⟩
    · obtain rfl : op = i := he op rfl
      exact hi
  · rcases hm.slot with h | h <;> rw [h] at ho
    · exact (hg.slot op ho).mono ha
    · cases ho
  · rcases ha.mem_or he with he | he
    · exact hg.authors e he j hj
    · obtain rfl := he j hj
      exact hi
  · subst hd
    cases hm with
    | driver h => exact (hl.driver _ rfl).mono ha
  · cases hm with
    | thaw h => exact (h.joins ho).elim (fun h => (hl.joins op h).mono ha) fun h => (hg.slot op h).mono ha
    | _ => cases ho

private theorem Glob.succ {n : TaskId} (h : Glob c n) : Glob c (n + 1) :=
  ⟨fun op ho => Nat.lt_succ_of_lt (h.started op ho), h.slot, fun e he j hj => Nat.lt_succ_of_lt (h.authors e he j hj)⟩

/-- A task that is yet to come has recorded nothing. -/
theorem Glob.unheard {n : TaskId} (h : Glob c n) {e : Event} (he : e ∈ c.log) : e.author ≠ some n :=
  fun hn => Nat.lt_irrefl _ (h.authors e he n hn)

theorem reach {ok : Agent → Action → Agent → Prop} {a : Agent}
    (h : Machine.Reach (Agent.step cfg) ok Agent.Initial a) : a.Holds Glob Loc := by
  refine h.invariant (fun a h => ?_) (fun a act a' _ ih hs _ => ?_)
  · obtain ⟨c, n, rfl⟩ := h.booted
    have hlog : (Agent.bootCtx c).log = [] := h.log
    refine Agent.boot_holds ⟨?_, fun op ho => ?_, by simp [hlog]⟩ fun _ => loc_of_none (fun _ h => by cases h) rfl
    · rintro op ⟨r, n, he⟩
      rw [hlog] at he
      cases he
    · cases ho
  · refine Agent.holds_step ih hs ?_ ?_ ?_ ?_ ?_
    · intro i t c' t' new ht hm _
      obtain ⟨hG, hL⟩ := move hm (ih.bound ht) ih.glob (ih.loc ht)
      exact ⟨hG, fun _ => Glob.succ, hL, fun g _ => loc_of_none (fun _ h => by cases h) rfl, fun j u _ _ hu => hu.mono hm.grows.log⟩
    · intro restrict _ _
      have ha : a.ctx.Adds a.next (Agent.freezeCtx cfg a.ctx a.next restrict) := ⟨[_, _], rfl, by simp [Event.By, Event.author]⟩
      have hnew : Started (Agent.freezeCtx cfg a.ctx a.next restrict) a.next :=
        ⟨restrict, a.ctx.snapshot, by simp [Agent.freezeCtx]⟩
      refine ⟨⟨?_, fun op ho => ?_, fun e he j hj => ?_⟩, ⟨fun _ _ => hnew, fun _ h => by cases h⟩,
        fun j u _ _ hu => hu.mono ha⟩
      · rintro op ⟨r, n, he⟩
        rcases ha.mem_or he with he | he
        · exact Nat.lt_succ_of_lt (ih.glob.started op ⟨r, n, he⟩)
        · obtain rfl : op = a.next := he op rfl
          exact Nat.lt_succ_self _
      · cases ho
        exact hnew
      · rcases ha.mem_or he with he | he
        · exact Nat.lt_succ_of_lt (ih.glob.authors e he j hj)
        · obtain rfl := he j hj
          exact Nat.lt_succ_self _
    · exact ⟨ih.glob.succ, loc_of_none (fun _ h => by cases h) rfl, loc_of_none (fun _ h => by cases h) rfl⟩
    · intro c' he _
      cases he <;>
        exact ⟨⟨ih.glob.started, ih.glob.slot, ih.glob.authors⟩, fun j u _ hl => ⟨hl.driver, hl.joins⟩⟩
    · intro _
      exact ⟨⟨ih.glob.succ.started, (fun op ho => by cases ho), ih.glob.succ.authors⟩,
        fun _ => loc_of_none (fun _ h => by cases h) rfl⟩

end Registry

/-! ### The start of an operation -/

/-- No step of a task starts an operation. -/
theorem Task.Move.of_started (hm : Task.Move cfg c i fresh t c' t' new) {op : TaskId} {restrict : Option (List Path)}
    {now : Snapshot} (h : .started op restrict now ∈ c'.log) : .started op restrict now ∈ c.log := by
  have of_calls : ∀ {c' : Ctx}, c.Calls i c' → .started op restrict now ∈ c'.log → .started op restrict now ∈ c.log := by
    intro c' hc h
    obtain ⟨log', hlog, hcall⟩ := hc.calls
    rw [hlog] at h
    exact (List.mem_append.1 h).resolve_left fun he => by cases (hcall _ he).2
  cases hm with
  | driver h' =>
    cases h'
    case call hc => exact of_calls hc.calls h
    case drain hc => exact of_calls (Ctx.fithaw_calls hc) h
    case interrupt hc => rcases hc with rfl | rfl <;> simpa using h
    all_goals simpa using h
  | thaw h' =>
    cases h'
    case call hc => exact of_calls hc.calls h
    all_goals simpa using h
  | _ => simpa using h

/-- An operation is started once. -/
theorem Registry.started_unique {ok : Agent → Action → Agent → Prop} {a : Agent}
    (h : Machine.Reach (Agent.step cfg) ok Agent.Initial a) {op : TaskId} {restrict restrict' : Option (List Path)}
    {now now' : Snapshot} (hs : .started op restrict now ∈ a.ctx.log) (hs' : .started op restrict' now' ∈ a.ctx.log) :
    restrict = restrict' ∧ now = now' := by
  suffices a.Holds (fun c _ => ∀ {restrict restrict' now now'}, .started op restrict now ∈ c.log →
      .started op restrict' now' ∈ c.log → restrict = restrict' ∧ now = now') (fun _ _ _ => True) from this.glob hs hs'
  clear hs hs'
  refine h.invariant (fun a h => ?_) (fun a act a' hr ih hs _ => ?_)
  · obtain ⟨c, n, rfl⟩ := h.booted
    have hlog : (Agent.bootCtx c).log = [] := h.log
    exact Agent.boot_holds (fun h => by rw [hlog] at h; cases h) fun _ => trivial
  · refine Agent.holds_step ih hs ?_ ?_ ⟨ih.glob, trivial, trivial⟩ ?_ fun _ => ⟨ih.glob, fun _ => trivial⟩
    · intro i t c' t' new _ hm _
      exact ⟨fun h h' => ih.glob (hm.of_started h) (hm.of_started h'), fun _ => id, trivial, fun _ _ => trivial,
        fun _ _ _ _ _ => trivial⟩
    · intro restrict _ _
      -- the identity of the new operation has no other event
      have hnew : ∀ {r s}, .started a.next r s ∉ a.ctx.log := fun he => (Registry.reach hr).glob.unheard he rfl
      have hmem : ∀ {r s}, .started op r s ∈ (Agent.freezeCtx cfg a.ctx a.next restrict).log →
          (op = a.next ∧ r = restrict ∧ s = a.ctx.snapshot) ∨ .started op r s ∈ a.ctx.log := by
        intro r s he
        simpa [Agent.freezeCtx] using he
      refine ⟨fun h h' => ?_, trivial, fun _ _ _ _ _ => trivial⟩
      rcases hmem h with ⟨rfl, rfl, rfl⟩ | hold <;> rcases hmem h' with ⟨ho, rfl, rfl⟩ | hold'
      · exact ⟨rfl, rfl⟩
      · exact absurd hold' hnew
      · exact absurd (ho ▸ hold) hnew
      · exact ih.glob hold hold'
    · intro c' he _
      have hlog : c'.log = a.ctx.log := by cases he <;> rfl
      exact ⟨by rw [hlog]; exact ih.glob, fun _ _ _ _ => trivial⟩

/-- The task of a started operation is its driver. -/
theorem Registry.driver_of_started {ok : Agent → Action → Agent → Prop} {a : Agent}
    (h : Machine.Reach (Agent.step cfg) ok Agent.Initial a) {op : TaskId} (hs : Started a.ctx op) {t : Task}
    (ht : a.tasks op = some t) : ∃ d, t = .driver d := by
  suffices a.Holds (fun _ _ => True) (fun c i t => Started c i → ∃ d, t = .driver d) from this.loc ht hs
  clear hs ht
  refine h.invariant (fun a h => ?_) (fun a act a' hr ih hs _ => ?_)
  · obtain ⟨c, n, rfl⟩ := h.booted
    have hlog : (Agent.bootCtx c).log = [] := h.log
    refine Agent.boot_holds trivial fun _ => ?_
    rintro ⟨restrict, now, he⟩
    rw [hlog] at he
    cases he
  · have hfresh : ¬ Started a.ctx a.next := fun h => Nat.lt_irrefl _ ((Registry.reach hr).glob.started _ h)
    refine Agent.holds_step ih hs ?_ ?_ ?_ ?_ fun _ => ⟨trivial, fun _ h => absurd h hfresh⟩
    · intro i t c' t' new ht hm _
      have hold : ∀ {j : TaskId}, Started c' j → Started a.ctx j := by
        rintro j ⟨restrict, now, he⟩
        exact ⟨restrict, now, hm.of_started he⟩
      refine ⟨trivial, fun _ => id, fun hst => ?_, fun g _ hst => absurd (hold hst) hfresh, fun j u _ _ hl hst => hl (hold hst)⟩
      obtain ⟨d, rfl⟩ := ih.loc ht (hold hst)
      cases hm with
      | driver _ => exact ⟨_, rfl⟩
    · intro restrict _ _
      refine ⟨trivial, fun _ => ⟨_, rfl⟩, fun j u hj _ hl hst => hl ?_⟩
      obtain ⟨r, now, he⟩ := hst
      have hne : j ≠ a.next := Nat.ne_of_lt hj
      exact ⟨r, now, by simpa [Agent.freezeCtx, hne] using he⟩
    · exact ⟨trivial, fun h => absurd h hfresh, fun h => absurd h hfresh⟩
    · intro c' he _
      have hlog : c'.log = a.ctx.log := by cases he <;> rfl
      refine ⟨trivial, fun j u _ hl hst => hl ?_⟩
      obtain ⟨r, now, he⟩ := hst
      exact ⟨r, now, hlog ▸ he⟩

end Qeminga
