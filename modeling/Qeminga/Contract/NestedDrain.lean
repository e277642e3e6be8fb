import Qeminga.Drain

/-!
# Drains against nested freezes

A superblock keeps a freeze depth.  `FITHAW` takes one level off it and says "not frozen" at none; a filesystem that
cannot freeze says so; and any call may fail in another way, before the ioctl or in it, without an effect.  A drain is
complete only at depth zero, takes off every level below its bound, and never believes an error from before the ioctl.
-/

namespace Qeminga

/-- The error is not one with which a kernel that keeps freeze depths ends a drain. -/
def KernelError.Foreign : KernelError → Prop
  | .errno e => e ∉ [Errno.EINVAL, .EOPNOTSUPP, .ENOTTY, .ENOSYS]
  | _ => True

/-- The answers to `FITHAW` on a superblock with a freeze depth, with the depths before and after it. -/
inductive Fithaw (freezable : Bool) : Nat → Except KernelError Unit → Nat → Prop
  | thaws (depth : Nat) : Fithaw freezable (depth + 1) (.ok ()) depth
  | notFrozen : Fithaw freezable 0 (.error (.errno .EINVAL)) 0
  | unsupported {e : Errno} (he : e ∈ [Errno.EOPNOTSUPP, .ENOTTY, .ENOSYS]) (hf : freezable = false) (depth : Nat) :
      Fithaw freezable depth (.error (.errno e)) depth
  | foreign {err : KernelError} (he : err.Foreign) (depth : Nat) : Fithaw freezable depth (.error err) depth

namespace Fithaw

variable {freezable : Bool} {depth depth' : Nat} {err : KernelError}

theorem eq_of_error (h : Fithaw freezable depth (.error err) depth') : depth' = depth := by
  cases h <;> rfl

theorem eq_of_ok (h : Fithaw freezable depth (.ok ()) depth') : depth = depth' + 1 := by
  cases h
  rfl

/-- The answers that end a drain come at depth zero, or from a filesystem that cannot freeze. -/
theorem of_endsDrain (h : Fithaw freezable depth (.error err) depth') (he : err.endsDrain = true) :
    freezable = false ∨ depth' = 0 := by
  cases h with
  | notFrozen => exact .inr rfl
  | unsupported _ hf => exact .inl hf
  | foreign hforeign =>
    cases err with
    | errno e => cases e <;> simp [KernelError.Foreign, KernelError.endsDrain, KernelError.isInvalid,
        KernelError.isNotSupported] at hforeign he
    | «open» e => cases he
    | wrongFilesystem a b => cases he

/-- Without a foreign error a superblock that can be frozen answers with an error only at depth zero. -/
theorem of_not_foreign (h : Fithaw freezable depth (.error err) depth') (he : ¬ err.Foreign) :
    err.endsDrain = true ∧ (freezable = true → depth' = 0) := by
  cases h with
  | notFrozen => exact ⟨rfl, fun _ => rfl⟩
  | unsupported hmem hf =>
    refine ⟨?_, fun h => by rw [hf] at h; cases h⟩
    simp only [List.mem_cons, List.not_mem_nil, or_false] at hmem
    rcases hmem with rfl | rfl | rfl <;> rfl
  | foreign hforeign => exact absurd hforeign he

end Fithaw

/-- A kernel with the state `σ` around one superblock. -/
structure Superblock (σ : Type) where
  fithaw : σ → Except KernelError Unit × σ
  depth : σ → Nat
  freezable : Bool
  answers : ∀ s, Fithaw freezable (depth s) (fithaw s).1 (depth (fithaw s).2)

namespace Superblock

variable {σ : Type} (k : Superblock σ)

/-- The calls of `FITHAW` are counted beside the state. -/
def counting (s : σ × Nat) : Except KernelError Unit × (σ × Nat) := ((k.fithaw s.1).1, (k.fithaw s.1).2, s.2 + 1)

/-- The result of the `n`-th attempt at the drain, counted from 0, after as many earlier ones. -/
def attempt (s : σ) : Nat → Drained × σ
  | 0 => drain k.fithaw s
  | n + 1 => drain k.fithaw (attempt s n).2

theorem drainLoop_counting (iterations n : Nat) (s : σ) (calls : Nat) :
    drainLoop k.counting iterations n (s, calls) =
        ((drainLoop k.fithaw iterations n s).1, (drainLoop k.fithaw iterations n s).2,
          (drainLoop k.counting iterations n (s, calls)).2.2) ∧
      (drainLoop k.counting iterations n (s, calls)).2.2 ≤ calls + iterations := by
  induction iterations generalizing n s calls with
  | zero => simp [drainLoop]
  | succ iterations ih =>
    rcases hs : k.fithaw s with ⟨ans, s'⟩
    cases ans with
    | error err => simp [drainLoop, counting, hs]
    | ok u =>
      obtain ⟨hsame, hle⟩ := ih (n + 1) s' (calls + 1)
      simp only [drainLoop, counting, hs]
      exact ⟨hsame, by omega⟩

/-- What the loop of a drain leaves, by the way it ends: at the bound every call has succeeded, else the first error
comes after as many successes as levels were taken off. -/
theorem drainLoop_depth (iterations n : Nat) (s : σ) :
    let r := drainLoop k.fithaw iterations n s
    (r.1.capped = true ∧ r.1.firstError = none ∧ r.1.successes = n + iterations ∧ k.depth r.2 + iterations = k.depth s) ∨
      ∃ err, r.1.capped = false ∧ r.1.firstError = some err ∧ n ≤ r.1.successes ∧
        k.depth r.2 + (r.1.successes - n) = k.depth s ∧ r.1.successes < n + iterations ∧
        Fithaw k.freezable (k.depth r.2) (.error err) (k.depth r.2) := by
  induction iterations generalizing n s with
  | zero => exact .inl ⟨rfl, rfl, rfl, rfl⟩
  | succ iterations ih =>
    have hans := k.answers s
    rcases hs : k.fithaw s with ⟨ans, s'⟩
    rw [hs] at hans
    cases ans with
    | error err =>
      have hdepth : k.depth s' = k.depth s := hans.eq_of_error
      have hr : drainLoop k.fithaw (iterations + 1) n s = (⟨n, some err, false⟩, s') := by simp [drainLoop, hs]
      rw [hr]
      refine .inr ⟨err, rfl, rfl, Nat.le_refl _, by simp only; omega, by simp only; omega, ?_⟩
      rw [hdepth] at hans ⊢
      exact hans
    | ok u =>
      have hdepth : k.depth s = k.depth s' + 1 := hans.eq_of_ok
      simp only [drainLoop, hs]
      rcases ih (n + 1) s' with ⟨hcap, herr, hsucc, hd⟩ | ⟨err, hcap, herr, hle, hd, hlt, hans⟩
      · exact .inl ⟨hcap, herr, by omega, by omega⟩
      · exact .inr ⟨err, hcap, herr, by omega, by omega, by omega, hans⟩

/-- The error that ends a drain is an answer of the kernel. -/
theorem drainLoop_firstError {iterations n : Nat} {s : σ} {err : KernelError}
    (h : (drainLoop k.fithaw iterations n s).1.firstError = some err) : ∃ s, (k.fithaw s).1 = .error err := by
  induction iterations generalizing n s with
  | zero => cases h
  | succ iterations ih =>
    rcases hs : k.fithaw s with ⟨ans, s'⟩
    cases ans with
    | error err' =>
      simp only [drainLoop, hs] at h
      obtain rfl : err' = err := Option.some.inj h
      exact ⟨s, by rw [hs]⟩
    | ok u =>
      simp only [drainLoop, hs] at h
      exact ih h

end Superblock

/-! ### The result of a drain -/

theorem Drained.incomplete_of_capped {r : Drained} (h : r.capped = true) : r.incomplete = some .capped := by
  simp [Drained.incomplete, h]

theorem Drained.incomplete_eq_none_iff {r : Drained} {err : KernelError} (hc : r.capped = false)
    (he : r.firstError = some err) : r.incomplete = none ↔ err.endsDrain = true := by
  constructor
  · intro h
    have hcall : drainCall r.successes (.error err) = .ended r := by
      rw [drainCall, ← he, ← hc]
    obtain ⟨err', herr, hends, -⟩ := incomplete_drainCall_eq_none hcall h
    obtain rfl : err = err' := Except.error.inj herr
    exact hends
  · intro h
    have hioctl := KernelError.isIoctlAnswer_of_endsDrain h
    simp only [KernelError.endsDrain] at h
    simp [Drained.incomplete, hc, he, hioctl, h]

namespace Superblock

variable {σ : Type} (k : Superblock σ)

/-- A drain without a foreign error: complete with a success for every level below the bound, capped from there on. -/
theorem drain_depth {s : σ} (hk : k.freezable = true ∨ k.depth s = 0)
    (hf : ∀ err, (drain k.fithaw s).1.firstError = some err → ¬ err.Foreign) :
    (k.depth s < maxThawIterations → (drain k.fithaw s).1.incomplete = none ∧ (drain k.fithaw s).1.successes = k.depth s) ∧
      (maxThawIterations ≤ k.depth s → (drain k.fithaw s).1.incomplete = some .capped ∧
        (drain k.fithaw s).1.successes = maxThawIterations ∧
        k.depth (drain k.fithaw s).2 + maxThawIterations = k.depth s) := by
  rcases k.drainLoop_depth maxThawIterations 0 s with ⟨hcap, herr, hsucc, hd⟩ | ⟨err, hcap, herr, -, hd, hlt, hans⟩
  · refine ⟨fun hlt => by omega, fun _ => ⟨Drained.incomplete_of_capped hcap, ?_, hd⟩⟩
    rw [drain, hsucc, Nat.zero_add]
  · obtain ⟨hends, hzero⟩ := hans.of_not_foreign (hf err herr)
    have hdepth : k.depth (drain k.fithaw s).2 = 0 := by
      rcases hk with hk | hk
      · exact hzero hk
      · unfold drain
        omega
    have hsucc : (drain k.fithaw s).1.successes = k.depth s := by
      unfold drain at hdepth ⊢
      omega
    refine ⟨fun _ => ⟨(Drained.incomplete_eq_none_iff hcap herr).2 hends, hsucc⟩, fun hle => ?_⟩
    unfold drain at hsucc
    omega

private theorem attempt_succ (s : σ) (n : Nat) : k.attempt s (n + 1) = k.attempt (drain k.fithaw s).2 n := by
  induction n with
  | zero => rfl
  | succ n ih =>
    show drain k.fithaw (k.attempt s (n + 1)).2 = drain k.fithaw (k.attempt (drain k.fithaw s).2 n).2
    rw [ih]

/-- Without foreign errors all attempts up to some one are capped, and that one is complete. -/
theorem attempt_completes (hf : ∀ s err, (k.fithaw s).1 = .error err → ¬ err.Foreign) (s : σ)
    (hk : k.freezable = true ∨ k.depth s = 0) :
    ∃ n, (k.attempt s n).1.incomplete = none ∧ ∀ m < n, (k.attempt s m).1.incomplete = some .capped := by
  induction hd : k.depth s using Nat.strongRecOn generalizing s with
  | ind depth ih =>
    subst hd
    have hquiet : ∀ err, (drain k.fithaw s).1.firstError = some err → ¬ err.Foreign := by
      intro err herr
      obtain ⟨s', hs'⟩ := k.drainLoop_firstError herr
      exact hf s' err hs'
    obtain ⟨hbelow, habove⟩ := k.drain_depth hk hquiet
    by_cases hlt : k.depth s < maxThawIterations
    · exact ⟨0, (hbelow hlt).1, fun m hm => absurd hm (Nat.not_lt_zero m)⟩
    · obtain ⟨hcap, -, hd⟩ := habove (Nat.le_of_not_lt hlt)
      have hpos : 0 < maxThawIterations := by decide
      have hfreezable : k.freezable = true := hk.resolve_right (by omega)
      obtain ⟨n, hn, hm⟩ := ih _ (by omega) (drain k.fithaw s).2 (.inl hfreezable) rfl
      refine ⟨n + 1, by rw [attempt_succ]; exact hn, fun m hlt => ?_⟩
      cases m with
      | zero => exact hcap
      | succ m =>
        rw [attempt_succ]
        exact hm m (by omega)

end Superblock

/-- A drain calls `FITHAW` at most 1024 times; it is complete only at depth zero, or on a filesystem that cannot freeze,
and never with an error that is not the ioctl's own; without a foreign error it is complete, with one success for every
level, exactly below 1024 levels, and else takes off 1024 of them and is incomplete, so that one of the next attempts is
complete. -/
theorem drain_nested_freezes {σ : Type} (k : Superblock σ) (s : σ) :
    ((drain k.counting (s, 0)).1 = (drain k.fithaw s).1 ∧ (drain k.counting (s, 0)).2.2 ≤ maxThawIterations) ∧
    ((drain k.fithaw s).1.incomplete = none → k.freezable = false ∨ k.depth (drain k.fithaw s).2 = 0) ∧
    (∀ err, (drain k.fithaw s).1.firstError = some err → err.isIoctlAnswer = false →
      (drain k.fithaw s).1.incomplete ≠ none) ∧
    (k.freezable = true ∨ k.depth s = 0 →
      (∀ err, (drain k.fithaw s).1.firstError = some err → ¬ err.Foreign) →
      ((drain k.fithaw s).1.incomplete = none ∧ (drain k.fithaw s).1.successes = k.depth s ↔
        k.depth s < maxThawIterations) ∧
      (maxThawIterations ≤ k.depth s → (drain k.fithaw s).1.incomplete = some .capped ∧
        (drain k.fithaw s).1.successes = maxThawIterations ∧
        k.depth (drain k.fithaw s).2 + maxThawIterations = k.depth s)) ∧
    (k.freezable = true ∨ k.depth s = 0 → (∀ s err, (k.fithaw s).1 = .error err → ¬ err.Foreign) →
      ∃ n, (k.attempt s n).1.incomplete = none ∧ ∀ m < n, (k.attempt s m).1.incomplete = some .capped) := by
  have hcount := k.drainLoop_counting maxThawIterations 0 s 0
  refine ⟨⟨congrArg Prod.fst hcount.1, by simpa [drain] using hcount.2⟩, fun h => ?_, fun err herr hioctl h => ?_,
    fun hk hf => ?_, fun hk hf => k.attempt_completes hf s hk⟩
  · rcases k.drainLoop_depth maxThawIterations 0 s with ⟨hcap, -⟩ | ⟨err, hcap, herr, -, -, -, hans⟩
    · rw [drain, Drained.incomplete_of_capped hcap] at h
      cases h
    · exact hans.of_endsDrain ((Drained.incomplete_eq_none_iff hcap herr).1 h)
  · rcases k.drainLoop_depth maxThawIterations 0 s with ⟨hcap, -⟩ | ⟨err', hcap, herr', -⟩
    · rw [drain, Drained.incomplete_of_capped hcap] at h
      cases h
    · have hends := (Drained.incomplete_eq_none_iff hcap herr).1 h
      rw [KernelError.isIoctlAnswer_of_endsDrain hends] at hioctl
      cases hioctl
  · obtain ⟨hbelow, habove⟩ := k.drain_depth hk hf
    refine ⟨⟨fun h => ?_, hbelow⟩, habove⟩
    obtain ⟨hnone, -⟩ := h
    by_contra hlt
    rw [(habove (Nat.le_of_not_lt hlt)).1] at hnone
    cases hnone

/-- A superblock with nothing but its freeze depth. -/
def Superblock.plain : Superblock Nat where
  fithaw
    | 0 => (.error (.errno .EINVAL), 0)
    | depth + 1 => (.ok (), depth)
  depth := id
  freezable := true
  answers
    | 0 => .notFrozen
    | depth + 1 => .thaws depth

/-- Three levels are drained at once, 1500 in two attempts at least. -/
theorem drain_nested_freezes_of_plain :
    ((drain Superblock.plain.fithaw 3).1.incomplete = none ∧ (drain Superblock.plain.fithaw 3).1.successes = 3) ∧
      (drain Superblock.plain.fithaw 1500).1.incomplete = some .capped ∧
      ∃ n, (Superblock.plain.attempt 1500 n).1.incomplete = none := by
  have hquiet : ∀ s err, (Superblock.plain.fithaw s).1 = .error err → ¬ err.Foreign := by
    intro s err h
    cases s with
    | zero =>
      obtain rfl := Except.error.inj h
      simp [KernelError.Foreign]
    | succ s => cases h
  have hdrain : ∀ s err, (drain Superblock.plain.fithaw s).1.firstError = some err → ¬ err.Foreign := by
    intro s err h
    obtain ⟨s', hs'⟩ := Superblock.plain.drainLoop_firstError h
    exact hquiet s' err hs'
  have hlow := (drain_nested_freezes Superblock.plain 3).2.2.2.1 (.inl rfl) (hdrain 3)
  have hhigh := (drain_nested_freezes Superblock.plain 1500).2.2.2
  obtain ⟨n, hn, -⟩ := hhigh.2 (.inl rfl) hquiet
  exact ⟨hlow.1.2 (by decide), ((hhigh.1 (.inl rfl) (hdrain 1500)).2 (by decide)).1, n, hn⟩

end Qeminga
