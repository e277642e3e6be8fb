import Qeminga.Privileges

/-!
# The privilege drop

What `drop_privileges_to` leaves of the credentials of a root process.  Each call needs what the ones before it have kept:
the groups and the uid are changed while the effective set is still there, the permitted set survives the change of the
uid, the bounding set is trimmed while `CAP_SETPCAP` is raised, and the effective set is lowered before the permitted one.
A service account with the uid 0 does not leave root, so that the effective set is not cleared and the first `capset` is
refused.
-/

namespace Qeminga

namespace Caps

open Fallible

/-- The process is root and may change its ids, and everything that the drop keeps or needs is permitted. -/
structure StartsAsRoot (c : Creds) (authority : Authority) : Prop where
  euid : c.euid = 0
  setgid : .setgid ∈ c.effective
  setuid : .setuid ∈ c.effective
  permitted : insert .setpcap (finalCapabilitySet authority) ⊆ c.permitted

/-- The credentials of the service account, with the capabilities that `authority` keeps. -/
structure Dropped (c : Creds) (account : Account) (authority : Authority) (bounding : Finset Capability) : Prop where
  uids : c.ruid = account.uid ∧ c.euid = account.uid ∧ c.suid = account.uid
  gids : c.rgid = account.gid ∧ c.egid = account.gid ∧ c.sgid = account.gid
  groups : c.groups = [account.gid]
  effective : c.effective = finalCapabilitySet authority
  permitted : c.permitted = finalCapabilitySet authority
  bounding : c.bounding = bounding ∩ finalCapabilitySet authority
  inheritable : c.inheritable = ∅
  ambient : c.ambient = ∅
  keepCaps : c.keepCaps = false
  noNewPrivs : c.noNewPrivs = true

variable {fault : Nat → Option String} {name : String} {account : Account} {authority : Authority} {c c' c₀ : Creds}
  {call : CapCall}

/-! ### What holds of every run -/

/-- Calls only take capabilities away. -/
theorem call_shrinks (h : c.call call = some c') : c'.permitted ⊆ c.permitted ∧ c'.bounding ⊆ c.bounding := by
  cases call with
  | setKeepcaps keep =>
    obtain rfl := Option.some.inj h
    exact ⟨Finset.Subset.refl _, Finset.Subset.refl _⟩
  | setgroups gid =>
    simp only [Creds.call] at h
    split at h <;> cases h
    exact ⟨Finset.Subset.refl _, Finset.Subset.refl _⟩
  | setresgid gid =>
    simp only [Creds.call] at h
    split at h <;> cases h
    exact ⟨Finset.Subset.refl _, Finset.Subset.refl _⟩
  | setresuid uid =>
    simp only [Creds.call] at h
    split at h <;> cases h
    refine ⟨?_, Finset.Subset.refl _⟩
    show c.permittedAs uid ⊆ c.permitted
    unfold Creds.permittedAs
    split
    · exact Finset.empty_subset _
    · exact Finset.Subset.refl _
  | setPermitted caps =>
    simp only [Creds.call] at h
    split at h <;> cases h
    next hc => exact ⟨hc.1, Finset.Subset.refl _⟩
  | setEffective caps =>
    simp only [Creds.call] at h
    split at h <;> cases h
    exact ⟨Finset.Subset.refl _, Finset.Subset.refl _⟩
  | dropBounding cap =>
    simp only [Creds.call] at h
    split at h <;> cases h
    exact ⟨Finset.Subset.refl _, Finset.erase_subset _ _⟩
  | _ =>
    obtain rfl := Option.some.inj h
    exact ⟨Finset.Subset.refl _, Finset.Subset.refl _⟩

/-- The credentials are within those that the process began with. -/
def Within (c₀ c : Creds) : Prop := c.permitted ⊆ c₀.permitted ∧ c.bounding ⊆ c₀.bounding

/-- Every call so far was done. -/
structure Going (c₀ : Creds) (p : Proc) : Prop where
  done : ∀ e ∈ p.trace, e.result = .done
  within : ∀ e ∈ p.trace, Within c₀ e.creds
  creds : Within c₀ p.creds

/-- The last call was not done, and all before it were. -/
structure Stopped (c₀ : Creds) (p : Proc) : Prop where
  last : ∃ e, p.trace.head? = some e ∧ e.result ≠ .done
  done : ∀ e ∈ p.trace.tail, e.result = .done
  within : ∀ e ∈ p.trace, Within c₀ e.creds

private theorem Going.stop {p : Proc} {e : CapEntry} (h : Going c₀ p) (he : e.result ≠ .done) (hc : e.creds = p.creds) :
    Stopped c₀ { p with trace := e :: p.trace } := by
  refine ⟨⟨e, rfl, he⟩, h.done, fun x hx => ?_⟩
  rcases List.mem_cons.1 hx with rfl | hx
  · rw [hc]
    exact h.creds
  · exact h.within x hx

theorem step_going : Triple (Going c₀) (step fault name call) (fun _ => Going c₀) (Stopped c₀) := by
  intro p hp
  cases hf : fault p.trace.length with
  | some reason =>
    have hrun : (step fault name call).run p =
        (.error ⟨name, some reason⟩, { p with trace := ⟨call, .failed, p.creds⟩ :: p.trace }) := by
      simp [step, ExceptT.run, hf]
    exact ends_error hrun (hp.stop (by rintro ⟨⟩) rfl)
  | none =>
    cases hcall : p.creds.call call with
    | none =>
      have hrun : (step fault name call).run p =
          (.error ⟨name, none⟩, { p with trace := ⟨call, .refused, p.creds⟩ :: p.trace }) := by
        simp [step, ExceptT.run, hf, hcall]
      exact ends_error hrun (hp.stop (by rintro ⟨⟩) rfl)
    | some creds =>
      have hrun : (step fault name call).run p = (.ok (), ⟨creds, ⟨call, .done, creds⟩ :: p.trace⟩) := by
        simp [step, ExceptT.run, hf, hcall]
      obtain ⟨hperm, hbound⟩ := call_shrinks hcall
      have hwithin : Within c₀ creds := ⟨hperm.trans hp.creds.1, hbound.trans hp.creds.2⟩
      refine ends_ok hrun ⟨fun x hx => ?_, fun x hx => ?_, hwithin⟩
      · rcases List.mem_cons.1 hx with rfl | hx
        · rfl
        · exact hp.done x hx
      · rcases List.mem_cons.1 hx with rfl | hx
        · exact hwithin
        · exact hp.within x hx

theorem readBounding_going : Triple (Going c₀) (readBounding fault) (fun _ => Going c₀) (Stopped c₀) :=
  step_going.bind fun _ => .bind (.get (Q := fun _ => Going c₀) fun _ h => h) fun _ => .pure fun _ h => h

theorem dropPrivilegesTo_going (fault : Nat → Option String) (account : Account) (authority : Authority) :
    Triple (Going c₀) (dropPrivilegesTo fault account authority) (fun _ => Going c₀) (Stopped c₀) :=
  step_going.bind fun _ => step_going.bind fun _ => step_going.bind fun _ => step_going.bind fun _ =>
    step_going.bind fun _ => step_going.bind fun _ => readBounding_going.bind fun _ =>
      (Triple.forM (I := fun _ => Going c₀) (fun _ _ => step_going) _).bind fun _ =>
        step_going.bind fun _ => step_going.bind fun _ => step_going.bind fun _ => step_going.bind fun _ =>
          step_going.bind fun _ => step_going

/-! ### The run of a root process -/

/-- The process has the credentials `c`, and the kernel has refused it nothing. -/
structure At (c : Creds) (p : Proc) : Prop where
  creds : p.creds = c
  permitted : ∀ e ∈ p.trace, e.result ≠ .refused

/-- A call failed, for another reason than that it was refused. -/
def Faulted (fault : Nat → Option String) (p : Proc) : Prop :=
  (∀ e ∈ p.trace, e.result ≠ .refused) ∧ ∃ n, (fault n).isSome = true

theorem step_at (h : c.call call = some c') : Triple (At c) (step fault name call) (fun _ => At c') (Faulted fault) := by
  rintro p ⟨rfl, hp⟩
  have hcons : ∀ {e : CapEntry}, e.result ≠ .refused → ∀ x ∈ e :: p.trace, x.result ≠ .refused := by
    intro e he x hx
    rcases List.mem_cons.1 hx with rfl | hx
    · exact he
    · exact hp x hx
  cases hf : fault p.trace.length with
  | some reason =>
    have hrun : (step fault name call).run p =
        (.error ⟨name, some reason⟩, { p with trace := ⟨call, .failed, p.creds⟩ :: p.trace }) := by
      simp [step, ExceptT.run, hf]
    exact ends_error hrun ⟨hcons (by rintro ⟨⟩), _, by rw [hf]; rfl⟩
  | none =>
    have hrun : (step fault name call).run p = (.ok (), ⟨c', ⟨call, .done, c'⟩ :: p.trace⟩) := by
      simp [step, ExceptT.run, hf, h]
    exact ends_ok hrun ⟨rfl, hcons (by rintro ⟨⟩)⟩

theorem readBounding_at :
    Triple (At c) (readBounding fault) (fun bounding p => At c p ∧ bounding = c.bounding) (Faulted fault) := by
  have hcall : c.call .bounding = some c := rfl
  refine (step_at hcall).bind fun _ => .bind (.get (Q := fun s p => At c p ∧ s = p) fun _ h => ⟨h, rfl⟩) fun s => ?_
  refine .pure fun p hp => ?_
  obtain ⟨hat, rfl⟩ := hp
  exact ⟨hat, by rw [hat.creds]⟩

theorem mem_all (cap : Capability) : cap ∈ Capability.all := by
  cases cap <;> decide

theorem mem_toDrop {bounding finals : Finset Capability} {cap : Capability} :
    cap ∈ toDrop bounding finals ↔ cap ∈ bounding ∧ cap ∉ finals := by
  simp [toDrop, mem_all]

theorem toDrop_nodup (bounding finals : Finset Capability) : (toDrop bounding finals).Nodup :=
  List.Nodup.filter _ (by decide)

/-- The trimming of the bounding set: of the capabilities that do not stay, those in `rest` are yet to be dropped. -/
private def Trims (c : Creds) (finals : Finset Capability) (rest : List Capability) (p : Proc) : Prop :=
  ∃ bounding, At { c with bounding := bounding } p ∧ rest.Nodup ∧ (∀ cap ∈ rest, cap ∉ finals) ∧
    ∀ cap, cap ∈ bounding ↔ cap ∈ c.bounding ∧ (cap ∈ finals ∨ cap ∈ rest)

theorem trims_at (finals : Finset Capability) (h : .setpcap ∈ c.effective) :
    Triple (At c) ((toDrop c.bounding finals).forM fun cap => step fault "bounding set drop" (.dropBounding cap))
      (fun _ => At { c with bounding := c.bounding ∩ finals }) (Faulted fault) := by
  have hstep : ∀ cap rest, Triple (Trims c finals (cap :: rest)) (step fault "bounding set drop" (.dropBounding cap))
      (fun _ => Trims c finals rest) (Faulted fault) := by
    rintro cap rest p ⟨bounding, hat, hnodup, hstay, hmem⟩
    have hcall : { c with bounding := bounding }.call (.dropBounding cap) =
        some { c with bounding := bounding.erase cap } := if_pos h
    obtain ⟨hcap, hnodup⟩ := List.nodup_cons.1 hnodup
    refine (step_at hcall).consequence (fun _ hs => hs) (fun _ q hq => ?_) p hat
    refine ⟨bounding.erase cap, hq, hnodup, fun x hx => hstay x (List.mem_cons_of_mem _ hx), fun x => ?_⟩
    rw [Finset.mem_erase, hmem, List.mem_cons]
    constructor
    · rintro ⟨hne, hx, hfinal | rfl | hrest⟩
      · exact ⟨hx, .inl hfinal⟩
      · exact absurd rfl hne
      · exact ⟨hx, .inr hrest⟩
    · rintro ⟨hx, hfinal | hrest⟩
      · refine ⟨?_, hx, .inl hfinal⟩
        rintro rfl
        exact hstay x List.mem_cons_self hfinal
      · refine ⟨?_, hx, .inr (.inr hrest)⟩
        rintro rfl
        exact hcap hrest
  refine (Triple.forM hstep _).consequence (fun p hp => ?_) (fun _ p hp => ?_)
  · refine ⟨c.bounding, hp, toDrop_nodup _ _, fun cap hcap => (mem_toDrop.1 hcap).2, fun cap => ?_⟩
    rw [mem_toDrop]
    tauto
  · obtain ⟨bounding, hat, -, -, hmem⟩ := hp
    obtain rfl : bounding = c.bounding ∩ finals := by
      ext cap
      simp [hmem]
    exact hat

private theorem call_setPermitted {caps : Finset Capability} (h : caps ⊆ c.permitted) (he : c.effective ⊆ caps) :
    c.call (.setPermitted caps) =
      some { c with permitted := caps, ambient := c.ambient ∩ (caps ∩ c.inheritable), effective_subset := he } :=
  dif_pos ⟨h, he⟩

private theorem call_setEffective {caps : Finset Capability} (h : caps ⊆ c.permitted) :
    c.call (.setEffective caps) =
      some { c with effective := caps, ambient := c.ambient ∩ (c.permitted ∩ c.inheritable), effective_subset := h } :=
  dif_pos h

/-- What the change of the ids leaves: the account's ids, an empty effective set, and the rest as it was. -/
private structure Became (c c' : Creds) (account : Account) : Prop where
  uids : c'.ruid = account.uid ∧ c'.euid = account.uid ∧ c'.suid = account.uid
  gids : c'.rgid = account.gid ∧ c'.egid = account.gid ∧ c'.sgid = account.gid
  groups : c'.groups = [account.gid]
  effective : c'.effective = ∅
  permitted : c'.permitted = c.permitted
  bounding : c'.bounding = c.bounding

/-- The credentials when `setresuid` is called. -/
private def beforeUid (c : Creds) (account : Account) : Creds :=
  { c with keepCaps := true, groups := [account.gid], rgid := account.gid, egid := account.gid, sgid := account.gid }

private theorem changeUid_became (heuid : c.euid = 0) (huid : account.uid ≠ 0) :
    Became c ((beforeUid c account).changeUid account.uid) account where
  uids := ⟨rfl, rfl, rfl⟩
  gids := ⟨rfl, rfl, rfl⟩
  groups := rfl
  effective := by simp [Creds.changeUid, Creds.effectiveAs, beforeUid, heuid, huid]
  permitted := by simp [Creds.changeUid, Creds.permittedAs, beforeUid]
  bounding := rfl

/-- The four calls that change the ids, and then `k`. -/
private theorem becomes_at {k : CapM Unit} {Q : Unit → Proc → Prop} {E : Proc → Prop} (hsetgid : .setgid ∈ c.effective)
    (hsetuid : .setuid ∈ c.effective) (he : ∀ p, Faulted fault p → E p)
    (hk : Triple (At ((beforeUid c account).changeUid account.uid)) k Q E) :
    Triple (At c) (do
      step fault "PR_SET_KEEPCAPS" (.setKeepcaps true)
      step fault "setgroups" (.setgroups account.gid)
      step fault "setresgid" (.setresgid account.gid)
      step fault "setresuid" (.setresuid account.uid)
      k) Q E := by
  have hkeep : c.call (.setKeepcaps true) = some { c with keepCaps := true } := rfl
  have hgroups : { c with keepCaps := true }.call (.setgroups account.gid) =
      some { c with keepCaps := true, groups := [account.gid] } := if_pos hsetgid
  have hgid : { c with keepCaps := true, groups := [account.gid] }.call (.setresgid account.gid) =
      some (beforeUid c account) := if_pos (.inl hsetgid)
  have huid : (beforeUid c account).call (.setresuid account.uid) =
      some ((beforeUid c account).changeUid account.uid) := if_pos (.inl hsetuid)
  exact ((step_at hkeep).weaken_error he).bind fun _ => ((step_at hgroups).weaken_error he).bind fun _ =>
    ((step_at hgid).weaken_error he).bind fun _ => ((step_at huid).weaken_error he).bind fun _ => hk

/-- The credentials when all but `finals` has gone. -/
private def lowered (c : Creds) (finals : Finset Capability) : Creds :=
  { c with
    effective := finals
    permitted := finals
    inheritable := ∅
    ambient := ∅
    keepCaps := false
    noNewPrivs := true
    effective_subset := Finset.Subset.refl _ }

/-- The calls after the trimming.  The effective set goes first: the permitted set must cover it. -/
private theorem lowers_at {finals : Finset Capability} (h : finals ⊆ c.permitted) :
    Triple (At c) (do
      step fault "set effective" (.setEffective finals)
      step fault "set permitted" (.setPermitted finals)
      step fault "clear inheritable" .clearInheritable
      step fault "clear ambient" .clearAmbient
      step fault "PR_SET_KEEPCAPS" (.setKeepcaps false)
      step fault "PR_SET_NO_NEW_PRIVS" .setNoNewPrivs)
      (fun _ => At (lowered c finals)) (Faulted fault) := by
  let d : Creds :=
    { c with effective := finals, ambient := c.ambient ∩ (c.permitted ∩ c.inheritable), effective_subset := h }
  have heffective : c.call (.setEffective finals) = some d := call_setEffective h
  have hpermitted := call_setPermitted (c := d) h (Finset.Subset.refl _)
  have hclear : ∀ d : Creds, d.call .clearInheritable = some { d with inheritable := ∅, ambient := ∅ } := fun _ => rfl
  have hambient : ∀ d : Creds, d.call .clearAmbient = some { d with ambient := ∅ } := fun _ => rfl
  have hkeep : ∀ d : Creds, d.call (.setKeepcaps false) = some { d with keepCaps := false } := fun _ => rfl
  have hnnp : ∀ d : Creds, d.call .setNoNewPrivs = some { d with noNewPrivs := true } := fun _ => rfl
  exact (step_at heffective).bind fun _ => (step_at hpermitted).bind fun _ =>
    (step_at (hclear _)).bind fun _ => (step_at (hambient _)).bind fun _ => (step_at (hkeep _)).bind fun _ =>
    step_at (hnnp _)

/-- From a root process to the service account, unless a call fails for another reason. -/
theorem dropPrivilegesTo_at (fault : Nat → Option String) (h : StartsAsRoot c authority) (huid : account.uid ≠ 0) :
    Triple (At c) (dropPrivilegesTo fault account authority)
      (fun _ p => Dropped p.creds account authority c.bounding ∧ ∀ e ∈ p.trace, e.result ≠ .refused) (Faulted fault) := by
  refine becomes_at h.setgid h.setuid (fun _ hp => hp) ?_
  have hb := changeUid_became h.euid huid
  generalize (beforeUid c account).changeUid account.uid = d at hb ⊢
  have hfinals : finalCapabilitySet authority ⊆ insert .setpcap (finalCapabilitySet authority) := Finset.subset_insert _ _
  generalize hf : finalCapabilitySet authority = finals at hfinals ⊢
  -- `CAP_SETPCAP` and the finals are raised, first in the permitted set, which still covers the effective one.
  have hraise : insert .setpcap finals ⊆ d.permitted := by
    rw [hb.permitted, ← hf]
    exact h.permitted
  have hcleared : d.effective ⊆ insert .setpcap finals := by
    rw [hb.effective]
    exact Finset.empty_subset _
  refine (step_at (call_setPermitted hraise hcleared)).bind fun _ => ?_
  refine (step_at (call_setEffective (Finset.Subset.refl _))).bind fun _ => ?_
  -- The bounding set is trimmed while `CAP_SETPCAP` is effective.
  refine readBounding_at.bind fun bounding p hp => ?_
  obtain ⟨hat, rfl⟩ := hp
  refine ((trims_at finals (Finset.mem_insert_self _ _)).bind fun _ => ?_) p hat
  refine (lowers_at hfinals).consequence (fun _ hq => hq) fun _ q hq => ⟨?_, hq.permitted⟩
  rw [hq.creds]
  exact {
    uids := hb.uids
    gids := hb.gids
    groups := hb.groups
    effective := hf.symm
    permitted := hf.symm
    bounding := by
      show d.bounding ∩ finals = _
      rw [hf, hb.bounding]
    inheritable := rfl
    ambient := rfl
    keepCaps := rfl
    noNewPrivs := rfl }

/-! ### An account that is root -/

/-- The last call was refused, and it was `call`. -/
def RefusedAt (call : CapCall) (p : Proc) : Prop := ∃ e, p.trace.head? = some e ∧ e.call = call ∧ e.result = .refused

theorem step_refused (h : c.call call = none) :
    Triple (At c) (step fault name call) (fun _ _ => False) (fun p => Faulted fault p ∨ RefusedAt call p) := by
  rintro p ⟨rfl, hp⟩
  cases hf : fault p.trace.length with
  | some reason =>
    have hrun : (step fault name call).run p =
        (.error ⟨name, some reason⟩, { p with trace := ⟨call, .failed, p.creds⟩ :: p.trace }) := by
      simp [step, ExceptT.run, hf]
    refine ends_error hrun (.inl ⟨fun x hx => ?_, _, by rw [hf]; rfl⟩)
    rcases List.mem_cons.1 hx with rfl | hx
    · rintro ⟨⟩
    · exact hp x hx
  | none =>
    have hrun : (step fault name call).run p =
        (.error ⟨name, none⟩, { p with trace := ⟨call, .refused, p.creds⟩ :: p.trace }) := by
      simp [step, ExceptT.run, hf, h]
    exact ends_error hrun (.inr ⟨_, rfl, rfl, rfl⟩)

theorem setgid_notMem (authority : Authority) : .setgid ∉ insert .setpcap (finalCapabilitySet authority) := by
  cases authority with
  | mk reboot => cases reboot <;> decide

/-- The effective set of root is not cleared, and the first `capset` does not cover it. -/
theorem dropPrivilegesTo_root (fault : Nat → Option String) (h : StartsAsRoot c authority) (huid : account.uid = 0) :
    Triple (At c) (dropPrivilegesTo fault account authority) (fun _ _ => False)
      (fun p => Faulted fault p ∨ RefusedAt (.setPermitted (insert .setpcap (finalCapabilitySet authority))) p) := by
  refine becomes_at h.setgid h.setuid (fun _ hp => .inl hp) ?_
  have heffective : ((beforeUid c account).changeUid account.uid).effective = c.effective := by
    simp [Creds.changeUid, Creds.effectiveAs, Creds.leavesRoot, beforeUid, h.euid, huid]
  have hrefused : ((beforeUid c account).changeUid account.uid).call
      (.setPermitted (insert .setpcap (finalCapabilitySet authority))) = none := by
    refine dif_neg fun hc => setgid_notMem authority (hc.2 ?_)
    rw [heffective]
    exact h.setgid
  exact (step_refused hrefused).bind fun _ _ hp => hp.elim
/-! ### The drop as a whole -/

private theorem not_faulted {p : Proc} (h : ∀ n, fault n = none) : ¬ Faulted fault p := by
  rintro ⟨-, n, hn⟩
  rw [h n] at hn
  exact Bool.false_ne_true hn

private theorem going_start (c : Creds) : Going c ⟨c, []⟩ :=
  ⟨fun _ he => absurd he List.not_mem_nil, fun _ he => absurd he List.not_mem_nil,
    Finset.Subset.refl _, Finset.Subset.refl _⟩

private theorem at_start (c : Creds) : At c ⟨c, []⟩ := ⟨rfl, fun _ he => absurd he List.not_mem_nil⟩

/-- A drop that begins with no call made. -/
def drop (fault : Nat → Option String) (account : Account) (authority : Authority) (c : Creds) :
    Except PrivilegeError Unit × Proc :=
  (dropPrivilegesTo fault account authority).run ⟨c, []⟩

/-- A root process becomes an account that is not root, and keeps the final set only; every call it makes is permitted.
An account that is root is refused the first `capset`.  A failure ends the drop, and the capabilities never grow. -/
theorem privilege_drop (fault : Nat → Option String) (account : Account) (authority : Authority) (c : Creds) :
    (StartsAsRoot c authority → account.uid ≠ 0 →
      (∀ e ∈ (drop fault account authority c).2.trace, e.result ≠ .refused) ∧
      ((∀ n, fault n = none) → (drop fault account authority c).1 = .ok () ∧
        Dropped (drop fault account authority c).2.creds account authority c.bounding)) ∧
    (StartsAsRoot c authority → account.uid = 0 → (∀ n, fault n = none) →
      (∃ e, (drop fault account authority c).1 = .error e) ∧
        RefusedAt (.setPermitted (insert .setpcap (finalCapabilitySet authority))) (drop fault account authority c).2) ∧
    ((drop fault account authority c).1 = .ok () ↔ ∀ e ∈ (drop fault account authority c).2.trace, e.result = .done) ∧
    (∀ e ∈ (drop fault account authority c).2.trace.tail, e.result = .done) ∧
    ∀ e ∈ (drop fault account authority c).2.trace, e.creds.permitted ⊆ c.permitted ∧
      e.creds.effective ⊆ c.permitted ∧ e.creds.bounding ⊆ c.bounding := by
  obtain ⟨hok, herr⟩ := dropPrivilegesTo_going fault account authority _ (going_start c)
  have hwithin : ∀ {e : CapEntry}, Within c e.creds → e.creds.permitted ⊆ c.permitted ∧ e.creds.effective ⊆ c.permitted ∧
      e.creds.bounding ⊆ c.bounding := fun {e} he => ⟨he.1, e.creds.effective_subset.trans he.1, he.2⟩
  refine ⟨fun hroot huid => ?_, fun hroot huid hfault => ?_, ?_⟩
  · obtain ⟨hdropped, hfaulted⟩ := dropPrivilegesTo_at fault hroot huid _ (at_start c)
    unfold drop
    cases hrun : (dropPrivilegesTo fault account authority).run ⟨c, []⟩ with
    | mk r p =>
      cases r with
      | ok a => exact ⟨(hdropped a p hrun).2, fun _ => ⟨rfl, (hdropped a p hrun).1⟩⟩
      | error e => exact ⟨(hfaulted e p hrun).1, fun hfault => absurd (hfaulted e p hrun) (not_faulted hfault)⟩
  · obtain ⟨hnot, hrefused⟩ := dropPrivilegesTo_root fault hroot huid _ (at_start c)
    unfold drop
    cases hrun : (dropPrivilegesTo fault account authority).run ⟨c, []⟩ with
    | mk r p =>
      cases r with
      | ok a => exact (hnot a p hrun).elim
      | error e => exact ⟨⟨e, rfl⟩, (hrefused e p hrun).resolve_left (not_faulted hfault)⟩
  · unfold drop
    cases hrun : (dropPrivilegesTo fault account authority).run ⟨c, []⟩ with
    | mk r p =>
      cases r with
      | ok a =>
        have hgoing := hok a p hrun
        exact ⟨⟨fun _ => hgoing.done, fun _ => rfl⟩, fun e he => hgoing.done e (List.mem_of_mem_tail he),
          fun e he => hwithin (hgoing.within e he)⟩
      | error e =>
        have hstopped := herr e p hrun
        refine ⟨⟨by rintro ⟨⟩, fun hdone => ?_⟩, hstopped.done, fun e he => hwithin (hstopped.within e he)⟩
        obtain ⟨last, hlast, hne⟩ := hstopped.last
        exact absurd (hdone last (List.mem_of_mem_head? hlast)) hne

/-- Root as it starts the daemon, with every capability. -/
def rootCreds : Creds where
  ruid := 0
  euid := 0
  suid := 0
  rgid := 0
  egid := 0
  sgid := 0
  groups := [0]
  permitted := Capability.all.toFinset
  effective := Capability.all.toFinset
  inheritable := ∅
  ambient := ∅
  bounding := Capability.all.toFinset
  keepCaps := false
  noNewPrivs := false
  effective_subset := Finset.Subset.refl _

theorem startsAsRoot_rootCreds : StartsAsRoot rootCreds ⟨true⟩ where
  euid := rfl
  setgid := by decide
  setuid := by decide
  permitted := by decide

/-- Root that has given up its effective set. -/
def loweredRoot : Creds := { rootCreds with effective := ∅, effective_subset := Finset.empty_subset _ }

/-- The drop fails for an account that is root, and for a root process that may not change its groups. -/
theorem drop_refused :
    (rootCreds.euid = 0 ∧ insert .setpcap (finalCapabilitySet ⟨true⟩) ⊆ rootCreds.permitted ∧
      (drop (fun _ => none) ⟨0, 0⟩ ⟨true⟩ rootCreds).1 ≠ .ok ()) ∧
    (loweredRoot.euid = 0 ∧ insert .setpcap (finalCapabilitySet ⟨true⟩) ⊆ loweredRoot.permitted ∧
      (drop (fun _ => none) ⟨600, 600⟩ ⟨true⟩ loweredRoot).1 = .error ⟨"setgroups", none⟩) := by
  refine ⟨⟨rfl, startsAsRoot_rootCreds.permitted, fun hok => ?_⟩, rfl, startsAsRoot_rootCreds.permitted, rfl⟩
  have huid : (⟨0, 0⟩ : Account).uid = 0 := rfl
  obtain ⟨hnot, -⟩ := dropPrivilegesTo_root (fun _ => none) startsAsRoot_rootCreds huid _ (at_start rootCreds)
  exact hnot () _ (Prod.ext hok rfl)

/-- The service account of the daemon gets its ids and the three final capabilities. -/
theorem privilege_drop_service : (drop (fun _ => none) ⟨600, 600⟩ ⟨true⟩ rootCreds).1 = .ok () ∧
    Dropped (drop (fun _ => none) ⟨600, 600⟩ ⟨true⟩ rootCreds).2.creds ⟨600, 600⟩ ⟨true⟩ Capability.all.toFinset :=
  ((privilege_drop (fun _ => none) ⟨600, 600⟩ ⟨true⟩ rootCreds).1 startsAsRoot_rootCreds (by decide)).2 fun _ => rfl

end Caps

end Qeminga
