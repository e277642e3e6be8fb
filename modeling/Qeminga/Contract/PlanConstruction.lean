import Qeminga.Plan
import Mathlib.Data.List.Induction

/-!
# The construction of a plan

`FreezePlan::build` groups the eligible rows of a mount table by device, through a map from the device to the index of
its target.  `Grouping` is that loop with its map; it computes the targets of `FreezePlan.build`.  Each target has the
mount points of the eligible rows with its device, in the order of the table, and the targets come in the order of the
first such row.
-/

namespace Qeminga

/-- The eligible rows on the device `d`, in the order of the table. -/
def rowsOf (mounts : List MountEntry) (d : Dev) : List MountEntry := mounts.filter fun e => isEligible e && e.dev = d

/-- The position of the first eligible row on the device `d`. -/
def firstRow (mounts : List MountEntry) (d : Dev) : Nat := mounts.findIdx fun e => isEligible e && e.dev = d

/-- `seen` and `targets` of `FreezePlan::build`. -/
structure Grouping where
  seen : Dev → Option Nat
  targets : List Target

namespace Grouping

def empty : Grouping := ⟨fun _ => none, []⟩

/-- One round of the loop. -/
def visit (g : Grouping) (e : MountEntry) : Grouping :=
  if isEligible e then
    match g.seen e.dev with
    | some index =>
      { g with targets := g.targets.modify index fun t => { t with aliases := t.aliases ++ [e.mountPoint] } }
    | none =>
      ⟨Function.update g.seen e.dev (some g.targets.length), g.targets ++ [⟨e.mountPoint, [], e.dev, e.fsType, none⟩]⟩
  else g

end Grouping

namespace FreezePlan

variable {mounts : List MountEntry} {e : MountEntry} {d : Dev}

/-! ### The rows of a device -/

private theorem rowsOf_concat :
    rowsOf (mounts ++ [e]) d = rowsOf mounts d ++ if isEligible e = true ∧ e.dev = d then [e] else [] := by
  rw [rowsOf, List.filter_append, List.filter_singleton]
  congr 1
  by_cases he : isEligible e = true
  · by_cases hd : e.dev = d <;> simp [he, hd]
  · simp [he]

private theorem firstRow_lt (h : ∃ e ∈ mounts, isEligible e = true ∧ e.dev = d) : firstRow mounts d < mounts.length := by
  obtain ⟨e, he, helig, hd⟩ := h
  exact List.findIdx_lt_length_of_exists ⟨e, he, by simp [helig, hd]⟩

private theorem firstRow_concat (h : ∃ e ∈ mounts, isEligible e = true ∧ e.dev = d) :
    firstRow (mounts ++ [e]) d = firstRow mounts d := by
  have hlt := firstRow_lt h
  unfold firstRow at *
  rw [List.findIdx_append, if_pos hlt]

/-- The first row of a device that comes with the last row of the table. -/
private theorem firstRow_new (he : isEligible e = true) (h : ¬ ∃ e' ∈ mounts, isEligible e' = true ∧ e'.dev = e.dev) :
    firstRow (mounts ++ [e]) e.dev = mounts.length := by
  have hno : ∀ x ∈ mounts, (isEligible x && decide (x.dev = e.dev)) = false := by
    intro x hx
    rw [Bool.eq_false_iff]
    intro hp
    simp only [Bool.and_eq_true, decide_eq_true_eq] at hp
    exact h ⟨x, hx, hp⟩
  have hlen : (mounts.findIdx fun x => isEligible x && decide (x.dev = e.dev)) = mounts.length := by
    rw [List.findIdx_eq_length]
    simpa using hno
  unfold firstRow
  rw [List.findIdx_append, hlen, if_neg (Nat.lt_irrefl _)]
  simp [List.findIdx_cons, he]

/-! ### The groups -/

/-- The target stands for the eligible rows on its device. -/
structure Groups (mounts : List MountEntry) (t : Target) : Prop where
  paths : t.mountpoint :: t.aliases = (rowsOf mounts t.dev).map MountEntry.mountPoint
  fsType : (rowsOf mounts t.dev).head?.map MountEntry.fsType = some t.fsType
  requested : t.requested = none

/-- One more row leaves a group alone, or is one more alias of it. -/
private theorem Groups.concat {t : Target} (h : Groups mounts t) (hrow : ¬ (isEligible e = true ∧ e.dev = t.dev)) :
    Groups (mounts ++ [e]) t := by
  have hrows : rowsOf (mounts ++ [e]) t.dev = rowsOf mounts t.dev := by rw [rowsOf_concat, if_neg hrow, List.append_nil]
  exact ⟨hrows ▸ h.paths, hrows ▸ h.fsType, h.requested⟩

private theorem Groups.alias {t : Target} (h : Groups mounts t) (he : isEligible e = true) (hd : e.dev = t.dev) :
    Groups (mounts ++ [e]) { t with aliases := t.aliases ++ [e.mountPoint] } := by
  have hrows : rowsOf (mounts ++ [e]) t.dev = rowsOf mounts t.dev ++ [e] := by rw [rowsOf_concat, if_pos ⟨he, hd⟩]
  refine ⟨?_, ?_, h.requested⟩
  · show t.mountpoint :: (t.aliases ++ [e.mountPoint]) = (rowsOf (mounts ++ [e]) t.dev).map MountEntry.mountPoint
    rw [hrows, List.map_append, ← h.paths]
    rfl
  · show (rowsOf (mounts ++ [e]) t.dev).head?.map MountEntry.fsType = some t.fsType
    have hne : rowsOf mounts t.dev ≠ [] := fun hnil => by simpa [hnil] using h.paths
    rw [hrows, List.head?_append_of_ne_nil _ hne]
    exact h.fsType

private theorem groups_new (he : isEligible e = true) (h : ¬ ∃ e' ∈ mounts, isEligible e' = true ∧ e'.dev = e.dev) :
    Groups (mounts ++ [e]) ⟨e.mountPoint, [], e.dev, e.fsType, none⟩ := by
  have hnil : rowsOf mounts e.dev = [] := by
    rw [rowsOf, List.filter_eq_nil_iff]
    intro x hx hp
    simp only [Bool.and_eq_true, decide_eq_true_eq] at hp
    exact h ⟨x, hx, hp⟩
  have hrows : rowsOf (mounts ++ [e]) e.dev = [e] := by rw [rowsOf_concat, if_pos ⟨he, rfl⟩, hnil, List.nil_append]
  exact ⟨by simp [hrows], by simp [hrows], rfl⟩

theorem build_concat (mounts : List MountEntry) (e : MountEntry) :
    (build (mounts ++ [e])).targets = addEntry (build mounts).targets e := by
  simp [build]

private theorem any_dev_iff (mounts : List MountEntry) (d : Dev) :
    ((build mounts).targets.any fun t => t.dev = d) = true ↔ ∃ e ∈ mounts, isEligible e = true ∧ e.dev = d := by
  rw [← mem_build, targetDevs, List.mem_map, List.any_eq_true]
  simp only [decide_eq_true_eq]

/-- What the targets of a plan are, in the order of the table. -/
theorem build_groups (mounts : List MountEntry) :
    (∀ t ∈ (build mounts).targets, Groups mounts t) ∧
      (build mounts).targets.Pairwise fun t u => firstRow mounts t.dev < firstRow mounts u.dev := by
  induction mounts using List.reverseRecOn with
  | nil => exact ⟨by simp [build], by simp [build]⟩
  | append_singleton mounts e ih =>
    obtain ⟨hgroups, horder⟩ := ih
    have hfound : ∀ t ∈ (build mounts).targets, ∃ e ∈ mounts, isEligible e = true ∧ e.dev = t.dev := fun t ht =>
      (mem_build mounts t.dev).1 (List.mem_map_of_mem ht)
    -- the row does not change the order of the devices that were there
    have hsame : (build mounts).targets.Pairwise fun t u =>
        firstRow (mounts ++ [e]) t.dev < firstRow (mounts ++ [e]) u.dev := by
      refine horder.imp_of_mem fun {t u} ht hu h => ?_
      rw [firstRow_concat (hfound t ht), firstRow_concat (hfound u hu)]
      exact h
    rw [build_concat, addEntry]
    by_cases he : isEligible e = true
    · rw [if_pos he]
      by_cases hold : ∃ e' ∈ mounts, isEligible e' = true ∧ e'.dev = e.dev
      · rw [if_pos ((any_dev_iff mounts e.dev).2 hold)]
        refine ⟨fun t ht => ?_, ?_⟩
        · obtain ⟨t, hmem, rfl⟩ := List.mem_map.1 ht
          by_cases hd : t.dev = e.dev
          · rw [if_pos hd]
            exact (hgroups t hmem).alias he hd.symm
          · rw [if_neg hd]
            exact (hgroups t hmem).concat fun h => hd h.2.symm
        · rw [List.pairwise_map]
          refine hsame.imp fun {t u} h => ?_
          have hdev : ∀ t : Target, (if t.dev = e.dev then { t with aliases := t.aliases ++ [e.mountPoint] } else t).dev =
              t.dev := by
            intro t
            split <;> rfl
          rw [hdev, hdev]
          exact h
      · rw [if_neg (fun h => hold ((any_dev_iff mounts e.dev).1 h))]
        refine ⟨fun t ht => ?_, List.pairwise_append.2 ⟨hsame, by simp, fun t ht u hu => ?_⟩⟩
        · rcases List.mem_append.1 ht with ht | ht
          · refine (hgroups t ht).concat fun h => hold ?_
            rw [h.2]
            exact hfound t ht
          · obtain rfl := List.mem_singleton.1 ht
            exact groups_new he hold
        · obtain rfl := List.mem_singleton.1 hu
          rw [firstRow_new he hold, firstRow_concat (hfound t ht)]
          exact firstRow_lt (hfound t ht)
    · rw [if_neg he]
      exact ⟨fun t ht => (hgroups t ht).concat fun h => he h.1, hsame⟩

/-! ### The map from devices to targets -/

/-- The map leads from each device to the position of its target. -/
structure Indexes (g : Grouping) : Prop where
  found : ∀ d k, g.seen d = some k → (targetDevs g.targets)[k]? = some d
  missing : ∀ d, g.seen d = none → d ∉ targetDevs g.targets

/-- The target at the position of the device is the only one on it. -/
private theorem modify_eq_map {targets : List Target} {k : Nat} (f : Target → Target) (hnodup : (targetDevs targets).Nodup)
    (hk : (targetDevs targets)[k]? = some d) :
    targets.modify k f = targets.map fun t => if t.dev = d then f t else t := by
  apply List.ext_getElem?
  intro j
  rw [List.getElem?_modify, List.getElem?_map]
  cases hj : targets[j]? with
  | none => rfl
  | some t =>
    have hdev : (targetDevs targets)[j]? = some t.dev := by rw [targetDevs, List.getElem?_map, hj]; rfl
    by_cases hkj : k = j
    · subst hkj
      have hd : t.dev = d := Option.some.inj (hdev.symm.trans hk)
      simp [hd]
    · have hd : t.dev ≠ d := by
        rintro rfl
        have hlt : k < (targetDevs targets).length := (List.getElem?_eq_some_iff.1 hk).1
        exact hkj ((List.getElem?_inj hlt hnodup).1 (hk.trans hdev.symm))
      simp [hkj, hd]

private theorem Indexes.alias {g : Grouping} {k : Nat} (h : Indexes g) (hnodup : (targetDevs g.targets).Nodup)
    (hseen : g.seen e.dev = some k) :
    Indexes { g with targets := g.targets.modify k fun t => { t with aliases := t.aliases ++ [e.mountPoint] } } := by
  have hdevs : targetDevs (g.targets.modify k fun t => { t with aliases := t.aliases ++ [e.mountPoint] }) =
      targetDevs g.targets := by
    rw [modify_eq_map _ hnodup (h.found _ _ hseen), targetDevs, List.map_map]
    refine List.map_congr_left fun t _ => ?_
    simp only [Function.comp]
    split <;> rfl
  exact ⟨fun d k hk => hdevs ▸ h.found d k hk, fun d hd => hdevs ▸ h.missing d hd⟩

private theorem Indexes.add {g : Grouping} {t : Target} (h : Indexes g) :
    Indexes ⟨Function.update g.seen t.dev (some g.targets.length), g.targets ++ [t]⟩ := by
  have hdevs : targetDevs (g.targets ++ [t]) = targetDevs g.targets ++ [t.dev] := List.map_append
  refine ⟨fun d k hk => ?_, fun d hd => ?_⟩
  · simp only [hdevs] at hk ⊢
    by_cases hdt : d = t.dev
    · subst hdt
      rw [Function.update_self] at hk
      obtain rfl := Option.some.inj hk
      simp [targetDevs]
    · rw [Function.update_of_ne hdt] at hk
      have hold := h.found _ _ hk
      rw [List.getElem?_append_left (List.getElem?_eq_some_iff.1 hold).1]
      exact hold
  · simp only [hdevs] at hd ⊢
    have hdt : d ≠ t.dev := by
      rintro rfl
      simp at hd
    rw [Function.update_of_ne hdt] at hd
    rw [List.mem_append, List.mem_singleton]
    rintro (hmem | rfl)
    · exact h.missing _ hd hmem
    · exact hdt rfl

/-- One round of the loop is one row of `build`. -/
theorem Indexes.visit {g : Grouping} (h : Indexes g) (hnodup : (targetDevs g.targets).Nodup) (e : MountEntry) :
    (g.visit e).targets = addEntry g.targets e ∧ Indexes (g.visit e) := by
  unfold Grouping.visit addEntry
  by_cases he : isEligible e = true
  · rw [if_pos he, if_pos he]
    cases hseen : g.seen e.dev with
    | some k =>
      have hk := h.found _ _ hseen
      have hany : (g.targets.any fun t => t.dev = e.dev) = true := by
        obtain ⟨t, ht, hd⟩ := List.mem_map.1 (List.mem_of_getElem? hk)
        exact List.any_eq_true.2 ⟨t, ht, by simpa using hd⟩
      rw [if_pos hany]
      exact ⟨modify_eq_map _ hnodup hk, h.alias hnodup hseen⟩
    | none =>
      have hany : ¬ (g.targets.any fun t => t.dev = e.dev) = true := by
        rw [List.any_eq_true]
        rintro ⟨t, ht, hd⟩
        exact h.missing _ hseen (List.mem_map.2 ⟨t, ht, by simpa using hd⟩)
      rw [if_neg hany]
      exact ⟨rfl, h.add (t := ⟨e.mountPoint, [], e.dev, e.fsType, none⟩)⟩
  · rw [if_neg he, if_neg he]
    exact ⟨rfl, h⟩

/-- The loop with its map computes the targets of the plan. -/
theorem indexed_build (mounts : List MountEntry) :
    (mounts.foldl Grouping.visit .empty).targets = (build mounts).targets ∧
      Indexes (mounts.foldl Grouping.visit .empty) := by
  induction mounts using List.reverseRecOn with
  | nil => exact ⟨rfl, by simp [Grouping.empty], by simp [Grouping.empty, targetDevs]⟩
  | append_singleton mounts e ih =>
    obtain ⟨htargets, hindexes⟩ := ih
    rw [List.foldl_append, List.foldl_cons, List.foldl_nil, build_concat, ← htargets]
    exact hindexes.visit (htargets ▸ build_nodup mounts) e

/-- The targets depend on the eligible rows only. -/
theorem build_filter (mounts : List MountEntry) : (build (mounts.filter isEligible)).targets = (build mounts).targets := by
  unfold build
  simp only
  rw [List.foldl_filter]
  congr 1
  funext targets e
  by_cases he : isEligible e = true
  · rw [if_pos he]
  · rw [if_neg he, addEntry, if_neg he]

/-! ### The contract -/

/-- For every mount table: the loop with its index map builds the targets; their devices are pairwise distinct and are
those of the eligible rows; they come in the order of the first eligible row of each device; a target has the mount points
of the eligible rows with its device, in order and with multiplicity, and the type of the first; the freeze order is the
reverse of the thaw order; and two tables with the same eligible rows have the same targets. -/
theorem plan_construction (mounts : List MountEntry) :
    (mounts.foldl Grouping.visit .empty).targets = (build mounts).targets ∧
      ((build mounts).targets.map Target.dev).Nodup ∧
      (∀ d, d ∈ (build mounts).targets.map Target.dev ↔ ∃ e ∈ mounts, isEligible e = true ∧ e.dev = d) ∧
      ((build mounts).targets.Pairwise fun t u => firstRow mounts t.dev < firstRow mounts u.dev) ∧
      (∀ t ∈ (build mounts).targets,
        t.mountpoint :: t.aliases = (rowsOf mounts t.dev).map MountEntry.mountPoint ∧
          (rowsOf mounts t.dev).head?.map MountEntry.fsType = some t.fsType ∧ t.requested = none) ∧
      (build mounts).freezeOrder = (build mounts).thawOrder.reverse ∧
      ∀ mounts', mounts'.filter isEligible = mounts.filter isEligible → (build mounts').targets = (build mounts).targets := by
  obtain ⟨hgroups, horder⟩ := build_groups mounts
  refine ⟨(indexed_build mounts).1, build_nodup mounts, mem_build mounts, horder, fun t ht => ?_, rfl, fun mounts' h => ?_⟩
  · exact ⟨(hgroups t ht).paths, (hgroups t ht).fsType, (hgroups t ht).requested⟩
  · rw [← build_filter mounts', h, build_filter]

end FreezePlan

end Qeminga
