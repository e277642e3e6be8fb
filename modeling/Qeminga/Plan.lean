import Qeminga.Kernel

/-!
# The freeze plan

`freeze_plan.rs`: which superblocks a freeze or a discovery drain operates on, and the resolution of requested
mount points.  The hash maps of the source are association lists here; nothing depends on their order.  The main
facts: the targets of a plan are on pairwise distinct devices (`FreezePlan.build_nodup`) and these are the devices
of the eligible rows (`FreezePlan.mem_build`).
-/

namespace Qeminga

/-- The fields of a `mountinfo` row that the plan reads. -/
structure MountEntry where
  mountId : Nat
  parentId : Nat
  major : Nat
  minor : Nat
  mountPoint : Path
  fsType : String
  source : String
  deriving DecidableEq, Repr

def MountEntry.dev (e : MountEntry) : Dev := (e.major, e.minor)

def freezableFsTypes : List String := ["ext4", "xfs"]

def isEligible (e : MountEntry) : Bool :=
  freezableFsTypes.contains e.fsType && "/dev/".toList.isPrefixOf e.source.toList

structure Target where
  mountpoint : Path
  aliases : List Path
  dev : Dev
  fsType : String
  requested : Option Path
  deriving DecidableEq, Repr

structure MountRow where
  id : Nat
  parent : Nat
  mountPoint : Path
  dev : Dev
  deriving DecidableEq, Repr

structure FreezePlan where
  targets : List Target
  mounts : List MountRow
  deriving DecidableEq, Repr

/-! ### Resolving a pathname -/

/-- The byte `/`. -/
def slash : UInt8 := 47

structure MountTree where
  children : Nat × Path → List MountRow
  root : Option MountRow
  rows : Nat

/-- A self-parented row is not indexed as its own child. -/
def MountTree.index (mounts : List MountRow) : MountTree where
  children := fun key => mounts.filter fun row => row.parent ≠ row.id && (row.parent, row.mountPoint) = key
  root := mounts.find? fun row =>
    row.mountPoint = [slash] && (row.parent = row.id || !(mounts.map MountRow.id).contains row.parent)
  rows := mounts.length

/-- The prefixes of `path` at which a mount point could be, shortest first. -/
def prefixes (path : Path) : List Path :=
  path.take 1 ::
    (((List.range path.length).filter fun i => 1 ≤ i && path[i]? = some slash).map fun i => path.take i) ++ [path]

/-- The walk of `resolve` from `current`, in at most `fuel` rounds; `none` when the bound ends it or the table is
inconsistent at some step. -/
def MountTree.walk (tree : MountTree) (path : Path) : Nat → MountRow → Option MountRow
  | 0, _ => none
  | fuel + 1, current =>
    match ((prefixes path).filter fun p => current.mountPoint.length ≤ p.length).find? fun p =>
        !(tree.children (current.id, p)).isEmpty with
    | none => some current
    | some p =>
      match tree.children (current.id, p) with
      | [child] => tree.walk path fuel child
      | _ => none

def MountTree.resolve (tree : MountTree) (path : Path) : Option Dev :=
  if path.head? ≠ some slash then none
  else
    match tree.root with
    | none => none
    | some root =>
      match tree.walk path (tree.rows + 1) root with
      | some current => if current.mountPoint = path then some current.dev else none
      | none => none

/-! ### Building and restricting a plan -/

namespace FreezePlan

/-- One row of the table: a new target, or one more alias of the target on its device. -/
def addEntry (targets : List Target) (e : MountEntry) : List Target :=
  if isEligible e then
    if targets.any fun t => t.dev = e.dev then
      targets.map fun t => if t.dev = e.dev then { t with aliases := t.aliases ++ [e.mountPoint] } else t
    else targets ++ [⟨e.mountPoint, [], e.dev, e.fsType, none⟩]
  else targets

def build (mounts : List MountEntry) : FreezePlan where
  targets := mounts.foldl addEntry []
  mounts := mounts.map fun e => ⟨e.mountId, e.parentId, e.mountPoint, e.dev⟩

/-- Reverse mount order: nested mounts first. -/
def freezeOrder (plan : FreezePlan) : List Target := plan.targets.reverse

def thawOrder (plan : FreezePlan) : List Target := plan.targets

/-- The first requested name that leads to `dev`. -/
def selecting (tree : MountTree) (names : List Path) (dev : Dev) : Option Path :=
  names.find? fun name => tree.resolve name = some dev

def restrictTo (plan : FreezePlan) (names : List Path) : FreezePlan where
  targets := plan.targets.filterMap fun t =>
    (selecting (MountTree.index plan.mounts) names t.dev).map fun name => { t with requested := some name }
  mounts := plan.mounts

end FreezePlan

/-- `build_plan` on a mount table that could be read. -/
def buildPlan (entries : List MountEntry) (restrict : Option (List Path)) : FreezePlan :=
  match restrict with
  | some names => (FreezePlan.build entries).restrictTo names
  | none => FreezePlan.build entries

/-! ### The devices of a plan -/

namespace FreezePlan

/-- The devices of the targets, in mount order. -/
def targetDevs (targets : List Target) : List Dev := targets.map Target.dev

private theorem targetDevs_addEntry (targets : List Target) (e : MountEntry) :
    targetDevs (addEntry targets e) =
      if isEligible e = true ∧ e.dev ∉ targetDevs targets then targetDevs targets ++ [e.dev]
      else targetDevs targets := by
  by_cases he : isEligible e = true
  · by_cases hm : e.dev ∈ targetDevs targets
    · have hany : (targets.any fun t => t.dev = e.dev) = true := by
        obtain ⟨t, ht, hd⟩ := List.mem_map.1 hm
        exact List.any_eq_true.2 ⟨t, ht, by simpa using hd⟩
      simp only [addEntry, he, hany, hm, ↓reduceIte, not_true_eq_false, and_false]
      unfold targetDevs
      rw [List.map_map]
      apply List.map_congr_left
      intro t _
      simp only [Function.comp]
      split <;> rfl
    · have hany : (targets.any fun t => t.dev = e.dev) = false := by
        rw [List.any_eq_false]
        intro t ht hd
        exact hm (List.mem_map.2 ⟨t, ht, by simpa using hd⟩)
      simp only [addEntry, he, hany, hm, ↓reduceIte, Bool.false_eq_true, not_false_eq_true, and_self]
      exact List.map_append
  · simp [addEntry, he]

private theorem foldl_addEntry_nodup (mounts : List MountEntry) (targets : List Target)
    (h : (targetDevs targets).Nodup) : (targetDevs (mounts.foldl addEntry targets)).Nodup := by
  induction mounts generalizing targets with
  | nil => exact h
  | cons e es ih =>
    apply ih
    rw [targetDevs_addEntry]
    split
    · rename_i hnew
      exact List.nodup_append.2 ⟨h, by simp, by
        intro a ha b hb
        obtain rfl := List.mem_singleton.1 hb
        exact fun e => hnew.2 (e ▸ ha)⟩
    · exact h

private theorem mem_foldl_addEntry (mounts : List MountEntry) (targets : List Target) (d : Dev) :
    d ∈ targetDevs (mounts.foldl addEntry targets) ↔
      d ∈ targetDevs targets ∨ ∃ e ∈ mounts, isEligible e = true ∧ e.dev = d := by
  induction mounts generalizing targets with
  | nil => simp
  | cons e es ih =>
    rw [List.foldl_cons, ih, targetDevs_addEntry]
    split
    · rename_i hnew
      rw [List.mem_append, List.mem_singleton, eq_comm (a := d), or_assoc]
      simp only [List.mem_cons, exists_eq_or_imp, hnew.1, true_and]
    · rename_i hold
      simp only [List.mem_cons, exists_eq_or_imp]
      constructor
      · rintro (h | h)
        · exact .inl h
        · exact .inr (.inr h)
      · rintro (h | ⟨he, rfl⟩ | h)
        · exact .inl h
        · exact .inl (by by_contra hn; exact hold ⟨he, hn⟩)
        · exact .inr h

/-- The targets of a plan are on pairwise distinct devices. -/
theorem build_nodup (mounts : List MountEntry) : (targetDevs (build mounts).targets).Nodup :=
  foldl_addEntry_nodup mounts [] List.nodup_nil

/-- The devices of a plan are those of the eligible rows. -/
theorem mem_build (mounts : List MountEntry) (d : Dev) :
    d ∈ targetDevs (build mounts).targets ↔ ∃ e ∈ mounts, isEligible e = true ∧ e.dev = d := by
  have h := mem_foldl_addEntry mounts [] d
  rwa [show targetDevs [] = [] from rfl, or_iff_right List.not_mem_nil] at h

theorem restrictTo_sublist (plan : FreezePlan) (names : List Path) :
    (targetDevs (plan.restrictTo names).targets).Sublist (targetDevs plan.targets) := by
  unfold restrictTo targetDevs
  simp only
  induction plan.targets with
  | nil => simp
  | cons t ts ih =>
    rw [List.filterMap_cons]
    cases selecting (MountTree.index plan.mounts) names t.dev with
    | none => exact ih.cons _
    | some name => exact ih.cons_cons _

end FreezePlan

/-- Also after a restriction the targets are on pairwise distinct devices. -/
theorem buildPlan_nodup (entries : List MountEntry) (restrict : Option (List Path)) :
    (FreezePlan.targetDevs (buildPlan entries restrict).targets).Nodup := by
  cases restrict with
  | none => exact FreezePlan.build_nodup entries
  | some names => exact (FreezePlan.restrictTo_sublist _ _).nodup (FreezePlan.build_nodup entries)

end Qeminga
