import Qeminga.Blocking
import Qeminga.Contract.FreezeReply
import Mathlib.Data.List.Dedup
import Mathlib.Data.List.Perm.Subperm

/-!
# Coverage of a freeze list

`guest-fsfreeze-freeze-list` restricts the plan to the superblocks that the requested names lead to.  A superblock
records the first name that leads to it, and one name leads to one superblock, so the recorded names are pairwise
distinct: this is what bounds the count of the reply by the number of distinct names, and when the two are equal every
name was recorded (`mem_of_recorded`).
-/

namespace Qeminga

namespace FreezePlan

variable {tree : MountTree} {names : List Path} {d : Dev}

theorem selecting_eq_some {name : Path} (h : selecting tree names d = some name) :
    name ∈ names ∧ tree.resolve name = some d :=
  ⟨List.mem_of_find?_eq_some h, by simpa using List.find?_some h⟩

theorem selecting_isSome : (selecting tree names d).isSome = true ↔ ∃ name ∈ names, tree.resolve name = some d := by
  simp [selecting, List.find?_isSome]

/-- The restriction keeps the superblocks that some name leads to, in the order of the plan. -/
theorem targetDevs_restrictTo (plan : FreezePlan) (names : List Path) :
    targetDevs (plan.restrictTo names).targets =
      (targetDevs plan.targets).filter fun d => (selecting (MountTree.index plan.mounts) names d).isSome := by
  unfold restrictTo targetDevs
  simp only
  induction plan.targets with
  | nil => rfl
  | cons t ts ih =>
    rw [List.filterMap_cons, List.map_cons, List.filter_cons]
    cases selecting (MountTree.index plan.mounts) names t.dev with
    | none => simpa using ih
    | some name => simpa using ih

theorem mem_restrictTo (plan : FreezePlan) (names : List Path) (d : Dev) :
    d ∈ targetDevs (plan.restrictTo names).targets ↔
      d ∈ targetDevs plan.targets ∧ ∃ name ∈ names, (MountTree.index plan.mounts).resolve name = some d := by
  rw [targetDevs_restrictTo, List.mem_filter, selecting_isSome]

/-- Which names there are matters, not how often and in which order. -/
theorem targetDevs_restrictTo_congr (plan : FreezePlan) {names names' : List Path} (h : ∀ x, x ∈ names' ↔ x ∈ names) :
    targetDevs (plan.restrictTo names').targets = targetDevs (plan.restrictTo names).targets := by
  rw [targetDevs_restrictTo, targetDevs_restrictTo]
  refine List.filter_congr fun d _ => Bool.eq_iff_iff.2 ?_
  rw [selecting_isSome, selecting_isSome]
  simp only [h]

/-- What the restriction changes in a target is the recorded name. -/
theorem restrictTo_targets_sublist (plan : FreezePlan) (names : List Path) :
    ((plan.restrictTo names).targets.map fun t => { t with requested := none }).Sublist
      (plan.targets.map fun t => { t with requested := none }) := by
  unfold restrictTo
  simp only
  induction plan.targets with
  | nil => simp
  | cons t ts ih =>
    rw [List.filterMap_cons]
    cases selecting (MountTree.index plan.mounts) names t.dev with
    | none => exact ih.cons _
    | some name => exact ih.cons_cons _

theorem requested_of_mem_addEntry {targets : List Target} (h : ∀ t ∈ targets, t.requested = none) (e : MountEntry) :
    ∀ t ∈ addEntry targets e, t.requested = none := by
  intro t ht
  unfold addEntry at ht
  split at ht
  · split at ht
    · obtain ⟨u, hu, rfl⟩ := List.mem_map.1 ht
      split
      · exact h u hu
      · exact h u hu
    · rcases List.mem_append.1 ht with ht | ht
      · exact h t ht
      · rw [List.mem_singleton.1 ht]
  · exact h t ht

/-- The targets of a whole plan record no name. -/
theorem requested_of_mem_build {entries : List MountEntry} {t : Target} (ht : t ∈ (build entries).targets) :
    t.requested = none := by
  suffices ∀ targets : List Target, (∀ t ∈ targets, t.requested = none) →
      ∀ t ∈ entries.foldl addEntry targets, t.requested = none from this [] (by simp) t ht
  clear ht
  induction entries with
  | nil => exact fun _ h => h
  | cons e es ih => exact fun targets h => ih _ (requested_of_mem_addEntry h e)

theorem build_restrictTo_sublist (entries : List MountEntry) (names : List Path) :
    (((build entries).restrictTo names).targets.map fun t => { t with requested := none }).Sublist
      (build entries).targets := by
  have h := restrictTo_targets_sublist (build entries) names
  have hid : ((build entries).targets.map fun t => { t with requested := none }) = (build entries).targets := by
    conv_rhs => rw [← List.map_id (build entries).targets]
    refine List.map_congr_left fun t ht => ?_
    have hr := requested_of_mem_build ht
    cases t
    simp only at hr
    simp [hr]
  rwa [hid] at h

/-- A selected target records a name that leads to it. -/
theorem recorded_of_mem {plan : FreezePlan} {names : List Path} {t : Target} (ht : t ∈ (plan.restrictTo names).targets) :
    ∃ name ∈ names, t.requested = some name ∧ (MountTree.index plan.mounts).resolve name = some t.dev := by
  obtain ⟨u, -, hu⟩ := List.mem_filterMap.1 ht
  obtain ⟨name, hname, rfl⟩ := Option.map_eq_some_iff.1 hu
  obtain ⟨hmem, hres⟩ := selecting_eq_some hname
  exact ⟨name, hmem, rfl, hres⟩

/-! ### The recorded names -/

/-- The names recorded for the superblocks `ds`. -/
def recorded (tree : MountTree) (names : List Path) (ds : List Dev) : List Path := ds.filterMap (selecting tree names)

variable {ds : List Dev}

theorem length_recorded (hd : ∀ d ∈ ds, (selecting tree names d).isSome = true) :
    (recorded tree names ds).length = ds.length := by
  unfold recorded
  induction ds with
  | nil => rfl
  | cons d ds ih =>
    obtain ⟨name, hname⟩ := Option.isSome_iff_exists.1 (hd d List.mem_cons_self)
    rw [List.filterMap_cons_some hname, List.length_cons, List.length_cons,
      ih fun x hx => hd x (List.mem_cons_of_mem _ hx)]

theorem nodup_recorded (hn : ds.Nodup) : (recorded tree names ds).Nodup := by
  refine hn.filterMap fun d d' name h h' => ?_
  -- one name leads to one superblock
  have hd := (selecting_eq_some h).2
  have hd' := (selecting_eq_some h').2
  exact Option.some.inj (hd.symm.trans hd')

theorem recorded_subset : recorded tree names ds ⊆ names.dedup := by
  intro name h
  obtain ⟨d, -, hd⟩ := List.mem_filterMap.1 h
  exact List.mem_dedup.2 (selecting_eq_some hd).1

/-- Distinct superblocks that are selected are no more than the distinct names. -/
theorem length_le_names (hn : ds.Nodup) (hd : ∀ d ∈ ds, (selecting tree names d).isSome = true) :
    ds.length ≤ names.dedup.length :=
  length_recorded hd ▸ (List.subperm_of_subset (nodup_recorded hn) recorded_subset).length_le

/-- If they are as many, every name is recorded for one of them. -/
theorem mem_of_recorded (hn : ds.Nodup) (hd : ∀ d ∈ ds, (selecting tree names d).isSome = true)
    (hlen : ds.length = names.dedup.length) {name : Path} (h : name ∈ names) :
    ∃ d ∈ ds, selecting tree names d = some name := by
  have hsub : (recorded tree names ds).Subperm names.dedup := List.subperm_of_subset (nodup_recorded hn) recorded_subset
  have hperm : (recorded tree names ds).Perm names.dedup :=
    hsub.perm_of_length_le (by rw [length_recorded hd]; omega)
  exact List.mem_filterMap.1 (hperm.symm.subset (List.mem_dedup.2 h))

end FreezePlan

/-! ### The pathname of a selected target -/

theorem openPaths_of_requested {t : Target} {name : Path} (h : t.requested = some name) : t.openPaths = (name, []) := by
  simp [Target.openPaths, h]

/-- `open_target` makes one call for a target that a request selected. -/
theorem openTarget_of_requested {σ : Type} (ops : KernelOps σ) {t : Target} {name : Path} (h : t.requested = some name)
    (s : σ) :
    openTarget ops t s =
      ((ops.openMount name t.dev s).1.mapError fun err => [(name, err)], (ops.openMount name t.dev s).2) := by
  rw [openTarget, openPaths_of_requested h, openPaths]
  rcases ops.openMount name t.dev s with ⟨_ | _, s'⟩ <;> rfl

/-- The worker of such a target opens nothing more after its first call. -/
theorem workerCall_of_requested {t : Target} {name : Path} {c c' : Ctx} {i : TaskId} {ans : Answer} {w : Worker}
    (h : Driver.workerCall c i t (.opening name [] []) ans = some (c', w)) (path : Path) (paths : List Path)
    (attempts : Attempts) : w ≠ .opening path paths attempts := by
  intro hw
  subst hw
  cases ans with
  | opened r =>
    simp only [Driver.workerCall] at h
    split at h <;> cases h
  | _ => cases h

/-! ### The result -/

namespace FreezeReply

variable {cfg : Config} {ok : Agent → Action → Agent → Prop} {a : Agent} {op : TaskId} {n : Nat} {names : List Path}
  {now : Snapshot}

/-- What the operation froze was selected by the restriction of the plan that it prepared. -/
private theorem selected (h : Machine.Reach (Agent.step cfg) ok Agent.Initial a)
    (hs : .started op (some names) now ∈ a.ctx.log) (hr : .replied op (.ok n) ∈ a.ctx.log) :
    ∃ entries, .prepared op (.prepared ((FreezePlan.build entries).restrictTo names)) ∈ a.ctx.log ∧
      ∀ d ∈ successes a.ctx.log op,
        (FreezePlan.selecting (MountTree.index (FreezePlan.build entries).mounts) names d).isSome = true := by
  have hm := (FreezeReply.reach h).glob op n hr
  obtain ⟨restrict, entries, now', hs', hprep, hplan⟩ := hm.plan
  obtain ⟨rfl, -⟩ := Registry.started_unique h hs hs'
  refine ⟨entries, hprep, fun d hd => ?_⟩
  rw [hm.froze] at hd
  obtain ⟨t, ht, rfl⟩ := List.mem_map.1 ((frozenDevs_sublist _).subset hd)
  rw [hplan] at ht
  obtain ⟨name, hname, -, hres⟩ := FreezePlan.recorded_of_mem (List.mem_reverse.1 ht)
  exact FreezePlan.selecting_isSome.2 ⟨name, hname, hres⟩

end FreezeReply

/-- For every mount table and every list of names: the restriction of the plan has exactly the superblocks of the plan
that some name leads to, each once, whatever the order and multiplicity of the names, and at most as many as there are
distinct names; its targets are those of the plan, in the same order, except for the recorded name; and the recorded
name leads to the target, and is the only pathname opened for it.  In every run, the count replied to a freeze list is
at most the number of distinct names, and if it is that number, every name led, in the mount table that the operation
read, to a superblock that this operation froze, a different one for a different name. -/
theorem freeze_list_covers (entries : List MountEntry) (names : List Path) :
    (∀ d, d ∈ FreezePlan.targetDevs ((FreezePlan.build entries).restrictTo names).targets ↔
      d ∈ FreezePlan.targetDevs (FreezePlan.build entries).targets ∧
        ∃ name ∈ names, (MountTree.index (FreezePlan.build entries).mounts).resolve name = some d) ∧
    (∀ names', (∀ x, x ∈ names' ↔ x ∈ names) →
      FreezePlan.targetDevs ((FreezePlan.build entries).restrictTo names').targets =
        FreezePlan.targetDevs ((FreezePlan.build entries).restrictTo names).targets) ∧
    (FreezePlan.targetDevs ((FreezePlan.build entries).restrictTo names).targets).Nodup ∧
    ((FreezePlan.build entries).restrictTo names).targets.length ≤ names.dedup.length ∧
    (((FreezePlan.build entries).restrictTo names).targets.map fun t => { t with requested := none }).Sublist
      (FreezePlan.build entries).targets ∧
    (∀ t ∈ ((FreezePlan.build entries).restrictTo names).targets, ∃ name ∈ names, t.requested = some name ∧
      (MountTree.index (FreezePlan.build entries).mounts).resolve name = some t.dev ∧
      (∀ (σ : Type) (ops : KernelOps σ) (s : σ), openTarget ops t s =
        ((ops.openMount name t.dev s).1.mapError fun err => [(name, err)], (ops.openMount name t.dev s).2)) ∧
      Worker.start t = .opening name [] [] ∧
      ∀ c i ans c' w, Driver.workerCall c i t (.opening name [] []) ans = some (c', w) →
        ∀ path paths attempts, w ≠ .opening path paths attempts) ∧
    ∀ cfg ok a op n now, Machine.Reach (Agent.step cfg) ok Agent.Initial a →
      .started op (some names) now ∈ a.ctx.log → .replied op (.ok n) ∈ a.ctx.log →
      n ≤ names.dedup.length ∧
      ∃ read, .prepared op (.prepared ((FreezePlan.build read).restrictTo names)) ∈ a.ctx.log ∧
        (n = names.dedup.length → ∀ name ∈ names, ∃ d ∈ successes a.ctx.log op,
          (MountTree.index (FreezePlan.build read).mounts).resolve name = some d ∧
          ∀ other ∈ names, (MountTree.index (FreezePlan.build read).mounts).resolve other = some d → other = name) := by
  have hnodup : (FreezePlan.targetDevs ((FreezePlan.build entries).restrictTo names).targets).Nodup :=
    buildPlan_nodup entries (some names)
  refine ⟨FreezePlan.mem_restrictTo _ names, fun names' h => FreezePlan.targetDevs_restrictTo_congr _ h, hnodup, ?_,
    FreezePlan.build_restrictTo_sublist entries names, fun t ht => ?_, fun cfg ok a op n now hreach hs hr => ?_⟩
  · have hlen := FreezePlan.length_le_names hnodup fun d hd =>
      FreezePlan.selecting_isSome.2 ((FreezePlan.mem_restrictTo _ names d).1 hd).2
    simpa [FreezePlan.targetDevs] using hlen
  · obtain ⟨name, hname, hreq, hres⟩ := FreezePlan.recorded_of_mem ht
    exact ⟨name, hname, hreq, hres, fun σ ops s => openTarget_of_requested ops hreq s,
      by rw [Worker.start, openPaths_of_requested hreq], fun _ _ _ _ _ h => workerCall_of_requested h⟩
  · have hm := (FreezeReply.reach hreach).glob op n hr
    obtain ⟨read, hprep, hsel⟩ := FreezeReply.selected hreach hs hr
    have hle := FreezePlan.length_le_names hm.distinct hsel
    refine ⟨hm.count ▸ hle, read, hprep, fun hn name hname => ?_⟩
    rw [hm.count] at hn
    obtain ⟨d, hd, hname'⟩ := FreezePlan.mem_of_recorded hm.distinct hsel hn hname
    refine ⟨d, hd, (FreezePlan.selecting_eq_some hname').2, fun other hother hres => ?_⟩
    -- `other` is recorded too, for a superblock that it leads to, so for `d`
    obtain ⟨d', -, hother'⟩ := FreezePlan.mem_of_recorded hm.distinct hsel hn hother
    have hd' := (FreezePlan.selecting_eq_some hother').2
    obtain rfl := Option.some.inj (hres.symm.trans hd')
    exact Option.some.inj (hother'.symm.trans hname')

/-- The table of the run below: `/a` and `/b` are names of one superblock. -/
private def aliasedTable : List MountEntry :=
  [⟨1, 0, 8, 1, [slash], "ext4", "/dev/sda"⟩, ⟨2, 1, 8, 2, [slash, 97], "ext4", "/dev/sdb"⟩,
    ⟨3, 1, 8, 2, [slash, 98], "ext4", "/dev/sdb"⟩]

/-- The names `/a`, `/` and again `/a`. -/
private def listedNames : List Path := [[slash, 97], [slash], [slash, 97]]

private def freezeListed : List Action :=
  [.freeze (some listedNames)] ++ Script.prepare 1 aliasedTable ++ Script.attempt 1 (8, 2) (.ok ()) ++
    Script.attempt 1 (8, 1) (.ok ()) ++ Script.drive 1 12

private def Event.isListed : Event → Bool
  | .started i restrict _ => i = 1 && restrict = some listedNames
  | _ => false

private def Event.repliesTwo : Event → Bool
  | .replied i (.ok n) => i = 1 && n = 2
  | _ => false

theorem freeze_list_covers_of_two :
    FreezePlan.targetDevs ((FreezePlan.build aliasedTable).restrictTo [[slash], [slash, 97]]).targets =
      FreezePlan.targetDevs ((FreezePlan.build aliasedTable).restrictTo listedNames).targets ∧
    (∃ t ∈ ((FreezePlan.build aliasedTable).restrictTo listedNames).targets, t.dev = (8, 2) ∧
      ∃ name ∈ listedNames, Worker.start t = .opening name [] []) ∧
    ∃ a, Machine.Reach (Agent.step ⟨60, 30, 300⟩) (fun _ _ _ => True) Agent.Initial a ∧
      ∃ read, .prepared 1 (.prepared ((FreezePlan.build read).restrictTo listedNames)) ∈ a.ctx.log ∧
        ∀ name ∈ listedNames, ∃ d ∈ successes a.ctx.log 1,
          (MountTree.index (FreezePlan.build read).mounts).resolve name = some d := by
  obtain ⟨-, hnames, -, -, -, htargets, hrun⟩ := freeze_list_covers aliasedTable listedNames
  refine ⟨hnames _ fun x => ?_, ?_, ?_⟩
  · simp only [listedNames, List.mem_cons, List.not_mem_nil, or_false]
    tauto
  · obtain ⟨t, ht, hd⟩ : ∃ t ∈ ((FreezePlan.build aliasedTable).restrictTo listedNames).targets, t.dev = (8, 2) := by
      decide
    obtain ⟨name, hname, -, -, -, hstart, -⟩ := htargets t ht
    exact ⟨t, ht, hd, name, hname, hstart⟩
  · obtain ⟨a, hr, hp⟩ : ∃ a, Machine.Reach (Agent.step ⟨60, 30, 300⟩) (fun _ _ _ => True) Agent.Initial a ∧
        (a.ctx.log.any Event.isListed && a.ctx.log.any Event.repliesTwo) = true :=
      Machine.Reach.of_execute (fun _ _ _ => true) (fun _ _ _ _ => trivial) freezeListed
        (fun a => a.ctx.log.any Event.isListed && a.ctx.log.any Event.repliesTwo) (Agent.cold_initial false) (by decide)
        (by decide)
    obtain ⟨⟨e, he, hlisted⟩, e', he', hreplies⟩ := (Bool.and_eq_true _ _ ▸ hp).imp List.any_eq_true.1 List.any_eq_true.1
    obtain ⟨now, hs⟩ : ∃ now, .started 1 (some listedNames) now ∈ a.ctx.log := by
      unfold Event.isListed at hlisted
      split at hlisted
      · simp only [Bool.and_eq_true, decide_eq_true_eq] at hlisted
        obtain ⟨rfl, rfl⟩ := hlisted
        exact ⟨_, he⟩
      · cases hlisted
    have hrep : .replied 1 (.ok 2) ∈ a.ctx.log := by
      unfold Event.repliesTwo at hreplies
      split at hreplies
      · simp only [Bool.and_eq_true, decide_eq_true_eq] at hreplies
        obtain ⟨rfl, rfl⟩ := hreplies
        exact he'
      · cases hreplies
    obtain ⟨-, read, hprep, hall⟩ := hrun _ _ a 1 2 now hr hs hrep
    refine ⟨a, hr, read, hprep, fun name hname => ?_⟩
    obtain ⟨d, hd, hres, -⟩ := hall (by decide) name hname
    exact ⟨d, hd, hres⟩

end Qeminga
