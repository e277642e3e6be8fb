import Qeminga.Plan
import Qeminga.Lib.Descent
import Mathlib.Data.List.Nodup
import Mathlib.Data.List.Perm.Subperm

/-!
# Path resolution is the kernel's walk

The kernel walks a pathname component by component and crosses, at each point, into what is mounted there.  `resolve` looks
for the shortest prefix with a mount on the current one instead, in a bounded number of rounds; on a well formed mount table
the two agree, and on any table a result of `resolve` is reached by a chain of mounts.
-/

namespace Qeminga

open Relation

/-! ### The mount table as a tree -/

/-- A component of a pathname. -/
inductive Component
  | rootDir
  | normal (name : List UInt8)
  deriving DecidableEq, Repr

def components (path : Path) : List Component :=
  (if path.head? = some slash then [.rootDir] else []) ++ ((path.splitOn slash).filter (· ≠ [])).map .normal

/-- `b` is mounted on `a`, somewhere. -/
def Child (mounts : List MountRow) (a b : MountRow) : Prop :=
  a ∈ mounts ∧ b ∈ mounts ∧ b.parent = a.id ∧ b.parent ≠ b.id

/-- `b` is attached to `a` at the point `p`. -/
def Attached (mounts : List MountRow) (p : Path) (a b : MountRow) : Prop :=
  b ∈ mounts ∧ b.parent = a.id ∧ b.parent ≠ b.id ∧ b.mountPoint = p

/-- The row is a root of the namespace: its parent is not in the table, or itself. -/
def MountRow.IsRoot (mounts : List MountRow) (row : MountRow) : Prop :=
  row.parent = row.id ∨ row.parent ∉ mounts.map MountRow.id

structure WellFormed (mounts : List MountRow) : Prop where
  ids : (mounts.map MountRow.id).Nodup
  root : ∃ root ∈ mounts, root.mountPoint = [slash] ∧ root.IsRoot mounts ∧ ∀ row ∈ mounts, row.IsRoot mounts → row = root
  acyclic : ∀ row, ¬ TransGen (Child mounts) row row
  below : ∀ a b, Child mounts a b → components a.mountPoint <+: components b.mountPoint
  attached : ∀ p a b c, Attached mounts p a b → Attached mounts p a c → b = c

/-- The points at which the walk may cross: `/`, then `path` cut before each later `/`, then `path`. -/
def points (path : Path) : List Path :=
  [slash] :: (((List.range path.length).filter fun i => 1 ≤ i && path[i]? = some slash).map fun i => path.take i) ++ [path]

theorem prefixes_eq_points {path : Path} (h : path.head? = some slash) : prefixes path = points path := by
  obtain ⟨rest, rfl⟩ := List.head?_eq_some_iff.1 h
  rfl

/-! ### The prefixes of a path -/

theorem mem_prefixes {path p : Path} (h : p ∈ prefixes path) : p <+: path := by
  simp only [prefixes, List.mem_append, List.mem_cons, List.mem_map, List.mem_filter, List.not_mem_nil, or_false] at h
  rcases h with (rfl | ⟨i, -, rfl⟩) | rfl
  · exact List.take_prefix _ _
  · exact List.take_prefix _ _
  · exact List.prefix_refl _

/-- The prefixes come in the order of their lengths. -/
theorem prefixes_sorted {path : Path} (h : path ≠ []) : (prefixes path).Pairwise fun p q => p.length ≤ q.length := by
  have hlength : 1 ≤ path.length := List.length_pos_iff.2 h
  unfold prefixes
  rw [List.cons_append, List.pairwise_cons, List.pairwise_append]
  refine ⟨?_, ?_, List.pairwise_singleton _ _, ?_⟩
  · intro q hq
    simp only [List.mem_append, List.mem_map, List.mem_filter, List.mem_range, Bool.and_eq_true, decide_eq_true_eq,
      List.mem_singleton] at hq
    rw [List.length_take]
    rcases hq with ⟨i, ⟨hi, h1, -⟩, rfl⟩ | rfl
    · rw [List.length_take]
      omega
    · omega
  · rw [List.pairwise_map]
    refine (List.pairwise_lt_range.filter _).imp ?_
    intro i j hij
    rw [List.length_take, List.length_take]
    omega
  · intro p hp q hq
    obtain rfl := List.mem_singleton.1 hq
    obtain ⟨i, -, rfl⟩ := List.mem_map.1 hp
    rw [List.length_take]
    omega

/-- The prefixes that are not shorter than one of them are that one and the later ones. -/
theorem find?_prefixes {path p : Path} {before after : List Path} (hpath : path ≠ [])
    (h : prefixes path = before ++ p :: after) (f : Path → Bool) :
    ((prefixes path).filter fun q => p.length ≤ q.length).find? f = (p :: after).find? f := by
  have hsorted := prefixes_sorted hpath
  rw [h] at hsorted
  obtain ⟨-, hafter, hbefore⟩ := List.pairwise_append.1 hsorted
  have hrest : (p :: after).filter (fun q => decide (p.length ≤ q.length)) = p :: after := by
    rw [List.filter_eq_self]
    intro q hq
    rcases List.mem_cons.1 hq with rfl | hq
    · simp
    · simpa using (List.pairwise_cons.1 hafter).1 q hq
  rw [h, List.filter_append, List.find?_append, hrest]
  cases hq : (before.filter fun q => decide (p.length ≤ q.length)).find? f with
  | none => rfl
  | some q =>
    -- an earlier prefix of the same length is the same
    obtain ⟨hmem, hle⟩ := List.mem_filter.1 (List.mem_of_find?_eq_some hq)
    have hqp : q <+: path := mem_prefixes (by rw [h]; exact List.mem_append_left _ hmem)
    have hpp : p <+: path := mem_prefixes (by rw [h]; exact List.mem_append_right _ List.mem_cons_self)
    have hlength : q.length = p.length :=
      Nat.le_antisymm (hbefore q hmem p List.mem_cons_self) (of_decide_eq_true hle)
    obtain rfl : q = p := (List.prefix_of_prefix_length_le hqp hpp (Nat.le_of_eq hlength)).eq_of_length hlength
    have hf : f q = true := List.find?_some hq
    simp [hf]

/-! ### The children of a mount -/

section

variable {mounts : List MountRow} {a c : MountRow} {p : Path}

theorem mem_children : c ∈ (MountTree.index mounts).children (a.id, p) ↔ Attached mounts p a c := by
  simp only [MountTree.index, Attached, List.mem_filter, Bool.and_eq_true, decide_eq_true_eq, Prod.mk.injEq]
  constructor
  · rintro ⟨hm, hne, hp, he⟩
    exact ⟨hm, hp, hne, he⟩
  · rintro ⟨hm, hp, hne, he⟩
    exact ⟨hm, hne, hp, he⟩

theorem children_isEmpty : (MountTree.index mounts).children (a.id, p) = [] ↔ ∀ c, ¬ Attached mounts p a c := by
  rw [List.eq_nil_iff_forall_not_mem]
  exact forall_congr' fun c => not_congr mem_children

theorem WellFormed.children_eq (h : WellFormed mounts) (hc : Attached mounts p a c) :
    (MountTree.index mounts).children (a.id, p) = [c] := by
  have hnodup : ((MountTree.index mounts).children (a.id, p)).Nodup := (List.Nodup.of_map _ h.ids).filter _
  have hall : ∀ b ∈ (MountTree.index mounts).children (a.id, p), b = c :=
    fun b hb => h.attached p a b c (mem_children.1 hb) hc
  have hmem := mem_children.2 hc
  generalize (MountTree.index mounts).children (a.id, p) = children at *
  cases children with
  | nil => cases hmem
  | cons b rest =>
    obtain rfl := hall b (by simp)
    cases rest with
    | nil => rfl
    | cons b' rest =>
      have hb' := hall b' (by simp)
      simp [hb'] at hnodup

end

/-! ### The walk -/

section

variable {mounts : List MountRow} {path : Path}

/-- One round: the next mount is the one on the first of the prefixes with a mount, if there is one. -/
private theorem WellFormed.walk_round (h : WellFormed mounts) (fuel : Nat) {a : MountRow} {rest : List Path}
    (hscan : ∀ f, ((prefixes path).filter fun p => a.mountPoint.length ≤ p.length).find? f = rest.find? f) :
    ((∀ p ∈ rest, ∀ c, ¬ Attached mounts p a c) ∧ (MountTree.index mounts).walk path (fuel + 1) a = some a) ∨
      ∃ before p after c, rest = before ++ p :: after ∧ (∀ q ∈ before, ∀ c, ¬ Attached mounts q a c) ∧
        Attached mounts p a c ∧
        (MountTree.index mounts).walk path (fuel + 1) a = (MountTree.index mounts).walk path fuel c := by
  rw [MountTree.walk, hscan]
  have hempty : ∀ p, (!((MountTree.index mounts).children (a.id, p)).isEmpty) = false ↔ ∀ c, ¬ Attached mounts p a c := by
    intro p
    rw [← children_isEmpty]
    simp
  cases hfind : rest.find? fun p => !((MountTree.index mounts).children (a.id, p)).isEmpty with
  | none =>
    refine .inl ⟨fun p hp => ?_, rfl⟩
    rw [← hempty]
    simpa using List.find?_eq_none.1 hfind p hp
  | some p =>
    obtain ⟨hsome, before, after, hrest, hbefore⟩ := List.find?_eq_some_iff_append.1 hfind
    obtain ⟨c, hc⟩ : ∃ c, Attached mounts p a c := by
      by_contra hnone
      rw [(hempty p).2 (not_exists.1 hnone)] at hsome
      cases hsome
    refine .inr ⟨before, p, after, c, hrest, fun q hq => ?_, hc, ?_⟩
    · rw [← hempty]
      simpa using hbefore q hq
    · simp only [h.children_eq hc]

/-- The walk of `resolve` goes where the descent goes; the mounts visited so far are different ones, so that the rounds
left are enough. -/
private theorem WellFormed.walk_descends (h : WellFormed mounts) (hpath : path ≠ []) {fuel : Nat} {visited : List MountRow}
    {a : MountRow} {before rest : List Path} (hsplit : prefixes path = before ++ rest)
    (hscan : ∀ f, ((prefixes path).filter fun p => a.mountPoint.length ≤ p.length).find? f = rest.find? f)
    (hnodup : visited.Nodup) (hsub : visited ⊆ mounts) (ha : a ∈ visited)
    (habove : ∀ v ∈ visited, ReflTransGen (Child mounts) v a) (hfuel : mounts.length < fuel + visited.length) :
    ∃ row, row ∈ mounts ∧ (MountTree.index mounts).walk path fuel a = some row ∧
      Descends (Attached mounts) rest a row := by
  induction fuel generalizing visited a before rest with
  | zero =>
    have hle := (List.subperm_of_subset hnodup hsub).length_le
    omega
  | succ fuel ih =>
    rcases h.walk_round fuel hscan with ⟨hnone, hwalk⟩ | ⟨qs, p, after, c, rfl, hqs, hc, hwalk⟩
    · exact ⟨a, hsub ha, hwalk, .stay hnone⟩
    · rw [hwalk]
      have hchild : Child mounts a c := ⟨hsub ha, hc.1, hc.2.1, hc.2.2.1⟩
      -- a mount that was visited is above `a`, so that `c` would be above itself
      have hnew : c ∉ visited := fun hmem => h.acyclic c (.tail' (habove c hmem) hchild)
      have hsplit' : prefixes path = (before ++ qs) ++ p :: after := by rw [hsplit, List.append_assoc]
      have hscan' : ∀ f, ((prefixes path).filter fun q => c.mountPoint.length ≤ q.length).find? f = (p :: after).find? f := by
        rw [hc.2.2.2]
        exact find?_prefixes hpath hsplit'
      obtain ⟨row, hrow, hend, hdescends⟩ := ih hsplit' hscan' (List.nodup_cons.2 ⟨hnew, hnodup⟩)
        (List.cons_subset.2 ⟨hc.1, hsub⟩) List.mem_cons_self
        (fun v hv => by
          rcases List.mem_cons.1 hv with rfl | hv
          · exact .refl
          · exact (habove v hv).tail hchild)
        (by rw [List.length_cons]; omega)
      exact ⟨row, hrow, hend, .append_skip hqs (hdescends.cross hc)⟩

end

/-! ### Absolute mount points -/

private theorem head_components {path : Path} : (components path).head? = some .rootDir ↔ path.head? = some slash := by
  unfold components
  split
  · next h => simp [h]
  · next h =>
    refine iff_of_false (fun hhead => ?_) h
    rw [List.nil_append, List.head?_map] at hhead
    obtain ⟨name, -, hname⟩ := Option.map_eq_some_iff.1 hhead
    cases hname

section

variable {mounts : List MountRow} {a b : MountRow}

/-- What is mounted below an absolute mount point has one. -/
private theorem WellFormed.absolute (h : WellFormed mounts) (hab : Child mounts a b)
    (ha : a.mountPoint.head? = some slash) : b.mountPoint.head? = some slash := by
  rw [← head_components] at ha ⊢
  obtain ⟨rest, hrest⟩ := h.below a b hab
  rw [← hrest, List.head?_append, ha]
  rfl

private theorem WellFormed.absolute_of_attached (h : WellFormed mounts) {p : Path} (ha : a ∈ mounts)
    (hslash : a.mountPoint.head? = some slash) (hab : ReflTransGen (Attached mounts p) a b) :
    b ∈ mounts ∧ b.mountPoint.head? = some slash := by
  induction hab with
  | refl => exact ⟨ha, hslash⟩
  | tail _ hstep ih => exact ⟨hstep.1, h.absolute ⟨ih.1, hstep.1, hstep.2.1, hstep.2.2.1⟩ ih.2⟩

/-- The row at which `resolve` begins. -/
theorem index_root {root : MountRow} (h : (MountTree.index mounts).root = some root) :
    root ∈ mounts ∧ root.mountPoint = [slash] ∧ root.IsRoot mounts := by
  have hmem := List.mem_of_find?_eq_some h
  have hroot := List.find?_some h
  simp only [Bool.and_eq_true, Bool.or_eq_true, decide_eq_true_eq, Bool.not_eq_true', List.contains_eq_mem,
    decide_eq_false_iff_not] at hroot
  exact ⟨hmem, hroot.1, hroot.2⟩

theorem WellFormed.index_root (h : WellFormed mounts) : ∃ root, (MountTree.index mounts).root = some root := by
  obtain ⟨root, hmem, hpoint, hroot, -⟩ := h.root
  rw [← Option.isSome_iff_exists]
  simp only [MountTree.index, List.find?_isSome]
  refine ⟨root, hmem, ?_⟩
  simp only [hpoint, decide_true, Bool.true_and, Bool.or_eq_true, decide_eq_true_eq, Bool.not_eq_true',
    List.contains_eq_mem, decide_eq_false_iff_not]
  exact hroot

/-- From the root, with the rounds of `resolve`. -/
private theorem WellFormed.walk_root (h : WellFormed mounts) {path : Path} (hpath : path.head? = some slash)
    {root : MountRow} (hroot : (MountTree.index mounts).root = some root) :
    ∃ row ∈ mounts, (MountTree.index mounts).walk path (mounts.length + 1) root = some row ∧
      Descends (Attached mounts) (prefixes path) root row := by
  obtain ⟨hmem, hpoint, -⟩ := Qeminga.index_root hroot
  have hne : path ≠ [] := by
    rintro rfl
    cases hpath
  have hscan : ∀ f, ((prefixes path).filter fun p => root.mountPoint.length ≤ p.length).find? f = (prefixes path).find? f := by
    obtain ⟨rest, rfl⟩ := List.head?_eq_some_iff.1 hpath
    have hfirst : prefixes (slash :: rest) = [] ++ [slash] :: (prefixes (slash :: rest)).tail := rfl
    have hall := find?_prefixes hne hfirst
    rw [hpoint]
    exact hall
  have hvisited : ∀ v ∈ [root], ReflTransGen (Child mounts) v root := fun v hv => by
    rw [List.mem_singleton.1 hv]
  exact h.walk_descends hne (List.nil_append _).symm hscan (List.nodup_singleton root) (by simpa using hmem)
    List.mem_cons_self hvisited (by rw [List.length_singleton]; omega)

/-- A relative pathname leads nowhere: nothing is mounted at its points. -/
private theorem WellFormed.descends_relative (h : WellFormed mounts) {path : Path} (hpath : path.head? ≠ some slash)
    {root : MountRow} (hroot : (MountTree.index mounts).root = some root) :
    ∃ row, Descends (Attached mounts) (points path) root row ∧ row.mountPoint.head? = some slash := by
  obtain ⟨hmem, hpoint, -⟩ := Qeminga.index_root hroot
  have habsolute : root.mountPoint.head? = some slash := by rw [hpoint]; rfl
  obtain ⟨_, -, -, hdescends⟩ := @WellFormed.walk_root mounts h [slash] rfl root hroot
  cases hdescends with
  | @cons p ps a row c hsettles _ =>
    obtain ⟨hrow, hslash⟩ := h.absolute_of_attached hmem habsolute hsettles.1
    refine ⟨row, .cons hsettles (.stay fun q hq c hc => ?_), hslash⟩
    have hq' : q.head? = some slash := by
      have := h.absolute ⟨hrow, hc.1, hc.2.1, hc.2.2.1⟩ hslash
      rwa [hc.2.2.2] at this
    rcases List.mem_append.1 hq with hq | hq
    · obtain ⟨i, hi, rfl⟩ := List.mem_map.1 hq
      simp only [List.mem_filter, Bool.and_eq_true, decide_eq_true_eq] at hi
      rw [List.head?_take, if_neg (by omega)] at hq'
      exact hpath hq'
    · obtain rfl := List.mem_singleton.1 hq
      exact hpath hq'

end

/-! ### Resolution -/

section

variable {mounts : List MountRow} {path : Path}

/-- Whatever the table, the walk of `resolve` follows links at prefixes of the pathname. -/
private theorem walk_chain {fuel : Nat} {a row : MountRow} (h : (MountTree.index mounts).walk path fuel a = some row) :
    ReflTransGen (fun a b => ∃ p, p <+: path ∧ Attached mounts p a b) a row := by
  induction fuel generalizing a with
  | zero => cases h
  | succ fuel ih =>
    rw [MountTree.walk] at h
    split at h
    · cases h
      exact .refl
    · next p hfind =>
      split at h
      · next child hchildren =>
        have hp : p <+: path := mem_prefixes (List.mem_filter.1 (List.mem_of_find?_eq_some hfind)).1
        have hattached : Attached mounts p a child := mem_children.1 (by rw [hchildren]; exact List.mem_singleton_self _)
        exact .head ⟨p, hp, hattached⟩ (ih h)
      · cases h

end

/-- On a well formed table `resolve` finds the mount that the walk along the components reaches, if the pathname is its
mount point, and its bound never cuts the walk short.  On any table a superblock that it finds is that of a row reached from
a root by a chain of links at prefixes of the pathname. -/
theorem resolve_walk (mounts : List MountRow) :
    (WellFormed mounts → ∃ root ∈ mounts, root.mountPoint = [slash] ∧ root.IsRoot mounts ∧ ∀ path, ∃ row,
      Descends (Attached mounts) (points path) root row ∧
      (∀ row', Descends (Attached mounts) (points path) root row' → row' = row) ∧
      (MountTree.index mounts).resolve path = (if row.mountPoint = path then some row.dev else none) ∧
      (path.head? = some slash → (MountTree.index mounts).walk path (mounts.length + 1) root = some row)) ∧
    ∀ path dev, (MountTree.index mounts).resolve path = some dev → ∃ root ∈ mounts, root.mountPoint = [slash] ∧
      root.IsRoot mounts ∧ ∃ row, ReflTransGen (fun a b => ∃ p, p <+: path ∧ Attached mounts p a b) root row ∧
        row.mountPoint = path ∧ row.dev = dev := by
  refine ⟨fun h => ?_, fun path dev hres => ?_⟩
  · obtain ⟨root, hroot⟩ := h.index_root
    obtain ⟨hmem, hpoint, hisRoot⟩ := index_root hroot
    refine ⟨root, hmem, hpoint, hisRoot, fun path => ?_⟩
    by_cases hpath : path.head? = some slash
    · obtain ⟨row, -, hwalk, hdescends⟩ := h.walk_root hpath hroot
      rw [prefixes_eq_points hpath] at hdescends
      refine ⟨row, hdescends, fun row' hrow' => hrow'.unique h.attached hdescends, ?_, fun _ => hwalk⟩
      have hrows : (MountTree.index mounts).rows = mounts.length := rfl
      simp only [MountTree.resolve, hpath, hroot, hrows, hwalk, ne_eq, not_true_eq_false, ↓reduceIte]
    · obtain ⟨row, hdescends, hslash⟩ := h.descends_relative hpath hroot
      refine ⟨row, hdescends, fun row' hrow' => hrow'.unique h.attached hdescends, ?_, fun hp => absurd hp hpath⟩
      have hne : row.mountPoint ≠ path := fun he => hpath (he ▸ hslash)
      rw [if_neg hne, MountTree.resolve, if_pos hpath]
  · unfold MountTree.resolve at hres
    split at hres
    · cases hres
    · split at hres
      · cases hres
      · next root hroot =>
        obtain ⟨hmem, hpoint, hisRoot⟩ := index_root hroot
        refine ⟨root, hmem, hpoint, hisRoot, ?_⟩
        split at hres
        · next row hwalk =>
          split at hres
          · next hrow =>
            cases hres
            exact ⟨row, walk_chain hwalk, hrow, rfl⟩
          · cases hres
        · cases hres

/-- The root, `/d` below it, and a second mount stacked on `/d`. -/
def stackedTable : List MountRow := [⟨1, 1, [slash], (0, 1)⟩, ⟨2, 1, [slash, 100], (8, 1)⟩, ⟨3, 2, [slash, 100], (8, 2)⟩]

private theorem stackedTable_child {a b : MountRow} (h : Child stackedTable a b) :
    (a = ⟨1, 1, [slash], (0, 1)⟩ ∧ b = ⟨2, 1, [slash, 100], (8, 1)⟩) ∨
      (a = ⟨2, 1, [slash, 100], (8, 1)⟩ ∧ b = ⟨3, 2, [slash, 100], (8, 2)⟩) := by
  obtain ⟨ha, hb, hparent, hne⟩ := h
  simp only [stackedTable, List.mem_cons, List.not_mem_nil, or_false] at ha hb
  rcases ha with rfl | rfl | rfl <;> rcases hb with rfl | rfl | rfl <;> simp_all

theorem stackedTable_wellFormed : WellFormed stackedTable where
  ids := by decide
  root := by
    refine ⟨⟨1, 1, [slash], (0, 1)⟩, by decide, rfl, .inl rfl, fun row hrow hroot => ?_⟩
    simp only [stackedTable, List.mem_cons, List.not_mem_nil, or_false] at hrow
    rcases hrow with rfl | rfl | rfl
    · rfl
    · exact absurd hroot (by unfold MountRow.IsRoot; decide)
    · exact absurd hroot (by unfold MountRow.IsRoot; decide)
  acyclic := by
    intro row hrow
    have hlt : ∀ a b, TransGen (Child stackedTable) a b → a.id < b.id := by
      intro a b hab
      have hstep : ∀ {a b}, Child stackedTable a b → a.id < b.id := fun hc => by
        rcases stackedTable_child hc with ⟨rfl, rfl⟩ | ⟨rfl, rfl⟩ <;> decide
      induction hab with
      | single hc => exact hstep hc
      | tail _ hc ih => exact Nat.lt_trans ih (hstep hc)
    exact Nat.lt_irrefl _ (hlt row row hrow)
  below := by
    intro a b hab
    rcases stackedTable_child hab with ⟨rfl, rfl⟩ | ⟨rfl, rfl⟩ <;> decide
  attached := by
    rintro p a b c ⟨hb, hbp, hbne, -⟩ ⟨hc, hcp, hcne, -⟩
    simp only [stackedTable, List.mem_cons, List.not_mem_nil, or_false] at hb hc
    rcases hb with rfl | rfl | rfl <;> rcases hc with rfl | rfl | rfl <;> simp_all

/-- The name leads to the mount on top. -/
theorem resolve_walk_of_stacked : WellFormed stackedTable ∧ (∃ root ∈ stackedTable, ∃ row,
    Descends (Attached stackedTable) (points [slash, 100]) root row ∧
      (MountTree.index stackedTable).resolve [slash, 100] = (if row.mountPoint = [slash, 100] then some row.dev else none)) ∧
    (MountTree.index stackedTable).resolve [slash, 100] = some (8, 2) := by
  obtain ⟨root, hmem, -, -, hall⟩ := (resolve_walk stackedTable).1 stackedTable_wellFormed
  obtain ⟨row, hdescends, -, hresolve, -⟩ := hall [slash, 100]
  exact ⟨stackedTable_wellFormed, ⟨root, hmem, row, hdescends, hresolve⟩, by decide⟩

end Qeminga
