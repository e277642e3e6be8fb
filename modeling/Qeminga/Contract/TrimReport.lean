import Qeminga.Handlers
import Qeminga.Lib.Accounts

/-!
# The report of a trim

Every eligible superblock of the mount table has one result, and the results tell of every call: which pathnames were tried
in vain, which one was opened, and how the one `FITRIM` on its handle ended.  A request that is refused makes no call.
-/

namespace Qeminga

namespace Handlers

open Proto (Error)

/-! ### The calls -/

/-- A system call with its answer; a trim thaws nothing and leaves the marker alone. -/
inductive TrimCall
  | opened (path : Path) (dev : Dev) (answer : Except KernelError Mount)
  | fitrim (m : Mount) (minimum : Nat) (answer : Except KernelError Trimmed)
  | fithaw (m : Mount)
  | removeMarker

/-- The same kernel, with a record of the calls. -/
def TrimOps.recorded {σ : Type} (ops : TrimOps σ) : TrimOps (σ × List TrimCall) where
  openMount path dev s := ((ops.openMount path dev s.1).1, (ops.openMount path dev s.1).2,
    s.2 ++ [.opened path dev (ops.openMount path dev s.1).1])
  fithaw m s := ((ops.fithaw m s.1).1, (ops.fithaw m s.1).2, s.2 ++ [.fithaw m])
  removeMarker s := ((ops.removeMarker s.1).1, (ops.removeMarker s.1).2, s.2 ++ [.removeMarker])
  dev_of_openMount h := ops.dev_of_openMount h
  fitrim m minimum s := ((ops.fitrim m minimum s.1).1, (ops.fitrim m minimum s.1).2,
    s.2 ++ [.fitrim m minimum (ops.fitrim m minimum s.1).1])

/-- The pathnames that did not lead to the device. -/
def tried (dev : Dev) (failed : Attempts) : List TrimCall := failed.map fun x => .opened x.1 dev (.error x.2)

/-- The pathnames of a target, in the order in which they are tried. -/
def pathsOf (t : Target) : List Path := t.openPaths.1 :: t.openPaths.2

/-- The calls that a result of the target `t` tells of. -/
inductive TrimmedAs (minimum : Nat) (t : Target) : TrimResult → List TrimCall → Prop
  | reached (failed : Attempts) (path : Path) (rest : List Path) (m : Mount) (answer : Except KernelError Trimmed)
    (hpaths : pathsOf t = failed.map Prod.fst ++ path :: rest) (hdev : m.dev = t.dev) :
    TrimmedAs minimum t ⟨Utf8.lossy t.mountpoint, answer.mapError .ioctl⟩
      (tried t.dev failed ++ [.opened path t.dev (.ok m), .fitrim m minimum answer])
  | unreached (failed : Attempts) (hpaths : pathsOf t = failed.map Prod.fst) :
    TrimmedAs minimum t ⟨Utf8.lossy t.mountpoint, .error (.unreachable failed)⟩ (tried t.dev failed)

variable {σ : Type} {minimum : Nat} {t : Target} {calls : List TrimCall} {r : TrimResult}

/-- How `open_target` ends with the pathnames `path :: paths`, after the failures `before`. -/
private theorem openPaths_recorded (ops : TrimOps σ) (dev : Dev) (path : Path) (paths : List Path) (before : Attempts) (s : σ)
    (calls : List TrimCall) :
    (∃ failed p rest m s', path :: paths = failed.map Prod.fst ++ p :: rest ∧ m.dev = dev ∧
      openPaths ops.recorded.toKernelOps dev path paths before (s, calls) =
        (.ok m, s', calls ++ (tried dev failed ++ [.opened p dev (.ok m)]))) ∨
    ∃ failed s', path :: paths = failed.map Prod.fst ∧
      openPaths ops.recorded.toKernelOps dev path paths before (s, calls) =
        (.error (before ++ failed), s', calls ++ tried dev failed) := by
  induction paths generalizing path before s calls with
  | nil =>
    rw [openPaths]
    rcases hopen : ops.openMount path dev s with ⟨err | m, s'⟩
    · exact .inr ⟨[(path, err)], s', rfl, by simp [TrimOps.recorded, hopen, tried]⟩
    · have hdev : m.dev = dev := ops.dev_of_openMount (by rw [hopen])
      exact .inl ⟨[], path, [], m, s', rfl, hdev, by simp [TrimOps.recorded, hopen, tried]⟩
  | cons next paths ih =>
    rw [openPaths]
    rcases hopen : ops.openMount path dev s with ⟨err | m, s'⟩
    · have hcall : ops.recorded.openMount path dev (s, calls) =
          (.error err, s', calls ++ [.opened path dev (.error err)]) := by simp [TrimOps.recorded, hopen]
      simp only [hcall]
      rcases ih next (before ++ [(path, err)]) s' (calls ++ [.opened path dev (.error err)]) with
        ⟨failed, p, rest, m, s'', hpaths, hdev, heq⟩ | ⟨failed, s'', hpaths, heq⟩
      · refine .inl ⟨(path, err) :: failed, p, rest, m, s'', by rw [hpaths]; rfl, hdev, ?_⟩
        rw [heq]
        simp [tried]
      · refine .inr ⟨(path, err) :: failed, s'', by rw [hpaths]; rfl, ?_⟩
        rw [heq]
        simp [tried]
    · have hdev : m.dev = dev := ops.dev_of_openMount (by rw [hopen])
      exact .inl ⟨[], path, next :: paths, m, s', rfl, hdev, by simp [TrimOps.recorded, hopen, tried]⟩

/-- One target. -/
private theorem trimTarget_recorded (ops : TrimOps σ) (minimum : Nat) (t : Target) (s : σ) (calls : List TrimCall) :
    ∃ r s' piece, trimTarget ops.recorded minimum t (s, calls) = (r, s', calls ++ piece) ∧ TrimmedAs minimum t r piece := by
  unfold trimTarget openTarget
  rcases openPaths_recorded ops t.dev t.openPaths.1 t.openPaths.2 [] s calls with
    ⟨failed, p, rest, m, s', hpaths, hdev, heq⟩ | ⟨failed, s', hpaths, heq⟩
  · rw [heq]
    rcases htrim : ops.fitrim m minimum s' with ⟨err | trimmed, s''⟩
    · refine ⟨_, s'', _, ?_, .reached failed p rest m (.error err) hpaths hdev⟩
      simp [TrimOps.recorded, htrim, Except.mapError]
    · refine ⟨_, s'', _, ?_, .reached failed p rest m (.ok trimmed) hpaths hdev⟩
      simp [TrimOps.recorded, htrim, Except.mapError]
  · rw [heq]
    exact ⟨_, s', _, rfl, .unreached failed hpaths⟩

/-- The results of the targets account for the calls, in their order. -/
theorem trimTargets_recorded (ops : TrimOps σ) (minimum : Nat) (ts : List Target) (s : σ) (calls : List TrimCall) :
    ∃ rs s' pieces, trimTargets ops.recorded minimum ts (s, calls) = (rs, s', calls ++ pieces) ∧ rs.length = ts.length ∧
      Accounts (fun x piece => TrimmedAs minimum x.1 x.2 piece) (ts.zip rs) pieces := by
  induction ts generalizing s calls with
  | nil => exact ⟨[], s, [], by simp [trimTargets], rfl, .nil⟩
  | cons t ts ih =>
    obtain ⟨r, s', piece, hr, has⟩ := trimTarget_recorded ops minimum t s calls
    obtain ⟨rs, s'', pieces, hrs, hlength, haccounts⟩ := ih s' (calls ++ piece)
    refine ⟨r :: rs, s'', piece ++ pieces, ?_, by simp [hlength], .cons has haccounts⟩
    simp [trimTargets, hr, hrs]

/-! ### What the calls are -/

/-- The devices that were trimmed. -/
def trimmedDevs (calls : List TrimCall) : List Dev :=
  calls.filterMap fun call => match call with | .fitrim m _ _ => some m.dev | _ => none

theorem TrimmedAs.devs (h : TrimmedAs minimum t r calls) : (trimmedDevs calls).Sublist [t.dev] := by
  have htried : ∀ failed, trimmedDevs (tried t.dev failed) = [] := fun failed => by
    simp [trimmedDevs, tried, List.filterMap_map]
  cases h with
  | reached failed path rest m answer hpaths hdev =>
    rw [trimmedDevs, List.filterMap_append, ← trimmedDevs, htried]
    simp [hdev]
  | unreached failed hpaths => simp [htried]

/-- Every call of the trim of a target opens one of its pathnames, or trims the handle that this gave. -/
theorem TrimmedAs.call (h : TrimmedAs minimum t r calls) {call : TrimCall} (hc : call ∈ calls) :
    (∃ path ∈ pathsOf t, ∃ answer, call = .opened path t.dev answer) ∨
      ∃ path m answer, m.dev = t.dev ∧ .opened path t.dev (.ok m) ∈ calls ∧ call = .fitrim m minimum answer := by
  have htried : ∀ {failed : Attempts}, call ∈ tried t.dev failed →
      ∃ path ∈ failed.map Prod.fst, ∃ answer, call = .opened path t.dev answer := by
    intro failed hc
    obtain ⟨x, hx, rfl⟩ := List.mem_map.1 hc
    exact ⟨x.1, List.mem_map_of_mem hx, .error x.2, rfl⟩
  cases h with
  | reached failed path rest m answer hpaths hdev =>
    rcases List.mem_append.1 hc with hc | hc
    · obtain ⟨p, hp, answer, rfl⟩ := htried hc
      exact .inl ⟨p, by rw [hpaths]; exact List.mem_append_left _ hp, answer, rfl⟩
    · rcases List.mem_cons.1 hc with rfl | hc
      · exact .inl ⟨path, by rw [hpaths]; exact List.mem_append_right _ List.mem_cons_self, .ok m, rfl⟩
      · obtain rfl := List.mem_singleton.1 hc
        exact .inr ⟨path, m, answer, hdev, List.mem_append_right _ List.mem_cons_self, rfl⟩
  | unreached failed hpaths =>
    obtain ⟨p, hp, answer, rfl⟩ := htried hc
    exact .inl ⟨p, by rw [hpaths]; exact hp, answer, rfl⟩

theorem trimmedDevs_sublist {xs : List (Target × TrimResult)}
    (h : Accounts (fun x piece => TrimmedAs minimum x.1 x.2 piece) xs calls) :
    (trimmedDevs calls).Sublist (xs.map fun x => x.1.dev) := by
  induction h with
  | nil => exact .slnil
  | @cons x piece xs rest hx _ ih =>
    rw [trimmedDevs, List.filterMap_append]
    exact hx.devs.append ih

theorem call_of_accounts {xs : List (Target × TrimResult)}
    (h : Accounts (fun x piece => TrimmedAs minimum x.1 x.2 piece) xs calls) {call : TrimCall} (hc : call ∈ calls) :
    ∃ x ∈ xs, (∃ path ∈ pathsOf x.1, ∃ answer, call = .opened path x.1.dev answer) ∨
      ∃ path m answer, m.dev = x.1.dev ∧ .opened path x.1.dev (.ok m) ∈ calls ∧ call = .fitrim m minimum answer := by
  induction h with
  | nil => cases hc
  | @cons x piece xs rest hx _ ih =>
    rcases List.mem_append.1 hc with hc | hc
    · refine ⟨x, List.mem_cons_self, ?_⟩
      rcases hx.call hc with hopened | ⟨path, m, answer, hdev, hmem, hcall⟩
      · exact .inl hopened
      · exact .inr ⟨path, m, answer, hdev, List.mem_append_left _ hmem, hcall⟩
    · obtain ⟨y, hy, hcall⟩ := ih hc
      refine ⟨y, List.mem_cons_of_mem _ hy, ?_⟩
      rcases hcall with hopened | ⟨path, m, answer, hdev, hmem, hcall⟩
      · exact .inl hopened
      · exact .inr ⟨path, m, answer, hdev, List.mem_append_right _ hmem, hcall⟩

/-! ### The record changes nothing -/

private theorem openPaths_fst (ops : TrimOps σ) (dev : Dev) (path : Path) (paths : List Path) (before : Attempts)
    (x : σ × List TrimCall) :
    (openPaths ops.recorded.toKernelOps dev path paths before x).1 = (openPaths ops.toKernelOps dev path paths before x.1).1 ∧
      (openPaths ops.recorded.toKernelOps dev path paths before x).2.1 =
        (openPaths ops.toKernelOps dev path paths before x.1).2 := by
  induction paths generalizing path before x with
  | nil =>
    rw [openPaths, openPaths]
    simp only [TrimOps.recorded]
    rcases ops.openMount path dev x.1 with ⟨err | m, s'⟩ <;> exact ⟨rfl, rfl⟩
  | cons next paths ih =>
    rw [openPaths, openPaths]
    simp only [TrimOps.recorded]
    rcases ops.openMount path dev x.1 with ⟨err | m, s'⟩
    · exact ih next _ _
    · exact ⟨rfl, rfl⟩

private theorem trimTarget_fst (ops : TrimOps σ) (minimum : Nat) (t : Target) (x : σ × List TrimCall) :
    (trimTarget ops.recorded minimum t x).1 = (trimTarget ops minimum t x.1).1 ∧
      (trimTarget ops.recorded minimum t x).2.1 = (trimTarget ops minimum t x.1).2 := by
  unfold trimTarget openTarget
  obtain ⟨hanswer, hstate⟩ := openPaths_fst ops t.dev t.openPaths.1 t.openPaths.2 [] x
  revert hanswer hstate
  rcases openPaths ops.recorded.toKernelOps t.dev t.openPaths.1 t.openPaths.2 [] x with ⟨answer, y⟩
  rcases openPaths ops.toKernelOps t.dev t.openPaths.1 t.openPaths.2 [] x.1 with ⟨answer', s'⟩
  rintro rfl rfl
  cases answer with
  | error attempts => exact ⟨rfl, rfl⟩
  | ok m =>
    simp only [TrimOps.recorded]
    rcases ops.fitrim m minimum y.1 with ⟨err | trimmed, s''⟩ <;> exact ⟨rfl, rfl⟩

theorem trimTargets_fst (ops : TrimOps σ) (minimum : Nat) (ts : List Target) (x : σ × List TrimCall) :
    (trimTargets ops.recorded minimum ts x).1 = (trimTargets ops minimum ts x.1).1 ∧
      (trimTargets ops.recorded minimum ts x).2.1 = (trimTargets ops minimum ts x.1).2 := by
  induction ts generalizing x with
  | nil => exact ⟨rfl, rfl⟩
  | cons t ts ih =>
    obtain ⟨hr, hs⟩ := trimTarget_fst ops minimum t x
    obtain ⟨hrs, hs'⟩ := ih (trimTarget ops.recorded minimum t x).2
    simp only [trimTargets, hr, hs] at hrs hs' ⊢
    exact ⟨by rw [hrs], hs'⟩

/-! ### The contract -/

/-- What the results of a trim say of the mount table and of the calls. -/
structure Reported (entries : List MountEntry) (minimum : Nat) (results : List TrimResult) (calls : List TrimCall) : Prop where
  /-- There is one result for each target of the plan, in forward mount order, and together they tell of every call. -/
  length : results.length = (buildPlan entries none).thawOrder.length
  accounts : Accounts (fun x piece => TrimmedAs minimum x.1 x.2 piece) ((buildPlan entries none).thawOrder.zip results) calls
  /-- Every eligible superblock has its result. -/
  listed : ∀ e ∈ entries, isEligible e = true → ∃ t r, (t, r) ∈ (buildPlan entries none).thawOrder.zip results ∧ t.dev = e.dev
  /-- None is trimmed twice. -/
  once : (trimmedDevs calls).Nodup
  /-- A call opens a mount point of an eligible superblock on its device, or trims a handle that was verified so. -/
  calls : ∀ call ∈ calls, (∃ path dev answer, call = .opened path dev answer ∧ ∃ e ∈ entries, isEligible e = true ∧ e.dev = dev) ∨
    ∃ path m answer, call = .fitrim m minimum answer ∧ .opened path m.dev (.ok m) ∈ calls ∧
      ∃ e ∈ entries, isEligible e = true ∧ e.dev = m.dev

private theorem zip_target {ts : List Target} {rs : List TrimResult} (h : rs.length = ts.length) :
    (ts.zip rs).map Prod.fst = ts := List.map_fst_zip (Nat.le_of_eq h.symm)

theorem reported_of_accounts {entries : List MountEntry} {results : List TrimResult}
    (hlength : results.length = (buildPlan entries none).thawOrder.length)
    (h : Accounts (fun x piece => TrimmedAs minimum x.1 x.2 piece) ((buildPlan entries none).thawOrder.zip results) calls) :
    Reported entries minimum results calls where
  length := hlength
  accounts := h
  listed := fun e he helig => by
    obtain ⟨t, ht, hdev⟩ := List.mem_map.1 ((FreezePlan.mem_build entries e.dev).2 ⟨e, he, helig, rfl⟩)
    have hmem : t ∈ ((buildPlan entries none).thawOrder.zip results).map Prod.fst := (zip_target hlength).symm ▸ ht
    obtain ⟨x, hx, rfl⟩ := List.mem_map.1 hmem
    exact ⟨x.1, x.2, hx, hdev⟩
  once := by
    have hdevs : (((buildPlan entries none).thawOrder.zip results).map fun x => x.1.dev) =
        FreezePlan.targetDevs (buildPlan entries none).targets := by
      conv_rhs => rw [FreezePlan.targetDevs, show (buildPlan entries none).targets = _ from (zip_target hlength).symm]
      rw [List.map_map]
      rfl
    exact (hdevs ▸ trimmedDevs_sublist h).nodup (buildPlan_nodup entries none)
  calls := fun call hc => by
    obtain ⟨x, hx, hcall⟩ := call_of_accounts h hc
    have htarget : x.1 ∈ (buildPlan entries none).thawOrder := zip_target hlength ▸ List.mem_map_of_mem hx
    have helig : ∃ e ∈ entries, isEligible e = true ∧ e.dev = x.1.dev :=
      (FreezePlan.mem_build entries x.1.dev).1 (List.mem_map_of_mem htarget)
    rcases hcall with ⟨path, -, answer, rfl⟩ | ⟨path, m, answer, hdev, hmem, rfl⟩
    · exact .inl ⟨path, x.1.dev, answer, rfl, helig⟩
    · exact .inr ⟨path, m, answer, rfl, hdev ▸ hmem, hdev ▸ helig⟩

/-- A trim that is refused makes no call; one that is answered reports on every eligible superblock. -/
theorem trim_report {σ : Type} (ops : TrimOps σ) (mounts : Except Error (List MountEntry)) (req : Proto.Request) (s : σ) :
    match fstrim ops.recorded mounts req (s, []) with
    | (.error err, s', calls) => fstrim ops mounts req s = (.error err, s) ∧ s' = s ∧ calls = []
    | (.ok results, s', calls) => fstrim ops mounts req s = (.ok results, s') ∧
      ∃ entries minimum, mounts = .ok entries ∧ fstrimArguments req = .ok minimum ∧
        Reported entries (minimum.getD 0) results calls := by
  unfold fstrim
  cases hargs : fstrimArguments req with
  | error err => exact ⟨rfl, rfl, rfl⟩
  | ok minimum =>
    cases mounts with
    | error err => exact ⟨rfl, rfl, rfl⟩
    | ok entries =>
      obtain ⟨rs, s', calls, heq, hlength, haccounts⟩ :=
        trimTargets_recorded ops (minimum.getD 0) (buildPlan entries none).thawOrder s []
      obtain ⟨hresults, hstate⟩ := trimTargets_fst ops (minimum.getD 0) (buildPlan entries none).thawOrder (s, [])
      rw [heq] at hresults hstate
      simp only [trimPlan, heq, List.nil_append]
      exact ⟨by rw [← hresults, ← hstate], entries, minimum, rfl, rfl, reported_of_accounts hlength haccounts⟩

end Handlers

end Qeminga
