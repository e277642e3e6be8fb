import Qeminga.Contract.Settlement
import Qeminga.Invariant.Handles

/-!
# The marker is left as it was found

An operation that settles `Thawed` leaves the marker as it found it, with three exceptions.  A preparation whose `fsync`
fails has created the marker, and nothing removes it.  A failed preparation that an abort has interrupted settles as an
aborted operation, which removes the marker even if the operation has not created it.  After a lost preparation the
marker is removed whether it was created or not, and is left if the removal is lost before it.  `Heard` is what decides
between these and is not in the history.
-/

namespace Qeminga

/-- The marker was created by the preparation that ended so. -/
def PrepEnd.created : PrepEnd → Bool
  | .fsyncFailed => true
  | .prepared _ => true
  | .lost created => created
  | _ => false

/-- What an observer of an operation hears of its tasks: an abort arrived while the preparation was awaited; a removal of
the marker succeeded or found none. -/
structure Heard where
  interrupted : Bool
  unlinked : Bool
  deriving DecidableEq

namespace Heard

/-- The task `tr` is awaited, by an operation that is aborted or is not. -/
def meet (m : Heard) (aborted : Bool) : Tracked → Heard
  | .prep _ => ⟨aborted || m.interrupted, m.unlinked⟩
  | .worker _ _ _ => m
  | .removal _ j => ⟨m.interrupted, !markerLeft j.val || m.unlinked⟩
  | .rollback j => ⟨m.interrupted, !markerLeft j.val.removed || m.unlinked⟩

def join (m : Heard) (d : Driver) : Heard :=
  match d.tracked with
  | some tr => m.meet d.abort.isSome tr
  | none => m

/-- The observer of the operation `op`. -/
def observe (op : TaskId) (m : Heard) (_ : Agent) (_ : Action) (a' : Agent) : Heard :=
  match a'.tasks op with
  | some (.driver d) => m.join d
  | _ => m

/-- When an operation that settles `Thawed` leaves the marker as it found it; `found` says that the marker was there
when it began, and `how` how its preparation ended. -/
def Keeps (m : Heard) (found : Bool) : (how : PrepEnd) → Prop
  | .prepared _ => True
  | .fsyncFailed => m.interrupted = true
  | .lost created => if m.unlinked then found = false else created = false
  | _ => m.interrupted = true → found = false

end Heard

/-! ### What the driver leaves -/

namespace MarkerKept

/-- The preparation has ended so, and nothing but the removal has touched the marker since. -/
structure Ended (m : Heard) (found : Bool) (ends : List PrepEnd) (marker : Bool) (how : PrepEnd) : Prop where
  ends : ends = [how]
  fresh : how.created = true → found = false
  marker : marker = (!m.unlinked && (found || how.created))

/-- The preparation is awaited. -/
structure Preparing (m : Heard) (found aborted : Bool) (ends : List PrepEnd) (marker : Bool) (j : Job Prep) : Prop where
  ends : ends = []
  fresh : j.val.created = true → found = false
  marker : marker = (found || j.val.created)
  interrupted : m.interrupted = aborted
  unlinked : m.unlinked = false

/-- The operation has its plan and has not removed the marker. -/
def Walking (m : Heard) (found : Bool) (ends : List PrepEnd) (marker : Bool) : Prop :=
  (∃ plan, Ended m found ends marker (.prepared plan)) ∧ m.unlinked = false

/-- Why the marker is being removed. -/
def Why (interrupted : Bool) (how : PrepEnd) : RemovalFor → Prop
  | .nothingFrozen => ∃ plan, how = .prepared plan
  | .beforeIoctl _ => interrupted = false ∧ ∃ created, how = .lost created
  | .aborted => interrupted = false → ∃ plan, how = .prepared plan

/-- Whether the marker was removed when the operation settles `Thawed`. -/
def Settled (m : Heard) : (how : PrepEnd) → Prop
  | .prepared _ => m.unlinked = true
  | .lost _ => True
  | _ => m.unlinked = m.interrupted

end MarkerKept

open MarkerKept in
def Tracked.keeps (m : Heard) (found aborted : Bool) (ends : List PrepEnd) (marker : Bool) : Tracked → Prop
  | .prep j => Preparing m found aborted ends marker j
  | .worker _ _ _ => Walking m found ends marker
  | .removal k j => ∃ how, Ended m found ends marker how ∧ m.unlinked = !markerLeft j.val ∧ Why m.interrupted how k
  | .rollback j => ∃ plan, Ended m found ends marker (.prepared plan) ∧ m.unlinked = !markerLeft j.val.removed

open MarkerKept in
/-- What is known of the marker at the program point `pc` of the driver. -/
def Driver.keeps (m : Heard) (ends : List PrepEnd) (marker : Bool) (d : Driver) : Pc → Prop
  | .await tr => tr.keeps m d.found d.abort.isSome ends marker
  | .aborting _ (.await tr) => tr.keeps m d.found d.abort.isSome ends marker
  | .settling => ∃ how, Ended m d.found ends marker how ∧ m.unlinked = false ∧
      (m.interrupted = false → ∃ plan, how = .prepared plan)
  | .conclude _ .thawed _ => ∃ how, Ended m d.found ends marker how ∧ Settled m how
  | .conclude _ .frozen _ => True
  | .finished => True
  | _ => Walking m d.found ends marker

namespace MarkerKept

variable {cfg : Config} {c c' : Ctx} {i fresh : TaskId} {d d' : Driver} {new : Option Dog} {m : Heard} {found aborted : Bool}
  {ends : List PrepEnd} {marker : Bool}

/-- The preparation is joined. -/
private theorem Preparing.ended {log : List Event} {j : Job Prep}
    (h : Preparing m found aborted (prepEnds log i) marker j) {how : PrepEnd} (hc : how.created = j.val.created) :
    Ended m found (prepEnds (.prepared i how :: .joined i .prep :: log) i) marker how := by
  have hends : prepEnds (.joined i .prep :: log) i = [] := h.ends
  refine ⟨by rw [Settlement.prepEnds_prepared, hends], fun hh => h.fresh (hc ▸ hh), ?_⟩
  rw [h.marker, h.unlinked, hc]
  rfl

private theorem created_ending {j : Job Prep} (h : j.lost = true ∨ ∃ r, j.val = .done r) :
    (Prep.ending j).created = j.val.created := by
  obtain ⟨v, lost⟩ := j
  cases lost with
  | true => rfl
  | false =>
    obtain ⟨r, rfl⟩ : ∃ r, v = .done r := h.resolve_left (fun h => by cases h)
    rcases r with failure | plan
    · cases failure with
      | marker err =>
        cases err with
        | io op e => cases op <;> rfl
        | _ => rfl
      | _ => rfl
    · rfl

/-- An unlink of the marker that was there or not. -/
private theorem Ended.unlink {how : PrepEnd} (h : Ended m found ends c.marker how) (hu : m.unlinked = false)
    {ans : UnlinkAnswer} {r : Except MarkerError Unit} (hc : c.unlink ans = some (c', r)) :
    Ended ⟨m.interrupted, !markerLeft (some r)⟩ found ends c'.marker how := by
  refine ⟨h.ends, h.fresh, ?_⟩
  have hm : c.marker = (found || how.created) := by rw [h.marker, hu]; rfl
  rcases Ctx.unlink_cases hc with ⟨-, rfl, rfl⟩ | ⟨hf, rfl, rfl⟩ | ⟨e, rfl, rfl⟩
  · rfl
  · exact hf
  · exact hm

/-- A call of the awaited task. -/
private theorem keeps_call {tr tr' : Tracked} (hc : tr.Call c i c' tr')
    (h : tr.keeps m found aborted ends c.marker) : tr'.keeps (m.meet aborted tr') found aborted ends c'.marker := by
  have hprep : ∀ {v v' : Prep}, Tracked.keeps m found aborted ends c.marker (.prep ⟨v, false⟩) → v'.created = v.created →
      Tracked.keeps (m.meet aborted (.prep ⟨v', false⟩)) found aborted ends c.marker (.prep ⟨v', false⟩) := by
    intro v v' h hv
    have h : Preparing m found aborted ends c.marker ⟨v, false⟩ := h
    refine ⟨h.ends, fun hc => h.fresh (hv ▸ hc), ?_, ?_, h.unlinked⟩
    · rw [h.marker, hv]
    · simp [Heard.meet, h.interrupted]
  cases hc with
  | planned restrict entries => exact hprep h rfl
  | planFailed restrict message => exact hprep h rfl
  | created plan hm =>
    have h : Preparing m found aborted ends c.marker ⟨.create plan, false⟩ := h
    have hf : found = false := by simpa [hm, Prep.created] using h.marker.symm
    refine ⟨h.ends, fun _ => hf, ?_, ?_, h.unlinked⟩
    · simp [Prep.created]
    · simp [Heard.meet, h.interrupted]
  | alreadyPresent plan hm => exact hprep h rfl
  | openFailed plan e => exact hprep h rfl
  | synced plan => exact hprep h rfl
  | syncFailed plan e => exact hprep h rfl
  | fifreeze t rest x aborted' clock r =>
    have hv : (c.fifreeze i x.dev aborted' clock r).marker = c.marker := by
      rcases c.fifreeze_cases i x.dev aborted' clock r with ⟨-, he⟩ | ⟨err, -, he⟩ <;>
        exact congrArg (fun c => c.marker) he
    show Walking m found ends (c.fifreeze i x.dev aborted' clock r).marker
    rw [hv]
    exact h
  | @removed k ans c' r hu =>
    obtain ⟨how, he, hun, hwhy⟩ := h
    have hun : m.unlinked = false := hun
    have hmeet : m.meet aborted (.removal k ⟨some r, false⟩) = ⟨m.interrupted, !markerLeft (some r)⟩ := by
      simp [Heard.meet, hun]
    rw [hmeet]
    exact ⟨how, he.unlink hun hu, rfl, hwhy⟩
  | @rollbackDrains j x rest r c' htodo hc =>
    obtain ⟨plan, he, hun⟩ := h
    have hmark : c'.marker = c.marker := by
      rcases Ctx.fithaw_cases hc with ⟨-, -, rfl⟩ | ⟨err, -, rfl⟩ <;> rfl
    have hmeet : m.meet aborted (.rollback ⟨{ j with drain := j.drain.fithaw r }, false⟩) = m := by
      simp [Heard.meet, ← hun]
    rw [hmeet, hmark]
    exact ⟨plan, he, hun⟩
  | @rollbackUnlinks j ans c' r hj hc =>
    obtain ⟨plan, he, hun⟩ := h
    have hun : m.unlinked = false := by
      rw [hun, (j.unlinks_iff.1 hj).2.2]
      rfl
    have hmeet : m.meet aborted (.rollback ⟨{ j with removed := some r }, false⟩) =
        ⟨m.interrupted, !markerLeft (some r)⟩ := by
      simp [Heard.meet, hun]
    rw [hmeet]
    exact ⟨plan, he.unlink hun hc, rfl⟩
  | _ => exact h

private theorem join_join : (m.join d).join d = m.join d := by
  unfold Heard.join
  split
  · next tr _ => cases tr <;> simp [Heard.meet]
  · rfl

private theorem join_congr (ht : d'.tracked = d.tracked) (ha : d'.abort = d.abort) : m.join d' = m.join d := by
  simp only [Heard.join, ht, ha]

/-- `commit_abort` goes on. -/
private theorem keeps_stage {s s' : AbortStage} {k : Resume} (hpc : d.pc = .aborting s k) (hpc' : d'.pc = .aborting s' k)
    (ha : d'.abort = d.abort) (hf : d'.found = d.found) (hj : m.join d = m) (h : d.keeps m ends marker d.pc) :
    d'.keeps (m.join d') ends marker d'.pc := by
  have ht : d'.tracked = d.tracked := by cases k <;> simp [Driver.tracked, hpc, hpc']
  rw [join_congr ht ha, hj, hpc']
  rw [hpc] at h
  cases k with
  | boundary b =>
    show Walking m d'.found ends marker
    rw [hf]
    exact h
  | «await» tr =>
    show tr.keeps m d'.found d'.abort.isSome ends marker
    rw [hf, ha]
    exact h

/-- The driver has not left its program point. -/
private theorem keeps_stay (hpc : d'.pc = d.pc) (ha : d'.abort = d.abort) (hf : d'.found = d.found) (hj : m.join d = m)
    (h : d.keeps m ends marker d.pc) : d'.keeps (m.join d') ends marker d'.pc := by
  have ht : d'.tracked = d.tracked := by simp only [Driver.tracked, hpc]
  rw [join_congr ht ha, hj, hpc]
  unfold Driver.keeps at h ⊢
  rw [hf, ha]
  exact h

/-- The operation goes over to its settlement. -/
private theorem Walking.settling (h : Walking m found ends marker) :
    ∃ how, Ended m found ends marker how ∧ m.unlinked = false ∧ (m.interrupted = false → ∃ plan, how = .prepared plan) := by
  obtain ⟨⟨plan, he⟩, hu⟩ := h
  exact ⟨_, he, hu, fun _ => ⟨plan, rfl⟩⟩

/-- A removal that was answered lets an operation settle `Thawed` only without the marker. -/
private theorem unlinked_of_removedFor {k : RemovalFor} {r : Removal} {reply : Except FreezeFailure Nat}
    (h : Driver.removedFor k false r = some (.thawed, reply)) : markerLeft r = false := by
  cases r with
  | none => cases k <;> cases h
  | some r =>
    rcases r with err | u
    · cases err with
      | absent => rfl
      | _ => cases k <;> cases h
    · rfl

/-- A lost removal does so only after a lost preparation. -/
private theorem beforeIoctl_of_removedFor {k : RemovalFor} {r : Removal} {reply : Except FreezeFailure Nat}
    (h : Driver.removedFor k true r = some (.thawed, reply)) : ∃ failure, k = .beforeIoctl failure := by
  cases k with
  | nothingFrozen => cases h
  | beforeIoctl failure => exact ⟨failure, rfl⟩
  | aborted => cases h

private theorem settled_of_removed {k : RemovalFor} {j : Job Removal} {reply : Except FreezeFailure Nat} {how : PrepEnd}
    (hk : Driver.removedFor k j.lost j.val = some (.thawed, reply)) (hu : m.unlinked = !markerLeft j.val)
    (hwhy : Why m.interrupted how k) : Settled m how := by
  cases hl : j.lost with
  | true =>
    rw [hl] at hk
    obtain ⟨failure, rfl⟩ := beforeIoctl_of_removedFor hk
    obtain ⟨-, created, rfl⟩ := hwhy
    trivial
  | false =>
    rw [hl] at hk
    rw [unlinked_of_removedFor hk] at hu
    have hu : m.unlinked = true := hu
    have hint : (m.interrupted = false → ∃ plan, how = .prepared plan) → Settled m how := by
      intro h
      cases hi : m.interrupted with
      | true => cases how <;> first | trivial | exact hu | exact hu.trans hi.symm
      | false =>
        obtain ⟨plan, rfl⟩ := h hi
        exact hu
    cases k with
    | nothingFrozen => exact hint fun _ => hwhy
    | beforeIoctl failure =>
      obtain ⟨-, created, rfl⟩ := hwhy
      trivial
    | aborted => exact hint hwhy

/-- A rollback that settles `Thawed` has removed the marker. -/
private theorem unlinked_of_rollback {v : Rollback} (hf : v.finished = true) (ht : v.terminal = .thawed) :
    markerLeft v.removed = false := by
  simp only [Rollback.finished, Bool.and_eq_true, Bool.or_eq_true] at hf
  simp only [Rollback.terminal, ite_eq_right_iff] at ht
  cases hinc : v.drain.incomplete with
  | some x =>
    have : v.failure.retainsFrozenState = true := by simp [Rollback.failure, hinc, FreezeFailure.retainsFrozenState]
    simp [this] at ht
  | none =>
    have hrem : v.removed.isSome = true := by simpa [hinc] using hf.2
    obtain ⟨r, hr⟩ := Option.isSome_iff_exists.1 hrem
    rw [hr]
    rcases r with err | u
    · cases err with
      | absent => rfl
      | _ => simp [Rollback.failure, hinc, hr, FreezeFailure.retainsFrozenState] at ht
    · rfl

/-- Every step of the driver keeps what is known of the marker. -/
private theorem keeps_move (hm : Driver.Move cfg c i fresh d c' d' new) (hw : d.WF) (hj : m.join d = m)
    (hp' : d'.pc.published = false) (h : d.keeps m (prepEnds c.log i) c.marker d.pc) :
    d'.keeps (m.join d') (prepEnds c'.log i) c'.marker d'.pc := by
  have hat : ∀ {pc : Pc}, d.pc = pc → d.keeps m (prepEnds c.log i) c.marker pc := fun hpc => hpc ▸ h
  cases hm
  case leave hpc ha => exact Walking.settling (hat hpc)
  case exhaust hpc ha => exact hat hpc
  case advance hpc ha => exact hat hpc
  case decide hpc ho => exact hat hpc
  case spawn hpc hd => exact hat hpc
  case resume hpc hd => exact hat hpc
  case ready hpc hd => exact hat hpc
  case abort b cause hpc =>
    rcases hpc with hpc | hpc | ⟨hpc, rfl⟩ <;> exact hat hpc
  case interrupt tr cause hpc harm hc =>
    have hc : prepEnds c'.log i = prepEnds c.log i ∧ c'.marker = c.marker := by
      rcases hc with rfl | rfl <;> exact ⟨rfl, rfl⟩
    rw [hc.1, hc.2]
    cases tr with
    | prep j =>
      have h : Preparing m d.found d.abort.isSome (prepEnds c.log i) c.marker j := hat hpc
      exact ⟨h.ends, h.fresh, h.marker, rfl, h.unlinked⟩
    | worker t rest j => exact hat hpc
    | removal k j => simp [Driver.armed, Tracked.abortable] at harm
    | rollback j => simp [Driver.armed, Tracked.abortable] at harm
  case mark hpc => exact keeps_stage hpc rfl rfl rfl hj h
  case store hpc => exact keeps_stage hpc rfl rfl rfl hj h
  case swap hpc ht => exact keeps_stage hpc rfl rfl rfl hj h
  case swapNone hpc ht => exact keeps_stage hpc rfl rfl rfl hj h
  case cancel hpc =>
    have hc : c.onThawClaimed.log = c.log ∧ c.onThawClaimed.marker = c.marker := by simp
    rw [hc.1, hc.2]
    exact keeps_stage hpc rfl rfl rfl hj h
  case replyAborted hpc hr => exact keeps_stage hpc rfl rfl rfl hj h
  case replyAbortedNone hpc hr => exact keeps_stage hpc rfl rfl rfl hj h
  case recover hpc hr hh => exact keeps_stage hpc rfl rfl rfl hj h
  case recoverNone hpc hh => exact keeps_stage hpc rfl rfl rfl hj h
  case announce k hpc =>
    cases k with
    | boundary b =>
      cases b with
      | next rest => exact hat hpc
      | _ => exact Walking.settling (hat hpc)
    | «await» tr =>
      have hk : m.join { d with pc := .await tr } = m.join d := join_congr (by simp [Driver.tracked, hpc]) rfl
      show Tracked.keeps (m.join { d with pc := .await tr }) d.found d.abort.isSome (prepEnds c.log i) c.marker tr
      rw [hk, hj]
      exact hat hpc
  case joinDrain => exact keeps_stay rfl rfl rfl hj h
  case joinDrainRestart => exact keeps_stay rfl rfl rfl hj h
  case settleDrain => exact keeps_stay rfl rfl rfl hj h
  case settleFrozen => trivial
  case settleRemove hpc hr hh hu =>
    obtain ⟨how, he, hun, hwhy⟩ := hat hpc
    exact ⟨how, he, hun, hwhy⟩
  case commitNothing hpc ho hf hh hu =>
    obtain ⟨⟨plan, he⟩, hun⟩ := hat hpc
    exact ⟨_, he, hun, plan, rfl⟩
  case commitFrozen => trivial
  case prepared plan hpc =>
    have h : Preparing m d.found d.abort.isSome (prepEnds c.log i) c.marker ⟨.done (.ok plan), false⟩ := hat hpc
    exact ⟨⟨plan, h.ended rfl⟩, h.unlinked⟩
  case prepAborted j hpc hends ha =>
    have h : Preparing m d.found d.abort.isSome (prepEnds c.log i) c.marker j := hat hpc
    have hdone : j.lost = true ∨ ∃ r, j.val = .done r := by
      rcases hends with hl | ⟨failure, rfl⟩
      · exact .inl hl
      · exact .inr ⟨.error failure, rfl⟩
    have hc := created_ending hdone
    have hi : m.interrupted ≠ false := by simp [h.interrupted, ha]
    exact ⟨_, h.ended hc, h.unlinked, fun hi' => absurd hi' hi⟩
  case prepLost j failure hpc hends ha =>
    have h : Preparing m d.found d.abort.isSome (prepEnds c.log i) c.marker j := hat hpc
    have hl : j.lost = true := by
      rcases hends with ⟨hl, -⟩ | ⟨rfl, htask⟩
      · exact hl
      · have hwf : failure.isTask = false := hw.trackedAt hpc
        rw [htask] at hwf
        cases hwf
    have hend : Prep.ending j = .lost j.val.created := by simp [Prep.ending, hl]
    have hi : m.interrupted = false := by rw [h.interrupted, ha]; rfl
    exact ⟨_, h.ended (created_ending (.inl hl)), h.unlinked, hi, _, hend⟩
  case prepFailed failure hpc hf ha =>
    have h : Preparing m d.found d.abort.isSome (prepEnds c.log i) c.marker ⟨.done (.error failure), false⟩ := hat hpc
    refine ⟨_, h.ended (created_ending (.inr ⟨_, rfl⟩)), ?_⟩
    have hi : m.unlinked = m.interrupted := by rw [h.unlinked, h.interrupted, ha]; rfl
    cases he : Prep.ending ⟨.done (.error failure), false⟩ with
    | prepared plan => exact absurd he (Settlement.ending_error failure plan)
    | lost created => trivial
    | _ => exact hi
  case workerLostAborted hpc ha => exact Walking.settling (hat hpc)
  case workerLost hpc ha => exact hat hpc
  case froze hpc hd =>
    subst hd
    exact hat hpc
  case busy hpc hd =>
    subst hd
    exact hat hpc
  case skipped hpc => exact hat hpc
  case notAuthorized hpc ha => exact hat hpc
  case lateResult hpc ho ha => exact hat hpc
  case hardError hpc ha =>
    obtain ⟨⟨plan, he⟩, hun⟩ := hat hpc
    exact ⟨plan, he, hun⟩
  case removed k j terminal reply hpc hk =>
    cases terminal with
    | frozen => trivial
    | thawed =>
      obtain ⟨how, he, hun, hwhy⟩ := hat hpc
      exact ⟨how, he, settled_of_removed hk hun hwhy⟩
  case rollbackLost => trivial
  case rolledBack v hpc hf =>
    cases ht : v.terminal with
    | frozen => trivial
    | thawed =>
      obtain ⟨plan, he, hun⟩ := hat hpc
      refine ⟨_, he, ?_⟩
      show m.unlinked = true
      rw [hun]
      simp only [unlinked_of_rollback hf ht, Bool.not_false]
  case commit terminal reply hpc => cases terminal <;> exact hat hpc
  case finalise terminal reply hpc => cases terminal <;> exact hat hpc
  case retire terminal reply hpc =>
    have hc : (c.retire i).log = c.log ∧ (c.retire i).marker = c.marker := by simp
    rw [hc.1, hc.2]
    cases terminal <;> exact hat hpc
  case scope terminal reply hpc => cases terminal <;> exact hat hpc
  case publish terminal _ _ _ => cases terminal <;> cases hp'
  case publishNone terminal _ _ _ _ => cases terminal <;> cases hp'
  case arm => cases hp'
  case install => cases hp'
  case settle => cases hp'
  case reply => cases hp'
  case replied => cases hp'
  case call tr tr' ht hc =>
    have hends : prepEnds c'.log i = prepEnds c.log i := by
      obtain ⟨more, hn, hcall⟩ := hc.calls.calls
      unfold prepEnds
      rw [hn, List.filterMap_append, List.filterMap_eq_nil_iff.2, List.nil_append]
      intro e he
      have := (hcall e he).2
      cases e <;> first | rfl | cases this
    rw [hends]
    rcases Driver.tracked_cases ht with ⟨hpc, he⟩ | ⟨stage, hpc, he⟩ <;> rw [he] <;> exact keeps_call hc (hat hpc)
  case lose tr ht =>
    have hlose : ∀ {tr : Tracked}, tr.keeps m d.found d.abort.isSome (prepEnds c.log i) c.marker →
        m.meet d.abort.isSome tr = m → (Driver.loseJob tr).keeps (m.meet d.abort.isSome (Driver.loseJob tr)) d.found
          d.abort.isSome (prepEnds c.log i) c.marker := by
      intro tr h hj
      have hmeet : m.meet d.abort.isSome (Driver.loseJob tr) = m := by cases tr <;> exact hj
      rw [hmeet]
      cases tr with
      | prep j =>
        have h : Preparing m d.found d.abort.isSome (prepEnds c.log i) c.marker j := h
        exact ⟨h.ends, h.fresh, h.marker, h.interrupted, h.unlinked⟩
      | _ => exact h
    have hmeet : m.meet d.abort.isSome tr = m := by simpa only [Heard.join, ht] using hj
    rcases Driver.tracked_cases ht with ⟨hpc, he⟩ | ⟨stage, hpc, he⟩ <;> rw [he] <;> exact hlose (hat hpc) hmeet
  case drain hr htodo hc =>
    have hmark : prepEnds c'.log i = prepEnds c.log i ∧ c'.marker = c.marker := by
      rcases Ctx.fithaw_cases hc with ⟨-, -, rfl⟩ | ⟨err, -, rfl⟩ <;> exact ⟨rfl, rfl⟩
    rw [hmark.1, hmark.2]
    exact keeps_stay rfl rfl rfl hj h
  case loseDrain => exact keeps_stay rfl rfl rfl hj h

private theorem found_move (hm : Driver.Move cfg c i fresh d c' d' new) : d'.found = d.found := by
  cases hm
  case froze hd => subst hd; rfl
  case busy hd => subst hd; rfl
  all_goals rfl

/-! ### The invariant -/

/-- The agent beside the observer of the operation `op`. -/
abbrev Observed (cfg : Config) (op : TaskId) (s : Agent × Heard) : Prop :=
  Machine.Reach (Machine.observed (Agent.step cfg) (Heard.observe op)) (fun _ _ _ => True)
    (fun s => Agent.Initial s.1 ∧ s.2 = ⟨false, false⟩) s

structure DriverLoc (m : Heard) (c : Ctx) (i : TaskId) (d : Driver) : Prop where
  keeps : d.pc.published = false → d.keeps m (prepEnds c.log i) c.marker d.pc
  found : ∀ restrict now, .started i restrict now ∈ c.log → now.marker = d.found
  joined : m.join d = m

/-- Nothing is heard of an operation that is yet to come. -/
def Glob (op : TaskId) (m : Heard) (_ : Ctx) (next : TaskId) : Prop := next ≤ op → m = ⟨false, false⟩

def Loc (op : TaskId) (m : Heard) (c : Ctx) (i : TaskId) : Task → Prop
  | .driver d => i = op → DriverLoc m c i d
  | _ => True

theorem Observed.agent {op : TaskId} {s : Agent × Heard} (h : Observed cfg op s) :
    Machine.Reach (Agent.step cfg) (fun _ _ _ => True) Agent.Initial s.1 :=
  @Machine.Reach.of_observed _ _ _ (fun _ _ _ => True) _ _ _ (fun _ => ⟨false, false⟩) _ h

section Reach

variable {op j : TaskId} {a a' : Agent} {act : Action} {t t' u : Task}

/-- Nothing new is heard while the driver of the operation stays as it is. -/
private theorem observe_eq (h : ∀ d, a'.tasks op = some (.driver d) → m.join d = m) : m.observe op a act a' = m := by
  unfold Heard.observe
  split
  · next d hd => exact h d hd
  · rfl

private theorem Loc.joined (ih : a.Holds (Glob op m) (Loc op m)) (ht : a.tasks op = some (.driver d)) : m.join d = m := by
  have hl : op = op → DriverLoc m a.ctx op d := ih.loc ht
  exact (hl rfl).joined

/-- The driver of another task's operation is not disturbed. -/
private theorem Loc.other (hm : Task.Move cfg c i fresh t c' t' new) {n : TaskId} (hg : Tokens.Glob c n)
    (ht : Tokens.Loc c i t) (hj : j ≠ i) (hu : Tokens.Loc c j u) (h : Loc op m c j u) : Loc op m c' j u := by
  cases u with
  | driver d =>
    intro hop
    have h : DriverLoc m c j d := h hop
    refine ⟨fun hp => ?_, fun restrict now he => h.found restrict now (hm.of_started he), h.joined⟩
    have hown : c.owner = some j := by
      have hw : d.WF := hu.wf
      have htok := hw.token_iff
      rw [hp] at htok
      exact hu.owner.1 htok
    have hf := hm.frame hg ht
    obtain ⟨more, hn, hby⟩ := hf.log
    rw [hn, Settlement.prepEnds_append fun e he ha => hj (hby e he j ha), show c'.marker = c.marker from
      congrArg Guarded.marker (hf.guarded j hj hown)]
    exact h.keeps hp
  | _ => trivial

/-- What an operation knows depends on the history and the marker only. -/
private theorem Loc.congr (h : Loc op m c j u) (hlog : c'.log = c.log) (hmark : c'.marker = c.marker) : Loc op m c' j u := by
  cases u with
  | driver d =>
    intro hop
    have h : DriverLoc m c j d := h hop
    exact ⟨by rw [hlog, hmark]; exact h.keeps, by rw [hlog]; exact h.found, h.joined⟩
  | _ => trivial

/-- What is known of the marker in every reachable state. -/
theorem reach {s : Agent × Heard} (h : Observed cfg op s) : s.1.Holds (Glob op s.2) (Loc op s.2) := by
  refine h.invariant (I := fun s => s.1.Holds (Glob op s.2) (Loc op s.2)) (fun s h => ?_) (fun s act s' hr ih hs _ => ?_)
  · obtain ⟨a, m⟩ := s
    obtain ⟨c, n, hb⟩ := h.1.booted
    obtain rfl : m = ⟨false, false⟩ := h.2
    rw [hb]
    exact Agent.boot_holds (fun _ => rfl) fun _ => trivial
  · obtain ⟨a, m⟩ := s
    obtain ⟨a', hs', rfl⟩ := Option.map_eq_some_iff.1 hs
    have hra := Observed.agent hr
    have htok := Tokens.reach hra
    have hreg := (Registry.reach hra).glob
    have hspawn : ∀ {act : Action} {t : Task}, (∀ d, t ≠ .driver d) → m.observe op a act (a.spawn a.ctx t) = m := by
      intro act t ht
      refine observe_eq fun d hd => ?_
      rcases Pool.spawn_tasks hd with ⟨-, hd⟩ | ⟨-, hd⟩
      · exact absurd hd.symm (ht d)
      · exact Loc.joined ih hd
    show a'.Holds (Glob op (m.observe op a act a')) (Loc op (m.observe op a act a'))
    cases Agent.step_move hs' with
    | @task i ch t t' c' new ht hm =>
      by_cases hi : i = op
      · subst hi
        have hbound := ih.bound ht
        have hself : (a.apply i c' t' (new.map .dog)).tasks i = some t' := Pool.apply_self (Nat.ne_of_lt hbound)
        have hglob : ∀ m', Glob i m' c' (a.apply i c' t' (new.map .dog)).next := fun m' hle =>
          absurd (Nat.lt_of_lt_of_le hbound (a.le_apply_next i c' t' (new.map .dog))) (Nat.not_lt.2 hle)
        have hnew : ∀ m' u, new.map Task.dog = some u → Loc i m' c' a.next u := by
          intro m' u hu
          obtain ⟨g, -, rfl⟩ := Option.map_eq_some_iff.1 hu
          trivial
        have hother : ∀ m' j u, j ≠ i → a.tasks j = some u → Loc i m a.ctx j u → Loc i m' c' j u := by
          intro m' j u hj _ _
          cases u with
          | driver d => exact fun hop => absurd hop hj
          | _ => trivial
        cases hm with
        | @driver d d' _ _ hd =>
          have hobs : m.observe i a (.task i ch) (a.apply i c' (.driver d') (new.map .dog)) = m.join d' := by
            simp only [Heard.observe, hself]
          rw [hobs]
          refine ih.apply ht (hglob _) (fun _ => ?_) (hnew _) (hother _)
          have hl : DriverLoc m a.ctx i d := ih.loc ht rfl
          have hw : d.WF := (htok.loc ht).wf
          refine ⟨fun hp' => keeps_move hd hw hl.joined hp' (hl.keeps ?_), fun restrict now he => ?_, join_join⟩
          · by_contra hp
            rw [hd.stays_published hw (by simpa using hp)] at hp'
            cases hp'
          · rw [found_move hd]
            exact hl.found restrict now (Task.Move.of_started (.driver hd) he)
        | _ =>
          rw [observe_eq fun d hd => by rw [hself] at hd; cases hd]
          exact ih.apply ht (hglob _) trivial (hnew _) (hother _)
      · have hobs : m.observe op a (.task i ch) (a.apply i c' t' (new.map .dog)) = m := by
          refine observe_eq fun d hd => ?_
          rcases Pool.apply_tasks hd with ⟨-, hn⟩ | ⟨ho, -⟩ | ⟨-, ht'⟩
          · obtain ⟨g, -, hg⟩ := Option.map_eq_some_iff.1 hn
            cases hg
          · exact absurd ho.symm hi
          · exact Loc.joined ih ht'
        rw [hobs]
        refine ih.apply ht (fun hle => ih.glob (Nat.le_trans (a.le_apply_next _ _ _ _) hle)) ?_ ?_
          fun j u hj hu hl => Loc.other hm htok.glob (htok.loc ht) hj (htok.loc hu) hl
        · cases t' with
          | driver d => exact fun hop => absurd hop hi
          | _ => trivial
        · intro u hu
          obtain ⟨g, -, rfl⟩ := Option.map_eq_some_iff.1 hu
          trivial
    | freeze restrict hst =>
      have hobs : ∀ c', m.observe op a (.freeze restrict) (a.spawn c' (.driver (.start ⟨⟩ restrict a.ctx))) = m := by
        intro c'
        refine observe_eq fun d hd => ?_
        rcases Pool.spawn_tasks hd with ⟨-, hd⟩ | ⟨-, ht⟩
        · cases hd
          rfl
        · exact Loc.joined ih ht
      rw [hobs]
      have hn : (Agent.freezeCtx cfg a.ctx a.next restrict).log =
          [.spawned a.next .prep, .started a.next restrict a.ctx.snapshot] ++ a.ctx.log := rfl
      refine ih.spawn (fun hle => ih.glob (Nat.le_of_succ_le hle)) (fun hop => ?_) fun j u hj hu hl => ?_
      · -- nothing is in the history of the new operation
        have hm : m = ⟨false, false⟩ := ih.glob (Nat.le_of_eq hop)
        have hunheard : ∀ e ∈ a.ctx.log, e.author ≠ some a.next := fun e he => hreg.unheard he
        have hends : prepEnds (a.ctx.log ++ []) a.next = [] := Settlement.prepEnds_append hunheard
        rw [List.append_nil] at hends
        refine ⟨fun _ => ⟨hends, (fun h => by cases h), ?_, by rw [hm]; rfl, by rw [hm]⟩, fun r now he => ?_, rfl⟩
        · exact (Bool.or_false _).symm
        · rcases List.mem_append.1 (hn ▸ he) with he | he
          · have he : Event.started a.next r now = .started a.next restrict a.ctx.snapshot := by simpa using he
            cases he
            rfl
          · exact absurd rfl (hunheard _ he)
      · cases u with
        | driver d =>
          intro hop
          have hl : DriverLoc m a.ctx j d := hl hop
          refine ⟨fun hp => absurd hst ((htok.loc hu).not_thawed hp), fun r now he => hl.found r now ?_, hl.joined⟩
          refine (List.mem_append.1 (hn ▸ he)).resolve_left fun he => ?_
          simp [Nat.ne_of_lt hj] at he
        | _ => trivial
    | refused =>
      rw [observe_eq fun d hd => Loc.joined ih hd]
      exact ih
    | thaw =>
      rw [hspawn (by rintro d ⟨⟩)]
      exact ih.spawn (fun hle => ih.glob (Nat.le_of_succ_le hle)) trivial fun j u _ _ hl => hl
    | status =>
      rw [hspawn (by rintro d ⟨⟩)]
      exact ih.spawn (fun hle => ih.glob (Nat.le_of_succ_le hle)) trivial fun j u _ _ hl => hl
    | @env _ c' he hact =>
      have hobs : m.observe op a act { a with ctx := c' } = m := observe_eq fun d hd => Loc.joined ih hd
      rw [hobs]
      have hsame : c'.log = a.ctx.log ∧ c'.marker = a.ctx.marker := by cases he <;> simp
      exact ih.withCtx ih.glob fun j u _ hl => hl.congr hsame.1 hsame.2
    | crash =>
      rw [observe_eq fun d hd => ?_]
      · exact Agent.boot_holds (fun hle => ih.glob (Nat.le_of_succ_le hle)) fun _ => trivial
      · have hnone : (Agent.boot a.ctx a.next).Holds (fun _ _ => True) (fun _ _ t => ∀ d, t ≠ .driver d) :=
          Agent.boot_holds trivial fun _ d h => by cases h
        exact absurd rfl (hnone.loc hd d)

end Reach

/-- What is left of the marker is what was found exactly in the cases of `Keeps`. -/
private theorem Ended.keeps_iff {how : PrepEnd} (h : Ended m found ends marker how) (hs : Settled m how) :
    marker = found ↔ m.Keeps found how := by
  have hm := h.marker
  have hfresh := h.fresh
  have hother : m.unlinked = m.interrupted → how.created = false → (marker = found ↔ (m.interrupted = true → found = false)) := by
    intro hu hc
    rw [hm, hu, hc]
    cases m.interrupted <;> cases found <;> simp
  cases how with
  | prepared plan =>
    have hu : m.unlinked = true := hs
    rw [hm, hu, hfresh rfl]
    exact ⟨fun _ => trivial, fun _ => rfl⟩
  | fsyncFailed =>
    have hu : m.unlinked = m.interrupted := hs
    rw [hm, hu, hfresh rfl]
    show (!m.interrupted && true) = false ↔ m.interrupted = true
    simp
  | lost created =>
    rw [hm]
    show (!m.unlinked && (found || created)) = found ↔ if m.unlinked = true then found = false else created = false
    have hfresh : created = true → found = false := hfresh
    cases m.unlinked <;> cases found <;> cases created <;> simp at hfresh ⊢
  | planFailed => exact hother hs rfl
  | alreadyPresent => exact hother hs rfl
  | openFailed => exact hother hs rfl

end MarkerKept

/-! ### The result -/

/-- An operation that settles `Thawed` leaves the marker as it found it exactly in the cases of `Heard.Keeps`: its
preparation succeeded; or its `fsync` failed, and an abort had arrived before that; or it was lost, and the marker was
then removed and not there before, or was neither removed nor created; or it failed otherwise, and either no abort had
arrived before or the marker was not there. -/
theorem marker_kept_iff {cfg : Config} {op : TaskId} {s : Agent × Heard} {act : Action} {a' : Agent}
    (h : MarkerKept.Observed cfg op s) (hs : Agent.step cfg s.1 act = some a') {restrict : Option (List Path)}
    {s₀ : Snapshot} (hst : .started op restrict s₀ ∈ s.1.ctx.log) {now : Snapshot}
    (hpub : .published op .thawed now ∈ news s.1.ctx a'.ctx) :
    a'.ctx.state = .thawed ∧
      ∃ how, prepEnds a'.ctx.log op = [how] ∧ (a'.ctx.marker = s₀.marker ↔ s.2.Keeps s₀.marker how) := by
  obtain ⟨d, terminal, reply, ht, hw, hpc, -, hctx, -⟩ :=
    Settlement.publishing (MarkerKept.Observed.agent h) hs ⟨restrict, s₀, hst⟩ hpub
  have hlog : a'.ctx.log = [.published op terminal.state s.1.ctx.snapshot] ++ s.1.ctx.log := by rw [hctx]; rfl
  obtain rfl : terminal = .thawed := by
    rw [news_eq hlog, List.mem_singleton] at hpub
    cases terminal with
    | thawed => rfl
    | frozen => cases hpub
  have hd : MarkerKept.DriverLoc s.2 s.1.ctx op d := (MarkerKept.reach h).loc ht rfl
  have hkeeps := hd.keeps (by rw [hpc]; rfl)
  rw [hpc] at hkeeps
  obtain ⟨how, he, hsettled⟩ := hkeeps
  have hends : prepEnds a'.ctx.log op = prepEnds s.1.ctx.log op := by rw [hlog]; rfl
  have hmark : a'.ctx.marker = s.1.ctx.marker := by rw [hctx]; rfl
  refine ⟨by rw [hctx]; rfl, how, hends.trans he.ends, ?_⟩
  rw [hmark, hd.found restrict s₀ hst]
  exact he.keeps_iff hsettled

/-- The history says that the operation 1 began without the marker. -/
private def Event.beginsUnmarked : Event → Bool
  | .started i _ now => i = 1 && !now.marker
  | _ => false

private def Event.thawsOne : Event → Bool
  | .published i .thawed _ => i = 1
  | _ => false

/-- The state before and after the publication of a run of the operation 1 that began without the marker. -/
private theorem exists_publication {log : List Event} {a : Agent} (hb : a.ctx.log.any Event.beginsUnmarked = true)
    (hp : log.any Event.thawsOne = true) :
    (∃ restrict s₀, .started 1 restrict s₀ ∈ a.ctx.log ∧ s₀.marker = false) ∧ ∃ now, .published 1 .thawed now ∈ log := by
  obtain ⟨e, he, hbegins⟩ := List.any_eq_true.1 hb
  obtain ⟨e', he', hthaws⟩ := List.any_eq_true.1 hp
  constructor
  · cases e <;> simp only [Event.beginsUnmarked, Bool.false_eq_true, Bool.and_eq_true, decide_eq_true_eq,
      Bool.not_eq_true'] at hbegins
    obtain ⟨rfl, hm⟩ := hbegins
    exact ⟨_, _, he, hm⟩
  · unfold Event.thawsOne at hthaws
    split at hthaws
    · rw [← of_decide_eq_true hthaws]
      exact ⟨_, he'⟩
    · cases hthaws

/-- A freeze whose marker cannot be made durable settles `Thawed` and leaves the marker. -/
theorem fsync_failure_leaves_marker :
    ∃ a a', Machine.Reach (Agent.step ⟨60, 30, 300⟩) (fun _ _ _ => True) Agent.Initial a ∧
      Agent.step ⟨60, 30, 300⟩ a (Script.driver 1 .go) = some a' ∧
      (∃ restrict s₀, .started 1 restrict s₀ ∈ a.ctx.log ∧ s₀.marker = false) ∧
      (∃ now, .published 1 .thawed now ∈ news a.ctx a'.ctx) ∧ a'.ctx.marker = true := by
  obtain ⟨a, hr, hp⟩ : ∃ a, Machine.Reach (Agent.step ⟨60, 30, 300⟩) (fun _ _ _ => True) Agent.Initial a ∧
      (a.ctx.log.any Event.beginsUnmarked && (Agent.step ⟨60, 30, 300⟩ a (Script.driver 1 .go)).any fun a' =>
        (news a.ctx a'.ctx).any Event.thawsOne && a'.ctx.marker) = true :=
    Machine.Reach.of_execute (fun _ _ _ => true) (fun _ _ _ _ => trivial)
      ([.freeze none, Script.driver 1 (.job (.table (.ok []))), Script.driver 1 (.job (.create (.ok ()))),
        Script.driver 1 (.job (.fsync (.error (.other 5)))), Script.driver 1 .done] ++ Script.drive 1 4)
      (fun a => a.ctx.log.any Event.beginsUnmarked && (Agent.step ⟨60, 30, 300⟩ a (Script.driver 1 .go)).any fun a' =>
        (news a.ctx a'.ctx).any Event.thawsOne && a'.ctx.marker)
      (Agent.cold_initial false) (by decide) (by decide)
  simp only [Bool.and_eq_true] at hp
  cases hs : Agent.step ⟨60, 30, 300⟩ a (Script.driver 1 .go) with
  | none => rw [hs] at hp; cases hp.2
  | some a' =>
    rw [hs] at hp
    simp only [Option.any_some, Bool.and_eq_true] at hp
    obtain ⟨hbegins, hthaws⟩ := exists_publication hp.1 hp.2.1
    exact ⟨a, a', hr, hs, hbegins, hthaws, hp.2.2⟩

/-- The same freeze, interrupted by its deadline before the `fsync` fails. -/
private def interrupted : List Action :=
  [.freeze none, Script.driver 1 (.job (.table (.ok []))), Script.driver 1 (.job (.create (.ok ()))), .tick 60,
    Script.driver 1 .deadline] ++ Script.drive 1 7 ++
    [Script.driver 1 (.job (.fsync (.error (.other 5)))), Script.driver 1 .done, Script.driver 1 .go,
      Script.driver 1 (.job (.unlink .ok)), Script.driver 1 .done] ++ Script.drive 1 4

theorem marker_kept_iff_of_interrupted :
    ∃ s a', MarkerKept.Observed ⟨60, 30, 300⟩ 1 s ∧ Agent.step ⟨60, 30, 300⟩ s.1 (Script.driver 1 .go) = some a' ∧
      prepEnds a'.ctx.log 1 = [.fsyncFailed] ∧ a'.ctx.marker = false := by
  obtain ⟨s, hr, hp⟩ : ∃ s, MarkerKept.Observed ⟨60, 30, 300⟩ 1 s ∧
      (s.2.interrupted && s.1.ctx.log.any Event.beginsUnmarked &&
        (Agent.step ⟨60, 30, 300⟩ s.1 (Script.driver 1 .go)).any fun a' =>
          (news s.1.ctx a'.ctx).any Event.thawsOne && decide (prepEnds a'.ctx.log 1 = [.fsyncFailed])) = true :=
    Machine.Reach.of_execute (fun _ _ _ => true) (fun _ _ _ _ => trivial) interrupted
      (fun s : Agent × Heard => s.2.interrupted && s.1.ctx.log.any Event.beginsUnmarked &&
        (Agent.step ⟨60, 30, 300⟩ s.1 (Script.driver 1 .go)).any fun a' =>
          (news s.1.ctx a'.ctx).any Event.thawsOne && decide (prepEnds a'.ctx.log 1 = [.fsyncFailed]))
      (s := (Agent.cold false, ⟨false, false⟩)) ⟨Agent.cold_initial false, rfl⟩ (by decide) (by decide)
  simp only [Bool.and_eq_true] at hp
  cases hs : Agent.step ⟨60, 30, 300⟩ s.1 (Script.driver 1 .go) with
  | none => rw [hs] at hp; cases hp.2
  | some a' =>
    rw [hs] at hp
    simp only [Option.any_some, Bool.and_eq_true, decide_eq_true_eq] at hp
    obtain ⟨⟨hint, hbegins⟩, hthaws, hends⟩ := hp
    obtain ⟨⟨restrict, s₀, hst, hm⟩, now, hpub⟩ := exists_publication hbegins hthaws
    obtain ⟨-, how, hends', hiff⟩ := marker_kept_iff hr hs hst hpub
    obtain rfl : how = .fsyncFailed := by
      rw [hends] at hends'
      exact (List.singleton_inj.1 hends').symm
    exact ⟨s, a', hr, hs, hends, (hiff.2 hint).trans hm⟩

end Qeminga
