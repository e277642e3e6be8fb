import Qeminga.Handlers
import Qeminga.Lib.Machine

/-!
# The walks of `guest-get-fsinfo`

A walk belongs to its slot, not to its request: a request may give up on a walk that a blocked `statfs` holds, and the
slot stays taken until the walk has ended.  So the walks alive at once are bounded whatever becomes of the requests, and a
request without arguments is refused exactly when the bound is reached.  A reply is the whole mount table, or an error.
-/

namespace Qeminga

namespace Fsinfo

open Handlers

variable {enc : Encoder (List FilesystemInfo)} {joinError : Nat → String} {s s' : Fsinfo} {act : FsinfoAction}
  {walk walk' : FsinfoWalk}

/-! ### What a step can do -/

/-- The steps of a walk. -/
inductive WalkMove (enc : Encoder (List FilesystemInfo)) (walk : FsinfoWalk) : FsinfoWalk → Prop
  | unread {err : Proto.Error} (h : walk.pc = .reading) : WalkMove enc walk { walk with pc := .returned (.error err) }
  | read {table : List MountEntry} (h : walk.pc = .reading) :
    WalkMove enc walk { walk with pc := .sizing table [], table := some table }
  | asked {m : MountEntry} {todo : List MountEntry} {info : List FilesystemInfo} (answer : Option Statfs)
    (h : walk.pc = .sizing (m :: todo) info) (hq : sizesAreQueried m.fsType = true) :
    WalkMove enc walk { walk with
      pc := .sizing todo (info ++ [filesystemInfo m answer])
      sizes := walk.sizes ++ [(m, answer)]
      asked := walk.asked ++ [m.mountPoint] }
  | skipped {m : MountEntry} {todo : List MountEntry} {info : List FilesystemInfo}
    (h : walk.pc = .sizing (m :: todo) info) (hq : sizesAreQueried m.fsType = false) :
    WalkMove enc walk { walk with
      pc := .sizing todo (info ++ [filesystemInfo m none])
      sizes := walk.sizes ++ [(m, none)] }
  | finished {info : List FilesystemInfo} (h : walk.pc = .sizing [] info) :
    WalkMove enc walk { walk with pc := .returned (boundedReply enc "fsinfo" info maxFsinfoReplyBytes) }
  | panicked (h : walk.alive = true) : WalkMove enc walk { walk with pc := .panicked }

/-- The state after a walk has moved: a walk that has ended gives its slot back. -/
def moved (s : Fsinfo) (w : Nat) (walk' : FsinfoWalk) : Fsinfo :=
  { s with walks := s.walks.set w walk', permits := s.permits + if walk'.alive then 0 else 1 }

/-- Everything a step can do. -/
inductive StepCases (enc : Encoder (List FilesystemInfo)) (joinError : Nat → String) (s : Fsinfo) :
    FsinfoAction → Fsinfo → Prop
  | unfit {req : Proto.Request} {err : Proto.Error} (h : noArguments req = .error err) :
    StepCases enc joinError s (.request req) (s.turnAway err)
  | refused {req : Proto.Request} (hreq : noArguments req = .ok ()) (h : s.permits = 0) :
    StepCases enc joinError s (.request req) (s.turnAway refusal)
  | admitted {req : Proto.Request} (hreq : noArguments req = .ok ()) (h : 0 < s.permits) :
    StepCases enc joinError s (.request req)
      { s with
        permits := s.permits - 1
        walks := s.walks ++ [⟨.reading, none, [], []⟩]
        requests := s.requests ++ [.waiting s.walks.length (s.now + fsinfoTimeoutSecs)] }
  | walk {act : FsinfoAction} {w : Nat} {walk walk' : FsinfoWalk} (hw : s.walks[w]? = some walk) (h : WalkMove enc walk walk') :
    StepCases enc joinError s act (s.moved w walk')
  | tick (secs : Nat) : StepCases enc joinError s (.tick secs) { s with now := s.now + secs }
  | poll {r w deadline : Nat} {reply : Except Proto.Error Proto.Json} (hr : s.requests[r]? = some (.waiting w deadline))
    (h : s.reply joinError w deadline = some reply) :
    StepCases enc joinError s (.poll r) { s with requests := s.requests.set r (.answered (some w) reply) }

theorem step_cases (h : step enc joinError s act = some s') : StepCases enc joinError s act s' := by
  cases act with
  | request req =>
    obtain rfl := Option.some.inj h
    unfold request
    split
    · next err hreq => exact .unfit hreq
    · next hreq =>
      split
      · next hp => exact .refused hreq hp
      · next hp => exact .admitted hreq (Nat.pos_of_ne_zero hp)
  | mounts w answer =>
    obtain ⟨walk, hw, h⟩ := Option.bind_eq_some_iff.1 h
    unfold mounts at h
    split at h
    · next hpc h =>
      obtain rfl := Option.some.inj h
      exact .walk hw (.unread hpc)
    · next hpc h =>
      obtain rfl := Option.some.inj h
      exact .walk hw (.read hpc)
    · cases h
  | size w answer =>
    obtain ⟨walk, hw, h⟩ := Option.bind_eq_some_iff.1 h
    unfold size at h
    split at h
    · next m todo info hpc =>
      split at h
      · next hq =>
        obtain rfl := Option.some.inj h
        exact .walk hw (.asked answer hpc hq)
      · next hq =>
        obtain rfl := Option.some.inj h
        exact .walk hw (.skipped hpc (by simpa using hq))
    · cases h
  | finish w =>
    obtain ⟨walk, hw, h⟩ := Option.bind_eq_some_iff.1 h
    unfold finish at h
    split at h
    · next info hpc =>
      obtain rfl := Option.some.inj h
      exact .walk hw (.finished hpc)
    · cases h
  | panic w =>
    obtain ⟨walk, hw, h⟩ := Option.bind_eq_some_iff.1 h
    split at h
    · next halive =>
      obtain rfl := Option.some.inj h
      exact .walk hw (.panicked halive)
    · cases h
  | tick secs =>
    obtain rfl := Option.some.inj h
    exact .tick secs
  | poll r =>
    simp only [step] at h
    split at h
    · next w deadline hr =>
      obtain ⟨reply, hreply, rfl⟩ := Option.map_eq_some_iff.1 h
      exact .poll hr hreply
    · cases h

theorem WalkMove.alive (h : WalkMove enc walk walk') : walk.alive = true := by
  cases h with
  | panicked h => exact h
  | _ => simp_all [FsinfoWalk.alive]

/-! ### What a walk computes -/

/-- A reply that is given was not cut, and its line fits the bound. -/
theorem boundedReply_eq_ok {α : Type} {enc : Encoder α} {what : String} {value : α} {bound : Nat} {v : Proto.Json} :
    boundedReply enc what value bound = .ok v ↔
      (∃ length, enc.length value = .ok length ∧ length + maxResponseEnvelopeBytes ≤ bound) ∧ enc.value value = .ok v := by
  unfold boundedReply
  cases hlength : enc.length value with
  | error err => simp
  | ok length =>
    by_cases hbound : bound < length + maxResponseEnvelopeBytes
    · simp [hbound]
    · cases hvalue : enc.value value <;> simp [hbound, Nat.le_of_not_lt hbound]

/-- The entries of the mounts that the walk has done. -/
def info (walk : FsinfoWalk) : List FilesystemInfo := walk.sizes.map fun x => filesystemInfo x.1 x.2

/-- The reply `v` of the walk is its whole table, each mount with the sizes that `statfs` gave, on a line of at most 1 MiB. -/
structure Complete (enc : Encoder (List FilesystemInfo)) (walk : FsinfoWalk) (v : Proto.Json) : Prop where
  table : walk.table = some (walk.sizes.map Prod.fst)
  fits : ∃ length, enc.length (info walk) = .ok length ∧ length + maxResponseEnvelopeBytes ≤ maxFsinfoReplyBytes
  value : enc.value (info walk) = .ok v

/-- What the history of a walk says about where it stands. -/
def Stands (enc : Encoder (List FilesystemInfo)) (walk : FsinfoWalk) : Prop :=
  match walk.pc with
  | .reading => walk.sizes = []
  | .sizing todo entries => walk.table = some (walk.sizes.map Prod.fst ++ todo) ∧ entries = info walk
  | .returned (.ok v) => Complete enc walk v
  | _ => True

/-- The mounts whose `statfs` may block are not asked for. -/
structure Careful (walk : FsinfoWalk) : Prop where
  asked : walk.asked = (walk.sizes.filter fun x => sizesAreQueried x.1.fsType).map fun x => x.1.mountPoint
  skipped : ∀ x ∈ walk.sizes, sizesAreQueried x.1.fsType = false → x.2 = none

theorem WalkMove.stands (h : WalkMove enc walk walk') (hs : Stands enc walk) : Stands enc walk' := by
  cases h with
  | unread h => trivial
  | panicked h => trivial
  | read h =>
    simp only [Stands, h] at hs
    simp [Stands, info, hs]
  | asked answer h hq =>
    simp only [Stands, h] at hs
    simp [Stands, info, hs.1, hs.2]
  | skipped h hq =>
    simp only [Stands, h] at hs
    simp [Stands, info, hs.1, hs.2]
  | finished h =>
    simp only [Stands, h, List.append_nil] at hs
    unfold Stands
    dsimp only
    generalize hreply : boundedReply enc "fsinfo" _ maxFsinfoReplyBytes = reply
    cases reply with
    | error err => trivial
    | ok v =>
      rw [hs.2] at hreply
      obtain ⟨hfits, hvalue⟩ := boundedReply_eq_ok.1 hreply
      exact ⟨hs.1, hfits, hvalue⟩

theorem WalkMove.careful (h : WalkMove enc walk walk') (hs : Careful walk) : Careful walk' := by
  cases h with
  | asked answer h hq =>
    refine ⟨by simp [hs.asked, hq], fun x hx => ?_⟩
    rcases List.mem_append.1 hx with hx | hx
    · exact hs.skipped x hx
    · obtain rfl := List.mem_singleton.1 hx
      intro hn
      rw [hq] at hn
      cases hn
  | skipped h hq =>
    refine ⟨by simp [hs.asked, hq], fun x hx => ?_⟩
    rcases List.mem_append.1 hx with hx | hx
    · exact hs.skipped x hx
    · obtain rfl := List.mem_singleton.1 hx
      exact fun _ => rfl
  | _ => exact ⟨hs.asked, hs.skipped⟩

/-- Where `statfs` has one answer for each mount point, the entries of a walk are those of `fs_info`. -/
theorem Careful.info_eq_fsInfo {statfs : Path → Option Statfs} (h : Careful walk)
    (hanswer : ∀ x ∈ walk.sizes, sizesAreQueried x.1.fsType = true → x.2 = statfs x.1.mountPoint) :
    info walk = fsInfo (walk.sizes.map Prod.fst) statfs := by
  unfold info fsInfo
  rw [List.map_map]
  refine List.map_congr_left fun x hx => ?_
  cases hq : sizesAreQueried x.1.fsType with
  | true => simp [hq, hanswer x hx hq]
  | false => simp [hq, h.skipped x hx hq]

/-! ### The invariant -/

/-- The walk of the request `r`. -/
def owner (s : Fsinfo) (r : Nat) : Option Nat := s.requests[r]?.bind FsinfoRequest.walk?

structure Inv (enc : Encoder (List FilesystemInfo)) (s : Fsinfo) : Prop where
  /-- A slot is free or held by a walk. -/
  permits : s.permits + s.walks.countP FsinfoWalk.alive = maxFsinfoWalks
  walks : ∀ walk ∈ s.walks, Stands enc walk ∧ Careful walk
  deadline : ∀ r w deadline : Nat, s.requests[r]? = some (.waiting w deadline) → deadline ≤ s.now + fsinfoTimeoutSecs
  answered : ∀ (r : Nat) w v, s.requests[r]? = some (.answered w (.ok v)) →
    ∃ n walk, w = some n ∧ s.walks[n]? = some walk ∧ walk.pc = .returned (.ok v)
  owned : ∀ r w : Nat, s.owner r = some w → w < s.walks.length
  /-- No two requests have the same walk. -/
  own : ∀ r r' w : Nat, s.owner r = some w → s.owner r' = some w → r = r'

theorem inv_start : Inv enc start where
  permits := rfl
  walks := fun _ h => absurd h List.not_mem_nil
  deadline := by rintro r w deadline ⟨⟩
  answered := by rintro r w v ⟨⟩
  owned := by rintro r w ⟨⟩
  own := by rintro r r' w ⟨⟩

private theorem getElem?_concat {α : Type} {xs : List α} {x y : α} {r : Nat} (h : (xs ++ [x])[r]? = some y) :
    xs[r]? = some y ∨ (r = xs.length ∧ y = x) := by
  rw [List.getElem?_append] at h
  split at h
  · exact .inl h
  · next hr =>
    have hlt := (List.getElem?_eq_some_iff.1 h).1
    simp only [List.length_singleton] at hlt
    obtain rfl : r = xs.length := by omega
    rw [Nat.sub_self] at h
    exact .inr ⟨rfl, (Option.some.inj h).symm⟩

/-- A request that is new has no walk, or one that no other request has. -/
private theorem owner_concat {new : FsinfoRequest} {r w : Nat}
    (h : ((s.requests ++ [new])[r]?.bind FsinfoRequest.walk?) = some w) :
    s.owner r = some w ∨ (r = s.requests.length ∧ new.walk? = some w) := by
  obtain ⟨req, hreq, hw⟩ := Option.bind_eq_some_iff.1 h
  rcases getElem?_concat hreq with hreq | ⟨hr, rfl⟩
  · exact .inl (Option.bind_eq_some_iff.2 ⟨req, hreq, hw⟩)
  · exact .inr ⟨hr, hw⟩

theorem Inv.turnAway (h : Inv enc s) (err : Proto.Error) : Inv enc (s.turnAway err) where
  permits := h.permits
  walks := h.walks
  deadline := fun r w deadline hr => by
    rcases getElem?_concat hr with hr | ⟨-, ⟨⟩⟩
    exact h.deadline r w deadline hr
  answered := fun r w v hr => by
    rcases getElem?_concat hr with hr | ⟨-, ⟨⟩⟩
    exact h.answered r w v hr
  owned := fun r w hr => by
    rcases owner_concat hr with hr | ⟨-, ⟨⟩⟩
    exact h.owned r w hr
  own := fun r r' w hr hr' => by
    rcases owner_concat hr with hr | ⟨-, ⟨⟩⟩
    rcases owner_concat hr' with hr' | ⟨-, ⟨⟩⟩
    exact h.own r r' w hr hr'

theorem Inv.admitted (h : Inv enc s) (hp : 0 < s.permits) :
    Inv enc { s with
      permits := s.permits - 1
      walks := s.walks ++ [⟨.reading, none, [], []⟩]
      requests := s.requests ++ [.waiting s.walks.length (s.now + fsinfoTimeoutSecs)] } where
  permits := by
    have hpermits := h.permits
    simp only [List.countP_append, List.countP_singleton, FsinfoWalk.alive, if_true]
    omega
  walks := fun walk hwalk => by
    rcases List.mem_append.1 hwalk with hwalk | hwalk
    · exact h.walks walk hwalk
    · obtain rfl := List.mem_singleton.1 hwalk
      exact ⟨rfl, rfl, fun x hx => absurd hx List.not_mem_nil⟩
  deadline := fun r w deadline hr => by
    rcases getElem?_concat hr with hr | ⟨-, heq⟩
    · exact h.deadline r w deadline hr
    · cases heq
      exact Nat.le_refl _
  answered := fun r w v hr => by
    rcases getElem?_concat hr with hr | ⟨-, ⟨⟩⟩
    obtain ⟨n, walk, hn, hwalk, hpc⟩ := h.answered r w v hr
    exact ⟨n, walk, hn, List.getElem?_append_left (List.getElem?_eq_some_iff.1 hwalk).1 ▸ hwalk, hpc⟩
  owned := fun r w hr => by
    show w < (s.walks ++ [_]).length
    rw [List.length_append]
    rcases owner_concat hr with hr | ⟨-, heq⟩
    · exact Nat.lt_add_right _ (h.owned r w hr)
    · cases heq
      exact Nat.lt_add_one _
  own := fun r r' w hr hr' => by
    rcases owner_concat hr with hr | ⟨hlast, heq⟩
    · rcases owner_concat hr' with hr' | ⟨-, heq⟩
      · exact h.own r r' w hr hr'
      · cases heq
        exact absurd (h.owned r _ hr) (Nat.lt_irrefl _)
    · cases heq
      rcases owner_concat hr' with hr' | ⟨hlast', -⟩
      · exact absurd (h.owned r' _ hr') (Nat.lt_irrefl _)
      · exact hlast.trans hlast'.symm

/-- A walk that moves keeps its slot, or ends and gives it back. -/
theorem Inv.moved {w : Nat} (h : Inv enc s) (hw : s.walks[w]? = some walk) (hmove : WalkMove enc walk walk') :
    Inv enc (s.moved w walk') where
  permits := by
    have hpermits := h.permits
    obtain ⟨hlt, heq⟩ := List.getElem?_eq_some_iff.1 hw
    have halive : s.walks[w].alive = true := heq ▸ hmove.alive
    have hpos := List.boole_getElem_le_countP (p := FsinfoWalk.alive) hlt
    simp only [Fsinfo.moved, List.countP_set hlt, halive, if_true] at hpos ⊢
    split <;> omega
  walks := fun x hx => by
    rcases List.mem_or_eq_of_mem_set hx with hx | rfl
    · exact h.walks x hx
    · obtain ⟨hstands, hcareful⟩ := h.walks walk (List.mem_of_getElem? hw)
      exact ⟨hmove.stands hstands, hmove.careful hcareful⟩
  deadline := h.deadline
  answered := fun r w' v hr => by
    obtain ⟨n, x, hn, hx, hpc⟩ := h.answered r w' v hr
    refine ⟨n, x, hn, ?_, hpc⟩
    have hne : w ≠ n := by
      rintro rfl
      obtain rfl := Option.some.inj (hw.symm.trans hx)
      have halive := hmove.alive
      rw [FsinfoWalk.alive, hpc] at halive
      cases halive
    exact (List.getElem?_set_ne hne).trans hx
  owned := fun r w' hr => by
    show w' < (s.walks.set w walk').length
    rw [List.length_set]
    exact h.owned r w' hr
  own := h.own

theorem Inv.polled {r w deadline : Nat} {reply : Except Proto.Error Proto.Json} (h : Inv enc s)
    (hr : s.requests[r]? = some (.waiting w deadline)) (hreply : s.reply joinError w deadline = some reply) :
    Inv enc { s with requests := s.requests.set r (.answered (some w) reply) } := by
  have howner : ∀ r', ({ s with requests := s.requests.set r (.answered (some w) reply) } : Fsinfo).owner r' =
      s.owner r' := by
    intro r'
    unfold owner
    by_cases hne : r = r'
    · subst hne
      rw [List.getElem?_set_self (List.getElem?_eq_some_iff.1 hr).1, hr]
      rfl
    · rw [List.getElem?_set_ne hne]
  have hcases : ∀ {r' : Nat} {req : FsinfoRequest}, (s.requests.set r (.answered (some w) reply))[r']? = some req →
      s.requests[r']? = some req ∨ req = .answered (some w) reply := by
    intro r' req hreq
    by_cases hne : r = r'
    · subst hne
      rw [List.getElem?_set_self (List.getElem?_eq_some_iff.1 hr).1] at hreq
      exact .inr (Option.some.inj hreq).symm
    · rw [List.getElem?_set_ne hne] at hreq
      exact .inl hreq
  exact {
    permits := h.permits
    walks := h.walks
    deadline := fun r' w' deadline' hreq => by
      rcases hcases hreq with hreq | heq
      · exact h.deadline r' w' deadline' hreq
      · cases heq
    answered := fun r' w' v hreq => by
      rcases hcases hreq with hreq | heq
      · exact h.answered r' w' v hreq
      · cases heq
        unfold Fsinfo.reply at hreply
        split at hreply
        · next result hresult =>
          obtain rfl := Option.some.inj hreply
          obtain ⟨x, hx, hpc⟩ := Option.map_eq_some_iff.1 hresult
          exact ⟨w, x, rfl, hx, hpc⟩
        · cases hreply
        · split at hreply <;> cases hreply
    owned := fun r' w' hreq => h.owned r' w' ((howner r').symm.trans hreq)
    own := fun r' r'' w' hreq hreq' =>
      h.own r' r'' w' ((howner r').symm.trans hreq) ((howner r'').symm.trans hreq') }

theorem Inv.step (h : Inv enc s) (hs : Fsinfo.step enc joinError s act = some s') : Inv enc s' := by
  cases step_cases hs with
  | unfit hreq => exact h.turnAway _
  | refused hreq hp => exact h.turnAway _
  | admitted hreq hp => exact h.admitted hp
  | walk hw hmove => exact h.moved hw hmove
  | tick secs =>
    exact { h with deadline := fun r w deadline hr => (h.deadline r w deadline hr).trans (by simp only; omega) }
  | poll hr hreply => exact h.polled hr hreply

/-- Any step, in any order. -/
def Anyhow : Fsinfo → FsinfoAction → Fsinfo → Prop := fun _ _ _ => True

theorem inv_of_reach (h : Machine.Reach (Fsinfo.step enc joinError) Anyhow (· = start) s) : Inv enc s :=
  h.invariant (fun _ h => h ▸ inv_start) fun _ _ _ _ hi hs _ => hi.step hs

/-! ### Answers -/

/-- An answer is final. -/
theorem answered_step {r : Nat} {w : Option Nat} {reply : Except Proto.Error Proto.Json}
    (h : s.requests[r]? = some (.answered w reply)) (hs : Fsinfo.step enc joinError s act = some s') :
    s'.requests[r]? = some (.answered w reply) := by
  have hlt := (List.getElem?_eq_some_iff.1 h).1
  cases step_cases hs with
  | unfit hreq => exact (List.getElem?_append_left hlt).trans h
  | refused hreq hp => exact (List.getElem?_append_left hlt).trans h
  | admitted hreq hp => exact (List.getElem?_append_left hlt).trans h
  | walk hw hmove => exact h
  | tick secs => exact h
  | poll hr hreply =>
    refine (List.getElem?_set_ne ?_).trans h
    rintro rfl
    rw [h] at hr
    cases hr

/-- A request that is looked at once its deadline has passed is answered. -/
theorem reply_isSome {w deadline : Nat} (h : deadline ≤ s.now) : ∃ reply, s.reply joinError w deadline = some reply := by
  unfold Fsinfo.reply
  split
  · exact ⟨_, rfl⟩
  · exact ⟨_, rfl⟩
  · rw [if_pos h]
    exact ⟨_, rfl⟩

/-! ### The contract -/

/-- What holds of the requests and the walks in a reachable state. -/
structure Bounded (enc : Encoder (List FilesystemInfo)) (joinError : Nat → String) (s : Fsinfo) : Prop where
  /-- At most two walks are alive, whatever became of the requests, and every other slot is free. -/
  alive : s.walks.countP FsinfoWalk.alive ≤ maxFsinfoWalks
  /-- A request with arguments is refused for them, and starts no walk. -/
  unfit : ∀ req err s', noArguments req = .error err → Fsinfo.step enc joinError s (.request req) = some s' →
    s' = { s with requests := s.requests ++ [.answered none (.error err)] }
  /-- Any other request is refused exactly when two walks are alive, and starts no walk then. -/
  refused : ∀ req s', noArguments req = .ok () → Fsinfo.step enc joinError s (.request req) = some s' →
    if s.walks.countP FsinfoWalk.alive = maxFsinfoWalks then
      s' = { s with requests := s.requests ++ [.answered none (.error refusal)] }
    else
      s'.walks.countP FsinfoWalk.alive = s.walks.countP FsinfoWalk.alive + 1 ∧
        s'.requests = s.requests ++ [.waiting s.walks.length (s.now + fsinfoTimeoutSecs)]
  /-- A reply is that of the request's own walk, and the whole mount table. -/
  whole : ∀ (r : Nat) w v, s.requests[r]? = some (.answered w (.ok v)) →
    ∃ n walk, w = some n ∧ s.walks[n]? = some walk ∧ Complete enc walk v ∧ ∀ r', s.owner r' = some n → r' = r
  /-- Where `statfs` has one answer for each mount point, a reply is `fs_info` of a table that was read. -/
  agrees : ∀ (r : Nat) w v statfs, s.requests[r]? = some (.answered w (.ok v)) →
    (∀ walk ∈ s.walks, ∀ x ∈ walk.sizes, sizesAreQueried x.1.fsType = true → x.2 = statfs x.1.mountPoint) →
    ∃ table, (∃ walk ∈ s.walks, walk.table = some table) ∧ enc.value (fsInfo table statfs) = .ok v
  /-- No mount is asked for its sizes whose `statfs` may block. -/
  careful : ∀ walk ∈ s.walks, Careful walk
  /-- The wait of a request is bounded: once ten seconds have passed, the next look at it answers it. -/
  wait : ∀ r w deadline : Nat, s.requests[r]? = some (.waiting w deadline) →
    deadline ≤ s.now + fsinfoTimeoutSecs ∧
      (deadline ≤ s.now → ∃ reply s', Fsinfo.step enc joinError s (.poll r) = some s' ∧
        s'.requests[r]? = some (.answered (some w) reply))
  /-- An answer stays as it is, whatever the walk does later. -/
  final : ∀ (r : Nat) w reply s', s.requests[r]? = some (.answered w reply) →
    Machine.Steps (Fsinfo.step enc joinError) Anyhow s s' → s'.requests[r]? = some (.answered w reply)

theorem unfit_step {req : Proto.Request} {err : Proto.Error} (hreq : noArguments req = .error err)
    (hs : Fsinfo.step enc joinError s (.request req) = some s') :
    s' = { s with requests := s.requests ++ [.answered none (.error err)] } := by
  obtain rfl := Option.some.inj hs
  unfold request
  rw [hreq]
  rfl

theorem Inv.refuses (h : Inv enc s) {req : Proto.Request} (hreq : noArguments req = .ok ())
    (hs : Fsinfo.step enc joinError s (.request req) = some s') :
    if s.walks.countP FsinfoWalk.alive = maxFsinfoWalks then
      s' = { s with requests := s.requests ++ [.answered none (.error refusal)] }
    else
      s'.walks.countP FsinfoWalk.alive = s.walks.countP FsinfoWalk.alive + 1 ∧
        s'.requests = s.requests ++ [.waiting s.walks.length (s.now + fsinfoTimeoutSecs)] := by
  have hpermits := h.permits
  obtain rfl := Option.some.inj hs
  unfold request
  rw [hreq]
  by_cases hp : s.permits = 0
  · rw [if_pos (by omega)]
    exact if_pos hp
  · rw [if_neg (by omega)]
    simp [hp, List.countP_append, FsinfoWalk.alive]

theorem Inv.whole (h : Inv enc s) {r : Nat} {w : Option Nat} {v : Proto.Json}
    (hr : s.requests[r]? = some (.answered w (.ok v))) :
    ∃ n walk, w = some n ∧ s.walks[n]? = some walk ∧ Complete enc walk v ∧ ∀ r', s.owner r' = some n → r' = r := by
  obtain ⟨n, walk, rfl, hwalk, hpc⟩ := h.answered r w v hr
  have hstands := (h.walks walk (List.mem_of_getElem? hwalk)).1
  rw [Stands, hpc] at hstands
  have howner : s.owner r = some n := by
    unfold owner
    rw [hr]
    rfl
  exact ⟨n, walk, rfl, hwalk, hstands, fun r' hr' => h.own r' r n hr' howner⟩

theorem fsinfo_walks (enc : Encoder (List FilesystemInfo)) (joinError : Nat → String) {s : Fsinfo}
    (h : Machine.Reach (Fsinfo.step enc joinError) Anyhow (· = start) s) : Bounded enc joinError s where
  alive := by
    have hpermits := (inv_of_reach h).permits
    omega
  unfit := fun _ _ _ hreq hs => unfit_step hreq hs
  refused := fun _ _ hreq hs => (inv_of_reach h).refuses hreq hs
  whole := fun _ _ _ hr => (inv_of_reach h).whole hr
  agrees := fun r w v statfs hr hanswer => by
    obtain ⟨n, walk, -, hwalk, hcomplete, -⟩ := (inv_of_reach h).whole hr
    have hmem := List.mem_of_getElem? hwalk
    have hcareful := ((inv_of_reach h).walks walk hmem).2
    refine ⟨_, ⟨walk, hmem, hcomplete.table⟩, ?_⟩
    rw [← hcareful.info_eq_fsInfo (hanswer walk hmem)]
    exact hcomplete.value
  careful := fun walk hwalk => ((inv_of_reach h).walks walk hwalk).2
  wait := fun r w deadline hr => by
    refine ⟨(inv_of_reach h).deadline r w deadline hr, fun hnow => ?_⟩
    obtain ⟨reply, hreply⟩ : ∃ reply, s.reply joinError w deadline = some reply := reply_isSome hnow
    refine ⟨reply, { s with requests := s.requests.set r (.answered (some w) reply) }, ?_, ?_⟩
    · simp only [Fsinfo.step, hr, hreply, Option.map_some]
    · exact List.getElem?_set_self (List.getElem?_eq_some_iff.1 hr).1
  final := fun r w reply s' hr hsteps =>
    h.invariant_from hsteps hr fun _ _ _ _ hr hs _ => answered_step hr hs

/-- The reply for a table of one trigger of `autofs`, which has no sizes. -/
private def oneEntry : Encoder (List FilesystemInfo) where
  length := fun _ => .ok "[\x7b\"name\":\"auto.home\",\"mountpoint\":\"/h\",\"type\":\"autofs\",\"disk\":[]\x7d]".length
  value := fun infos => .ok (.array (infos.map fun i => .object
    [("disk", .array []), ("mountpoint", .string i.mountpoint), ("name", .string i.name), ("type", .string i.fsType)]))

private def automount : MountEntry := ⟨31, 1, 0, 44, [47, 104], "autofs", "auto.home"⟩

private def hung : List FsinfoAction :=
  let bare : FsinfoAction := .request ⟨"guest-get-fsinfo", none, none⟩
  [bare, .request ⟨"guest-get-fsinfo", some (.object [("path", .string "/h")]), none⟩, bare, bare,
    .mounts 1 (.ok [automount]), .tick 10, .poll 0, .size 1 none, .finish 1, .poll 2, bare]

private def pcs (s : Fsinfo) : List Bool := s.walks.map FsinfoWalk.alive

/-- A walk that hangs keeps its slot after its request gave up; the other slot goes on serving.  A request with an argument
has no walk. -/
theorem fsinfo_walks_hung :
    ∃ s, Machine.Reach (Fsinfo.step oneEntry fun _ => "panic") Anyhow (· = start) s ∧ pcs s = [true, false, true] ∧
      s.requests.map FsinfoRequest.walk? = [some 0, none, some 1, none, some 2] ∧
      Bounded oneEntry (fun _ => "panic") s := by
  have hrun : (Machine.execute (Fsinfo.step oneEntry fun _ => "panic") start hung).any (fun s =>
      decide (pcs s = [true, false, true]) &&
        decide (s.requests.map FsinfoRequest.walk? = [some 0, none, some 1, none, some 2])) = true := by decide
  have hper : Machine.permitted (Fsinfo.step oneEntry fun _ => "panic") (fun _ _ _ => true) start hung = true := by decide
  obtain ⟨s, hs, hp⟩ := (Option.any_eq_true _ _).1 hrun
  simp only [Bool.and_eq_true, decide_eq_true_eq] at hp
  have hreach : Machine.Reach (Fsinfo.step oneEntry fun _ => "panic") Anyhow (· = start) s :=
    Machine.Reach.execute (fun _ _ _ _ _ => trivial) (.init rfl) hs hper
  exact ⟨s, hreach, hp.1, hp.2, fsinfo_walks oneEntry (fun _ => "panic") hreach⟩

end Fsinfo

end Qeminga
