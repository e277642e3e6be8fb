import Qeminga.Invariant.LastFreeze
import Qeminga.Lib.History
import Mathlib.Data.Set.Card

/-!
# The snapshot contract

A controller that freezes, takes its snapshot and thaws compares the two counts.  The count of a thaw is the number of
superblocks that were frozen when its drain began, each counted once (`Tally`), and what was frozen then was frozen by
the last operation and has not been thawed since (`LastFreeze`).  So with equal counts every superblock of the freeze
has been frozen for the whole time between its reply and the drain, whatever happened in between: heartbeats, expired
watchdogs, failed or lost drains, restarts.  A kernel that answers `FITHAW` of a frozen superblock with "not supported"
makes the count wrong (`thaw_miscounts_unsupported`).
-/

namespace Qeminga

/-! ### The count of a drain -/

/-- What was frozen when the latest drain of the task `i` began. -/
def begunBy (i : TaskId) (log : List Event) : Option Snapshot :=
  log.findSome? fun e =>
    match e with
    | .began j now => if j = i then some now else none
    | _ => none

/-- The number of the superblocks that the agent has frozen and that are still frozen, at the instant of the snapshot. -/
noncomputable def Snapshot.count (now : Snapshot) : ENat := {x | now.own x = true}.encard

section History

variable {log new : List Event} {i : TaskId}

theorem begunBy_append (h : ∀ e ∈ new, ∀ now, e ≠ .began i now) : begunBy i (new ++ log) = begunBy i log := by
  induction new with
  | nil => rfl
  | cons e new ih =>
    have ih := ih fun e' he' => h e' (List.mem_cons_of_mem _ he')
    have he := h e List.mem_cons_self
    cases e with
    | began j now =>
      have hj : j ≠ i := fun hj => he now (by rw [hj])
      simpa [begunBy, hj] using ih
    | _ => exact ih

theorem begunBy_eq_some {now : Snapshot} (h : begunBy i log = some now) :
    ∃ newer older, log = newer ++ .began i now :: older := by
  induction log with
  | nil => cases h
  | cons e log ih =>
    by_cases he : e = .began i now
    · exact ⟨[], log, by rw [he]; rfl⟩
    · have hrest : begunBy i log = some now := by
        cases e with
        | began j now' =>
          by_cases hj : j = i
          · subst hj
            have hnow : some now' = some now := by simpa [begunBy] using h
            exact absurd (by rw [Option.some.inj hnow]) he
          · simpa [begunBy, hj] using h
        | _ => exact h
      obtain ⟨newer, older, rfl⟩ := ih hrest
      exact ⟨e :: newer, older, rfl⟩

end History

/-- The target at which a drain stands, if one of its calls has succeeded. -/
def ThawStage.counting : ThawStage → Nat
  | .drain _ (_ + 1) => 1
  | _ => 0

namespace ThawBlocking

/-- The count of a drain that began when `before` was frozen, now that `own` is: a superblock is counted when it is
thawed, by its first successful call. -/
structure Tally (before own : Dev → Bool) (j : ThawBlocking) : Prop where
  below : ∀ x, own x = true → before x = true
  count : {x | before x = true ∧ own x = false}.encard = (j.thawed + j.stage.counting : Nat)
  current : ∀ m n, j.stage = .drain m (n + 1) → own m.dev = false
  done : ∀ n, j.stage = .done (.ok n) → n = j.thawed

variable {before own : Dev → Bool} {j : ThawBlocking}

/-- Between two targets only the count matters. -/
private theorem Tally.advance (hbelow : ∀ x, own x = true → before x = true)
    (hcount : {x | before x = true ∧ own x = false}.encard = (j.thawed : Nat)) : j.advance.Tally before own := by
  rcases j.advance_cases with ⟨t, ts, m, retained, -, -, -, he⟩ | ⟨t, ts, -, -, he⟩ | ⟨m, retained, -, -, he⟩ |
    ⟨failure, -, -, -, he⟩ | ⟨-, -, -, -, he⟩ <;> rw [he] <;>
    exact ⟨hbelow, by simpa [ThawStage.counting] using hcount, by simp, by simp⟩

theorem start_tally (discover : Bool) (held : List Mount) : (start discover held).Tally own own := by
  have hnone : {x | own x = true ∧ own x = false}.encard = ((0 : Nat) : ENat) := by
    have hempty : {x | own x = true ∧ own x = false} = ∅ := by
      ext x
      cases own x <;> simp
    rw [hempty, Set.encard_empty, Nat.cast_zero]
  unfold start
  cases discover with
  | true => exact ⟨fun _ => id, by simp [ThawStage.counting], by simp, by simp⟩
  | false => exact .advance (j := ⟨.table, [], held, 0, none, [], none⟩) (fun _ => id) hnone

theorem settle_thawed (j : ThawBlocking) (m : Mount) (r : Drained) : (j.settle m r).thawed = j.thawed + r.counted := by
  unfold settle
  split <;> rfl

/-- A drain that ends with an error has counted its target if a call before succeeded. -/
private theorem counted_of_error (m : Mount) (n : Nat) (err : KernelError) :
    (⟨n, some err, false⟩ : Drained).counted = (ThawStage.drain m n).counting := by
  cases n <;> rfl

variable {c c' : Ctx} {i : TaskId} {j' : ThawBlocking}

/-- A superblock that is frozen once is counted by the call that thaws it, and not again. -/
theorem Call.tally (h : j.Call c i c' j') (hsingle : ∀ x, c.depth x = if c.own x then 1 else 0)
    (ht : j.Tally before c.own) : j'.Tally before c'.own := by
  cases h with
  | discovered entries hs => exact .advance ht.below (by simpa [hs, ThawStage.counting] using ht.count)
  | undiscovered message hs => exact .advance ht.below (by simpa [hs, ThawStage.counting] using ht.count)
  | opened hs =>
    exact ⟨ht.below, by simpa [hs, ThawStage.counting] using ht.count, by simp, by simp⟩
  | @notOpened t path paths attempts err hs =>
    have hcount : {x | before x = true ∧ c.own x = false}.encard = (j.thawed : Nat) := by
      simpa [hs, ThawStage.counting] using ht.count
    unfold ThawBlocking.opened
    cases paths with
    | cons next paths => exact ⟨ht.below, by simpa [ThawStage.counting] using hcount, by simp, by simp⟩
    | nil => exact .advance ht.below hcount
  | @fithaw m n r c' hs hc =>
    rcases Ctx.fithaw_cases hc with ⟨rfl, hd, rfl⟩ | ⟨err, rfl, rfl⟩
    · -- the call thaws the superblock, so it was frozen and none of the earlier calls succeeded
      have hown : c.own m.dev = true := by
        have := hsingle m.dev
        split at this
        · assumption
        · omega
      have hone : c.depth m.dev = 1 := by simp [hsingle, hown]
      obtain rfl : n = 0 := by
        cases n with
        | zero => rfl
        | succ n => rw [ht.current m n hs] at hown; cases hown
      have hset : {x | before x = true ∧ Function.update c.own m.dev false x = false} =
          insert m.dev {x | before x = true ∧ c.own x = false} := by
        ext x
        by_cases hx : x = m.dev
        · subst hx
          simp [ht.below _ hown]
        · simp [hx]
      have hnot : m.dev ∉ {x | before x = true ∧ c.own x = false} := by simp [hown]
      have hcount := ht.count
      simp only [hs, ThawStage.counting, Nat.add_zero] at hcount
      have hj : j.fithaw m 0 (.ok ()) = { j with stage := .drain m 1 } := rfl
      simp only [hone, Nat.lt_irrefl, decide_false, Bool.and_false]
      rw [hj]
      refine ⟨fun x hx => ?_, ?_, fun m' n' hs' => ?_, by simp⟩
      · by_cases hxd : x = m.dev
        · subst hxd
          simp at hx
        · exact ht.below x (by simpa [hxd] using hx)
      · rw [hset, Set.encard_insert_of_notMem hnot, hcount]
        rfl
      · cases hs'
        simp
    · refine .advance ht.below ?_
      rw [settle_thawed, counted_of_error m n err, ← hs]
      exact ht.count
  | @unlinked ans c' r hs hc =>
    rw [Ctx.own_of_unlink hc]
    have hcount : {x | before x = true ∧ c.own x = false}.encard = (j.thawed : Nat) := by
      simpa [hs, ThawStage.counting] using ht.count
    unfold removed
    split <;> exact ⟨ht.below, by simpa [ThawStage.counting] using hcount, by simp, by simp⟩

end ThawBlocking

/-! ### The count of a thaw -/

/-- A count that was returned is the number of superblocks that were frozen when the drain of `i` began. -/
def Counted {ε : Type} (log : List Event) (i : TaskId) (r : Except ε Nat) : Prop :=
  ∀ n, r = .ok n → ∃ now, begunBy i log = some now ∧ now.count = n

theorem Counted.error {ε : Type} {log : List Event} {i : TaskId} (e : ε) : Counted log i (.error e) := by
  rintro n ⟨⟩

/-- What the program point of the thaw `i` says of its count. -/
def ThawPc.Tallied (c : Ctx) (i : TaskId) : ThawPc → Prop
  | .blocking _ j => ∃ now, begunBy i c.log = some now ∧ j.val.Tally now.own c.own
  | .hold _ outcome _ => Counted c.log i outcome
  | .finalise _ outcome => Counted c.log i outcome
  | .rescope _ outcome => Counted c.log i outcome
  | .publish _ outcome => Counted c.log i outcome
  | .answer r none => Counted c.log i r
  | _ => True

/-- The answer of a thaw that has drained is the count of its drain. -/
def Event.Tallied (e : Event) (older : List Event) : Prop :=
  match e with
  | .answered i r none => Counted older i r
  | _ => True

section Thaw

variable {cfg : Config} {c c' : Ctx} {i fresh : TaskId} {pc pc' : ThawPc} {new : Option Dog}

/-- The count is a matter of the history and, while the drain runs, of what is frozen. -/
theorem ThawPc.Tallied.mono (h : pc.Tallied c i) (hlog : begunBy i c'.log = begunBy i c.log)
    (hown : (Thaw.token pc).isSome → c'.own = c.own) : pc.Tallied c' i := by
  have hcount : ∀ {ε : Type} {r : Except ε Nat}, Counted c.log i r → Counted c'.log i r := by
    intro ε r hr n hn
    rw [hlog]
    exact hr n hn
  cases pc with
  | blocking token j =>
    obtain ⟨now, hnow, ht⟩ := h
    exact ⟨now, hlog.trans hnow, hown rfl ▸ ht⟩
  | answer r joined =>
    cases joined with
    | none => exact hcount h
    | some op => trivial
  | hold => exact hcount h
  | finalise => exact hcount h
  | rescope => exact hcount h
  | publish => exact hcount h
  | _ => trivial

/-- A drain that is over with a count has thawed everything that was frozen when it began. -/
private theorem counted_of_done {v : ThawBlocking} {now : Snapshot} {r : Except ThawFailure Nat} (hs : v.stage = .done r)
    (hnow : begunBy i c.log = some now) (ht : v.Tally now.own c.own) (hclean : r.isOk = true → c.Clean) :
    Counted c.log i r := by
  rintro n rfl
  refine ⟨now, hnow, ?_⟩
  have hall : {x | now.own x = true ∧ c.own x = false} = {x | now.own x = true} := by
    ext x
    simp [hclean rfl x]
  have hcount := ht.count
  rw [hall, hs] at hcount
  rw [ht.done n hs]
  exact hcount

private theorem begunBy_of_calls (hc : c.Calls i c') : begunBy i c'.log = begunBy i c.log := by
  obtain ⟨more, hlog, hcall⟩ := hc.calls
  rw [hlog]
  refine begunBy_append fun e he now heq => ?_
  subst heq
  cases (hcall _ he).2

theorem Thaw.Move.tallied (hm : Thaw.Move cfg c i fresh pc c' pc' new) (hsingle : ∀ x, c.depth x = if c.own x then 1 else 0)
    (hcov : Thaw.Covered c pc) (h : pc.Tallied c i) : pc'.Tallied c' i := by
  cases hm
  case begin token held discover hd =>
    exact ⟨c.snapshot, by simp [begunBy], ThawBlocking.start_tally discover held⟩
  case call token v v' hc =>
    obtain ⟨now, hnow, ht⟩ := h
    exact ⟨now, (begunBy_of_calls hc.calls).trans hnow, hc.tally hsingle ht⟩
  case ended token v r hs =>
    obtain ⟨now, hnow, ht⟩ := h
    refine counted_of_done hs hnow ht fun hr x => ?_
    cases r with
    | error failure => cases hr
    | ok n =>
      rw [Bool.eq_false_iff]
      exact fun hx => hcov.2.1.settled (.inr ⟨n, hs⟩) x (hcov.2.2.2 x hx)
  case hold token outcome held =>
    cases outcome with
    | ok n => exact h
    | error failure =>
      simp only [Thaw.settles]
      split
      · exact Counted.error failure
      · trivial
  case publish token outcome =>
    rintro n hn
    cases outcome with
    | ok m => exact (h m rfl).imp fun now hnow => ⟨hnow.1, by cases hn; exact hnow.2⟩
    | error failure => cases hn
  case uncertain => exact .error _
  case refusedAgain => exact .error _
  case refusedJoin => exact .error _
  case install => exact .error _
  case lose => exact h
  case finalise => exact h
  case rescope => exact h
  all_goals trivial

end Thaw

namespace Tallies

def Glob (c : Ctx) (_ : TaskId) : Prop := Justified Event.Tallied c.log

def Loc (c : Ctx) (i : TaskId) : Task → Prop
  | .thaw _ pc => pc.Tallied c i
  | _ => True

variable {cfg : Config} {c c' : Ctx} {i j fresh : TaskId} {t t' u : Task} {new : Option Dog}

/-- Only a thaw that has drained gives an answer that says something of its count. -/
private theorem tallied_of_not_answered {e : Event} (h : ∀ i r, e ≠ .answered i r none) (older : List Event) :
    e.Tallied older := by
  cases e with
  | answered i r joined =>
    cases joined with
    | none => exact absurd rfl (h i r)
    | some op => trivial
  | _ => trivial

private theorem move (hm : Task.Move cfg c i fresh t c' t' new) {n : TaskId}
    (hsingle : ∀ x, c.depth x = if c.own x then 1 else 0) (hcov : Cover.Loc c i t) (hg : Glob c n) (hl : Loc c i t) :
    Glob c' n ∧ Loc c' i t' := by
  have of_calls : ∀ {c' : Ctx}, c.Calls i c' → Glob c' n := by
    intro c' hc
    obtain ⟨more, hlog, hcall⟩ := hc.calls
    show Justified Event.Tallied c'.log
    rw [hlog]
    refine hg.append fun e he => tallied_of_not_answered fun k r heq => ?_
    subst heq
    cases (hcall _ he).2
  cases hm with
  | driver h =>
    refine ⟨?_, trivial⟩
    cases h
    case call hc => exact of_calls hc.calls
    case drain hc => exact of_calls (Ctx.fithaw_calls hc)
    case interrupt hc => rcases hc with rfl | rfl <;> exact hg
    case cancel => simpa [Glob] using hg
    case install => simpa [Glob] using hg
    case retire => simpa [Glob] using hg
    all_goals first
      | exact hg
      | exact ⟨trivial, hg⟩
      | exact ⟨trivial, trivial, hg⟩
      | exact ⟨trivial, trivial, trivial, hg⟩
  | thaw h =>
    refine ⟨?_, h.tallied hsingle hcov hl⟩
    cases h
    case call hc => exact of_calls hc.calls
    case answer r joined =>
      refine ⟨?_, hg⟩
      cases joined with
      | none => exact hl
      | some op => trivial
    case cancel => simpa [Glob] using hg
    case install => simpa [Glob] using hg
    all_goals first
      | exact hg
      | exact ⟨trivial, hg⟩
  | dogClaims hs hc => exact ⟨⟨trivial, hg⟩, trivial⟩
  | startInstall => exact ⟨by simpa [Glob] using hg, trivial⟩
  | _ => exact ⟨hg, trivial⟩

private theorem Loc.frame (h : Loc c j u) (hm : Task.Move cfg c i fresh t c' t' new) {n : TaskId} (hg : Tokens.Glob c n)
    (hl : Tokens.Loc c i t) (hj : j ≠ i) (hu : Tokens.Loc c j u) : Loc c' j u := by
  cases u with
  | thaw w pc =>
    obtain ⟨more, hlog, hby⟩ := hm.grows.log
    refine ThawPc.Tallied.mono h ?_ fun ht => ?_
    · rw [hlog]
      refine begunBy_append fun e he now heq => hj ?_
      subst heq
      exact hby _ he j rfl
    · have htok : (Task.thaw w pc).holdsToken = true := by simpa [Task.holdsToken, Task.freezeToken, Task.thawToken] using ht
      rw [(Tokens.bystander hm hg hl hj hu htok).1]
  | _ => trivial

/-- Whoever drains counts what was frozen. -/
theorem reach {a : Agent} (h : Machine.Reach (Agent.step cfg) SoleFreezer Agent.SoleStart a) : a.Holds Glob Loc := by
  refine h.invariant (fun a h => ?_) (fun a act a' hr ih hs hok => ?_)
  · obtain ⟨c, n, rfl⟩ := h.booted
    have hlog : (Agent.bootCtx c).log = [] := h.log
    refine Agent.boot_holds ?_ fun _ => trivial
    show Justified _ _
    rw [hlog]
    trivial
  · have hr' : Machine.Reach (Agent.step cfg) SoleFreezer Agent.Initial a := hr.of_init fun _ h => h.toInitial
    have htok := Tokens.reach hr'
    have hcov := Cover.reach (hr'.mono fun _ _ _ h => h.assumed)
    have hsingle := (LastFreeze.reach hr).glob.single
    refine Agent.holds_step ih hs ?_ ?_ ⟨ih.glob, trivial, trivial⟩ ?_ ?_
    · rintro i t c' t' new ht hm ⟨rfl, -⟩
      obtain ⟨hG, hL⟩ := move hm hsingle (hcov.loc ht) ih.glob (ih.loc ht)
      exact ⟨hG, fun _ hG => hG, hL, fun _ _ => trivial, fun j u hj hu hl => hl.frame hm htok.glob (htok.loc ht) hj (htok.loc hu)⟩
    · intro restrict hst _
      refine ⟨⟨trivial, trivial, ih.glob⟩, trivial, fun j u _ hu hl => ?_⟩
      cases u with
      | thaw w pc => exact ThawPc.Tallied.mono (c := a.ctx) hl rfl fun _ => rfl
      | _ => trivial
    · rintro c' he rfl
      have hown := (Agent.quiet_of_env hs hok.alone he).2
      have hlog : a'.ctx.log = a.ctx.log := by
        generalize a'.ctx = c' at he
        cases he <;> rfl
      refine ⟨?_, fun j u _ hl => ?_⟩
      · show Justified _ _
        rw [hlog]
        exact ih.glob
      · cases u with
        | thaw w pc => exact ThawPc.Tallied.mono (c := a.ctx) hl (by rw [hlog]) fun _ => hown
        | _ => trivial
    · intro _
      exact ⟨ih.glob, fun _ => trivial⟩

end Tallies

/-! ### The operation that a thaw joins -/

/-- The operation that a thaw has asked to abort, with success. -/
def ThawPc.aborts : ThawPc → Option TaskId
  | .notify op => some op
  | .readProgress op => some op
  | .answer _ joined => joined
  | _ => none

theorem ThawPc.joins_of_aborts {pc : ThawPc} {op : TaskId} (h : pc.aborts = some op) : pc.joins = some op := by
  cases pc <;> first
    | exact h
    | cases h

/-- Operations are started in the order of their identities. -/
def StartsInOrder : List Event → Prop :=
  Justified fun e older => ∀ op r now, e = .started op r now → ∀ op' r' now', .started op' r' now' ∈ older → op' < op

theorem StartsInOrder.le {log : List Event} {op op' : TaskId} (h : StartsInOrder log) (hop : lastOperation log = some op)
    {r : Option (List Path)} {now : Snapshot} (hs : .started op' r now ∈ log) : op' ≤ op := by
  induction log with
  | nil => cases hs
  | cons e log ih =>
    cases e with
    | started op'' r'' now'' =>
      obtain rfl : op'' = op := Option.some.inj hop
      rcases List.mem_cons.1 hs with he | hs
      · cases he
        exact Nat.le_refl _
      · exact Nat.le_of_lt (h.1 op'' r'' now'' rfl op' r now hs)
    | _ => exact ih h.2 hop ((List.mem_cons.1 hs).resolve_left (by rintro ⟨⟩))

theorem lastOperation_mem {log : List Event} {op : TaskId} (h : lastOperation log = some op) :
    ∃ r now, .started op r now ∈ log := by
  obtain ⟨e, he, hop⟩ := List.exists_of_findSome?_eq_some h
  cases e with
  | started op' r now =>
    cases hop
    exact ⟨r, now, he⟩
  | _ => cases hop

theorem exists_lastOperation {log : List Event} {op : TaskId} {r : Option (List Path)} {now : Snapshot}
    (h : .started op r now ∈ log) : ∃ op', lastOperation log = some op' := by
  rw [← Option.isSome_iff_exists, lastOperation, List.findSome?_isSome_iff]
  exact ⟨_, h, rfl⟩

/-- An older history with the operation `op` ends with it, if no operation came after it. -/
theorem StartsInOrder.lastOperation {log older : List Event} {op : TaskId} (h : StartsInOrder log)
    (hop : Qeminga.lastOperation log = some op) (hs : older <:+ log) {r : Option (List Path)} {now : Snapshot}
    (hmem : .started op r now ∈ older) : Qeminga.lastOperation older = some op := by
  obtain ⟨op', hop'⟩ := exists_lastOperation hmem
  obtain ⟨r', now', hmem'⟩ := lastOperation_mem hop'
  have hle : op' ≤ op := h.le hop (hs.subset hmem')
  have hge : op ≤ op' := StartsInOrder.le (Justified.of_suffix h hs) hop' hmem
  rw [hop', Nat.le_antisymm hle hge]

namespace Joining

/-- Every operation that was started after `op` came after the request `i`. -/
def Newest (c : Ctx) (i op : TaskId) : Prop := ∀ op', Started c op' → op' ≤ op ∨ i < op'

structure Glob (c : Ctx) (_ : TaskId) : Prop where
  starts : StartsInOrder c.log
  slot : ∀ op, c.slot = some op → ∀ op', Started c op' → op' ≤ op
  answered : ∀ i r op, .answered i r (some op) ∈ c.log → Newest c i op ∧ .requested op .accepted ∈ c.log

structure ThawLoc (c : Ctx) (i : TaskId) (pc : ThawPc) : Prop where
  joins : ∀ op, pc.joins = some op → Newest c i op
  aborts : ∀ op, pc.aborts = some op → .requested op .accepted ∈ c.log

def Loc (c : Ctx) (i : TaskId) : Task → Prop
  | .thaw _ pc => ThawLoc c i pc
  | _ => True

variable {cfg : Config} {c c' : Ctx} {i j op fresh : TaskId} {t t' u : Task} {new : Option Dog}

private theorem Newest.mono (h : Newest c i op) (hs : ∀ op', Started c' op' → Started c op') : Newest c' i op :=
  fun op' ho => h op' (hs op' ho)

private theorem ThawLoc.mono {pc : ThawPc} (h : ThawLoc c j pc) (hs : ∀ op', Started c' op' → Started c op')
    (hlog : ∀ e ∈ c.log, e ∈ c'.log) : ThawLoc c' j pc :=
  ⟨fun op ho => (h.joins op ho).mono hs, fun op ho => hlog _ (h.aborts op ho)⟩

/-- A thaw asks the operation in the slot to abort, and answers from its progress only if it has accepted. -/
private theorem move_thaw {pc pc' : ThawPc} (hm : Thaw.Move cfg c i fresh pc c' pc' new) {n : TaskId} (hg : Glob c n)
    (hs : ∀ op', Started c' op' → Started c op') (h : ThawLoc c i pc) : ThawLoc c' i pc' := by
  have hmem : ∀ e ∈ c.log, e ∈ c'.log := fun e he => hm.grows.log.mem he
  refine ⟨fun op ho => Newest.mono ?_ hs, fun op ho => ?_⟩
  · rcases hm.joins ho with hj | hslot
    · exact h.joins op hj
    · exact fun op' ho' => .inl (hg.slot op hslot op' ho')
  · cases hm
    case accepted => cases ho; simp
    case notify => exact hmem _ (h.aborts op ho)
    case readProgress => exact hmem _ (h.aborts op ho)
    case hold token outcome held =>
      cases outcome with
      | ok n => cases ho
      | error failure =>
        simp only [Thaw.settles] at ho
        split at ho <;> cases ho
    all_goals cases ho

private theorem answered_of_move (hm : Task.Move cfg c i fresh t c' t' new) {k : TaskId} {r : Except ThawError Nat}
    (h : .answered k r (some op) ∈ c'.log) :
    .answered k r (some op) ∈ c.log ∨ ∃ w, k = i ∧ t = .thaw w (.answer r (some op)) := by
  have of_calls : ∀ {c' : Ctx}, c.Calls i c' → .answered k r (some op) ∈ c'.log → .answered k r (some op) ∈ c.log := by
    intro c' hc h
    obtain ⟨more, hlog, hcall⟩ := hc.calls
    rw [hlog] at h
    exact (List.mem_append.1 h).resolve_left fun he => by cases (hcall _ he).2
  cases hm with
  | driver h' =>
    left
    cases h'
    case call hc => exact of_calls hc.calls h
    case drain hc => exact of_calls (Ctx.fithaw_calls hc) h
    case interrupt hc => rcases hc with rfl | rfl <;> simpa using h
    all_goals simpa using h
  | @thaw w pc pc' c' new h' =>
    cases h'
    case call hc => exact .inl (of_calls hc.calls h)
    case answer r' joined =>
      rw [Ctx.note_log, List.mem_cons] at h
      rcases h with h | h
      · cases h
        exact .inr ⟨w, rfl, rfl⟩
      · exact .inl h
    all_goals exact .inl (by simpa using h)
  | _ => exact .inl (by simpa using h)

/-- A task that has joined no operation. -/
private theorem loc_of_none (ht : t.joins = none) : Loc c i t := by
  cases t with
  | thaw w pc =>
    have hpc : pc.joins = none := ht
    refine ⟨fun op ho => ?_, fun op ho => ?_⟩
    · rw [hpc] at ho; cases ho
    · rw [ThawPc.joins_of_aborts ho] at hpc; cases hpc
  | _ => trivial

private theorem loc_move (hm : Task.Move cfg c i fresh t c' t' new) {n : TaskId} (hg : Glob c n)
    (hs : ∀ op', Started c' op' → Started c op') (h : Loc c i t) : Loc c' i t' := by
  cases hm with
  | thaw hm => exact move_thaw hm hg hs h
  | dogClaims => exact loc_of_none rfl
  | _ => trivial

private theorem startsInOrder_of_move (hm : Task.Move cfg c i fresh t c' t' new) (h : StartsInOrder c.log) :
    StartsInOrder c'.log := by
  show Justified _ _
  rcases hm.turns with ⟨new, hlog, hnew, -, -⟩ | ⟨hlog, -, -⟩ | ⟨x, aborted, clock, -, hlog, -, -⟩ |
    ⟨x, hx, hlog, -, -⟩ <;> rw [hlog]
  · refine Justified.append h fun e he older op r now heq => ?_
    have := hnew e he
    rw [heq] at this
    cases this
  all_goals exact ⟨by rintro op r now ⟨⟩, h⟩

/-- An answer is that of a thaw, which joined its operation before. -/
private theorem glob_move (hm : Task.Move cfg c i fresh t c' t' new) {n : TaskId} (hg : Glob c n)
    (hs : ∀ op', Started c' op' → Started c op') (hl : Loc c i t) : Glob c' n := by
  have hmem : ∀ e ∈ c.log, e ∈ c'.log := fun e he => hm.grows.log.mem he
  refine ⟨startsInOrder_of_move hm hg.starts, fun op ho op' ho' => ?_, fun k r op he => ?_⟩
  · rcases hm.slot with h | h <;> rw [h] at ho
    · exact hg.slot op ho op' (hs op' ho')
    · cases ho
  · rcases answered_of_move hm he with he | ⟨w, rfl, rfl⟩
    · obtain ⟨hn, hq⟩ := hg.answered k r op he
      exact ⟨hn.mono hs, hmem _ hq⟩
    · have hl : ThawLoc c k (.answer r (some op)) := hl
      exact ⟨(hl.joins op rfl).mono hs, hmem _ (hl.aborts op rfl)⟩

section Freeze

variable {restrict : Option (List Path)}

private theorem started_freeze (h : Started (Agent.freezeCtx cfg c fresh restrict) op) : Started c op ∨ op = fresh := by
  obtain ⟨r, now, he⟩ := h
  simp only [Agent.freezeCtx, Ctx.note_log, List.mem_cons, reduceCtorEq, false_or] at he
  rcases he with he | he
  · cases he
    exact .inr rfl
  · exact .inl ⟨r, now, he⟩

private theorem mem_freeze {e : Event} (h : e ∈ c.log) : e ∈ (Agent.freezeCtx cfg c fresh restrict).log :=
  List.mem_cons_of_mem _ (List.mem_cons_of_mem _ h)

/-- The operation that starts comes after the requests that were made. -/
private theorem Newest.freeze (h : Newest c i op) (hi : i < fresh) : Newest (Agent.freezeCtx cfg c fresh restrict) i op := by
  intro op' ho
  rcases started_freeze ho with ho | rfl
  · exact h op' ho
  · exact .inr hi

private theorem glob_freeze (hreg : Registry.Glob c fresh) (hg : Glob c fresh) {n : TaskId} :
    Glob (Agent.freezeCtx cfg c fresh restrict) n := by
  refine ⟨⟨by rintro op r now ⟨⟩, fun op r now heq op' r' now' he => ?_, hg.starts⟩, fun op ho op' ho' => ?_, fun k r op he => ?_⟩
  · cases heq
    exact hreg.started op' ⟨r', now', he⟩
  · cases ho
    exact (started_freeze ho').elim (fun h => Nat.le_of_lt (hreg.started op' h)) Nat.le_of_eq
  · have he : .answered k r (some op) ∈ c.log := by simpa [Agent.freezeCtx] using he
    obtain ⟨hn, hq⟩ := hg.answered k r op he
    exact ⟨hn.freeze (hreg.authors _ he k rfl), mem_freeze hq⟩

private theorem Loc.freeze (h : Loc c j u) (hj : j < fresh) : Loc (Agent.freezeCtx cfg c fresh restrict) j u := by
  cases u with
  | thaw w pc =>
    have h : ThawLoc c j pc := h
    exact ⟨fun op ho => (h.joins op ho).freeze hj, fun op ho => mem_freeze (h.aborts op ho)⟩
  | _ => trivial

end Freeze

theorem reach {ok : Agent → Action → Agent → Prop} {a : Agent} (h : Machine.Reach (Agent.step cfg) ok Agent.Initial a) :
    a.Holds Glob Loc := by
  refine h.invariant (fun a h => ?_) (fun a act a' hr ih hs _ => ?_)
  · obtain ⟨c, n, rfl⟩ := h.booted
    have hlog : (Agent.bootCtx c).log = [] := h.log
    refine Agent.boot_holds ⟨?_, fun op ho => (by cases ho), fun i r op he => ?_⟩ fun _ => trivial
    · rw [hlog]; trivial
    · rw [hlog] at he; cases he
  · have hreg := Registry.reach hr
    refine Agent.holds_step ih hs ?_ ?_ ?_ ?_ ?_
    · rintro i t c' t' new ht hm ⟨rfl, -⟩
      have hst : ∀ op', Started a'.ctx op' → Started a.ctx op' := by
        rintro op' ⟨r, now, he⟩
        exact ⟨r, now, hm.of_started he⟩
      have hmem : ∀ e ∈ a.ctx.log, e ∈ a'.ctx.log := fun e he => hm.grows.log.mem he
      refine ⟨glob_move hm ih.glob hst (ih.loc ht), fun _ hG => ⟨hG.starts, hG.slot, hG.answered⟩,
        loc_move hm ih.glob hst (ih.loc ht), fun _ _ => trivial, fun j u _ _ hu => ?_⟩
      cases u with
      | thaw w pc => exact ThawLoc.mono hu hst hmem
      | _ => trivial
    · intro restrict _ _
      exact ⟨glob_freeze hreg.glob ih.glob, trivial, fun j u hj _ hl => hl.freeze hj⟩
    · exact ⟨⟨ih.glob.starts, ih.glob.slot, ih.glob.answered⟩, loc_of_none rfl, trivial⟩
    · intro c' he _
      cases he <;>
        exact ⟨⟨ih.glob.starts, ih.glob.slot, ih.glob.answered⟩,
          fun j u _ hl => by cases u <;> first | exact ⟨hl.joins, hl.aborts⟩ | trivial⟩
    · intro _
      exact ⟨⟨ih.glob.starts, (fun op ho => by cases ho), ih.glob.answered⟩, fun _ => trivial⟩

end Joining

/-! ### The result -/

section History

variable {log older mid : List Event} {op i : TaskId} {x : Dev}

theorem successes_append_eq (mid log : List Event) (op : TaskId) :
    successes (mid ++ log) op = successes log op ++ successes mid op := by
  simp [successes, List.filterMap_append]

theorem successes_length_le (h : older <:+ log) : (successes older op).length ≤ (successes log op).length := by
  obtain ⟨newer, rfl⟩ := h
  simp [successes_append_eq]

/-- Between two histories with as many successes the operation has frozen nothing. -/
theorem successes_eq_of_length (h : older <:+ log) (hlen : (successes log op).length = (successes older op).length) :
    successes log op = successes older op := by
  obtain ⟨newer, rfl⟩ := h
  rw [successes_append_eq] at hlen ⊢
  have hnil : successes newer op = [] := by
    rw [List.length_append] at hlen
    exact List.length_eq_zero_iff.1 (by omega)
  rw [hnil, List.append_nil]

theorem mem_successes_of_freezes {e : Event} (he : e ∈ log) (hf : e.freezes op x = true) : x ∈ successes log op := by
  rw [successes, List.mem_reverse, List.mem_filterMap]
  refine ⟨e, he, ?_⟩
  cases e with
  | fifreeze j d aborted clock r =>
    cases r with
    | error err => cases hf
    | ok u =>
      have hf : j = op ∧ d = x := by simpa [Event.freezes] using hf
      simp [hf.1, hf.2]
  | _ => cases hf

/-- Where the operation has frozen nothing more, what is still frozen was so before. -/
theorem StillFrozen.of_append (h : StillFrozen (mid ++ log) op x) (hs : successes (mid ++ log) op = successes log op) :
    StillFrozen log op x := by
  have hmid : successes mid op = [] := by
    rw [successes_append_eq] at hs
    exact List.append_right_eq_self.1 hs
  refine ⟨hs ▸ h.1, fun e he => h.2 e ?_⟩
  rw [List.takeWhile_append_of_pos]
  · exact List.mem_append_right _ he
  · intro e he
    rw [Bool.not_eq_true', Bool.eq_false_iff]
    intro hf
    have hx := mem_successes_of_freezes he hf
    rw [hmid] at hx
    cases hx

/-- A history in which the drain of `i` has not begun is older than its begin. -/
theorem suffix_of_not_begun {newer : List Event} {now : Snapshot} (hnot : .began i now ∉ older)
    (hs : older <:+ newer ++ .began i now :: log) : older <:+ log := by
  rcases List.suffix_or_suffix_of_suffix hs (List.suffix_append newer (.began i now :: log)) with h | h
  · rcases List.suffix_cons_iff.1 h with h | h
    · exact absurd (h ▸ List.mem_cons_self) hnot
    · exact h
  · exact absurd (h.subset List.mem_cons_self) hnot

end History

/-- The history only grows. -/
theorem Agent.log_suffix {cfg : Config} {ok : Agent → Action → Agent → Prop} {a b : Agent}
    (h : Machine.Steps (Agent.step cfg) ok a b) : a.ctx.log <:+ b.ctx.log := by
  induction h with
  | refl => exact List.suffix_rfl
  | tail _ hs _ ih =>
    refine ih.trans ?_
    cases Agent.step_move hs with
    | task ht hm =>
      obtain ⟨more, hlog, -⟩ := hm.grows.log
      exact ⟨more, by rw [Pool.apply_ctx]; exact hlog.symm⟩
    | freeze restrict hs => exact ⟨[_, _], rfl⟩
    | env he hact => cases he <;> exact List.suffix_rfl
    | _ => exact List.suffix_rfl

private theorem append_of_not_mem (new : List Event) {log newer older : List Event} {e : Event}
    (h : newer ++ e :: older = new ++ log) (hnew : e ∉ new) : ∃ newer', log = newer' ++ e :: older := by
  rcases List.append_eq_append_iff.1 h with ⟨mid, hmid, hlog⟩ | ⟨mid, -, hlog⟩
  · cases mid with
    | nil => exact ⟨[], hlog.symm⟩
    | cons e' mid =>
      obtain ⟨rfl, -⟩ := List.cons.inj hlog
      exact absurd (hmid ▸ List.mem_append_right _ List.mem_cons_self) hnew
  · exact ⟨mid, hlog⟩

/-- A step after which a drain has begun is the one in which it begins, or the drain had begun before. -/
private theorem Agent.begins_or_began {cfg : Config} {s u : Agent} {act : Action} (hs : Agent.step cfg s act = some u)
    {i : TaskId} {now : Snapshot} {newer older : List Event} (hlog : u.ctx.log = newer ++ .began i now :: older) :
    (∃ newer', s.ctx.log = newer' ++ .began i now :: older) ∨ (s.ctx.log = older ∧ now = s.ctx.snapshot) := by
  cases Agent.step_move hs with
  | task ht hm =>
    rw [Pool.apply_ctx] at hlog
    rcases hm.turns with ⟨new, hnews, hnew, -, -⟩ | ⟨hnews, -, -⟩ | ⟨x, aborted, clock, -, hnews, -, -⟩ |
      ⟨x, -, hnews, -, -⟩
    · refine .inl (append_of_not_mem new (hlog.symm.trans hnews) fun he => ?_)
      cases hnew _ he
    · cases newer with
      | nil =>
        have heq := hlog.symm.trans hnews
        rw [List.nil_append, List.cons.injEq, Event.began.injEq] at heq
        exact .inr ⟨heq.2.symm, heq.1.2⟩
      | cons e newer => exact .inl ⟨newer, (List.cons.inj (hnews.symm.trans hlog)).2⟩
    · exact .inl (append_of_not_mem [_] (hlog.symm.trans hnews) (by simp))
    · exact .inl (append_of_not_mem [_] (hlog.symm.trans hnews) (by simp))
  | freeze restrict hs => exact .inl (append_of_not_mem [_, _] hlog.symm (by simp))
  | env he hact => cases he <;> exact .inl ⟨newer, hlog⟩
  | _ => exact .inl ⟨newer, hlog⟩

/-- A run to a state in whose history a drain has begun passes the state in which it begins. -/
theorem Agent.exists_begins {cfg : Config} {ok : Agent → Action → Agent → Prop} {a b : Agent} {i : TaskId} {now : Snapshot}
    {newer older : List Event} (h : Machine.Steps (Agent.step cfg) ok a b)
    (hlog : b.ctx.log = newer ++ .began i now :: older) (ha : a.ctx.log <:+ older) :
    ∃ s, Machine.Steps (Agent.step cfg) ok a s ∧ Machine.Steps (Agent.step cfg) ok s b ∧ s.ctx.log = older ∧
      now = s.ctx.snapshot := by
  induction h generalizing newer with
  | refl =>
    have hlen := ha.length_le
    rw [hlog, List.length_append, List.length_cons] at hlen
    omega
  | @tail s u act hrun hs hok ih =>
    rcases Agent.begins_or_began hs hlog with ⟨newer', hold⟩ | ⟨hold, hnow⟩
    · obtain ⟨r, har, hrs, hr, hnow⟩ := ih hold
      exact ⟨r, har, hrs.tail hs hok, hr, hnow⟩
    · exact ⟨s, hrun, .tail (.refl s) hs hok, hold, hnow⟩

/-- A thaw that was requested after the reply of the last operation has drained itself: that operation has committed, so
it does not accept to abort. -/
private theorem joined_eq_none {cfg : Config} {ok : Agent → Action → Agent → Prop} {b : Agent} {op i : TaskId} {n : Nat}
    {r : Except ThawError Nat} {joined : Option TaskId} (hb : Machine.Reach (Agent.step cfg) ok Agent.Initial b)
    (hlast : lastOperation b.ctx.log = some op) (hn : .replied op (.ok n) ∈ b.ctx.log) (hi : op < i)
    (hm : .answered i r joined ∈ b.ctx.log) : joined = none := by
  cases joined with
  | none => rfl
  | some op' =>
    exfalso
    have hjoin := (Joining.reach hb).glob
    obtain ⟨hnewest, hacc⟩ := hjoin.answered i r op' hm
    obtain ⟨s, now, hs⟩ := (Decided.reach hb).glob.requested op' _ hacc
    have hle : op' ≤ op := hjoin.starts.le hlast hs
    have hge : op ≤ op' := (hnewest op ((Decided.reach hb).glob.replied op _ hn)).resolve_right (Nat.not_lt.2 (Nat.le_of_lt hi))
    obtain rfl := Nat.le_antisymm hle hge
    exact (abort_excludes_commit hb op').1 n hacc hn

theorem Told.depth_pos {depth : Dev → Nat} {own : Dev → Bool} {log : List Event} (h : Told depth own log) {x : Dev} :
    0 < depth x ↔ own x = true := by
  have hx := h.single x
  split at hx <;> simp_all

/-- The operation `op` has replied `Ok(n)` in `a`, and no other has followed it in the run to `b`. -/
structure Interval (cfg : Config) (a b : Agent) (op : TaskId) (n : Nat) : Prop where
  start : Machine.Reach (Agent.step cfg) SoleFreezer Agent.SoleStart a
  replied : .replied op (.ok n) ∈ a.ctx.log
  run : Machine.Steps (Agent.step cfg) SoleFreezer a b
  last : lastOperation b.ctx.log = some op

namespace Interval

variable {cfg : Config} {a b : Agent} {op i : TaskId} {n m : Nat} {log : List Event}

/-- A reachable state, whatever the start found frozen. -/
private theorem initial {s : Agent} (h : Machine.Reach (Agent.step cfg) SoleFreezer Agent.SoleStart s) :
    Machine.Reach (Agent.step cfg) SoleFreezer Agent.Initial s := h.of_init fun _ h => h.toInitial

private theorem meaning {s : Agent} (h : Machine.Reach (Agent.step cfg) SoleFreezer Agent.SoleStart s)
    (hn : .replied op (.ok n) ∈ s.ctx.log) : Meaning s.ctx.log op n := (FreezeReply.reach (initial h)).glob op n hn

theorem reach (h : Interval cfg a b op n) : Machine.Reach (Agent.step cfg) SoleFreezer Agent.SoleStart b := h.start.steps h.run

theorem started (h : Interval cfg a b op n) : Started a.ctx op := (Decided.reach (initial h.start)).glob.replied op _ h.replied

/-- The operation freezes nothing after its reply. -/
theorem successes_eq (h : Interval cfg a b op n) (h₁ : a.ctx.log <:+ log) (h₂ : log <:+ b.ctx.log) :
    successes log op = successes a.ctx.log op := by
  refine successes_eq_of_length h₁ (Nat.le_antisymm ?_ (successes_length_le h₁))
  rw [← (meaning h.start h.replied).count, (meaning h.reach ((Agent.log_suffix h.run).subset h.replied)).count]
  exact successes_length_le h₂

theorem lastOperation_eq (h : Interval cfg a b op n) (h₁ : a.ctx.log <:+ log) (h₂ : log <:+ b.ctx.log) :
    lastOperation log = some op := by
  obtain ⟨r, now, hs⟩ := h.started
  exact (Joining.reach (initial h.reach)).glob.starts.lastOperation h.last h₂ (h₁.subset hs)

/-- A thaw that is requested after the reply has begun its drain after it, and answers with the count of what was
frozen then. -/
theorem began (h : Interval cfg a b op n) (hi : a.next ≤ i) (hm : .answered i (.ok m) none ∈ b.ctx.log) :
    ∃ newer now older, b.ctx.log = newer ++ .began i now :: older ∧ a.ctx.log <:+ older ∧ older <:+ b.ctx.log ∧
      now.count = (m : ENat) ∧ Told now.depth now.own older := by
  obtain ⟨newer, older', hlog'⟩ := List.append_of_mem hm
  have htally : Counted older' i (.ok m : Except ThawError Nat) := by
    have hj := (Tallies.reach h.reach).glob
    rw [Tallies.Glob, hlog'] at hj
    exact hj.of_append
  obtain ⟨now, hbegun, hcount⟩ := htally m rfl
  obtain ⟨mid, older, rfl⟩ := begunBy_eq_some hbegun
  have hlog : b.ctx.log = (newer ++ .answered i (.ok m) none :: mid) ++ .began i now :: older := by
    rw [hlog']
    simp
  have hnot : .began i now ∉ a.ctx.log := fun he =>
    absurd ((Registry.reach (initial h.start)).glob.authors _ he i rfl) (Nat.not_lt.2 hi)
  have htold := (LastFreeze.reach h.reach).glob.log
  rw [hlog] at htold
  exact ⟨_, now, older, hlog, suffix_of_not_begun hnot (hlog ▸ Agent.log_suffix h.run),
    hlog ▸ ((List.suffix_cons _ older).trans (List.suffix_append _ _)), hcount, htold.of_append⟩

/-- What a drain finds frozen was frozen by the operation. -/
theorem frozen_subset (h : Interval cfg a b op n) (h₁ : a.ctx.log <:+ log) (h₂ : log <:+ b.ctx.log) {depth : Dev → Nat}
    {own : Dev → Bool} (ht : Told depth own log) : {x | own x = true} ⊆ {x | x ∈ successes a.ctx.log op} := by
  intro x hx
  have hmem := ((ht.last op (h.lastOperation_eq h₁ h₂) x).1 hx).1
  rwa [h.successes_eq h₁ h₂] at hmem

/-- The superblocks of the operation are as many as its reply says. -/
theorem successes_encard (h : Interval cfg a b op n) : {x | x ∈ successes a.ctx.log op}.encard = n := by
  have hmean := meaning h.start h.replied
  have hset : {x | x ∈ successes a.ctx.log op} = ((successes a.ctx.log op).toFinset : Set Dev) := by
    ext x
    simp
  rw [hset, Set.encard_coe_eq_coe_finsetCard, List.toFinset_card_of_nodup hmean.distinct, hmean.count]

/-- What is frozen at the begin of a drain and was frozen by the operation has been frozen since. -/
theorem frozen_before (h : Interval cfg a b op n) {s : Agent} (has : Machine.Steps (Agent.step cfg) SoleFreezer a s)
    (hsb : Machine.Steps (Agent.step cfg) SoleFreezer s b) (hs : s.ctx.log <:+ log) (h₂ : log <:+ b.ctx.log)
    {x : Dev} (hx : StillFrozen log op x) : 0 < s.ctx.depth x := by
  have hsa := Agent.log_suffix has
  have hsb := Agent.log_suffix hsb
  obtain ⟨more, rfl⟩ := hs
  have hstill : StillFrozen s.ctx.log op x := by
    refine hx.of_append ?_
    rw [h.successes_eq (hsa.trans (List.suffix_append _ _)) h₂, h.successes_eq hsa hsb]
  have hglob := (LastFreeze.reach (h.start.steps has)).glob
  rw [hglob.single x, if_pos ((hglob.last op (h.lastOperation_eq hsa hsb) x).2 hstill)]
  exact Nat.one_pos

/-- A thaw requested after the reply has drained itself, and counts what was frozen when its drain began, all of it frozen
by the operation. -/
theorem counts (h : Interval cfg a b op n) {joined : Option TaskId} (hi : a.next ≤ i)
    (hm : .answered i (.ok m) joined ∈ b.ctx.log) :
    joined = none ∧ ∃ newer now older, b.ctx.log = newer ++ .began i now :: older ∧ a.ctx.log <:+ older ∧
      older <:+ b.ctx.log ∧ Told now.depth now.own older ∧ {x | 0 < now.depth x}.encard = m ∧
      ∀ x, 0 < now.depth x → x ∈ successes a.ctx.log op := by
  have hopi : op < i := by
    have hreg := (Registry.reach (initial h.start)).glob
    exact Nat.lt_of_lt_of_le (hreg.started op h.started) hi
  obtain rfl := joined_eq_none (initial h.reach) h.last ((Agent.log_suffix h.run).subset h.replied) hopi hm
  obtain ⟨newer, now, older, hlog, h₁, h₂, hcount, htold⟩ := h.began hi hm
  refine ⟨rfl, newer, now, older, hlog, h₁, h₂, htold, ?_, fun x hx => h.frozen_subset h₁ h₂ htold (htold.depth_pos.1 hx)⟩
  rw [← hcount]
  exact congrArg Set.encard (Set.ext fun x => htold.depth_pos)

/-- A drain that finds as many superblocks frozen as the operation froze finds those, and they have been frozen since. -/
theorem lasting (h : Interval cfg a b op n) {now : Snapshot} (h₁ : a.ctx.log <:+ log) (h₂ : log <:+ b.ctx.log)
    (htold : Told now.depth now.own log) (hcount : {x | 0 < now.depth x}.encard = n) {x : Dev}
    (hx : x ∈ successes a.ctx.log op) :
    0 < now.depth x ∧ ∀ s, Machine.Steps (Agent.step cfg) SoleFreezer a s →
      Machine.Steps (Agent.step cfg) SoleFreezer s b → s.ctx.log <:+ log → 0 < s.ctx.depth x := by
  have hsub : {x | 0 < now.depth x} ⊆ {x | x ∈ successes a.ctx.log op} := fun x hx =>
    h.frozen_subset h₁ h₂ htold (htold.depth_pos.1 hx)
  have hall : {x | 0 < now.depth x} = {x | x ∈ successes a.ctx.log op} := by
    refine Set.Finite.eq_of_subset_of_encard_le ((List.finite_toSet _).subset hsub) hsub ?_
    rw [h.successes_encard]
    exact le_of_eq hcount.symm
  have hpos : 0 < now.depth x := by
    have hmem : x ∈ {x | 0 < now.depth x} := by
      rw [hall]
      exact hx
    exact hmem
  refine ⟨hpos, fun s has hsb hs => h.frozen_before has hsb hs h₂ ?_⟩
  exact (htold.last op (h.lastOperation_eq h₁ h₂) x).1 (htold.depth_pos.1 hpos)

/-- Where a drain finds another number of superblocks frozen, it begins in a state in which one of the operation is not. -/
theorem missed (h : Interval cfg a b op n) {newer : List Event} {now : Snapshot}
    (hlog : b.ctx.log = newer ++ .began i now :: log) (h₁ : a.ctx.log <:+ log) (h₂ : log <:+ b.ctx.log)
    (htold : Told now.depth now.own log) (hcount : {x | 0 < now.depth x}.encard = m) (hne : m ≠ n) :
    ∃ s, Machine.Steps (Agent.step cfg) SoleFreezer a s ∧ Machine.Steps (Agent.step cfg) SoleFreezer s b ∧
      s.ctx.log = log ∧ ∃ x ∈ successes a.ctx.log op, s.ctx.depth x = 0 := by
  obtain ⟨s, has, hsb, hs, rfl⟩ := Agent.exists_begins h.run hlog h₁
  refine ⟨s, has, hsb, hs, ?_⟩
  by_contra hall
  have hset : {x | 0 < s.ctx.snapshot.depth x} = {x | x ∈ successes a.ctx.log op} := by
    ext x
    refine ⟨fun hx => h.frozen_subset h₁ h₂ htold (htold.depth_pos.1 hx), fun hx => ?_⟩
    exact Nat.pos_of_ne_zero fun hzero => hall ⟨x, hx, hzero⟩
  rw [hset, h.successes_encard] at hcount
  exact hne (Nat.cast_injective hcount).symm

end Interval

/-- In every run of an agent that is the only one to freeze and thaw, on an honest kernel whose mount table lists what it
froze: when a freeze has replied `Ok(n)`, no other has followed it, and a thaw that was requested later has answered
`Ok(m)`, then `m` is the number of superblocks that were frozen when the drain of that thaw began, and all of them
were frozen by that freeze; if `m = n`, all `n` superblocks of the freeze were frozen in every state between
its reply and that drain; and if not, one of them was not frozen when that drain began. -/
theorem thaw_count_certifies {cfg : Config} {a b : Agent} {op i : TaskId} {n m : Nat} {joined : Option TaskId}
    (ha : Machine.Reach (Agent.step cfg) SoleFreezer Agent.SoleStart a) (hn : .replied op (.ok n) ∈ a.ctx.log)
    (hab : Machine.Steps (Agent.step cfg) SoleFreezer a b) (hlast : lastOperation b.ctx.log = some op)
    (hi : a.next ≤ i) (hm : .answered i (.ok m) joined ∈ b.ctx.log) :
    joined = none ∧ {x | x ∈ successes a.ctx.log op}.encard = n ∧
      (∃ newer now older, b.ctx.log = newer ++ .began i now :: older ∧ {x | 0 < now.depth x}.encard = m ∧
        (∀ x, 0 < now.depth x → x ∈ successes a.ctx.log op) ∧
        (m ≠ n → ∃ s, Machine.Steps (Agent.step cfg) SoleFreezer a s ∧ Machine.Steps (Agent.step cfg) SoleFreezer s b ∧
          s.ctx.log = older ∧ ∃ x ∈ successes a.ctx.log op, s.ctx.depth x = 0)) ∧
      (m = n → ∀ s, Machine.Steps (Agent.step cfg) SoleFreezer a s → Machine.Steps (Agent.step cfg) SoleFreezer s b →
        (∀ now, .began i now ∉ s.ctx.log) → ∀ x ∈ successes a.ctx.log op, 0 < s.ctx.depth x) := by
  have h : Interval cfg a b op n := ⟨ha, hn, hab, hlast⟩
  obtain ⟨hjoined, newer, now, older, hlog, h₁, h₂, htold, hcount, hsub⟩ := h.counts hi hm
  refine ⟨hjoined, h.successes_encard, ⟨newer, now, older, hlog, hcount, hsub, h.missed hlog h₁ h₂ htold hcount⟩, ?_⟩
  rintro rfl s has hsb hbefore x hx
  exact (h.lasting h₁ h₂ htold hcount hx).2 s has hsb
    (suffix_of_not_begun (hbefore now) (hlog ▸ Agent.log_suffix hsb))

/-- A check of the transitions of a run without a discovery drain. -/
private def solely (a : Agent) (act : Action) (a' : Agent) : Bool :=
  allows Cover.assumed a act a' && (news a.ctx a'.ctx).all (honestFreeze a.ctx) && !act.isForeign

private theorem soleFreezer_of_solely (a : Agent) (act : Action) (a' : Agent) (h : solely a act a' = true) :
    SoleFreezer a act a' := by
  simp only [solely, Bool.and_eq_true, Bool.not_eq_true', List.all_eq_true] at h
  exact ⟨Cover.Assumed.of_check a act a' h.1.1, h.1.2, h.2⟩

private def repliesCount (op : TaskId) (n : Nat) : Event → Bool
  | .replied i (.ok k) => i = op && k = n
  | _ => false

private def answersWith (i : TaskId) (n : Nat) : Event → Bool
  | .answered j (.ok k) none => j = i && k = n
  | _ => false

private theorem replied_of_exists {log : List Event} {op : TaskId} {n : Nat} (h : ∃ e ∈ log, repliesCount op n e = true) :
    .replied op (.ok n) ∈ log := by
  obtain ⟨e, he, hrep⟩ := h
  unfold repliesCount at hrep
  split at hrep
  · simp only [Bool.and_eq_true, decide_eq_true_eq] at hrep
    rw [hrep.1, hrep.2] at he
    exact he
  · cases hrep

private theorem answered_of_exists {log : List Event} {i : TaskId} {n : Nat} (h : ∃ e ∈ log, answersWith i n e = true) :
    .answered i (.ok n) none ∈ log := by
  obtain ⟨e, he, hans⟩ := h
  unfold answersWith at hans
  split at hans
  · simp only [Bool.and_eq_true, decide_eq_true_eq] at hans
    rw [hans.1, hans.2] at he
    exact he
  · cases hans

/-- A freeze of `(8, 1)`, which replies, and a run after it, which answers the thaw 3 with `m` and ends as `p` says. -/
private def freezesOneThen (chk : Agent → Action → Agent → Bool) (acts : List Action) (m : Nat) (p : Agent → Bool) : Bool :=
  Machine.permitted (Agent.step ⟨60, 30, 300⟩) chk (Agent.cold false) Script.freezeOne &&
    (Machine.execute (Agent.step ⟨60, 30, 300⟩) (Agent.cold false) Script.freezeOne).any fun a =>
      a.ctx.log.any (repliesCount 1 1) && decide (a.next ≤ 3) && ((successes a.ctx.log 1).any fun d => d = (8, 1)) &&
        Machine.permitted (Agent.step ⟨60, 30, 300⟩) chk a acts &&
        (Machine.execute (Agent.step ⟨60, 30, 300⟩) a acts).any fun b =>
          b.ctx.log.any (answersWith 3 m) && decide (lastOperation b.ctx.log = some 1) && p b

private theorem freezeOne_then {ok : Agent → Action → Agent → Prop} {chk : Agent → Action → Agent → Bool}
    (h : ∀ a act a', chk a act a' = true → ok a act a') {acts : List Action} {m : Nat} {p : Agent → Bool}
    (hrun : freezesOneThen chk acts m p = true) :
    ∃ a b, Machine.Reach (Agent.step ⟨60, 30, 300⟩) ok Agent.SoleStart a ∧ .replied 1 (.ok 1) ∈ a.ctx.log ∧
      a.next ≤ 3 ∧ (8, 1) ∈ successes a.ctx.log 1 ∧ Machine.Steps (Agent.step ⟨60, 30, 300⟩) ok a b ∧
      .answered 3 (.ok m) none ∈ b.ctx.log ∧ lastOperation b.ctx.log = some 1 ∧ p b = true := by
  obtain ⟨hper, hrun⟩ := Bool.and_eq_true_iff.1 hrun
  obtain ⟨a, ha, hp⟩ := (Option.any_eq_true _ _).1 hrun
  simp only [Bool.and_eq_true, decide_eq_true_eq, List.any_eq_true, exists_eq_right] at hp
  obtain ⟨⟨⟨⟨hn, hnext⟩, hmem⟩, hper'⟩, hb⟩ := hp
  obtain ⟨b, hb, hq⟩ := (Option.any_eq_true _ _).1 hb
  simp only [Bool.and_eq_true, decide_eq_true_eq, List.any_eq_true] at hq
  have hcold : Agent.SoleStart (Agent.cold false) := ⟨Agent.cold_initial false, fun _ => rfl⟩
  exact ⟨a, b, Machine.Reach.execute (fun a act a' _ => h a act a') (.init hcold) ha hper, replied_of_exists hn, hnext, hmem,
    Machine.Steps.execute h hb hper', answered_of_exists hq.1.1, hq.1.2, hq.2⟩

private theorem thawsOne : freezesOneThen solely Script.thawOne 1 (fun _ => true) = true := by decide

/-- A freeze of one superblock and its thaw: it was frozen until the drain began. -/
theorem thaw_count_certifies_one :
    ∃ a b, Machine.Reach (Agent.step ⟨60, 30, 300⟩) SoleFreezer Agent.SoleStart a ∧
      Machine.Steps (Agent.step ⟨60, 30, 300⟩) SoleFreezer a b ∧ .replied 1 (.ok 1) ∈ a.ctx.log ∧
      .answered 3 (.ok 1) none ∈ b.ctx.log ∧
      ∀ s, Machine.Steps (Agent.step ⟨60, 30, 300⟩) SoleFreezer a s → Machine.Steps (Agent.step ⟨60, 30, 300⟩) SoleFreezer s b →
        (∀ now, .began 3 now ∉ s.ctx.log) → 0 < s.ctx.depth (8, 1) := by
  obtain ⟨a, b, hreach, hn, hnext, hmem, hsteps, hm, hlast, -⟩ :=
    freezeOne_then soleFreezer_of_solely thawsOne
  obtain ⟨-, -, -, hall⟩ := thaw_count_certifies hreach hn hsteps hlast hnext hm
  exact ⟨a, b, hreach, hsteps, hn, hm, fun s has hsb hs => hall rfl s has hsb hs (8, 1) hmem⟩

/-! ### The contract of the controller -/

/-- What the contract of a single controller assumes: no other freezer, `FIFREEZE` freezes no superblock twice, `FITHAW`
answers `EINVAL` only on a superblock that is not frozen, and a discovery drain reads a table that lists what is frozen. -/
structure Contracted (a : Agent) (act : Action) (a' : Agent) : Prop where
  alone : act.isForeign = false
  freezes : ∀ e ∈ news a.ctx a'.ctx, honestFreeze a.ctx e = true
  invalid : ∀ i d err, .fithaw i d (.error err) ∈ news a.ctx a'.ctx → err.isInvalid = true → a.ctx.depth d = 0
  listed : ∀ i entries, .discovered i entries ∈ news a.ctx a'.ctx → ∀ d, 0 < a.ctx.depth d →
    ∃ e ∈ entries, isEligible e = true ∧ e.dev = d

/-- A run under the contract in which a `FITHAW` of a frozen superblock is answered with `err`: the thaw answers `Ok(0)`, and
the superblock was frozen when its drain began. -/
def Miscounted (err : KernelError) : Prop :=
  ∃ a b now, Machine.Reach (Agent.step ⟨60, 30, 300⟩) Contracted Agent.SoleStart a ∧ .replied 1 (.ok 1) ∈ a.ctx.log ∧
    Machine.Steps (Agent.step ⟨60, 30, 300⟩) Contracted a b ∧ lastOperation b.ctx.log = some 1 ∧ a.next ≤ 3 ∧
    .fithaw 3 (8, 1) (.error err) ∈ b.ctx.log ∧ .answered 3 (.ok 0) none ∈ b.ctx.log ∧ .began 3 now ∈ b.ctx.log ∧
    0 < now.depth (8, 1)

/-- The kernel answers the `FITHAW` of the thaw 3 with an error although the superblock is frozen. -/
private def unsupportedFrozen (err : KernelError) : List Action :=
  [.thaw] ++ Script.proceed 3 4 ++
    [Script.thaw 3 (.job (.fithaw (.error err))), Script.thaw 3 (.job (.unlink .ok))] ++ Script.proceed 3 6

/-- A check of the transitions of a run without a discovery drain. -/
private def contracted (a : Agent) (act : Action) (a' : Agent) : Bool :=
  !act.isForeign && (news a.ctx a'.ctx).all fun e =>
    match e with
    | .fithaw _ d (.error err) => !err.isInvalid || decide (a.ctx.depth d = 0)
    | .discovered _ _ => false
    | e => honestFreeze a.ctx e

private theorem contracted_of_check (a : Agent) (act : Action) (a' : Agent) (h : contracted a act a' = true) :
    Contracted a act a' := by
  simp only [contracted, Bool.and_eq_true, Bool.not_eq_true', List.all_eq_true] at h
  refine ⟨h.1, fun e he => ?_, fun i d err he hinv => ?_, fun i entries he => ?_⟩
  · have := h.2 e he
    cases e <;> first | exact this | rfl
  · simpa [hinv] using h.2 _ he
  · cases h.2 _ he

private def refusesWith (err : KernelError) : Event → Bool
  | .fithaw i d (.error err') => i = 3 && d = (8, 1) && err' = err
  | _ => false

/-- The drain of the thaw 3 found `(8, 1)` frozen, and its `FITHAW` was answered with the error. -/
private def refusedFrozen (err : KernelError) (b : Agent) : Bool :=
  b.ctx.log.any (refusesWith err) && (begunBy 3 b.ctx.log).any fun now => decide (0 < now.depth (8, 1))

private theorem miscounted_of_run {err : KernelError}
    (hrun : freezesOneThen contracted (unsupportedFrozen err) 0 (refusedFrozen err) = true) : Miscounted err := by
  obtain ⟨a, b, hreach, hn, hnext, -, hsteps, hm, hlast, hp⟩ := freezeOne_then contracted_of_check hrun
  obtain ⟨hany, hfound⟩ := Bool.and_eq_true_iff.1 hp
  obtain ⟨e, he, href⟩ := List.any_eq_true.1 hany
  have hfithaw : .fithaw 3 (8, 1) (.error err) ∈ b.ctx.log := by
    unfold refusesWith at href
    split at href
    · simp only [Bool.and_eq_true, decide_eq_true_eq] at href
      rw [href.1.1, href.1.2, href.2] at he
      exact he
    · cases href
  obtain ⟨now, hbegun, hpos⟩ := (Option.any_eq_true _ _).1 hfound
  obtain ⟨newer, older, hlog⟩ := begunBy_eq_some hbegun
  exact ⟨a, b, now, hreach, hn, hsteps, hlast, hnext, hfithaw, hm, by rw [hlog]; simp, of_decide_eq_true hpos⟩

/-- An answer that the ioctl is not supported ends a drain as one that the superblock is not frozen does. -/
theorem thaw_miscounts_unsupported :
    Miscounted (.errno .EOPNOTSUPP) ∧ Miscounted (.errno .ENOTTY) ∧ Miscounted (.errno .ENOSYS) := by
  exact ⟨miscounted_of_run (by decide), miscounted_of_run (by decide), miscounted_of_run (by decide)⟩

/-- Where moreover no `FITHAW` of a frozen superblock is answered so: a thaw requested after the reply `Ok(n)` of the last
freeze that answers `Ok(m)` has counted the superblocks that were frozen when its drain began, each of them once; and if
`m = n`, every superblock of the freeze was frozen in every state from the reply to that drain. -/
theorem snapshot_contract {cfg : Config} {a b : Agent} {op i : TaskId} {n m : Nat} {joined : Option TaskId}
    (ha : Machine.Reach (Agent.step cfg) SoleFreezer Agent.SoleStart a) (hn : .replied op (.ok n) ∈ a.ctx.log)
    (hab : Machine.Steps (Agent.step cfg) SoleFreezer a b) (hlast : lastOperation b.ctx.log = some op)
    (hi : a.next ≤ i) (hm : .answered i (.ok m) joined ∈ b.ctx.log) :
    (successes a.ctx.log op).Nodup ∧ (successes a.ctx.log op).length = n ∧
      ∃ newer now older counted, b.ctx.log = newer ++ .began i now :: older ∧ a.ctx.log <:+ older ∧
        List.Nodup counted ∧ counted.length = m ∧ (∀ x, x ∈ counted ↔ 0 < now.depth x) ∧
        (m = n → ∀ x ∈ successes a.ctx.log op, 0 < now.depth x ∧
          ∀ s, Machine.Steps (Agent.step cfg) SoleFreezer a s → Machine.Steps (Agent.step cfg) SoleFreezer s b →
            s.ctx.log <:+ older → 0 < s.ctx.depth x) := by
  have h : Interval cfg a b op n := ⟨ha, hn, hab, hlast⟩
  have hmean := Interval.meaning ha hn
  obtain ⟨-, newer, now, older, hlog, h₁, h₂, htold, hcount, hsub⟩ := h.counts hi hm
  have hfinite : {x | 0 < now.depth x}.Finite := Set.finite_of_encard_eq_coe hcount
  refine ⟨hmean.distinct, hmean.count.symm, newer, now, older, hfinite.toFinset.toList, hlog, h₁, Finset.nodup_toList _,
    ?_, fun x => by simp, ?_⟩
  · rw [Finset.length_toList, ← Nat.cast_inj (R := ENat), ← hfinite.encard_eq_coe_toFinset_card]
    exact hcount
  · rintro rfl x hx
    exact h.lasting h₁ h₂ htold hcount hx

/-- A freeze of one superblock and its thaw count the same. -/
theorem snapshot_contract_one :
    ∃ a b newer now older, Machine.Reach (Agent.step ⟨60, 30, 300⟩) SoleFreezer Agent.SoleStart a ∧
      Machine.Steps (Agent.step ⟨60, 30, 300⟩) SoleFreezer a b ∧ b.ctx.log = newer ++ .began 3 now :: older ∧
      .answered 3 (.ok 1) none ∈ b.ctx.log ∧ 0 < now.depth (8, 1) := by
  obtain ⟨a, b, hreach, hn, hnext, hmem, hsteps, hm, hlast, -⟩ :=
    freezeOne_then soleFreezer_of_solely thawsOne
  obtain ⟨-, -, newer, now, older, -, hlog, -, -, -, -, hall⟩ := snapshot_contract hreach hn hsteps hlast hnext hm
  exact ⟨a, b, newer, now, older, hreach, hsteps, hlog, hm, (hall rfl _ hmem).1⟩

end Qeminga
