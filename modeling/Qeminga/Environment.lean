import Qeminga.Moves

/-!
# What is assumed of the kernel and of the mount table

An assumption is a predicate on the events of the history, in the context in which they happen.  A run is allowed by
it if every event that a step records satisfies it.
-/

namespace Qeminga

/-- The events that a step from `c` to `c'` records. -/
def news (c c' : Ctx) : List Event := c'.log.take (c'.log.length - c.log.length)

theorem news_eq {c c' : Ctx} {new : List Event} (h : c'.log = new ++ c.log) : news c c' = new := by
  simp [news, h]

/-- Every event that the step records satisfies `E`. -/
def Allows (E : Ctx → Event → Prop) (a : Agent) (_ : Action) (a' : Agent) : Prop := ∀ e ∈ news a.ctx a'.ctx, E a.ctx e

theorem Allows.mono {E F : Ctx → Event → Prop} (h : ∀ c e, E c e → F c e) {a a' : Agent} {act : Action}
    (ha : Allows E a act a') : Allows F a act a' := fun e he => h _ _ (ha e he)

/-- The same, as a check of the transitions of a fixed list of actions. -/
def allows (chk : Ctx → Event → Bool) (a : Agent) (_ : Action) (a' : Agent) : Bool := (news a.ctx a'.ctx).all (chk a.ctx)

theorem Allows.of_check {E : Ctx → Event → Prop} {chk : Ctx → Event → Bool} (h : ∀ c e, chk c e = true → E c e)
    (a : Agent) (act : Action) (a' : Agent) (ha : allows chk a act a' = true) : Allows E a act a' :=
  fun e he => h _ _ (List.all_eq_true.1 ha e he)

/-- The kernel answers `FITHAW` with "not frozen" or "not supported" only on a superblock that is not frozen. -/
def honestThaw (c : Ctx) : Event → Bool
  | .fithaw _ d (.error err) => !err.endsDrain || decide (c.depth d = 0)
  | _ => true

/-- The handles that the drain of the task `i` has when it reads the mount table. -/
def Agent.drained (a : Agent) (i : TaskId) : List Mount :=
  match a.tasks i with
  | some (.thaw _ (.blocking _ j)) => j.val.retained
  | _ => []

/-- The mount table that the discovery drain of a task reads lists, as an eligible row, every superblock that the agent
froze, that is still frozen and that is none of the `handles` of the task. -/
def TableListsOwn (handles : TaskId → List Mount) (c : Ctx) : Event → Prop
  | .discovered i entries => ∀ d, c.own d = true → d ∈ devs (handles i) ∨ ∃ e ∈ entries, isEligible e = true ∧ e.dev = d
  | _ => True

/-- What a `FITHAW` that ends its drain says of an honest kernel. -/
theorem depth_of_endsDrain {c c' : Ctx} {i : TaskId} {d : Dev} {err : KernelError}
    (h : c.fithaw i d (.error err) = some c') (hon : ∀ e ∈ news c c', honestThaw c e = true)
    (he : err.endsDrain = true) : c.depth d = 0 := by
  obtain rfl := Option.some.inj h
  have hn : news c (c.note (.fithaw i d (.error err))) = [.fithaw i d (.error err)] := news_eq rfl
  simpa [honestThaw, he] using hon (.fithaw i d (.error err)) (by rw [hn]; exact List.mem_cons_self)

end Qeminga
