import Qeminga.RouterMoves
import Qeminga.Invariant.Ring
import Qeminga.Contract.CrashSafety

/-!
# No audit write while anything is frozen

The router is in `Ring` mode exactly while the agent's hooks say so, and the writer thread takes nothing in that mode.
So between the first `FIFREEZE` and the end of the last drain the only write to the sink is one that was in flight when
the ring was entered.  As for the marker, a discovery drain relies on the mount table.
-/

namespace Qeminga

namespace Logging

variable {cfg : Config}

/-- What is assumed of the steps of the agent. -/
def Allowed (ok : Agent → Action → Agent → Prop) (s : Logging) (act : LogAction) (s' : Logging) : Prop :=
  ∀ a, act = .agent a → ok s.agent a s'.agent

/-- The mode of the router is that of the agent, and the ring is empty in `Normal` mode. -/
structure Follows (s : Logging) : Prop where
  mode : s.router.mode = if s.agent.ctx.ring then .ring else .normal
  empty : s.router.mode = .normal → s.router.ring.drain = s.router.ring

/-- The check of a step of the agent, for fixed lists of actions. -/
def allowed (chk : Ctx → Event → Bool) (s : Logging) (act : LogAction) (s' : Logging) : Bool :=
  match act with
  | .agent a => allows chk s.agent a s'.agent
  | _ => true

private theorem Allowed.of_check {ok : Agent → Action → Agent → Prop} {chk : Ctx → Event → Bool}
    (h : ∀ a act a', allows chk a act a' = true → ok a act a') (s : Logging) (act : LogAction) (s' : Logging)
    (hok : allowed chk s act s' = true) : Allowed ok s act s' := by
  rintro a rfl
  exact h _ a _ hok

private theorem cold_initial : Initial ⟨Agent.cold false, bootRouter false⟩ := ⟨Agent.cold_initial false, rfl⟩

/-- No mount table is read. -/
private def undiscovered (_ : Ctx) : Event → Bool
  | .discovered _ _ => false
  | _ => true

end Logging

end Qeminga
