import Mathlib.Data.List.Basic

/-!
# The freeze state machine

`state.rs`: four states, two kinds of tokens, and the transitions as functions of the state behind the mutex.  A
transition out of `Freezing` or `Thawing` sets the state unconditionally, so its safety rests on the tokens.
-/

namespace Qeminga

inductive FreezeState
  | thawed | freezing | frozen | thawing
  deriving DecidableEq, Repr

/-- The frozen gate is closed in every state but `thawed`. -/
def FreezeState.isFrozenForGate : FreezeState → Bool
  | .thawed => false
  | _ => true

/-- What a refused transition attempted. -/
inductive Attempted
  | beginFreeze | claimThaw | claimThawFromFrozen
  deriving DecidableEq, Repr

structure TransitionError where
  attempted : Attempted
  current : FreezeState
  deriving DecidableEq, Repr

/-- Proof that the holder moved the machine into `freezing`. -/
structure FreezeToken where
  deriving DecidableEq, Repr

/-- Proof that the holder won the `thawing` transition, with the state it was claimed from. -/
structure ThawToken where
  origin : FreezeState
  deriving DecidableEq, Repr

def ThawToken.isRecoveryDrain (token : ThawToken) : Bool := token.origin = .thawed

namespace FreezeState

def beginFreeze : FreezeState → Except TransitionError (FreezeState × FreezeToken)
  | .thawed => .ok (.freezing, ⟨⟩)
  | current => .error ⟨.beginFreeze, current⟩

def freezeSucceeded (_ : FreezeToken) : FreezeState := .frozen

def freezeFailed (_ : FreezeToken) : FreezeState := .thawed

def abortFreeze (_ : FreezeToken) : FreezeState × ThawToken := (.thawing, ⟨.freezing⟩)

def claimThaw : FreezeState → Except TransitionError (FreezeState × ThawToken)
  | .frozen => .ok (.thawing, ⟨.frozen⟩)
  | .thawed => .ok (.thawing, ⟨.thawed⟩)
  | current => .error ⟨.claimThaw, current⟩

def claimThawFromFrozen : FreezeState → Except TransitionError (FreezeState × ThawToken)
  | .frozen => .ok (.thawing, ⟨.frozen⟩)
  | current => .error ⟨.claimThawFromFrozen, current⟩

def thawSucceeded (_ : ThawToken) : FreezeState := .thawed

def thawFailed (_ : ThawToken) : FreezeState := .frozen

end FreezeState

end Qeminga
