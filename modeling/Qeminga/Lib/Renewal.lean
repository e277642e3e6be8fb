import Mathlib.Data.List.Basic
import Mathlib.Data.Nat.Find

/-!
# Renewed deadlines

A deadline that is `idle` after the last instant that renewed it.  The instants that renew it are the start and every
event that comes before the deadline of that moment; an event that comes too late renews nothing.  Of finitely many
events there is one renewal after which the next event, if there is one, comes too late (`exists_last`), and it is the
last of all renewals (`Renews.le_of_quiet`).
-/

namespace Renewal

/-- The instants that renew the deadline: the start, and after each of them the next event, if it comes in time. -/
inductive Renews (start idle : Nat) (events : List Nat) : Nat → Prop
  | start : Renews start idle events start
  | event {g h : Nat} (hg : Renews start idle events g) (hh : h ∈ events) (hlt : g < h)
      (hnext : ∀ h' ∈ events, g < h' → h ≤ h') (hin : h < g + idle) : Renews start idle events h

/-- No event after `g` comes before `g + idle`. -/
def Quiet (idle : Nat) (events : List Nat) (g : Nat) : Prop := ∀ h ∈ events, g < h → g + idle ≤ h

/-- The first renewal after which no event comes in time. -/
structure Last (start idle : Nat) (events : List Nat) (g : Nat) : Prop where
  renews : Renews start idle events g
  quiet : Quiet idle events g
  first : ∀ g', Renews start idle events g' → Quiet idle events g' → g ≤ g'

variable {start idle g g' : Nat} {events : List Nat}

theorem Renews.start_le (h : Renews start idle events g) : start ≤ g := by
  induction h with
  | start => exact Nat.le_refl _
  | event _ _ hlt _ _ ih => omega

/-- A renewal after the start is an event. -/
theorem Renews.mem (h : Renews start idle events g) (hg : start < g) : g ∈ events := by
  cases h with
  | start => exact absurd hg (Nat.lt_irrefl _)
  | event _ hh => exact hh

theorem Renews.le_of_quiet (hg : Renews start idle events g) (hq : Quiet idle events g)
    (h : Renews start idle events g') : g' ≤ g := by
  induction h with
  | start => exact hg.start_le
  | event hr hh hlt hnext hin ih =>
    rename_i r h
    rcases Nat.lt_or_eq_of_le ih with hrg | rfl
    · exact hnext g (hg.mem (Nat.lt_of_le_of_lt hr.start_le hrg)) hrg
    · have := hq h hh hlt
      omega

/-- From every renewal on there is a quiet one, since the events are bounded. -/
theorem Renews.exists_quiet (h : Renews start idle events g) : ∃ g', Renews start idle events g' ∧ Quiet idle events g' := by
  obtain ⟨b, hb⟩ : ∃ b, ∀ h ∈ events, h ≤ b := ⟨events.max?.getD 0, fun h hh => List.le_max?_getD_of_mem hh⟩
  generalize hn : b - g = n
  induction n using Nat.strong_induction_on generalizing g with
  | _ n ih =>
    by_cases hq : Quiet idle events g
    · exact ⟨g, h, hq⟩
    · simp only [Quiet, not_forall, Nat.not_le] at hq
      obtain ⟨e, he, hlt, hin⟩ := hq
      -- the next event after `g` comes in time as well
      have hex : ∃ h, h ∈ events ∧ g < h := ⟨e, he, hlt⟩
      obtain ⟨hm, hgm⟩ := Nat.find_spec hex
      have hle : ∀ h' ∈ events, g < h' → Nat.find hex ≤ h' := fun h' hh' hg' => Nat.find_min' hex ⟨hh', hg'⟩
      have hbm := hb _ hm
      exact ih (b - Nat.find hex) (by omega) (h.event hm hgm hle (Nat.lt_of_le_of_lt (hle e he hlt) hin)) rfl

theorem exists_last (start idle : Nat) (events : List Nat) : ∃ g, Last start idle events g := by
  have hstart : Renews start idle events start := .start
  obtain ⟨g, hr, hq⟩ := hstart.exists_quiet
  exact ⟨g, hr, hq, fun g' hr' hq' => hr'.le_of_quiet hq' hr⟩

end Renewal
