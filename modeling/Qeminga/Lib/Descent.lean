import Mathlib.Logic.Relation

/-!
# Descents

A descent along a list of points follows, at each point, the links attached there as far as they lead.  If at most one link
is attached to a place at a point, the end of a descent is determined by its start.
-/

open Relation

variable {α π : Type*}

/-- `b` is where the links of `R` from `a` end. -/
def Settles (R : α → α → Prop) (a b : α) : Prop := ReflTransGen R a b ∧ ∀ c, ¬ R b c

theorem Settles.unique {R : α → α → Prop} (hR : ∀ a b c, R a b → R a c → b = c) {a b c : α} (hb : Settles R a b)
    (hc : Settles R a c) : b = c := by
  obtain ⟨hab, hend⟩ := hb
  induction hab using ReflTransGen.head_induction_on with
  | refl =>
    rcases hc.1.cases_head with rfl | ⟨x, hx, -⟩
    · rfl
    · exact absurd hx (hend x)
  | head hstep _ ih =>
    rcases hc.1.cases_head with rfl | ⟨x, hx, hxc⟩
    · exact absurd hstep (hc.2 _)
    · obtain rfl := hR _ _ _ hstep hx
      exact ih ⟨hxc, hc.2⟩

/-- A descent from one place to another along a list of points. -/
inductive Descends (attached : π → α → α → Prop) : List π → α → α → Prop
  | nil (a : α) : Descends attached [] a a
  | cons {p : π} {ps : List π} {a b c : α} (h : Settles (attached p) a b) (hrest : Descends attached ps b c) :
      Descends attached (p :: ps) a c

namespace Descends

variable {attached : π → α → α → Prop} {p : π} {ps : List π} {a b c : α}

theorem unique (hfun : ∀ p a b c, attached p a b → attached p a c → b = c) (hb : Descends attached ps a b)
    (hc : Descends attached ps a c) : b = c := by
  induction hb with
  | nil a =>
    cases hc
    rfl
  | cons h _ ih =>
    cases hc with
    | cons h' hrest =>
      obtain rfl := h.unique (hfun _) h'
      exact ih hrest

/-- One more link at the first point. -/
theorem cross (h : attached p a b) (hb : Descends attached (p :: ps) b c) : Descends attached (p :: ps) a c := by
  cases hb with
  | cons hsettles hrest => exact .cons ⟨.head h hsettles.1, hsettles.2⟩ hrest

/-- Nothing is attached at the first point. -/
theorem skip (h : ∀ b, ¬ attached p a b) (hrest : Descends attached ps a c) : Descends attached (p :: ps) a c :=
  .cons ⟨.refl, h⟩ hrest

/-- Nothing is attached at any point. -/
theorem stay (h : ∀ p ∈ ps, ∀ b, ¬ attached p a b) : Descends attached ps a a := by
  induction ps with
  | nil => exact .nil a
  | cons p ps ih => exact skip (h p List.mem_cons_self) (ih fun q hq => h q (List.mem_cons_of_mem _ hq))

theorem append_skip {qs : List π} (h : ∀ p ∈ qs, ∀ b, ¬ attached p a b) (hrest : Descends attached ps a c) :
    Descends attached (qs ++ ps) a c := by
  induction qs with
  | nil => exact hrest
  | cons q qs ih => exact skip (h q List.mem_cons_self) (ih fun q' hq => h q' (List.mem_cons_of_mem _ hq))

end Descends
