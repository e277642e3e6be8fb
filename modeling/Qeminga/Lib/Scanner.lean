import Mathlib.Data.List.Basic

/-!
# Scanners of annotated texts

A scanner takes one symbol at a time and may refuse.  A text comes with marks: what the scanner should show after each
symbol.  `Reads` says what a scanner does with a part of a text: from a state with `P` it accepts the part exactly when
`ok` holds, it then ends in a state with `Q`, and after every symbol that it has not refused it shows that symbol's mark.
Parts compose (`Reads.append`), so that a scanner of a text given by a grammar is followed rule by rule.
-/

namespace Scanner

variable {σ α π ε : Type} (step : σ → α → Except ε σ) (view : σ → π)

/-- The scan of a text. -/
def run (text : List α) (s : σ) : Except ε σ := text.foldlM step s

theorem run_append (xs ys : List α) (s : σ) : run step (xs ++ ys) s = (run step xs s).bind (run step ys) :=
  List.foldlM_append

theorem run_append_ok {xs ys : List α} {s t : σ} (h : run step (xs ++ ys) s = .ok t) :
    ∃ s', run step xs s = .ok s' ∧ run step ys s' = .ok t := by
  rw [run_append] at h
  cases hxs : run step xs s with
  | error e =>
    rw [hxs] at h
    cases h
  | ok s' =>
    rw [hxs] at h
    exact ⟨s', rfl, h⟩

structure Reads (P : σ → Prop) (text : List (α × π)) (Q : σ → Prop) (ok : Prop) : Prop where
  accepts : ok → ∀ s, P s → ∃ t, run step (text.map Prod.fst) s = .ok t ∧ Q t
  refuses : ¬ ok → ∀ s, P s → ∃ e, run step (text.map Prod.fst) s = .error e
  shows : ∀ xs m ys, text = xs ++ m :: ys → ∀ s, P s → ∀ t, run step ((xs ++ [m]).map Prod.fst) s = .ok t → view t = m.2

variable {step view} {P Q R : σ → Prop} {text text' : List (α × π)} {ok ok' : Prop}

theorem Reads.iff (h : Reads step view P text Q ok) (hok : ok ↔ ok') : Reads step view P text Q ok' := by
  obtain rfl := propext hok
  exact h

theorem Reads.nil : Reads step view P [] P True where
  accepts := fun _ s hs => ⟨s, rfl, hs⟩
  refuses := fun h => absurd trivial h
  shows := fun xs m ys h => absurd h (by simp)

/-- One symbol. -/
theorem Reads.single {x : α} {m : π} (haccept : ok → ∀ s, P s → ∃ t, step s x = .ok t ∧ Q t ∧ view t = m)
    (hrefuse : ¬ ok → ∀ s, P s → ∃ e, step s x = .error e) : Reads step view P [(x, m)] Q ok := by
  have hrun : ∀ s, run step ([(x, m)].map Prod.fst) s = step s x := by
    intro s
    show (step s x).bind _ = _
    cases step s x <;> rfl
  refine ⟨fun hok s hs => ?_, fun hok s hs => ?_, fun xs m' ys h s hs t ht => ?_⟩
  · obtain ⟨t, ht, hq, -⟩ := haccept hok s hs
    exact ⟨t, (hrun s).trans ht, hq⟩
  · obtain ⟨e, he⟩ := hrefuse hok s hs
    exact ⟨e, (hrun s).trans he⟩
  · obtain ⟨rfl, rfl, -⟩ : xs = [] ∧ m' = (x, m) ∧ ys = [] := by
      cases xs with
      | nil => simpa [eq_comm] using h
      | cons y xs => simp at h
    rw [List.nil_append, hrun] at ht
    by_cases hok : ok
    · obtain ⟨u, hu, -, hview⟩ := haccept hok s hs
      rw [ht] at hu
      cases hu
      exact hview
    · obtain ⟨e, he⟩ := hrefuse hok s hs
      rw [ht] at he
      cases he

/-- A part that the scanner has passed was accepted. -/
theorem Reads.of_run_ok (h : Reads step view P text Q ok) {s t : σ} (hs : P s)
    (ht : run step (text.map Prod.fst) s = .ok t) : ok ∧ Q t := by
  by_cases hok : ok
  · obtain ⟨u, hu, hq⟩ := h.accepts hok s hs
    rw [ht] at hu
    cases hu
    exact ⟨hok, hq⟩
  · obtain ⟨e, he⟩ := h.refuses hok s hs
    rw [ht] at he
    cases he

/-- Parts compose.  The second is reached only when the first is accepted. -/
theorem Reads.append (h : Reads step view P text Q ok) (h' : ok → Reads step view Q text' R ok') :
    Reads step view P (text ++ text') R (ok ∧ ok') := by
  refine ⟨fun hok s hs => ?_, fun hok s hs => ?_, fun xs m ys heq s hs t ht => ?_⟩
  · obtain ⟨t, ht, hq⟩ := h.accepts hok.1 s hs
    obtain ⟨u, hu, hr⟩ := (h' hok.1).accepts hok.2 t hq
    refine ⟨u, ?_, hr⟩
    rw [List.map_append, run_append, ht]
    exact hu
  · rw [List.map_append, run_append]
    by_cases hfirst : ok
    · obtain ⟨t, ht, hq⟩ := h.accepts hfirst s hs
      obtain ⟨e, he⟩ := (h' hfirst).refuses (fun hsecond => hok ⟨hfirst, hsecond⟩) t hq
      rw [ht]
      exact ⟨e, he⟩
    · obtain ⟨e, he⟩ := h.refuses hfirst s hs
      rw [he]
      exact ⟨e, rfl⟩
  · have hsecond : ∀ zs, xs = text ++ zs → text' = zs ++ m :: ys → view t = m.2 := by
      intro zs hxs htext'
      rw [hxs, List.append_assoc, List.map_append] at ht
      obtain ⟨t', ht', hlast⟩ := run_append_ok step ht
      obtain ⟨hok, hq⟩ := h.of_run_ok hs ht'
      exact (h' hok).shows zs m ys htext' t' hq t hlast
    -- The symbol is in the second part or in the first.
    rcases List.append_eq_append_iff.1 heq with ⟨zs, hxs, htext'⟩ | ⟨zs, htext, hrest⟩
    · exact hsecond zs hxs htext'
    · cases zs with
      | nil => exact hsecond [] (by simpa using htext.symm) hrest.symm
      | cons z zs =>
        obtain ⟨rfl, -⟩ := List.cons.inj hrest
        exact h.shows xs m zs htext s hs t ht

theorem Reads.cons {x : α × π} (h : Reads step view P [x] Q ok) (h' : ok → Reads step view Q text R ok') :
    Reads step view P (x :: text) R (ok ∧ ok') :=
  h.append h'

/-- A part whose symbols are all read alike. -/
theorem Reads.forall (h : ∀ x ∈ text, Reads step view P [x] P True) : Reads step view P text P True := by
  induction text with
  | nil => exact .nil
  | cons x text ih =>
    obtain ⟨hx, htext⟩ := List.forall_mem_cons.1 h
    exact (hx.cons fun _ => ih htext).iff (by simp)

/-- What a scanner shows after `k` symbols. -/
theorem Reads.shows_take (h : Reads step view P text Q ok) {s t : σ} {k : Nat} (hs : P s)
    (ht : run step ((text.map Prod.fst).take k) s = .ok t) :
    view t = ((text.take k).getLast?.map Prod.snd).getD (view s) := by
  rw [← List.map_take] at ht
  rcases List.eq_nil_or_concat (text.take k) with hnil | ⟨xs, m, hxs⟩
  · rw [hnil] at ht ⊢
    cases ht
    rfl
  · rw [List.concat_eq_append] at hxs
    have htext : text = xs ++ m :: text.drop k := by
      calc text = text.take k ++ text.drop k := (List.take_append_drop k text).symm
        _ = xs ++ m :: text.drop k := by rw [hxs, List.append_assoc, List.singleton_append]
    rw [hxs] at ht ⊢
    simpa using h.shows xs m _ htext s hs t ht

end Scanner
