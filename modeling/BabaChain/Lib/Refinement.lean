import BabaChain.Lib.Checked
import BabaChain.Lib.Runs

/-! An implementation whose operations may fail, run beside the abstract machine that it is
meant to show. -/
namespace Refinement

variable {σ τ α ο : Type*}

/-- The implementation never fails, gives the abstract answers, and shows the abstract state
before every operation and after the last. -/
def Follows (step : σ → α → Option (ο × σ)) (spec : τ → α → ο × τ) (Shows : σ → τ → Prop) :
    σ → τ → List α → Prop
  | s, t, [] => Shows s t
  | s, t, a :: as => Shows s t ∧ ∃ r, step s a = some r ∧ r.1 = (spec t a).1 ∧
      Follows step spec Shows r.2 (spec t a).2 as

/-- The abstract state after the operations. -/
def finalSpec (spec : τ → α → ο × τ) (t : τ) (as : List α) : τ :=
  as.foldl (fun t a => (spec t a).2) t

/-- The implementation's state after the operations, where none of them fails. -/
def final (step : σ → α → Option (ο × σ)) (s : σ) (as : List α) : Option σ :=
  as.foldlM (fun s a => (step s a).map Prod.snd) s

variable {step : σ → α → Option (ο × σ)} {spec : τ → α → ο × τ} {Shows : σ → τ → Prop}

theorem Follows.shows {s : σ} {t : τ} {as : List α} (h : Follows step spec Shows s t as) :
    Shows s t := by
  cases as with
  | nil => exact h
  | cons a as => exact h.1

/-- A run that follows the abstract machine ends in a state that shows the abstract one. -/
theorem Follows.final {s : σ} {t : τ} {as : List α} (h : Follows step spec Shows s t as) :
    ∃ s', final step s as = some s' ∧ Shows s' (finalSpec spec t as) := by
  induction as generalizing s t with
  | nil => exact ⟨s, rfl, h⟩
  | cons a as ih =>
    obtain ⟨-, r, hr, -, hrest⟩ := h
    obtain ⟨s', hs', hshows⟩ := ih hrest
    refine ⟨s', ?_, hshows⟩
    rw [Refinement.final, List.foldlM_cons, hr]
    exact hs'

/-- A relation that the good operations keep, and without which none of the others shows the
abstract state, decides which sequences are followed. -/
theorem follows_iff (R : σ → τ → Prop) (C : α → Prop) (hshows : ∀ s t, R s t → Shows s t)
    (hstep : ∀ s t a, R s t → C a → ∃ s', step s a = some ((spec t a).1, s') ∧ R s' (spec t a).2)
    (hfail : ∀ s t a, R s t → ¬C a → ∀ r, step s a = some r → ¬Shows r.2 (spec t a).2)
    {s : σ} {t : τ} (h : R s t) (as : List α) :
    Follows step spec Shows s t as ↔ ∀ a ∈ as, C a := by
  induction as generalizing s t with
  | nil => exact iff_of_true (hshows s t h) fun a ha => absurd ha List.not_mem_nil
  | cons a as ih =>
    rw [List.forall_mem_cons]
    by_cases hC : C a
    · obtain ⟨s', hs', hR⟩ := hstep s t a h hC
      rw [← ih hR, and_iff_right hC]
      constructor
      · rintro ⟨-, r, hr, -, hrest⟩
        cases hs'.symm.trans hr
        exact hrest
      · exact fun hrest => ⟨hshows s t h, _, hs', rfl, hrest⟩
    · refine iff_of_false ?_ fun hall => hC hall.1
      rintro ⟨-, r, hr, -, hrest⟩
      exact hfail s t a h hC r hr hrest.shows

/-- The same for an implementation that may run into a fault. -/
theorem succeeds_foldlM_iff {σ τ α ε : Type} {step : σ → α → Except ε σ} {spec : τ → α → τ}
    (R : σ → τ → Prop) (C : τ → α → Prop)
    (hstep : ∀ s t a, R s t → C t a → Checked.Succeeds (step s a) fun s' => R s' (spec t a))
    (hfail : ∀ s t a, R s t → ¬C t a → ∃ e, step s a = .error e) {s : σ} {t : τ} (h : R s t)
    (as : List α) :
    Checked.Succeeds (as.foldlM step s) (fun s' => R s' (as.foldl spec t)) ↔
      Runs.EveryStep (fun t a => ((), spec t a)) C t as := by
  induction as generalizing s t with
  | nil => exact iff_of_true (Checked.succeeds_pure h) trivial
  | cons a as ih =>
    rw [List.foldlM_cons, List.foldl_cons, Runs.EveryStep]
    by_cases hC : C t a
    · obtain ⟨s', hs', hR⟩ := hstep s t a h hC
      rw [hs', and_iff_right hC]
      exact ih hR
    · obtain ⟨e, he⟩ := hfail s t a h hC
      rw [he]
      refine iff_of_false ?_ fun hall => hC hall.1
      rintro ⟨s', hs', -⟩
      contradiction

end Refinement
