import BabaChain.Lib.Runs

/-! Machines that hold a best value and take a better one as it comes: what they end with
is the highest value that they ever took. -/
namespace Highest
open Runs

variable {σ α ο β γ : Type*} [Preorder γ] {step : σ → α → ο × σ} {best : σ → β} {rank : β → γ}
  {takes : σ → α → Option β} {Inv : σ → Prop} {C : σ → α → Prop}

/-- The value is taken at some step of the run. -/
def Taken (step : σ → α → ο × σ) (takes : σ → α → Option β) (s : σ) (as : List α) (b : β) : Prop :=
  ∃ past a rest, as = past++a :: rest ∧ takes (final step s past) a = some b

/-- The best value changes only to one that is taken, and that is not lower. -/
structure Keeps (step : σ → α → ο × σ) (best : σ → β) (rank : β → γ) (takes : σ → α → Option β)
    (Inv : σ → Prop) (C : σ → α → Prop) : Prop where
  inv : ∀ s a, Inv s → C s a → Inv (step s a).2
  taken : ∀ s a b, Inv s → C s a → takes s a = some b →
    best (step s a).2 = b ∧ rank (best s) ≤ rank b
  kept : ∀ s a, Inv s → C s a → takes s a = none → best (step s a).2 = best s

theorem taken_cons {s : σ} {a : α} {as : List α} {b : β} :
    Taken step takes s (a :: as) b ↔ takes s a = some b ∨ Taken step takes (step s a).2 as b := by
  constructor
  · rintro ⟨past, a', rest, heq, htakes⟩
    cases past with
    | nil =>
      rw [List.nil_append, List.cons.injEq] at heq
      obtain ⟨rfl, -⟩ := heq
      exact Or.inl htakes
    | cons a'' past =>
      rw [List.cons_append, List.cons.injEq] at heq
      obtain ⟨rfl, heq⟩ := heq
      exact Or.inr ⟨past, a', rest, heq, htakes⟩
  · rintro (htakes | ⟨past, a', rest, rfl, htakes⟩)
    · exact ⟨[], a, as, rfl, htakes⟩
    · exact ⟨a :: past, a', rest, rfl, htakes⟩

/-- The run ends with the value it started with, or with one that it took. -/
theorem Keeps.final_best (h : Keeps step best rank takes Inv C) {s : σ} (hs : Inv s) {as : List α}
    (hC : EveryStep step C s as) :
    best (final step s as) = best s ∨ Taken step takes s as (best (final step s as)) := by
  induction as generalizing s with
  | nil => exact Or.inl rfl
  | cons a as ih =>
    have hrest := ih (h.inv s a hs hC.1) hC.2
    rw [final, taken_cons]
    rcases hrest with heq | htaken
    · cases htakes : takes s a with
      | none => exact Or.inl (heq.trans (h.kept s a hs hC.1 htakes))
      | some b =>
        rw [heq, (h.taken s a b hs hC.1 htakes).1]
        exact Or.inr (Or.inl rfl)
    · exact Or.inr (Or.inr htaken)

/-- A value above all others that are taken stays once it is the best one. -/
theorem Keeps.final_of_best (h : Keeps step best rank takes Inv C) {s : σ} (hs : Inv s) {b : β}
    (hbest : best s = b) {as : List α} (hC : EveryStep step C s as)
    (habove : ∀ b', Taken step takes s as b' → b' = b ∨ rank b' < rank b) :
    best (final step s as) = b := by
  induction as generalizing s with
  | nil => exact hbest
  | cons a as ih =>
    have habove' : ∀ b', Taken step takes (step s a).2 as b' → b' = b ∨ rank b' < rank b :=
      fun b' htaken => habove b' (taken_cons.mpr (Or.inr htaken))
    refine ih (h.inv s a hs hC.1) ?_ hC.2 habove'
    cases htakes : takes s a with
    | none => exact (h.kept s a hs hC.1 htakes).trans hbest
    | some b' =>
      obtain ⟨hnew, hle⟩ := h.taken s a b' hs hC.1 htakes
      rcases habove b' (taken_cons.mpr (Or.inl htakes)) with rfl | hlt
      · exact hnew
      · rw [hbest] at hle
        exact absurd hle (not_le_of_gt hlt)

/-- Such a value is what the run ends with exactly when it is taken at some step. -/
theorem Keeps.final_eq_iff (h : Keeps step best rank takes Inv C) {s : σ} (hs : Inv s) {b : β}
    (hne : best s ≠ b) {as : List α} (hC : EveryStep step C s as)
    (habove : ∀ b', Taken step takes s as b' → b' = b ∨ rank b' < rank b) :
    best (final step s as) = b ↔ Taken step takes s as b := by
  constructor
  · intro heq
    have hfinal := h.final_best hs hC
    rw [heq] at hfinal
    exact hfinal.resolve_left (Ne.symm hne)
  · rintro ⟨past, a, rest, rfl, htakes⟩
    rw [everyStep_append] at hC
    have hpast := final_invariant Inv h.inv hs hC.1
    rw [final_append, final]
    refine h.final_of_best (h.inv _ a hpast hC.2.1) (h.taken _ a b hpast hC.2.1 htakes).1 hC.2.2 ?_
    rintro b' ⟨past', a', rest', rfl, htakes'⟩
    refine habove b' ⟨past++a :: past', a', rest', ?_, ?_⟩
    · rw [List.append_assoc, List.cons_append]
    · rw [final_append]
      exact htakes'

end Highest
