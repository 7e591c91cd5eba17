import BabaChain.Lib.Runs

/-! Machines that keep for each key the greatest value they have accepted. After runs that
deliver the same values, in whatever order and with whatever else in between, two of them
agree. -/
namespace Convergence
open Runs

variable {σ α ο κ γ : Type*} [PartialOrder γ] {step : σ → α → ο × σ} {view : σ → κ → γ}
  {delivers : σ → α → κ → γ → Prop} {V : Set (κ × γ)} {bottom : κ → γ} {Inv : σ → Prop}
  {C : σ → α → Prop}

/-- A step accepts values of `V` only, never lets a view go down, and leaves it no lower than
what it delivers. -/
structure Absorbs (step : σ → α → ο × σ) (view : σ → κ → γ) (delivers : σ → α → κ → γ → Prop)
    (V : Set (κ × γ)) (bottom : κ → γ) (Inv : σ → Prop) (C : σ → α → Prop) : Prop where
  inv : ∀ s a, Inv s → C s a → Inv (step s a).2
  sound : ∀ s, Inv s → ∀ k, view s k = bottom k ∨ (k, view s k) ∈ V
  grows : ∀ s a, Inv s → C s a → ∀ k, view s k ≤ view (step s a).2 k
  absorbs : ∀ s a, Inv s → C s a → ∀ k v, delivers s a k v → v ≤ view (step s a).2 k

/-- At some step the value is delivered. -/
def Delivered (step : σ → α → ο × σ) (delivers : σ → α → κ → γ → Prop) (s : σ) (as : List α)
    (k : κ) (v : γ) : Prop :=
  ∃ past a rest, as = past ++ a :: rest ∧ delivers (final step s past) a k v

theorem Absorbs.le_final (h : Absorbs step view delivers V bottom Inv C) {s : σ} (hs : Inv s)
    {as : List α} (hC : EveryStep step C s as) (k : κ) : view s k ≤ view (final step s as) k := by
  induction as generalizing s with
  | nil => exact le_rfl
  | cons a as ih => exact (h.grows s a hs hC.1 k).trans (ih (h.inv s a hs hC.1) hC.2)

theorem Absorbs.delivered_le (h : Absorbs step view delivers V bottom Inv C) {s : σ} (hs : Inv s)
    {as : List α} (hC : EveryStep step C s as) {k : κ} {v : γ}
    (hv : Delivered step delivers s as k v) : v ≤ view (final step s as) k := by
  obtain ⟨past, a, rest, rfl, hdel⟩ := hv
  obtain ⟨hpast, ha, hrest⟩ := (everyStep_append s past (a :: rest)).mp hC
  have hmid := final_invariant Inv h.inv hs hpast
  rw [final_append]
  exact (h.absorbs _ a hmid ha k v hdel).trans (h.le_final (h.inv _ a hmid ha) hrest k)

/-- What a run ends with is the greatest of its first value and all that it had to take. -/
theorem Absorbs.final_isGreatest (h : Absorbs step view delivers V bottom Inv C) {s : σ}
    (hs : Inv s) {as : List α} (hC : EveryStep step C s as) {k : κ} (hbottom : view s k = bottom k)
    (hall : ∀ v, (k, v) ∈ V → Delivered step delivers s as k v) :
    IsGreatest (insert (bottom k) {v | (k, v) ∈ V}) (view (final step s as) k) := by
  constructor
  · exact h.sound _ (final_invariant Inv h.inv hs hC) k
  · rintro v (rfl | hv)
    · rw [← hbottom]
      exact h.le_final hs hC k
    · exact h.delivered_le hs hC (hall v hv)

end Convergence
