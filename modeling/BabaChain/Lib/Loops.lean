import Mathlib.Tactic

/-! Loops whose body leads to a smaller state or gives up. -/
namespace Loops

structure Loop (σ : Type*) where
  more : σ → Bool
  body : σ → Option σ
  measure : σ → ℕ
  decreases : ∀ s s', more s = true → body s = some s' → measure s' < measure s

variable {σ β : Type*} (L : Loop σ)

namespace Loop

/-- `none` where the body gives up. -/
def run (s : σ) : Option σ :=
  if _ : L.more s = true then
    match _ : L.body s with
    | none => none
    | some s' => run s'
  else
    some s
termination_by L.measure s
decreasing_by exact L.decreases s s' ‹_› ‹_›

/-- What is observed before each turn. -/
def trace (f : σ → β) (s : σ) : List β :=
  if _ : L.more s = true then
    match _ : L.body s with
    | none => [f s]
    | some s' => f s :: trace f s'
  else
    []
termination_by L.measure s
decreasing_by exact L.decreases s s' ‹_› ‹_›

variable {L} {s s' t : σ}

theorem run_done (h : L.more s = false) : L.run s = some s := by
  rw [run, dif_neg (Bool.eq_false_iff.mp h)]

theorem run_turn (hmore : L.more s = true) (hbody : L.body s = some s') : L.run s = L.run s' := by
  rw [run, dif_pos hmore]
  split
  · rename_i hnone
    rw [hbody] at hnone
    contradiction
  · rename_i s₂ hsome
    rw [hbody, Option.some.injEq] at hsome
    rw [hsome]

theorem run_stop (hmore : L.more s = true) (hbody : L.body s = none) : L.run s = none := by
  rw [run, dif_pos hmore]
  split
  · rfl
  · rename_i hsome
    rw [hbody] at hsome
    contradiction

theorem trace_done (f : σ → β) (h : L.more s = false) : L.trace f s = [] := by
  rw [trace, dif_neg (Bool.eq_false_iff.mp h)]

theorem trace_turn (f : σ → β) (hmore : L.more s = true) (hbody : L.body s = some s') :
    L.trace f s = f s :: L.trace f s' := by
  rw [trace, dif_pos hmore]
  split
  · rename_i hnone
    rw [hbody] at hnone
    contradiction
  · rename_i s₂ hsome
    rw [hbody, Option.some.injEq] at hsome
    rw [hsome]

/-- What holds of a state at which the loop ends, and is carried back over each turn, holds of every
run that does not give up. -/
theorem run_rule {f : σ → β} {P : σ → List β → Prop} (hrun : L.run s = some t)
    (hdone : L.more t = false → P t [])
    (hturn : ∀ s s' marks, L.more s = true → L.body s = some s' → L.run s' = some t →
      P s' marks → P s (f s :: marks)) : P s (L.trace f s) := by
  induction hmeasure : L.measure s using Nat.strong_induction_on generalizing s with
  | _ n ih =>
    cases hmore : L.more s with
    | false =>
      rw [run_done hmore, Option.some.injEq] at hrun
      subst hrun
      rw [trace_done f hmore]
      exact hdone hmore
    | true =>
      cases hbody : L.body s with
      | none =>
        rw [run_stop hmore hbody] at hrun
        contradiction
      | some s' =>
        rw [run_turn hmore hbody] at hrun
        rw [trace_turn f hmore hbody]
        refine hturn s s' _ hmore hbody hrun (ih _ ?_ hrun rfl)
        rw [← hmeasure]
        exact L.decreases s s' hmore hbody

/-- An invariant of the turns holds at the end, where the loop has nothing more to do. -/
theorem run_invariant {I : σ → Prop} (hrun : L.run s = some t) (hs : I s)
    (hturn : ∀ s s', I s → L.more s = true → L.body s = some s' → I s') :
    I t ∧ L.more t = false := by
  have hrule := run_rule (f := fun _ => ()) (P := fun s _ => I s → I t ∧ L.more t = false) hrun
    (fun hdone ht => ⟨ht, hdone⟩) fun s s' _ hmore hbody _ ih hs => ih (hturn s s' hs hmore hbody)
  exact hrule hs

end Loop

end Loops
