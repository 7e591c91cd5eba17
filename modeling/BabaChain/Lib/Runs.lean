import Mathlib.Tactic

/-! Runs of a deterministic machine that answers every input: rules that carry a
property of one step, or of two machines stepping side by side, to whole runs. -/
namespace Runs

variable {σ α ο ν : Type*}

/-- The answers to a sequence of inputs. -/
def outputs (step : σ → α → ο × σ) : σ → List α → List ο
  | _, [] => []
  | s, a :: as => (step s a).1 :: outputs step (step s a).2 as

/-- The state after a sequence of inputs. -/
def final (step : σ → α → ο × σ) : σ → List α → σ
  | s, [] => s
  | s, a :: as => final step (step s a).2 as

/-- Every step of the run meets a condition on its state and input. -/
def EveryStep (step : σ → α → ο × σ) (C : σ → α → Prop) : σ → List α → Prop
  | _, [] => True
  | s, a :: as => C s a ∧ EveryStep step C (step s a).2 as

instance EveryStep.decidable (step : σ → α → ο × σ) (C : σ → α → Prop)
    [∀ s a, Decidable (C s a)] : ∀ s as, Decidable (EveryStep step C s as)
  | _, [] => .isTrue trivial
  | s, a :: as =>
    have : Decidable (EveryStep step C (step s a).2 as) := EveryStep.decidable step C _ as
    inferInstanceAs (Decidable (C s a ∧ EveryStep step C (step s a).2 as))

variable {step : σ → α → ο × σ}

theorem final_append (s : σ) (as bs : List α) :
    final step s (as++bs) = final step (final step s as) bs := by
  induction as generalizing s with
  | nil => rfl
  | cons a as ih => exact ih (step s a).2

theorem everyStep_append {C : σ → α → Prop} (s : σ) (as bs : List α) :
    EveryStep step C s (as++bs) ↔
      EveryStep step C s as ∧ EveryStep step C (final step s as) bs := by
  induction as generalizing s with
  | nil => simp only [List.nil_append, EveryStep, final, true_and]
  | cons a as ih =>
    rw [List.cons_append, EveryStep, ih, EveryStep, final, and_assoc]

theorem everyStep_true (s : σ) (as : List α) : EveryStep step (fun _ _ => True) s as := by
  induction as generalizing s with
  | nil => trivial
  | cons a as ih => exact ⟨trivial, ih (step s a).2⟩

theorem everyStep_of_forall {C : α → Prop} (s : σ) {as : List α} (h : ∀ a ∈ as, C a) :
    EveryStep step (fun _ a => C a) s as := by
  induction as generalizing s with
  | nil => trivial
  | cons a as ih =>
    rw [List.forall_mem_cons] at h
    exact ⟨h.1, ih (step s a).2 h.2⟩

theorem everyStep_and {C D : σ → α → Prop} {s : σ} {as : List α} (hC : EveryStep step C s as)
    (hD : EveryStep step D s as) : EveryStep step (fun s a => C s a ∧ D s a) s as := by
  induction as generalizing s with
  | nil => trivial
  | cons a as ih => exact ⟨⟨hC.1, hD.1⟩, ih hC.2 hD.2⟩

/-- An invariant kept by the steps that meet the condition holds after a run
made of such steps. -/
theorem final_invariant {C : σ → α → Prop} (Inv : σ → Prop)
    (hstep : ∀ s a, Inv s → C s a → Inv (step s a).2) {s : σ} (hs : Inv s) {as : List α}
    (hC : EveryStep step C s as) : Inv (final step s as) := by
  induction as generalizing s with
  | nil => exact hs
  | cons a as ih => exact ih (hstep s a hs hC.1) hC.2

/-- An invariant of the state and of the answers so far. -/
theorem outputs_invariant (Inv : List ο → σ → Prop)
    (hstep : ∀ past s a, Inv past s → Inv (past ++ [(step s a).1]) (step s a).2) {past : List ο}
    {s : σ} (hs : Inv past s) (as : List α) :
    Inv (past ++ outputs step s as) (final step s as) := by
  induction as generalizing past s with
  | nil =>
    rw [outputs, List.append_nil]
    exact hs
  | cons a as ih =>
    have hrest := ih (hstep past s a hs)
    rw [List.append_assoc, List.singleton_append] at hrest
    exact hrest

/-- The same, for every state on the way. -/
theorem prefix_invariant {C : σ → α → Prop} (Inv : σ → Prop)
    (hstep : ∀ s a, Inv s → C s a → Inv (step s a).2) {s : σ} (hs : Inv s) {as bs : List α}
    (hC : EveryStep step C s as) (hp : bs <+: as) : Inv (final step s bs) := by
  obtain ⟨cs, rfl⟩ := hp
  exact final_invariant Inv hstep hs ((everyStep_append s bs cs).mp hC).1

/-- A condition under which a step does what it should, and keeps an invariant
it relies on, is enough for a whole run. -/
theorem everyStep_of_invariant (Inv : σ → Prop) {P C : σ → α → Prop}
    (hkeep : ∀ s a, Inv s → C s a → P s a ∧ Inv (step s a).2) {s : σ} (hs : Inv s) {as : List α}
    (hC : EveryStep step C s as) : EveryStep step P s as := by
  induction as generalizing s with
  | nil => trivial
  | cons a as ih =>
    obtain ⟨hP, hs'⟩ := hkeep s a hs hC.1
    exact ⟨hP, ih hs' hC.2⟩

/-- A condition that is also necessary for the step decides the whole run. -/
theorem everyStep_iff (Inv : σ → Prop) {P C : σ → α → Prop}
    (hkeep : ∀ s a, Inv s → C s a → P s a ∧ Inv (step s a).2)
    (hfail : ∀ s a, Inv s → P s a → C s a) {s : σ} (hs : Inv s) (as : List α) :
    EveryStep step P s as ↔ EveryStep step C s as := by
  refine ⟨fun hP => ?_, everyStep_of_invariant Inv hkeep hs⟩
  apply everyStep_of_invariant Inv ?_ hs hP
  intro s a hs hP
  have hC := hfail s a hs hP
  exact ⟨hC, (hkeep s a hs hC).2⟩

/-- A property that the invariant gives, and that a step outside the condition
breaks, holds of every state on the way exactly when no such step is taken. What
is known of every step may be used. -/
theorem forall_prefix_iff_of (Inv P : σ → Prop) {C D : σ → α → Prop} (hP : ∀ s, Inv s → P s)
    (hkeep : ∀ s a, Inv s → D s a → C s a → Inv (step s a).2)
    (hfail : ∀ s a, Inv s → D s a → ¬C s a → ¬P (step s a).2) {s : σ} (hs : Inv s)
    {as : List α} (hD : EveryStep step D s as) :
    (∀ bs, bs <+: as → P (final step s bs)) ↔ EveryStep step C s as := by
  induction as generalizing s with
  | nil =>
    refine iff_of_true (fun bs hbs => ?_) trivial
    rw [List.prefix_nil.mp hbs]
    exact hP s hs
  | cons a as ih =>
    constructor
    · intro h
      have hC : C s a := by
        by_contra hC
        exact hfail s a hs hD.1 hC (h [a] ⟨as, rfl⟩)
      refine ⟨hC, (ih (hkeep s a hs hD.1 hC) hD.2).mp fun bs hbs => ?_⟩
      exact h (a :: bs) (List.cons_prefix_cons.mpr ⟨rfl, hbs⟩)
    · rintro ⟨hC, hrest⟩ bs hbs
      cases bs with
      | nil => exact hP s hs
      | cons b bs =>
        obtain ⟨rfl, hp⟩ := List.cons_prefix_cons.mp hbs
        exact (ih (hkeep s b hs hD.1 hC) hD.2).mpr hrest bs hp

theorem forall_prefix_iff (Inv P : σ → Prop) {C : σ → α → Prop} (hP : ∀ s, Inv s → P s)
    (hkeep : ∀ s a, Inv s → C s a → Inv (step s a).2)
    (hfail : ∀ s a, Inv s → ¬C s a → ¬P (step s a).2) {s : σ} (hs : Inv s) (as : List α) :
    (∀ bs, bs <+: as → P (final step s bs)) ↔ EveryStep step C s as :=
  forall_prefix_iff_of Inv P hP (fun s a hs _ => hkeep s a hs) (fun s a hs _ => hfail s a hs) hs
    (everyStep_true s as)

/-- A machine whose state says no more than the inputs seen before answers every
input as `f` does, where each input goes together with the earlier ones. -/
theorem outputs_eq_map (Inv : List α → σ → Prop) (R : α → α → Prop) (f : α → ο)
    (hstep : ∀ past s a, Inv past s → (∀ b ∈ past, R b a) →
      (step s a).1 = f a ∧ Inv (a :: past) (step s a).2) {past : List α} {s : σ}
    (hs : Inv past s) {as : List α} (hpast : ∀ b ∈ past, ∀ a ∈ as, R b a)
    (has : as.Pairwise R) : outputs step s as = as.map f := by
  induction as generalizing past s with
  | nil => rfl
  | cons a as ih =>
    obtain ⟨ha, has⟩ := List.pairwise_cons.mp has
    obtain ⟨ho, hs'⟩ := hstep past s a hs fun b hb => hpast b hb a List.mem_cons_self
    have hrest : outputs step (step s a).2 as = as.map f := by
      apply ih hs' _ has
      intro b hb d hd
      rcases List.mem_cons.mp hb with rfl | hb
      · exact ha d hd
      · exact hpast b hb d (List.mem_cons_of_mem a hd)
    rw [outputs, List.map_cons, ho, hrest]

/-- Two parties that see the same events, each as its own inputs, get the same
answers and look alike after every part of the run. -/
def Agree {ι : Type*} (step : σ → α → ο × σ) (view : σ → ν) (f g : ι → α) (s t : σ)
    (es : List ι) : Prop :=
  ∀ bs, bs <+: es →
    outputs step s (bs.map f) = outputs step t (bs.map g) ∧
      view (final step s (bs.map f)) = view (final step t (bs.map g))

variable {ι : Type*} {view : σ → ν} {f g : ι → α}

theorem agree_cons {s t : σ} {e : ι} {es : List ι} (hst : view s = view t) :
    Agree step view f g s t (e :: es) ↔
      (step s (f e)).1 = (step t (g e)).1 ∧
        Agree step view f g (step s (f e)).2 (step t (g e)).2 es := by
  constructor
  · intro h
    refine ⟨(List.cons.inj (h [e] ⟨es, rfl⟩).1).1, fun bs hbs => ?_⟩
    have hc := h (e :: bs) (List.cons_prefix_cons.mpr ⟨rfl, hbs⟩)
    exact ⟨(List.cons.inj hc.1).2, hc.2⟩
  · rintro ⟨ho, h⟩ bs hbs
    cases bs with
    | nil => exact ⟨rfl, hst⟩
    | cons c bs =>
      obtain ⟨rfl, hp⟩ := List.cons_prefix_cons.mp hbs
      exact ⟨congrArg₂ List.cons ho (h bs hp).1, (h bs hp).2⟩

/-- A relation between the two states that the condition is exactly enough to
keep, one step at a time, decides agreement along the whole run. -/
theorem agree_iff_everyStep (R : σ → σ → Prop) (C : σ → ι → Prop)
    (hview : ∀ s t, R s t → view s = view t)
    (hstep : ∀ s t e, R s t → C s e →
      (step s (f e)).1 = (step t (g e)).1 ∧ R (step s (f e)).2 (step t (g e)).2)
    (hfail : ∀ s t e, R s t → ¬C s e →
      (step s (f e)).1 ≠ (step t (g e)).1 ∨ view (step s (f e)).2 ≠ view (step t (g e)).2)
    {s t : σ} (hst : R s t) (es : List ι) :
    Agree step view f g s t es ↔ EveryStep (fun s e => step s (f e)) C s es := by
  induction es generalizing s t with
  | nil =>
    refine iff_of_true (fun bs hbs => ?_) trivial
    rw [List.prefix_nil.mp hbs]
    exact ⟨rfl, hview s t hst⟩
  | cons e es ih =>
    rw [agree_cons (hview s t hst), EveryStep]
    by_cases hC : C s e
    · obtain ⟨ho, hR⟩ := hstep s t e hst hC
      rw [ih hR, and_iff_right ho, and_iff_right hC]
    · refine iff_of_false ?_ (fun h => hC h.1)
      rintro ⟨ho, h⟩
      rcases hfail s t e hst hC with hne | hne
      · exact hne ho
      · exact hne (h [] List.nil_prefix).2

end Runs
