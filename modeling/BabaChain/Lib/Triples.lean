import Mathlib.Tactic

/-! Triples for steps that change a state and may be refused. A refusal keeps the changes made
before it. -/
namespace Triples

/-- A step over a state `σ` that is refused with an `ε`. -/
abbrev Step (ε σ α : Type) := ExceptT ε (StateM σ) α

variable {ε σ α β : Type}

/-- From a state in `P` the step returns what is in `Q`, or is refused in a state in `E`. -/
def Triple (P : σ → Prop) (m : Step ε σ α) (Q : α → σ → Prop) (E : σ → Prop) : Prop :=
  ∀ s, P s →
    match m.run.run s with
    | (.ok a, t) => Q a t
    | (.error _, t) => E t

variable {P : σ → Prop} {m : Step ε σ α} {Q : α → σ → Prop} {E : σ → Prop}

theorem Triple.ok (h : Triple P m Q E) {s t : σ} {a : α} (hs : P s)
    (hrun : m.run.run s = (.ok a, t)) : Q a t := by
  have hs' := h s hs
  rw [hrun] at hs'
  exact hs'

theorem Triple.error (h : Triple P m Q E) {s t : σ} {e : ε} (hs : P s)
    (hrun : m.run.run s = (.error e, t)) : E t := by
  have hs' := h s hs
  rw [hrun] at hs'
  exact hs'

theorem Triple.pre {P' : σ → Prop} (h : Triple P m Q E) (hP : ∀ s, P' s → P s) :
    Triple P' m Q E :=
  fun s hs => h s (hP s hs)

theorem Triple.post {Q' : α → σ → Prop} {E' : σ → Prop} (h : Triple P m Q E)
    (hQ : ∀ a t, Q a t → Q' a t) (hE : ∀ t, E t → E' t) : Triple P m Q' E' := by
  intro s hs
  cases hrun : m.run.run s with
  | mk r t =>
    cases r with
    | ok a => exact hQ a t (h.ok hs hrun)
    | error e => exact hE t (h.error hs hrun)

/-- A fact about no state may be used. -/
theorem triple_and {fact : Prop} (h : fact → Triple P m Q E) :
    Triple (fun s => P s ∧ fact) m Q E :=
  fun s hs => h hs.2 s hs.1

theorem triple_fact {fact : Prop} (h : fact → Triple (fun _ => True) m Q E) :
    Triple (fun _ => fact) m Q E :=
  fun s hs => h hs s trivial

theorem triple_exists {ι : Sort*} {R : ι → σ → Prop} (h : ∀ i, Triple (R i) m Q E) :
    Triple (fun s => ∃ i, R i s) m Q E :=
  fun s ⟨i, hs⟩ => h i s hs

/-- Nothing is said of the state, whatever happens. -/
theorem triple_true (m : Step ε σ α) :
    Triple (fun _ => True) m (fun _ _ => True) fun _ => True := by
  intro s _
  split <;> trivial

theorem triple_pure {a : α} (h : ∀ s, P s → Q a s) : Triple P (pure a : Step ε σ α) Q E := h

theorem triple_throw {e : ε} (h : ∀ s, P s → E s) : Triple P (throw e : Step ε σ α) Q E := h

theorem Triple.bind {R : β → σ → Prop} {f : α → Step ε σ β} (h : Triple P m Q E)
    (hf : ∀ a, Triple (Q a) (f a) R E) : Triple P (m >>= f) R E := by
  intro s hs
  have hs' := h s hs
  change match (ExceptT.bindCont f (m.run.run s).1).run (m.run.run s).2 with
    | (.ok b, t) => R b t
    | (.error _, t) => E t
  cases hrun : m.run.run s with
  | mk r t =>
    rw [hrun] at hs'
    cases r with
    | ok a => exact hf a t hs'
    | error e => exact hs'

theorem triple_modify {f : σ → σ} {Q : PUnit → σ → Prop} (h : ∀ s, P s → Q ⟨⟩ (f s)) :
    Triple P (modify f : Step ε σ PUnit) Q E := h

theorem triple_modifyGet {f : σ → α × σ} (h : ∀ s, P s → Q (f s).1 (f s).2) :
    Triple P (modifyGet f : Step ε σ α) Q E := h

theorem triple_ite {c : Prop} [Decidable c] {m' : Step ε σ α}
    (hthen : c → Triple P m Q E) (helse : ¬c → Triple P m' Q E) :
    Triple P (if c then m else m') Q E := by
  split_ifs with hc
  · exact hthen hc
  · exact helse hc

/-- Refused where a condition holds. -/
def refuse (bad : Prop) [Decidable bad] (e : ε) : Step ε σ PUnit :=
  if bad then throw e else pure ⟨⟩

/-- A guard lets the rest run where its condition does not hold. -/
theorem triple_refuse_bind {bad : Prop} [Decidable bad] {e : ε} {f : PUnit → Step ε σ α}
    (hE : ∀ s, P s → E s) (h : ¬bad → Triple P (f ⟨⟩) Q E) :
    Triple P (refuse bad e >>= f) Q E := by
  by_cases hbad : bad
  · rw [refuse, if_pos hbad]
    exact hE
  · rw [refuse, if_neg hbad]
    exact h hbad

/-- A loop keeps what each turn keeps, from the elements done to one more. -/
theorem triple_forM {l : List α} {f : α → Step ε σ PUnit} (I : List α → σ → Prop) (past : List α)
    (h : ∀ done a, a ∈ l → Triple (I done) (f a) (fun _ => I (done ++ [a])) E) :
    Triple (I past) (l.forM f) (fun _ => I (past ++ l)) E := by
  induction l generalizing past with
  | nil =>
    rw [List.append_nil]
    exact triple_pure fun s hs => hs
  | cons a l ih =>
    rw [List.append_cons]
    refine (h past a List.mem_cons_self).bind fun _ => ?_
    exact ih (past ++ [a]) fun done b hb => h done b (List.mem_cons_of_mem a hb)

theorem triple_foldlM {l : List α} {f : β → α → Step ε σ β} {I : σ → Prop} {b : β}
    (h : ∀ b a, a ∈ l → Triple I (f b a) (fun _ => I) E) :
    Triple I (l.foldlM f b) (fun _ => I) E := by
  induction l generalizing b with
  | nil => exact triple_pure fun s hs => hs
  | cons a l ih =>
    refine (h b a List.mem_cons_self).bind fun b => ?_
    exact ih fun b a ha => h b a (List.mem_cons_of_mem _ ha)

/-! ### What a sequence of steps returns -/

/-! ### Steps that decide a condition -/

/-- From a state in `P` the step succeeds exactly if `A` holds, and then returns what is in `Q`. -/
def Decides (P : σ → Prop) (m : Step ε σ α) (A : Prop) (Q : α → σ → Prop) : Prop :=
  Triple P m (fun a s => A ∧ Q a s) fun _ => ¬A

theorem Decides.ok_iff {A : Prop} (h : Decides P m A Q) {s : σ} (hs : P s) :
    (∃ a, (m.run.run s).1 = .ok a) ↔ A := by
  cases hrun : m.run.run s with
  | mk r t =>
    cases r with
    | ok a => exact iff_of_true ⟨a, rfl⟩ (Triple.ok h hs hrun).1
    | error e => exact iff_of_false (fun ⟨a, ha⟩ => absurd ha nofun) (Triple.error h hs hrun)

theorem Decides.congr {A B : Prop} (h : Decides P m A Q) (hAB : A ↔ B) : Decides P m B Q :=
  propext hAB ▸ h

theorem Decides.bind {A B : Prop} {R : β → σ → Prop} {f : α → Step ε σ β}
    (h : Decides P m A Q) (hf : ∀ a, Decides (Q a) (f a) B R) :
    Decides P (m >>= f) (A ∧ B) R := by
  by_cases hA : A
  · refine Triple.bind (Triple.post h (fun a t hq => hq.2) fun t hnot => absurd hA hnot) ?_
    intro a
    exact Triple.post (hf a) (fun b t hq => ⟨⟨hA, hq.1⟩, hq.2⟩) fun t hnot hAB => hnot hAB.2
  · have hstop : Triple P m (fun _ _ => False) fun _ => ¬(A ∧ B) :=
      Triple.post h (fun a t hq => hA hq.1) fun t hnot hAB => hnot hAB.1
    exact hstop.bind fun a s hs => absurd hs id

theorem decides_and {fact A : Prop} (h : fact → Decides P m A Q) :
    Decides (fun s => fact ∧ P s) m A Q :=
  fun s hs => h hs.1 s hs.2

theorem Decides.post {A : Prop} {Q' : α → σ → Prop} (h : Decides P m A Q)
    (hQ : ∀ a t, Q a t → Q' a t) : Decides P m A Q' :=
  Triple.post h (fun a t hq => ⟨hq.1, hQ a t hq.2⟩) fun _ hnot => hnot

theorem decides_pure {a : α} (h : ∀ s, P s → Q a s) :
    Decides P (pure a : Step ε σ α) True Q :=
  triple_pure fun s hs => ⟨trivial, h s hs⟩

theorem decides_skip (P : σ → Prop) : Decides P (pure ⟨⟩ : Step ε σ PUnit) True fun _ => P :=
  decides_pure fun _ hs => hs

theorem decides_throw (P : σ → Prop) (e : ε) (Q : α → σ → Prop) :
    Decides P (throw e : Step ε σ α) False Q :=
  triple_throw fun _ _ => id

theorem decides_modify {f : σ → σ} {Q : PUnit → σ → Prop} (h : ∀ s, P s → Q ⟨⟩ (f s)) :
    Decides P (modify f : Step ε σ PUnit) True Q :=
  triple_modify fun s hs => ⟨trivial, h s hs⟩

theorem decides_ite {c : Prop} [Decidable c] {m' : Step ε σ α} {A B : Prop}
    (hthen : c → Decides P m A Q) (helse : ¬c → Decides P m' B Q) :
    Decides P (if c then m else m') (if c then A else B) Q := by
  split_ifs with hc
  · exact hthen hc
  · exact helse hc

theorem decides_refuse {bad : Prop} [Decidable bad] (e : ε) :
    Decides P (refuse bad e) (¬bad) fun _ => P := by
  by_cases hbad : bad
  · rw [refuse, if_pos hbad]
    exact (decides_throw P e _).congr (iff_of_false id fun hnot => hnot hbad)
  · rw [refuse, if_neg hbad]
    exact (decides_skip P).congr (iff_of_true trivial hbad)

theorem decides_refuse_bind {bad : Prop} [Decidable bad] {e : ε} {f : PUnit → Step ε σ α}
    {A : Prop} (h : ¬bad → Decides P (f ⟨⟩) A Q) :
    Decides P (refuse bad e >>= f) (¬bad ∧ A) Q := by
  by_cases hbad : bad
  · rw [refuse, if_pos hbad]
    exact (decides_throw P e Q).congr (iff_of_false id fun hnot => hnot.1 hbad)
  · rw [refuse, if_neg hbad]
    exact (h hbad).congr ⟨fun hA => ⟨hbad, hA⟩, And.right⟩

/-- A loop whose turns neither depend on each other nor change what is known. -/
theorem decides_forM {l : List α} {f : α → Step ε σ PUnit} {A : α → Prop} {I : σ → Prop}
    (h : ∀ a ∈ l, Decides I (f a) (A a) fun _ => I) :
    Decides I (l.forM f) (∀ a ∈ l, A a) fun _ => I := by
  induction l with
  | nil =>
    exact (decides_skip I).congr (iff_of_true trivial fun a ha => absurd ha List.not_mem_nil)
  | cons a l ih =>
    have hrest := ih fun b hb => h b (List.mem_cons_of_mem a hb)
    exact ((h a List.mem_cons_self).bind fun _ => hrest).congr List.forall_mem_cons.symm

end Triples
