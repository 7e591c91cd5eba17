import Mathlib.Tactic

/-! Chains of guards and steps that may fail: what their success says. -/
namespace Guards
universe u

variable {ε : Type*} {α β : Type u}

/-- Fails where a condition holds. -/
def refuse (bad : Prop) [Decidable bad] (e : ε) : Except ε PUnit.{u+1} :=
  if bad then .error e else .ok ⟨⟩

/-- A check that is made under a condition. -/
def onlyIf (c : Prop) [Decidable c] (check : Except ε PUnit.{u+1}) : Except ε PUnit.{u+1} :=
  if c then check else .ok ⟨⟩

theorem bind_ok_iff {x : Except ε α} {f : α → Except ε β} {b : β} :
    (x >>= f) = .ok b ↔ ∃ a, x = .ok a ∧ f a = .ok b := by
  cases x with
  | error e => exact ⟨fun h => absurd h nofun, fun ⟨a, h, _⟩ => absurd h nofun⟩
  | ok a => exact ⟨fun h => ⟨a, rfl, h⟩, fun ⟨a', h, hf⟩ => Except.ok.inj h ▸ hf⟩

theorem refuse_ok_iff {bad : Prop} [Decidable bad] {e : ε} {t : PUnit.{u+1}} :
    refuse bad e = .ok t ↔ ¬bad := by
  rw [refuse]
  split_ifs with h
  · exact ⟨fun hok => absurd hok nofun, fun hnot => absurd h hnot⟩
  · exact ⟨fun _ => h, fun _ => rfl⟩

/-- A guard lets the rest run where its condition does not hold. -/
theorem refuse_then_ok_iff {bad : Prop} [Decidable bad] {e : ε} {f : PUnit.{u+1} → Except ε β}
    {b : β} : (refuse bad e >>= f) = .ok b ↔ ¬bad ∧ f ⟨⟩ = .ok b := by
  rw [bind_ok_iff]
  constructor
  · rintro ⟨⟨⟩, hok, hf⟩
    exact ⟨refuse_ok_iff.mp hok, hf⟩
  · rintro ⟨hnot, hf⟩
    exact ⟨⟨⟩, refuse_ok_iff.mpr hnot, hf⟩

/-- A step that says the same in other words succeeds with the same result. -/
theorem mapError_ok_iff {ε' : Type*} {x : Except ε α} {g : ε → ε'} {a : α} :
    x.mapError g = .ok a ↔ x = .ok a := by
  cases x with
  | error e => exact ⟨fun h => absurd h nofun, fun h => absurd h nofun⟩
  | ok a' =>
    exact ⟨fun h => congrArg Except.ok (Except.ok.inj h), fun h => congrArg Except.ok (Except.ok.inj h)⟩

/-- A check of every element passes where it does for each one. -/
theorem forM_ok_iff {γ : Type*} {xs : List γ} {g : γ → Except ε PUnit.{u+1}} :
    xs.forM g = .ok ⟨⟩ ↔ ∀ x ∈ xs, g x = .ok ⟨⟩ := by
  induction xs with
  | nil => exact iff_of_true rfl fun x hx => absurd hx List.not_mem_nil
  | cons x xs ih =>
    have hcons : (x :: xs).forM g = (g x >>= fun _ => xs.forM g) := rfl
    rw [hcons, bind_ok_iff, List.forall_mem_cons, ← ih]
    exact ⟨fun ⟨_, hx, hxs⟩ => ⟨hx, hxs⟩, fun ⟨hx, hxs⟩ => ⟨⟨⟩, hx, hxs⟩⟩

/-- What every step keeps holds after all of them. -/
theorem foldlM_keeps {γ : Type*} (P : α → Prop) {f : α → γ → Except ε α} {xs : List γ}
    (hstep : ∀ x ∈ xs, ∀ s s', P s → f s x = .ok s' → P s') {s s' : α} (hs : P s)
    (hok : xs.foldlM f s = .ok s') : P s' := by
  induction xs generalizing s with
  | nil => exact Except.ok.inj hok ▸ hs
  | cons x xs ih =>
    rw [List.foldlM_cons, bind_ok_iff] at hok
    obtain ⟨s₁, hx, hrest⟩ := hok
    exact ih (fun y hy => hstep y (List.mem_cons_of_mem x hy))
      (hstep x List.mem_cons_self s s₁ hs hx) hrest

end Guards
