import Mathlib.Data.List.Forall2
import Mathlib.Tactic

/-! Accesses that can fail, and rules that carry what one turn of a loop does to the loop. -/
namespace Checked

/-- What an access can run into: an index past the end, a null pointer, a future whose promise
is dropped, or an assertion. -/
inductive Fault
  | outOfRange
  | nullPointer
  | brokenPromise
  | assertion
deriving DecidableEq, Repr

variable {α β : Type}

def index (l : List α) (i : ℕ) : Except Fault α :=
  match l[i]? with
  | some a => .ok a
  | none => .error .outOfRange

def assign (l : List α) (i : ℕ) (a : α) : Except Fault (List α) :=
  if i < l.length then .ok (l.set i a) else .error .outOfRange

def deref (pointer : Option α) : Except Fault α :=
  match pointer with
  | some a => .ok a
  | none => .error .nullPointer

theorem index_eq {l : List α} {i : ℕ} {a : α} (h : l[i]? = some a) : index l i = .ok a := by
  rw [index, h]

theorem index_error {l : List α} {i : ℕ} (h : l.length ≤ i) :
    index l i = .error .outOfRange := by
  rw [index, List.getElem?_eq_none h]

theorem assign_eq {l : List α} {i : ℕ} (h : i < l.length) (a : α) :
    assign l i a = .ok (l.set i a) := by
  rw [assign, if_pos h]

theorem deref_some (a : α) : deref (some a) = .ok a := rfl

theorem ok_bind {ε : Type} (a : α) (f : α → Except ε β) : (Except.ok a >>= f) = f a := rfl

/-- A computation that runs into no fault, with a result of which something holds. -/
def Succeeds {ε : Type} (m : Except ε α) (P : α → Prop) : Prop := ∃ a, m = .ok a ∧ P a

section Rules

variable {ε : Type} {m : Except ε α} {P : α → Prop} {Q : β → Prop}

theorem succeeds_ok {a : α} (h : P a) : Succeeds (.ok a : Except ε α) P := ⟨a, rfl, h⟩

theorem succeeds_pure {a : α} (h : P a) : Succeeds (pure a : Except ε α) P := ⟨a, rfl, h⟩

theorem Succeeds.bind (h : Succeeds m P) {f : α → Except ε β} (hf : ∀ a, P a → Succeeds (f a) Q) :
    Succeeds (m >>= f) Q := by
  obtain ⟨a, rfl, ha⟩ := h
  exact hf a ha

theorem Succeeds.mono (h : Succeeds m P) {P' : α → Prop} (hP : ∀ a, P a → P' a) :
    Succeeds m P' := by
  obtain ⟨a, hm, ha⟩ := h
  exact ⟨a, hm, hP a ha⟩

theorem succeeds_index {l : List α} {i : ℕ} (h : i < l.length) :
    Succeeds (index l i) fun a => l[i]? = some a :=
  ⟨l[i], index_eq (List.getElem?_eq_getElem h), List.getElem?_eq_getElem h⟩

theorem succeeds_assign {l : List α} {i : ℕ} (h : i < l.length) (a : α) :
    Succeeds (assign l i a) fun l' => l' = l.set i a :=
  ⟨_, assign_eq h a, rfl⟩

variable {f : α → Except ε β} {l : List α}

/-- Turns that all succeed make the loop succeed, with a result for each. -/
theorem succeeds_mapM {R : α → β → Prop} (h : ∀ a ∈ l, Succeeds (f a) (R a)) :
    Succeeds (l.mapM f) fun bs => List.Forall₂ R l bs := by
  induction l with
  | nil => exact succeeds_pure List.Forall₂.nil
  | cons a l ih =>
    rw [List.forall_mem_cons] at h
    rw [List.mapM_cons]
    refine h.1.bind fun b hb => (ih h.2).bind fun bs hbs => ?_
    exact succeeds_pure (List.Forall₂.cons hb hbs)

/-- A turn that fails makes the loop fail. -/
theorem mapM_error {a : α} {e : ε} (ha : a ∈ l) (h : f a = .error e) :
    ∃ e', l.mapM f = .error e' := by
  induction l with
  | nil => exact absurd ha List.not_mem_nil
  | cons b l ih =>
    rw [List.mapM_cons]
    cases hb : f b with
    | error e' => exact ⟨e', rfl⟩
    | ok c =>
      rcases List.mem_cons.mp ha with rfl | ha
      · rw [h] at hb
        contradiction
      · obtain ⟨e', he'⟩ := ih ha
        exact ⟨e', by rw [he']; rfl⟩

/-- A loop keeps what each turn keeps. -/
theorem succeeds_foldlM {f : β → α → Except ε β} {b : β} (hb : Q b)
    (h : ∀ b, ∀ a ∈ l, Q b → Succeeds (f b a) Q) : Succeeds (l.foldlM f b) Q := by
  induction l generalizing b with
  | nil => exact succeeds_pure hb
  | cons a l ih =>
    rw [List.foldlM_cons]
    refine (h b a List.mem_cons_self hb).bind fun b' hb' => ?_
    exact ih hb' fun c d hd => h c d (List.mem_cons_of_mem a hd)

end Rules

end Checked
