import Mathlib.Tactic

/-! The sum over the newest elements of a list that grows at its head, kept up to
date as it grows. -/
namespace SlidingWindow

variable {α M : Type*} [AddCommGroup M]

def windowSum (f : α → M) (w : ℕ) (l : List α) : M := ((l.take w).map f).sum

/-- The term that a window of the given width has just lost. -/
def leaving (f : α → M) (w : ℕ) (l : List α) : M := (l[w]?.map f).getD 0

variable (f : α → M) (a : α) (l : List α) (w : ℕ)

@[simp] theorem windowSum_nil : windowSum f w [] = 0 := by
  rw [windowSum, List.take_nil, List.map_nil, List.sum_nil]

theorem windowSum_succ_cons : windowSum f (w+1) (a :: l) = f a+windowSum f w l := by
  rw [windowSum, List.take_succ_cons, List.map_cons, List.sum_cons, windowSum]

theorem windowSum_succ : windowSum f (w+1) l = windowSum f w l+leaving f w l := by
  rw [windowSum, windowSum, leaving, List.take_add_one, List.map_append, List.sum_append]
  cases l[w]? with
  | none => rfl
  | some a => exact congrArg _ List.sum_singleton

/-- One more element: it comes in and the oldest goes out. -/
theorem windowSum_cons :
    windowSum f w (a :: l) = windowSum f w l+f a-leaving f w (a :: l) := by
  have hnew := windowSum_succ f (a :: l) w
  rw [windowSum_succ_cons] at hnew
  rw [eq_sub_iff_add_eq, ← hnew, add_comm]

/-- A window in which every term is zero. -/
theorem windowSum_eq_zero (h : ∀ a ∈ l.take w, f a = 0) : windowSum f w l = 0 := by
  apply List.sum_eq_zero
  intro x hx
  obtain ⟨a, ha, rfl⟩ := List.mem_map.mp hx
  exact h a ha

section Order

variable [PartialOrder M] {f l}

theorem windowSum_nonneg [IsOrderedAddMonoid M] (h : ∀ a ∈ l, 0 ≤ f a) : 0 ≤ windowSum f w l := by
  apply List.sum_nonneg
  intro x hx
  obtain ⟨a, ha, rfl⟩ := List.mem_map.mp hx
  exact h a (List.mem_of_mem_take ha)

theorem leaving_nonneg (h : ∀ a ∈ l, 0 ≤ f a) : 0 ≤ leaving f w l := by
  unfold leaving
  cases hget : l[w]? with
  | none => exact le_rfl
  | some a => exact h a (List.mem_of_getElem? hget)

end Order

end SlidingWindow
