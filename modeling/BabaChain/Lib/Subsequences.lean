import Mathlib.Data.List.Destutter

/-! Looking for wanted values in a list, one after the other: each search starts at the place
where the one before has ended, and that place may be taken again. -/
namespace Subsequences

variable {α β : Type*}

/-- The first place from `j` on that has `p`. -/
def findFrom (p : α → Bool) (xs : List α) (j : ℕ) : Option ℕ :=
  ((xs.drop j).findIdx? p).map (·+j)

/-- Whether each wanted value is found from the place of the one before. -/
def searchAll (fits : β → α → Bool) (xs : List α) : List β → ℕ → Bool
  | [], _ => true
  | b :: wanted, j =>
    match findFrom (fits b) xs j with
    | none => false
    | some j' => searchAll fits xs wanted j'

theorem findFrom_eq_none {p : α → Bool} {xs : List α} {j : ℕ} :
    findFrom p xs j = none ↔ ∀ x ∈ xs.drop j, p x = false := by
  simp only [findFrom, Option.map_eq_none_iff, List.findIdx?_eq_none_iff]

/-- What is found is the first fitting value of the rest of the list. -/
theorem findFrom_eq_some {p : α → Bool} {xs : List α} {j k : ℕ} (h : findFrom p xs j = some k) :
    ∃ skipped x rest, xs.drop j = skipped ++ x :: rest ∧ xs.drop k = x :: rest ∧
      p x = true ∧ ∀ y ∈ skipped, p y = false := by
  obtain ⟨i, hi, rfl⟩ := Option.map_eq_some_iff.mp h
  obtain ⟨hlt, hp, hbefore⟩ := List.findIdx?_eq_some_iff_getElem.mp hi
  have hdrop : (xs.drop j).drop i = xs.drop (i+j) := by
    rw [List.drop_drop, Nat.add_comm]
  refine ⟨(xs.drop j).take i, (xs.drop j)[i], (xs.drop j).drop (i+1), ?_, ?_, hp, ?_⟩
  · rw [← List.drop_eq_getElem_cons hlt, List.take_append_drop]
  · rw [← hdrop, List.drop_eq_getElem_cons hlt]
  · intro y hy
    obtain ⟨m, hm, rfl⟩ := List.mem_iff_getElem.mp hy
    rw [List.length_take] at hm
    rw [List.getElem_take]
    exact Bool.eq_false_iff.mpr (hbefore m (by omega))

theorem cons_sublist_append_iff {a : α} {as skipped ys : List α} (h : a ∉ skipped) :
    (a :: as).Sublist (skipped ++ ys) ↔ (a :: as).Sublist ys := by
  induction skipped with
  | nil => rfl
  | cons s skipped ih =>
    obtain ⟨hs, hskipped⟩ := not_or.mp (List.mem_cons.not.mp h)
    rw [List.cons_append, ← ih hskipped]
    constructor
    · intro hsub
      rcases hsub with _ | ⟨_, hsub⟩ | _
      · assumption
      · exact absurd rfl hs
    · exact fun hsub => hsub.cons s

variable {fits : β → α → Bool} {key : β → α} {xs : List α}

theorem not_mem_of_unfit (hfits : ∀ b x, fits b x = true ↔ key b = x) {b : β} {ys : List α}
    (h : ∀ y ∈ ys, fits b y = false) : key b ∉ ys := by
  intro hmem
  have hb := h _ hmem
  rw [(hfits b _).mpr rfl] at hb
  cases hb

section Sublists

variable [DecidableEq α]

/-- Merging neighbours keeps the head. -/
theorem head_destutter' (a : α) (as : List α) : ∃ tail, as.destutter' (· ≠ ·) a = a :: tail := by
  induction as with
  | nil => exact ⟨[], rfl⟩
  | cons b as ih =>
    by_cases h : a = b
    · rw [List.destutter'_cons_neg _ (by simpa using h)]
      exact ih
    · rw [List.destutter'_cons_pos _ h]
      exact ⟨_, rfl⟩

/-- The search succeeds just when what is wanted, with equal neighbours merged, is a
subsequence of the rest of the list. -/
theorem searchAll_cons_iff (hfits : ∀ b x, fits b x = true ↔ key b = x) (b : β)
    (wanted : List β) (j : ℕ) : searchAll fits xs (b :: wanted) j = true ↔
      ((wanted.map key).destutter' (· ≠ ·) (key b)).Sublist (xs.drop j) := by
  induction wanted generalizing b j with
  | nil =>
    rcases hfind : findFrom (fits b) xs j with _ | k
    · have hmiss := not_mem_of_unfit hfits (findFrom_eq_none.mp hfind)
      simpa [searchAll, hfind] using hmiss
    · obtain ⟨skipped, x, rest, hdrop, -, hx, -⟩ := findFrom_eq_some hfind
      obtain rfl := (hfits b x).mp hx
      simp [searchAll, hfind, hdrop]
  | cons c wanted ih =>
    rw [searchAll]
    obtain ⟨tail, htail⟩ := head_destutter' (key b) ((c :: wanted).map key)
    rcases hfind : findFrom (fits b) xs j with _ | k
    · have hmiss := not_mem_of_unfit hfits (findFrom_eq_none.mp hfind)
      simp only [Bool.false_eq_true, false_iff, htail]
      exact fun hsub => hmiss (hsub.subset List.mem_cons_self)
    · obtain ⟨skipped, x, rest, hdrop, hdrop', hx, hskipped⟩ := findFrom_eq_some hfind
      obtain rfl := (hfits b x).mp hx
      have hmiss := not_mem_of_unfit hfits hskipped
      simp only [ih c k]
      rw [htail, hdrop, cons_sublist_append_iff hmiss, hdrop', ← htail, List.map_cons]
      by_cases hbc : key b = key c
      · rw [List.destutter'_cons_neg _ (by simpa using hbc), hbc]
      · -- the next wanted value cannot be found at the place of this one
        obtain ⟨tail', htail'⟩ := head_destutter' (key c) (wanted.map key)
        have hne : key c ∉ [key b] := fun hmem => hbc (List.mem_singleton.mp hmem).symm
        have hskip : (key c :: tail').Sublist ([key b] ++ rest) ↔ (key c :: tail').Sublist rest :=
          cons_sublist_append_iff hne
        rw [List.destutter'_cons_pos _ hbc, List.cons_sublist_cons, htail', ← hskip]
        rfl

theorem searchAll_iff (hfits : ∀ b x, fits b x = true ↔ key b = x) (wanted : List β) :
    searchAll fits xs wanted 0 = true ↔
      ((wanted.map key).destutter (· ≠ ·)).Sublist xs := by
  rcases wanted with _ | ⟨b, wanted⟩
  · simp [searchAll]
  · exact searchAll_cons_iff hfits b wanted 0

/-- A list with two equal neighbours is longer than what is left of it. -/
theorem length_destutter_lt {as : List α} (h : ¬as.IsChain (· ≠ ·)) :
    (as.destutter (· ≠ ·)).length < as.length := by
  have hsub := List.destutter_sublist (· ≠ ·) as
  apply lt_of_le_of_ne hsub.length_le
  intro hlen
  exact h ((List.destutter_eq_self_iff (· ≠ ·) as).mp (hsub.eq_of_length hlen))

end Sublists
end Subsequences
