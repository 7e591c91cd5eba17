import BabaChain.Lib.OrdMap

/-! The values of a list by key, each key with its values in list order. -/
namespace Grouping
open Std

variable {α β κ : Type*} [Ord κ] [TransOrd κ]

def add (key : α → κ) (val : α → β) (m : ExtTreeMap κ (List β)) (a : α) :
    ExtTreeMap κ (List β) :=
  m.insert (key a) (m.getD (key a) []++[val a])

def group (key : α → κ) (val : α → β) (l : List α) : ExtTreeMap κ (List β) :=
  l.foldl (add key val) ∅

variable {key : α → κ} {val : α → β}

theorem group_concat (l : List α) (a : α) :
    group key val (l++[a]) = add key val (group key val l) a := by
  rw [group, List.foldl_append, List.foldl_cons, List.foldl_nil, group]

variable [LawfulEqOrd κ]

theorem mem_group {l : List α} {k : κ} : k ∈ group key val l ↔ ∃ a ∈ l, key a = k := by
  induction l using List.reverseRecOn with
  | nil => exact iff_of_false ExtTreeMap.not_mem_empty (by simp)
  | append_singleton l a ih =>
    rw [group_concat, add, ExtTreeMap.mem_insert, LawfulEqCmp.compare_eq_iff_eq, ih]
    simp only [List.mem_append, List.mem_singleton]
    constructor
    · intro h
      rcases h with h | h
      · exact ⟨a, Or.inr rfl, h⟩
      · obtain ⟨b, hb, hk⟩ := h
        exact ⟨b, Or.inl hb, hk⟩
    · intro h
      obtain ⟨b, hb | hb, hk⟩ := h
      · exact Or.inr ⟨b, hb, hk⟩
      · exact Or.inl (hb ▸ hk)

variable [DecidableEq κ]

theorem getD_group (l : List α) (k : κ) :
    (group key val l).getD k [] = (l.filter fun a => key a = k).map val := by
  induction l using List.reverseRecOn with
  | nil => rfl
  | append_singleton l a ih =>
    rw [group_concat, add, ExtTreeMap.getD_eq_getD_getElem?, OrdMap.getElem?_insert,
      List.filter_append, List.map_append]
    by_cases h : key a = k
    · subst h
      rw [if_pos rfl, Option.getD_some, List.filter_singleton, decide_eq_true rfl, cond_true]
      exact congrArg (·++[val a]) ih
    · rw [if_neg h, ← ExtTreeMap.getD_eq_getD_getElem?, ih, List.filter_singleton,
        decide_eq_false h, cond_false, List.map_nil, List.append_nil]

/-- The groups are the nonempty classes of the list. -/
theorem mem_toList_group {l : List α} {k : κ} {vs : List β} :
    (k, vs) ∈ (group key val l).toList ↔
      (∃ a ∈ l, key a = k) ∧ vs = (l.filter fun a => key a = k).map val := by
  rw [ExtTreeMap.mem_toList_iff_getElem?_eq_some, ← @mem_group _ _ _ _ _ key val, ← getD_group,
    ExtTreeMap.getD_eq_getD_getElem?]
  constructor
  · intro h
    rw [h]
    exact ⟨ExtTreeMap.mem_iff_isSome_getElem?.mpr (by rw [h]; rfl), rfl⟩
  · intro h
    obtain ⟨hk, rfl⟩ := h
    obtain ⟨v, hv⟩ := OrdMap.mem_iff_exists.mp hk
    rw [hv, Option.getD_some]

/-- All values of all groups are all values of the list. -/
theorem forall_mem_group {l : List α} {P : κ → β → Prop} :
    (∀ g ∈ (group key val l).toList, ∀ v ∈ g.2, P g.1 v) ↔ ∀ a ∈ l, P (key a) (val a) := by
  constructor
  · intro h a ha
    have hg : (key a, (l.filter fun b => key b = key a).map val) ∈ (group key val l).toList :=
      mem_toList_group.mpr ⟨⟨a, ha, rfl⟩, rfl⟩
    apply h _ hg
    exact List.mem_map_of_mem (List.mem_filter.mpr ⟨ha, decide_eq_true rfl⟩)
  · intro h g hg v hv
    obtain ⟨k, vs⟩ := g
    obtain ⟨_, rfl⟩ := mem_toList_group.mp hg
    obtain ⟨a, ha, rfl⟩ := List.mem_map.mp hv
    obtain ⟨ha, hk⟩ := List.mem_filter.mp ha
    exact of_decide_eq_true hk ▸ h a ha

theorem exists_mem_group {l : List α} {P : κ → β → Prop} :
    (∃ g ∈ (group key val l).toList, ∃ v ∈ g.2, P g.1 v) ↔ ∃ a ∈ l, P (key a) (val a) := by
  have h := not_congr (@forall_mem_group _ _ _ _ _ key val _ _ l
    (fun k v => ¬P k v))
  push Not at h
  exact h

end Grouping
