import Std.Data.ExtTreeMap
import Std.Data.ExtTreeSet
import Mathlib.Tactic

/-! Lookups in ordered maps and sets whose comparison decides equality. -/
namespace OrdMap
open Std

variable {κ ν : Type*} [Ord κ] [TransOrd κ]

theorem mem_iff_exists {m : ExtTreeMap κ ν} {k : κ} : k ∈ m ↔ ∃ v, m[k]? = some v := by
  rw [ExtTreeMap.mem_iff_isSome_getElem?, Option.isSome_iff_exists]

theorem notMem_iff {m : ExtTreeMap κ ν} {k : κ} : k ∉ m ↔ m[k]? = none := by
  rw [ExtTreeMap.mem_iff_isSome_getElem?, Option.not_isSome_iff_eq_none]

variable [LawfulEqOrd κ]

theorem getElem?_insert (m : ExtTreeMap κ ν) (k a : κ) (v : ν) [Decidable (k = a)] :
    (m.insert k v)[a]? = if k = a then some v else m[a]? := by
  rw [ExtTreeMap.getElem?_insert]
  simp only [LawfulEqCmp.compare_eq_iff_eq]

theorem getElem?_erase (m : ExtTreeMap κ ν) (k a : κ) [Decidable (k = a)] :
    (m.erase k)[a]? = if k = a then none else m[a]? := by
  rw [ExtTreeMap.getElem?_erase]
  simp only [LawfulEqCmp.compare_eq_iff_eq]

theorem getElem?_erase_eq_some {m : ExtTreeMap κ ν} {k a : κ} {v : ν} :
    (m.erase k)[a]? = some v ↔ m[a]? = some v ∧ k ≠ a := by
  classical
  rw [getElem?_erase]
  split_ifs with hk
  · exact iff_of_false nofun fun h => h.2 hk
  · exact (and_iff_left hk).symm

theorem mem_toList {m : ExtTreeMap κ ν} {p : κ × ν} (h : p ∈ m.toList) : m[p.1]? = some p.2 :=
  ExtTreeMap.mem_toList_iff_getElem?_eq_some.mp h

/-- Maps whose values have the same images list them in the same order. -/
theorem map_toList_congr {ν' β : Type*} {m : ExtTreeMap κ ν} {m' : ExtTreeMap κ ν'} (f : ν → β)
    (g : ν' → β) (h : ∀ a : κ, m[a]?.map f = m'[a]?.map g) :
    (m.toList.map fun p => f p.2) = m'.toList.map fun p => g p.2 := by
  have hmap : m.map (fun _ => f) = m'.map fun _ => g := by
    apply ExtTreeMap.ext_getElem?
    intro a
    rw [ExtTreeMap.getElem?_map, ExtTreeMap.getElem?_map]
    exact h a
  have htoList := congrArg (fun m => m.toList.map Prod.snd) hmap
  simpa only [ExtTreeMap.toList_map, List.map_map, Function.comp_def] using htoList

/-- Replacing a value by one with the same image leaves the images as they are. -/
theorem map_toList_insert {β : Type*} {m : ExtTreeMap κ ν} {k : κ} {v v' : ν} (f : ν → β)
    (hv : m[k]? = some v) (hf : f v' = f v) :
    (m.insert k v').toList.map (fun p => f p.2) = m.toList.map fun p => f p.2 := by
  apply map_toList_congr
  intro a
  rw [ExtTreeMap.getElem?_insert]
  split_ifs with hka
  · rw [← LawfulEqCmp.eq_of_compare hka, hv, Option.map_some, Option.map_some, hf]
  · rfl

/-- After the values of a list are inserted under their keys, a key is looked up
in the list first. -/
theorem foldl_insert_cases [DecidableEq κ] (key : ν → κ) (l : List ν) (m : ExtTreeMap κ ν) (a : κ) :
    (∃ v ∈ l, key v = a ∧ (l.foldl (fun m v => m.insert (key v) v) m)[a]? = some v) ∨
      (∀ v ∈ l, key v ≠ a) ∧ (l.foldl (fun m v => m.insert (key v) v) m)[a]? = m[a]? := by
  induction l generalizing m with
  | nil => exact Or.inr ⟨fun v hmem => absurd hmem List.not_mem_nil, rfl⟩
  | cons w l ih =>
    rw [List.foldl_cons]
    rcases ih (m.insert (key w) w) with ⟨v, hmem, hkey, hget⟩ | ⟨hne, hget⟩
    · exact Or.inl ⟨v, List.mem_cons_of_mem w hmem, hkey, hget⟩
    · rw [getElem?_insert] at hget
      by_cases hw : key w = a
      · rw [if_pos hw] at hget
        exact Or.inl ⟨w, List.mem_cons_self, hw, hget⟩
      · rw [if_neg hw] at hget
        exact Or.inr ⟨List.forall_mem_cons.mpr ⟨hw, hne⟩, hget⟩

theorem getElem?_foldl_erase [DecidableEq κ] (l : List κ) (m : ExtTreeMap κ ν) (a : κ) :
    (l.foldl (fun m k => m.erase k) m)[a]? = if a ∈ l then none else m[a]? := by
  induction l generalizing m with
  | nil => rw [if_neg List.not_mem_nil]; rfl
  | cons k l ih =>
    rw [List.foldl_cons, ih, getElem?_erase]
    simp only [List.mem_cons]
    split_ifs <;> grind

theorem getElem?_foldl_insert [DecidableEq κ] (l : List κ) (v : ν) (m : ExtTreeMap κ ν) (a : κ) :
    (l.foldl (fun m k => m.insert k v) m)[a]? = if a ∈ l then some v else m[a]? := by
  induction l generalizing m with
  | nil => rw [if_neg List.not_mem_nil]; rfl
  | cons k l ih =>
    rw [List.foldl_cons, ih, getElem?_insert]
    by_cases hk : k = a
    · simp [hk]
    · simp [hk, Ne.symm hk]

theorem mem_set_insert {m : ExtTreeSet κ} {k a : κ} : a ∈ m.insert k ↔ k = a ∨ a ∈ m := by
  rw [ExtTreeSet.mem_insert, LawfulEqCmp.compare_eq_iff_eq]

theorem mem_set_erase {m : ExtTreeSet κ} {k a : κ} : a ∈ m.erase k ↔ k ≠ a ∧ a ∈ m := by
  rw [ExtTreeSet.mem_erase, ne_eq, LawfulEqCmp.compare_eq_iff_eq]

theorem mem_set_foldl_erase (l : List κ) (m : ExtTreeSet κ) (a : κ) :
    a ∈ l.foldl (fun m k => m.erase k) m ↔ a ∈ m ∧ a ∉ l := by
  induction l generalizing m with
  | nil => exact (and_iff_left List.not_mem_nil).symm
  | cons k l ih =>
    rw [List.foldl_cons, ih, mem_set_erase, List.mem_cons, not_or]
    constructor
    · rintro ⟨⟨hne, ha⟩, hout⟩
      exact ⟨ha, Ne.symm hne, hout⟩
    · rintro ⟨ha, hne, hout⟩
      exact ⟨⟨Ne.symm hne, ha⟩, hout⟩

theorem compare_bitVec_eq_lt {n : ℕ} (x y : BitVec n) : compare x y = .lt ↔ x < y := by
  change compareOfLessAndEq x y = .lt ↔ _
  exact compareOfLessAndEq_eq_lt

end OrdMap
