import BabaChain.Lib.OrdMap

/-! Maps and sets that tabulate a list: an entry for each element under its key, and no others. -/
namespace Tables
open Std OrdMap

variable {α κ ν : Type*} [Ord κ] [TransOrd κ]

/-- A map has the value of each element under its key. -/
def Tabulates (m : ExtTreeMap κ ν) (l : List α) (key : α → κ) (value : α → ν) : Prop :=
  ∀ k v, m[k]? = some v ↔ ∃ a ∈ l, key a = k ∧ value a = v

/-- A set has the key of each element. -/
def Lists (m : ExtTreeSet κ) (l : List α) (key : α → κ) : Prop :=
  ∀ k, k ∈ m ↔ ∃ a ∈ l, key a = k

variable {m m' : ExtTreeMap κ ν} {t t' : ExtTreeSet κ} {l : List α} {key : α → κ} {value : α → ν}

theorem tabulates_empty (key : α → κ) (value : α → ν) :
    Tabulates (∅ : ExtTreeMap κ ν) [] key value := by
  intro k v
  rw [ExtTreeMap.getElem?_empty]
  exact iff_of_false nofun fun ⟨a, ha, _⟩ => absurd ha List.not_mem_nil

theorem lists_empty (key : α → κ) : Lists (∅ : ExtTreeSet κ) [] key := by
  intro k
  exact iff_of_false ExtTreeSet.not_mem_empty fun ⟨a, ha, _⟩ => absurd ha List.not_mem_nil

theorem Tabulates.mem_iff (h : Tabulates m l key value) (k : κ) :
    k ∈ m ↔ ∃ a ∈ l, key a = k := by
  rw [mem_iff_exists]
  constructor
  · rintro ⟨v, hv⟩
    obtain ⟨a, ha, hkey, -⟩ := (h k v).mp hv
    exact ⟨a, ha, hkey⟩
  · rintro ⟨a, ha, hkey⟩
    exact ⟨value a, (h k _).mpr ⟨a, ha, hkey, rfl⟩⟩

/-- Elements may be replaced by others with the same keys and values. -/
theorem Tabulates.map (h : Tabulates m l key value) {f : α → α} (hkey : ∀ a, key (f a) = key a)
    (hvalue : ∀ a, value (f a) = value a) : Tabulates m (l.map f) key value := by
  intro k v
  rw [h k v]
  constructor
  · rintro ⟨a, ha, hk, hv⟩
    exact ⟨f a, List.mem_map_of_mem ha, (hkey a).trans hk, (hvalue a).trans hv⟩
  · rintro ⟨b, hb, hk, hv⟩
    obtain ⟨a, ha, rfl⟩ := List.mem_map.mp hb
    exact ⟨a, ha, (hkey a).symm.trans hk, (hvalue a).symm.trans hv⟩

theorem Lists.map (h : Lists t l key) {f : α → α} (hkey : ∀ a, key (f a) = key a) :
    Lists t (l.map f) key := by
  intro k
  rw [h k]
  constructor
  · rintro ⟨a, ha, hk⟩
    exact ⟨f a, List.mem_map_of_mem ha, (hkey a).trans hk⟩
  · rintro ⟨b, hb, hk⟩
    obtain ⟨a, ha, rfl⟩ := List.mem_map.mp hb
    exact ⟨a, ha, (hkey a).symm.trans hk⟩

/-- The entries of some elements are gone, and no others, if no two elements share a key. -/
theorem Tabulates.remove (h : Tabulates m l key value)
    (hinj : ∀ a ∈ l, ∀ b ∈ l, key a = key b → a = b) {keep : α → Bool}
    (hgone : ∀ k v, m'[k]? = some v ↔ m[k]? = some v ∧ ∀ b ∈ l, keep b = false → key b ≠ k) :
    Tabulates m' (l.filter keep) key value := by
  intro k v
  rw [hgone, h k v]
  constructor
  · rintro ⟨⟨a, ha, hk, hv⟩, hnot⟩
    refine ⟨a, List.mem_filter.mpr ⟨ha, ?_⟩, hk, hv⟩
    by_contra hlost
    exact hnot a ha (Bool.eq_false_of_not_eq_true hlost) hk
  · rintro ⟨a, ha, hk, hv⟩
    obtain ⟨ha, hkeep⟩ := List.mem_filter.mp ha
    refine ⟨⟨a, ha, hk, hv⟩, fun b hb hlost hkb => ?_⟩
    rw [hinj a ha b hb (hk.trans hkb.symm), hlost] at hkeep
    contradiction

theorem Lists.remove (h : Lists t l key) (hinj : ∀ a ∈ l, ∀ b ∈ l, key a = key b → a = b)
    {keep : α → Bool}
    (hgone : ∀ k, k ∈ t' ↔ k ∈ t ∧ ∀ b ∈ l, keep b = false → key b ≠ k) :
    Lists t' (l.filter keep) key := by
  intro k
  rw [hgone, h k]
  constructor
  · rintro ⟨⟨a, ha, hk⟩, hnot⟩
    refine ⟨a, List.mem_filter.mpr ⟨ha, ?_⟩, hk⟩
    by_contra hlost
    exact hnot a ha (Bool.eq_false_of_not_eq_true hlost) hk
  · rintro ⟨a, ha, hk⟩
    obtain ⟨ha, hkeep⟩ := List.mem_filter.mp ha
    refine ⟨⟨a, ha, hk⟩, fun b hb hlost hkb => ?_⟩
    rw [hinj a ha b hb (hk.trans hkb.symm), hlost] at hkeep
    contradiction

variable [LawfulEqOrd κ]

theorem Tabulates.insert [DecidableEq κ] (h : Tabulates m l key value) {a : α}
    (hfresh : ∀ b ∈ l, key b ≠ key a) :
    Tabulates (m.insert (key a) (value a)) (a :: l) key value := by
  intro k v
  rw [getElem?_insert]
  split_ifs with hk
  · constructor
    · intro hv
      exact ⟨a, List.mem_cons_self, hk, Option.some.inj hv⟩
    · rintro ⟨b, hb, hkb, rfl⟩
      rcases List.mem_cons.mp hb with rfl | hb
      · rfl
      · exact absurd (hkb.trans hk.symm) (hfresh b hb)
  · rw [h k v]
    constructor
    · rintro ⟨b, hb, hkb, hv⟩
      exact ⟨b, List.mem_cons_of_mem a hb, hkb, hv⟩
    · rintro ⟨b, hb, hkb, hv⟩
      rcases List.mem_cons.mp hb with rfl | hb
      · exact absurd hkb hk
      · exact ⟨b, hb, hkb, hv⟩

theorem Lists.insert (h : Lists t l key) (a : α) : Lists (t.insert (key a)) (a :: l) key := by
  intro k
  rw [mem_set_insert, h k]
  constructor
  · rintro (hk | ⟨b, hb, hk⟩)
    · exact ⟨a, List.mem_cons_self, hk⟩
    · exact ⟨b, List.mem_cons_of_mem a hb, hk⟩
  · rintro ⟨b, hb, hk⟩
    rcases List.mem_cons.mp hb with rfl | hb
    · exact Or.inl hk
    · exact Or.inr ⟨b, hb, hk⟩

end Tables
