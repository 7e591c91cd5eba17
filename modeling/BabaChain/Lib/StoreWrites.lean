import BabaChain.Lib.OrdMap

/-! Ordered stores: the first key from a given one on, writes that are made again, and sums over
what is stored. -/
namespace OrdMap
open Std

variable {κ ν : Type*} [Ord κ] [TransOrd κ] [LawfulEqOrd κ]

/-- The first key that is not below `k`. -/
def seek (m : ExtTreeMap κ ν) (k : κ) : Option κ := m.keys.find? fun a => (compare a k).isGE

def insertAll (m : ExtTreeMap κ ν) (l : List (κ × ν)) : ExtTreeMap κ ν :=
  l.foldl (fun m p => m.insert p.1 p.2) m

def eraseAll (m : ExtTreeMap κ ν) (ks : List κ) : ExtTreeMap κ ν :=
  ks.foldl (fun m k => m.erase k) m

theorem mem_keys_iff {m : ExtTreeMap κ ν} {k : κ} : k ∈ m.keys ↔ k ∈ m := ExtTreeMap.mem_keys

theorem seek_eq_none_iff {m : ExtTreeMap κ ν} {k : κ} :
    seek m k = none ↔ ∀ a ∈ m, compare a k = .lt := by
  rw [seek, List.find?_eq_none]
  constructor
  · intro h a ha
    have hnot := h a (mem_keys_iff.mpr ha)
    cases hcmp : compare a k with
    | lt => rfl
    | eq | gt => exact absurd (by rw [hcmp]; rfl) hnot
  · intro h a ha
    rw [h a (mem_keys_iff.mp ha)]
    exact Bool.false_ne_true

theorem seek_eq_some {m : ExtTreeMap κ ν} {k a : κ} (h : seek m k = some a) :
    a ∈ m ∧ (compare a k).isGE = true := by
  rw [seek] at h
  exact ⟨mem_keys_iff.mp (List.mem_of_find?_eq_some h),
    @List.find?_some _ (fun a => (compare a k).isGE) _ _ h⟩

/-- A key that is there is the first one from itself on. -/
theorem seek_self {m : ExtTreeMap κ ν} {k : κ} (h : k ∈ m) : seek m k = some k := by
  obtain ⟨before, after, hkeys⟩ := List.append_of_mem (mem_keys_iff.mpr h)
  have hsorted := ExtTreeMap.ordered_keys (t := m)
  rw [hkeys, List.pairwise_append] at hsorted
  rw [seek, hkeys, List.find?_append, List.find?_eq_none.mpr]
  · have hself : compare k k = .eq := ReflCmp.compare_self
    rw [Option.none_or, List.find?_cons_of_pos]
    rw [hself]
    rfl
  · intro a ha
    rw [hsorted.2.2 a ha k List.mem_cons_self]
    exact Bool.false_ne_true

theorem getElem?_insertAll_of_notMem [DecidableEq κ] {l : List (κ × ν)} {a : κ}
    (h : a ∉ l.map Prod.fst) (m : ExtTreeMap κ ν) : (insertAll m l)[a]? = m[a]? := by
  induction l generalizing m with
  | nil => rfl
  | cons p l ih =>
    rw [List.map_cons, List.mem_cons, not_or] at h
    rw [insertAll, List.foldl_cons]
    have hp : (m.insert p.1 p.2)[a]? = m[a]? :=
      (getElem?_insert m p.1 a p.2).trans (if_neg (Ne.symm h.1))
    exact (ih h.2 (m.insert p.1 p.2)).trans hp

/-- Writing a list hides every difference under its keys. -/
theorem insertAll_congr [DecidableEq κ] {l : List (κ × ν)} {m m' : ExtTreeMap κ ν}
    (h : ∀ a ∉ l.map Prod.fst, m[a]? = m'[a]?) : insertAll m l = insertAll m' l := by
  induction l generalizing m m' with
  | nil => exact ExtTreeMap.ext_getElem? fun {a} => h a List.not_mem_nil
  | cons p l ih =>
    refine ih fun a ha => ?_
    rw [getElem?_insert, getElem?_insert]
    split_ifs with hp
    · rfl
    · refine h a fun hmem => ?_
      rcases List.mem_cons.mp hmem with heq | hmem
      · exact hp heq.symm
      · exact ha hmem

theorem mem_eraseAll [DecidableEq κ] {m : ExtTreeMap κ ν} {ks : List κ} {a : κ} :
    a ∈ eraseAll m ks ↔ a ∈ m ∧ a ∉ ks := by
  rw [mem_iff_exists, eraseAll, getElem?_foldl_erase, mem_iff_exists]
  split_ifs with ha
  · exact ⟨fun ⟨v, h⟩ => absurd h nofun, fun h => absurd ha h.2⟩
  · exact ⟨fun h => ⟨h, ha⟩, And.left⟩

section Scans

variable {α : Type*} {r : α → α → Prop} {p : α → Bool} {l : List α}

/-- A condition that holds up to some point of an ordered list stops the scan there. -/
theorem takeWhile_eq_filter (h : l.Pairwise r)
    (hdown : ∀ a ∈ l, ∀ b ∈ l, r a b → p b = true → p a = true) :
    l.takeWhile p = l.filter p := by
  induction l with
  | nil => rfl
  | cons a l ih =>
    rw [List.pairwise_cons] at h
    have hrest := ih h.2 fun b hb c hc =>
      hdown b (List.mem_cons_of_mem a hb) c (List.mem_cons_of_mem a hc)
    cases ha : p a with
    | true => rw [List.takeWhile_cons_of_pos ha, List.filter_cons_of_pos ha, hrest]
    | false =>
      have hnone : l.filter p = [] := by
        rw [List.filter_eq_nil_iff]
        intro b hb hpb
        have hpa := hdown a List.mem_cons_self b (List.mem_cons_of_mem a hb) (h.1 b hb) hpb
        rw [ha] at hpa
        contradiction
      rw [List.takeWhile_cons_of_neg (by rw [ha]; exact Bool.false_ne_true),
        List.filter_cons_of_neg (by rw [ha]; exact Bool.false_ne_true), hnone]

theorem dropWhile_eq_filter (h : l.Pairwise r)
    (hdown : ∀ a ∈ l, ∀ b ∈ l, r a b → p b = true → p a = true) :
    l.dropWhile p = l.filter fun a => !p a := by
  induction l with
  | nil => rfl
  | cons a l ih =>
    rw [List.pairwise_cons] at h
    have hrest := ih h.2 fun b hb c hc =>
      hdown b (List.mem_cons_of_mem a hb) c (List.mem_cons_of_mem a hc)
    cases ha : p a with
    | true => rw [List.dropWhile_cons_of_pos ha, hrest, List.filter_cons_of_neg (by simp [ha])]
    | false =>
      have hall : (a :: l).filter (fun b => !p b) = a :: l := by
        rw [List.filter_eq_self]
        intro b hb
        rcases List.mem_cons.mp hb with rfl | hb
        · rw [ha]
          rfl
        · cases hpb : p b with
          | false => rfl
          | true =>
            have hpa := hdown a List.mem_cons_self b (List.mem_cons_of_mem a hb) (h.1 b hb) hpb
            rw [ha] at hpa
            contradiction
      rw [List.dropWhile_cons_of_neg (by rw [ha]; exact Bool.false_ne_true), hall]

end Scans

/-! ### Sums -/

section Totals

variable (f : κ → ν → ℤ) (g : κ → ℤ)

/-- A sum over what a store holds. -/
def total (m : ExtTreeMap κ ν) : ℤ := (m.toList.map fun p => f p.1 p.2).sum

/-- A sum over the members of a set. -/
def setTotal (s : ExtTreeSet κ) : ℤ := (s.toList.map g).sum

omit [LawfulEqOrd κ] in
theorem total_nonneg {f : κ → ν → ℤ} (hf : ∀ k v, 0 ≤ f k v) (m : ExtTreeMap κ ν) :
    0 ≤ total f m := by
  apply List.sum_nonneg
  intro x hx
  obtain ⟨p, -, rfl⟩ := List.mem_map.mp hx
  exact hf p.1 p.2

omit [LawfulEqOrd κ] in
theorem setTotal_nonneg {g : κ → ℤ} (hg : ∀ k, 0 ≤ g k) (s : ExtTreeSet κ) : 0 ≤ setTotal g s := by
  apply List.sum_nonneg
  intro x hx
  obtain ⟨k, -, rfl⟩ := List.mem_map.mp hx
  exact hg k

omit [LawfulEqOrd κ] in
theorem nodup_toList (m : ExtTreeMap κ ν) : m.toList.Nodup := by
  apply List.Nodup.of_map Prod.fst
  rw [ExtTreeMap.map_fst_toList_eq_keys]
  exact ExtTreeMap.nodup_keys

theorem total_insert (m : ExtTreeMap κ ν) (k : κ) (v : ν) :
    total f (m.insert k v) = total f (m.erase k)+f k v := by
  classical
  have hnot : (k, v) ∉ (m.erase k).toList := by
    rw [ExtTreeMap.mem_toList_iff_getElem?_eq_some, getElem?_erase, if_pos rfl]
    exact nofun
  have hperm : (m.insert k v).toList.Perm ((k, v) :: (m.erase k).toList) := by
    refine (List.perm_ext_iff_of_nodup (nodup_toList _)
      (List.nodup_cons.mpr ⟨hnot, nodup_toList _⟩)).mpr ?_
    rintro ⟨a, w⟩
    rw [List.mem_cons, ExtTreeMap.mem_toList_iff_getElem?_eq_some,
      ExtTreeMap.mem_toList_iff_getElem?_eq_some, getElem?_insert, getElem?_erase]
    by_cases hk : k = a
    · simp [hk, eq_comm]
    · simp [hk, Ne.symm hk]
  rw [total, (hperm.map _).sum_eq, List.map_cons, List.sum_cons, add_comm, total]

theorem total_erase (m : ExtTreeMap κ ν) (k : κ) :
    total f (m.erase k) = total f m-(m[k]?.map (f k)).getD 0 := by
  classical
  rcases hv : m[k]? with _ | v
  · have hsame : m.erase k = m := by
      apply ExtTreeMap.ext_getElem?
      intro a
      rw [getElem?_erase]
      split_ifs with hk
      · rw [← hk, hv]
      · rfl
    rw [hsame, Option.map_none, Option.getD_none, sub_zero]
  · have hsame : (m.erase k).insert k v = m := by
      apply ExtTreeMap.ext_getElem?
      intro a
      rw [getElem?_insert, getElem?_erase]
      split_ifs with hk
      · rw [← hk, hv]
      · rfl
    have hinsert := total_insert f (m.erase k) k v
    have htwice : (m.erase k).erase k = m.erase k := by
      apply ExtTreeMap.ext_getElem?
      intro a
      rw [getElem?_erase, ite_eq_right_iff]
      rintro rfl
      rw [getElem?_erase, if_pos rfl]
    rw [hsame, htwice] at hinsert
    rw [hinsert, Option.map_some, Option.getD_some, add_sub_cancel_right]

omit [LawfulEqOrd κ] in
theorem nodup_set_toList (s : ExtTreeSet κ) : s.toList.Nodup := by
  refine ExtTreeSet.ordered_toList.imp fun {a b} hlt heq => ?_
  have hself : compare b b = .eq := ReflCmp.compare_self
  rw [heq, hself] at hlt
  contradiction

theorem setTotal_insert {s : ExtTreeSet κ} {k : κ} (h : k ∉ s) :
    setTotal g (s.insert k) = setTotal g s+g k := by
  classical
  have hnot : k ∉ s.toList := fun hmem => h (ExtTreeSet.mem_toList.mp hmem)
  have hperm : (s.insert k).toList.Perm (k :: s.toList) := by
    refine (List.perm_ext_iff_of_nodup (nodup_set_toList _)
      (List.nodup_cons.mpr ⟨hnot, nodup_set_toList _⟩)).mpr fun a => ?_
    rw [List.mem_cons, ExtTreeSet.mem_toList, ExtTreeSet.mem_toList, mem_set_insert, eq_comm]
  rw [setTotal, (hperm.map g).sum_eq, List.map_cons, List.sum_cons, add_comm, setTotal]

theorem setTotal_erase {s : ExtTreeSet κ} {k : κ} (h : k ∈ s) :
    setTotal g (s.erase k) = setTotal g s-g k := by
  classical
  have hnot : k ∉ s.erase k := fun hmem => (mem_set_erase.mp hmem).1 rfl
  have hsame : (s.erase k).insert k = s := by
    apply ExtTreeSet.ext_mem
    intro a
    rw [mem_set_insert, mem_set_erase]
    constructor
    · rintro (rfl | hmem)
      · exact h
      · exact hmem.2
    · intro hmem
      by_cases hk : k = a
      · exact .inl hk
      · exact .inr ⟨hk, hmem⟩
  have hinsert := setTotal_insert g hnot
  rw [hsame] at hinsert
  rw [hinsert, add_sub_cancel_right]

end Totals

end OrdMap
