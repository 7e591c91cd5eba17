import BabaChain.Lib.OrdMap

/-! Transactions over a store: writes and deletes that are kept apart until they are committed
to the store, or to another transaction below. -/
namespace Overlay
open Std OrdMap

variable {κ ν ω σ : Type*}

/-- A store that can be read, written and deleted from one key at a time. -/
structure IsStore [DecidableEq κ] (read : σ → κ → Option ν) (write : σ → κ → ν → σ)
    (erase : σ → κ → σ) : Prop where
  read_write : ∀ s k v a, read (write s k v) a = if k = a then some v else read s a
  read_erase : ∀ s k a, read (erase s k) a = if k = a then none else read s a

/-- What is read once a list has been written, from what there was. The last write counts. -/
def overwrite [DecidableEq κ] (m : κ → Option ν) (l : List (κ × ν)) (k : κ) : Option ν :=
  l.foldl (fun v p => if p.1 = k then some p.2 else v) (m k)

theorem overwrite_of_notMem [DecidableEq κ] {m : κ → Option ν} {l : List (κ × ν)} {k : κ}
    (hnot : k ∉ l.map Prod.fst) : overwrite m l k = m k := by
  rw [overwrite]
  generalize m k = v
  induction l generalizing v with
  | nil => rfl
  | cons p l ih =>
    rw [List.map_cons, List.mem_cons, not_or] at hnot
    rw [List.foldl_cons, if_neg (Ne.symm hnot.1)]
    exact ih hnot.2 v

theorem overwrite_append [DecidableEq κ] (m : κ → Option ν) (l l' : List (κ × ν)) :
    overwrite m (l ++ l') = overwrite (overwrite m l) l' := by
  funext k
  rw [overwrite, List.foldl_append]
  rfl

/-- Writing never takes a key away. -/
theorem eq_none_of_overwrite [DecidableEq κ] {m : κ → Option ν} {l : List (κ × ν)} {k : κ}
    (hnone : overwrite m l k = none) : m k = none := by
  rw [overwrite] at hnone
  generalize m k = v at hnone ⊢
  induction l generalizing v with
  | nil => exact hnone
  | cons p l ih =>
    have hv := ih _ hnone
    dsimp only at hv
    split_ifs at hv
    exact hv

theorem isSome_overwrite [DecidableEq κ] {m : κ → Option ν} {l : List (κ × ν)} {k : κ}
    (hk : k ∈ l.map Prod.fst) : (overwrite m l k).isSome = true := by
  induction l generalizing m with
  | nil => exact absurd hk List.not_mem_nil
  | cons p l ih =>
    rw [← List.singleton_append, overwrite_append]
    rcases List.mem_cons.mp hk with rfl | hk
    · rw [← Option.ne_none_iff_isSome]
      intro hnone
      have hfirst := eq_none_of_overwrite hnone
      simp [overwrite] at hfirst
    · exact ih hk

/-- What is read once some keys have been deleted. -/
def remove [DecidableEq κ] (m : κ → Option ν) (ks : List κ) (k : κ) : Option ν :=
  if k ∈ ks then none else m k

theorem remove_append [DecidableEq κ] (m : κ → Option ν) (ks ks' : List κ) :
    remove m (ks ++ ks') = remove (remove m ks) ks' := by
  funext k
  simp only [remove, List.mem_append]
  split_ifs <;> tauto

/-- Deleting new keys takes back what was written under them. -/
theorem remove_overwrite [DecidableEq κ] {m : κ → Option ν} {l : List (κ × ν)}
    (hnew : ∀ k ∈ l.map Prod.fst, m k = none) : remove (overwrite m l) (l.map Prod.fst) = m := by
  funext k
  rw [remove]
  split_ifs with hk
  · exact (hnew k hk).symm
  · exact overwrite_of_notMem hk

/-- A store that shows the values that are written in another form. -/
structure StoresAs [DecidableEq κ] (e : ν → ω) (read : σ → κ → Option ω) (write : σ → κ → ν → σ)
    (erase : σ → κ → σ) : Prop where
  read_write : ∀ s k v a, read (write s k v) a = if k = a then some (e v) else read s a
  read_erase : ∀ s k a, read (erase s k) a = if k = a then none else read s a

theorem IsStore.storesAs [DecidableEq κ] {read : σ → κ → Option ν} {write : σ → κ → ν → σ}
    {erase : σ → κ → σ} (h : IsStore read write erase) : StoresAs id read write erase :=
  ⟨h.read_write, h.read_erase⟩

namespace StoresAs

variable [DecidableEq κ] {e : ν → ω} {read : σ → κ → Option ω} {write : σ → κ → ν → σ}
  {erase : σ → κ → σ} {s : σ}

theorem read_foldl_erase (h : StoresAs e read write erase) (l : List κ) (a : κ) :
    read (l.foldl erase s) a = if a ∈ l then none else read s a := by
  induction l generalizing s with
  | nil => rw [if_neg List.not_mem_nil]; rfl
  | cons k l ih =>
    rw [List.foldl_cons, ih, h.read_erase]
    simp only [List.mem_cons]
    by_cases hk : k = a
    · simp [hk]
    · simp [hk, Ne.symm hk]

theorem read_foldl_write (h : StoresAs e read write erase) {l : List (κ × ν)} {a : κ}
    (hnot : a ∉ l.map Prod.fst) :
    read (l.foldl (fun s p => write s p.1 p.2) s) a = read s a := by
  induction l generalizing s with
  | nil => rfl
  | cons p l ih =>
    rw [List.map_cons, List.mem_cons, not_or] at hnot
    rw [List.foldl_cons, ih hnot.2, h.read_write, if_neg (Ne.symm hnot.1)]

theorem read_foldl_write_of_mem (h : StoresAs e read write erase) {l : List (κ × ν)}
    (hnodup : (l.map Prod.fst).Nodup) {a : κ} {v : ν} (hmem : (a, v) ∈ l) :
    read (l.foldl (fun s p => write s p.1 p.2) s) a = some (e v) := by
  induction l generalizing s with
  | nil => exact absurd hmem List.not_mem_nil
  | cons p l ih =>
    rw [List.map_cons, List.nodup_cons] at hnodup
    rw [List.foldl_cons]
    rcases List.mem_cons.mp hmem with rfl | hmem
    · rw [h.read_foldl_write hnodup.1, h.read_write, if_pos rfl]
    · exact ih hnodup.2 hmem

end StoresAs

variable [Ord κ] [TransOrd κ]

/-- The writes and deletes of a transaction. No key is both. -/
structure Transaction (κ ν : Type*) [Ord κ] [TransOrd κ] where
  writes : ExtTreeMap κ ν := ∅
  deletes : ExtTreeSet κ := ∅
  disjoint : ∀ k : κ, k ∈ deletes → writes[k]? = none := by simp

namespace Transaction

/-- What is read through a transaction, from what the store below has. -/
def read (parent : κ → Option ν) (t : Transaction κ ν) (k : κ) : Option ν :=
  if k ∈ t.deletes then none
  else
    match t.writes[k]? with
    | some v => some v
    | none => parent k

/-- What is read through a transaction from a store that shows the values in another form. -/
def readAs (e : ν → ω) (parent : κ → Option ω) (t : Transaction κ ν) (k : κ) : Option ω :=
  if k ∈ t.deletes then none
  else
    match t.writes[k]? with
    | some v => some (e v)
    | none => parent k

def isClean (t : Transaction κ ν) : Bool := t.deletes.isEmpty && t.writes.isEmpty

def clear : Transaction κ ν := {}

/-- The deletes and then the writes go to the store below. -/
def commit (write : σ → κ → ν → σ) (erase : σ → κ → σ) (t : Transaction κ ν) (below : σ) : σ :=
  t.writes.toList.foldl (fun s p => write s p.1 p.2) (t.deletes.toList.foldl erase below)

@[simp]
theorem read_clear (parent : κ → Option ν) (k : κ) :
    read parent (clear : Transaction κ ν) k = parent k := by
  rw [read, clear, if_neg (by simp)]
  simp

variable [LawfulEqOrd κ]

def write (t : Transaction κ ν) (k : κ) (v : ν) : Transaction κ ν where
  writes := t.writes.insert k v
  deletes := t.deletes.erase k
  disjoint a ha := by
    classical
    rw [mem_set_erase] at ha
    rw [getElem?_insert, if_neg ha.1]
    exact t.disjoint a ha.2

def erase (t : Transaction κ ν) (k : κ) : Transaction κ ν where
  writes := t.writes.erase k
  deletes := t.deletes.insert k
  disjoint a ha := by
    classical
    rw [mem_set_insert] at ha
    rw [getElem?_erase]
    split_ifs with hk
    · rfl
    · exact t.disjoint a (ha.resolve_left hk)

variable [DecidableEq κ] {parent : κ → Option ν} {t : Transaction κ ν}

theorem read_write (k : κ) (v : ν) (a : κ) :
    read parent (t.write k v) a = if k = a then some v else read parent t a := by
  rw [read, write]
  simp only [mem_set_erase, getElem?_insert]
  by_cases hk : k = a
  · simp [hk]
  · simp [hk, read]

theorem read_erase (k a : κ) :
    read parent (t.erase k) a = if k = a then none else read parent t a := by
  rw [read, erase]
  simp only [mem_set_insert, getElem?_erase]
  by_cases hk : k = a
  · simp [hk]
  · simp [hk, read]

theorem storesAs (e : ν → ω) (parent : κ → Option ω) :
    StoresAs e (fun (t : Transaction κ ν) k => readAs e parent t k) write erase where
  read_write t k v a := by
    simp only [readAs, write, mem_set_erase, getElem?_insert]
    by_cases hk : k = a
    · simp [hk]
    · simp [hk]
  read_erase t k a := by
    simp only [readAs, erase, mem_set_insert, getElem?_erase]
    by_cases hk : k = a
    · simp [hk]
    · simp [hk]

/-- A transaction is a store for the transactions above it. -/
theorem isStore (parent : κ → Option ν) : IsStore (read parent) write erase where
  read_write _ k v a := read_write k v a
  read_erase _ k a := read_erase k a

end Transaction

variable [LawfulEqOrd κ] [DecidableEq κ]

theorem isStore_extTreeMap :
    IsStore (fun (m : ExtTreeMap κ ν) (k : κ) => m[k]?) (fun m k v => m.insert k v)
      fun m k => m.erase k where
  read_write m k v a := getElem?_insert m k a v
  read_erase m k a := getElem?_erase m k a

/-- What was read through the transaction is read from the store once it is committed. -/
theorem StoresAs.read_commit {e : ν → ω} {read : σ → κ → Option ω} {write : σ → κ → ν → σ}
    {erase : σ → κ → σ} {s : σ} (h : StoresAs e read write erase) (t : Transaction κ ν) (k : κ) :
    read (t.commit write erase s) k = t.readAs e (read s) k := by
  have hkeys : (t.writes.toList.map Prod.fst).Nodup := by
    rw [ExtTreeMap.map_fst_toList_eq_keys]
    exact ExtTreeMap.nodup_keys
  rw [Transaction.commit, Transaction.readAs]
  cases hwrite : t.writes[k]? with
  | some v =>
    have hdelete : k ∉ t.deletes := by
      intro hk
      rw [t.disjoint k hk] at hwrite
      contradiction
    rw [if_neg hdelete]
    exact h.read_foldl_write_of_mem hkeys (ExtTreeMap.mem_toList_iff_getElem?_eq_some.mpr hwrite)
  | none =>
    have hnot : k ∉ t.writes.toList.map Prod.fst := by
      rw [ExtTreeMap.map_fst_toList_eq_keys, ExtTreeMap.mem_keys, notMem_iff]
      exact hwrite
    rw [h.read_foldl_write hnot, h.read_foldl_erase]
    simp only [ExtTreeSet.mem_toList]

variable {read : σ → κ → Option ν} {write : σ → κ → ν → σ} {erase : σ → κ → σ} {s : σ}

theorem IsStore.read_commit (h : IsStore read write erase) (t : Transaction κ ν) (k : κ) :
    read (t.commit write erase s) k = t.read (read s) k :=
  h.storesAs.read_commit t k

end Overlay
