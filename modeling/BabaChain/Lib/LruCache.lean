import Mathlib.Data.List.Sort
import Mathlib.Tactic

/-! A map that keeps the entries used last: every use stamps an entry with a
growing counter, and a map grown past its threshold is cut to its size. -/
namespace LruCache

structure Entry (κ ν : Type*) where
  key : κ
  value : ν
  lastAccess : ℕ
deriving DecidableEq

structure Cache (κ ν : Type*) where
  cacheMap : List (Entry κ ν) := []
  maxSize : ℕ
  truncateThreshold : ℕ
  accessCounter : ℕ := 0
deriving DecidableEq

variable {κ ν : Type*}

/-- A cache of the given size, cut back when it has grown to twice that. -/
def create (maxSize : ℕ) : Cache κ ν where
  maxSize := maxSize
  truncateThreshold := maxSize*2

def truncateIfNeeded (c : Cache κ ν) : Cache κ ν :=
  if c.cacheMap.length ≤ c.truncateThreshold then
    c
  else
    let sorted := c.cacheMap.mergeSort fun e f => decide (f.lastAccess ≤ e.lastAccess)
    {c with cacheMap := sorted.take c.maxSize}

/-- Every entry meets a condition on its key and value. -/
def Holds (P : κ → ν → Prop) (c : Cache κ ν) : Prop :=
  ∀ e ∈ c.cacheMap, P e.key e.value

variable {P : κ → ν → Prop} {c : Cache κ ν}

theorem holds_create (P : κ → ν → Prop) (maxSize : ℕ) : Holds P (create maxSize) :=
  fun _ he => absurd he List.not_mem_nil

theorem Holds.mono {Q : κ → ν → Prop} (h : Holds P c) (hPQ : ∀ k v, P k v → Q k v) : Holds Q c :=
  fun e he => hPQ e.key e.value (h e he)

theorem Holds.truncate (h : Holds P c) : Holds P (truncateIfNeeded c) := by
  unfold truncateIfNeeded
  split
  · exact h
  · intro e he
    exact h e (List.mem_mergeSort.mp (List.mem_of_mem_take he))

/-- What is left when entries are lost. -/
def keepOnly (c : Cache κ ν) (keep : κ → Bool) : Cache κ ν :=
  {c with cacheMap := c.cacheMap.filter fun e => keep e.key}

theorem Holds.keepOnly (h : Holds P c) (keep : κ → Bool) : Holds P (keepOnly c keep) :=
  fun e he => h e (List.mem_of_mem_filter he)

variable [DecidableEq κ]

def lookup (c : Cache κ ν) (key : κ) : Option (Entry κ ν) :=
  c.cacheMap.find? fun e => e.key = key

def insert (c : Cache κ ν) (key : κ) (value : ν) : Cache κ ν :=
  let entry : Entry κ ν := ⟨key, value, c.accessCounter⟩
  let cacheMap :=
    if (lookup c key).isSome then c.cacheMap.map fun e => if e.key = key then entry else e
    else entry :: c.cacheMap
  truncateIfNeeded {c with cacheMap := cacheMap, accessCounter := c.accessCounter+1}

def erase (c : Cache κ ν) (key : κ) : Cache κ ν :=
  {c with cacheMap := c.cacheMap.filter fun e => e.key ≠ key}

/-- A hit counts as a use. -/
def get (c : Cache κ ν) (key : κ) : Option ν × Cache κ ν :=
  match lookup c key with
  | none => (none, c)
  | some entry =>
    (some entry.value, {c with
      cacheMap := c.cacheMap.map fun e =>
        if e.key = key then {e with lastAccess := c.accessCounter} else e
      accessCounter := c.accessCounter+1})

/-- Inserting replaces what the key had: the entries of the other keys may go by
another condition from now on. -/
theorem Holds.insert_of {Q : κ → ν → Prop} (h : Holds P c) {key : κ} {value : ν}
    (hQ : ∀ k v, P k v → k ≠ key → Q k v) (hv : Q key value) : Holds Q (insert c key value) := by
  apply Holds.truncate
  intro e he
  dsimp only at he
  split at he
  · obtain ⟨f, hf, rfl⟩ := List.mem_map.mp he
    split_ifs with hkey
    · exact hv
    · exact hQ f.key f.value (h f hf) hkey
  · rename_i hnone
    rcases List.mem_cons.mp he with rfl | he
    · exact hv
    · refine hQ e.key e.value (h e he) fun hkey => hnone ?_
      rw [lookup, List.find?_isSome]
      exact ⟨e, he, decide_eq_true hkey⟩

theorem Holds.insert (h : Holds P c) {key : κ} {value : ν} (hv : P key value) :
    Holds P (insert c key value) :=
  h.insert_of (fun _ _ hP _ => hP) hv

theorem Holds.insertAll (h : Holds P c) (value : ν) (keys : List κ) :
    Holds (fun k v => P k v ∧ k ∉ keys ∨ v = value ∧ k ∈ keys)
      (keys.foldl (fun c k => LruCache.insert c k value) c) := by
  induction keys generalizing P c with
  | nil => exact h.mono fun k v hP => Or.inl ⟨hP, List.not_mem_nil⟩
  | cons key keys ih =>
    have hone : Holds (fun k v => P k v ∧ k ≠ key ∨ v = value ∧ k = key)
        (LruCache.insert c key value) :=
      h.insert_of (fun _ _ hP hne => Or.inl ⟨hP, hne⟩) (Or.inr ⟨rfl, rfl⟩)
    refine (ih hone).mono fun k v hkv => ?_
    rw [List.mem_cons]
    tauto

theorem Holds.erase (h : Holds P c) (key : κ) :
    Holds (fun k v => P k v ∧ k ≠ key) (erase c key) := by
  intro e he
  obtain ⟨hmem, hne⟩ := List.mem_filter.mp he
  exact ⟨h e hmem, of_decide_eq_true hne⟩

theorem Holds.eraseAll (h : Holds P c) (keys : List κ) :
    Holds (fun k v => P k v ∧ k ∉ keys) (keys.foldl (fun c k => LruCache.erase c k) c) := by
  induction keys generalizing P c with
  | nil => exact h.mono fun k v hP => ⟨hP, List.not_mem_nil⟩
  | cons key keys ih =>
    refine (ih (h.erase key)).mono fun k v hkv => ?_
    rw [List.mem_cons, not_or]
    exact ⟨hkv.1.1, hkv.1.2, hkv.2⟩

theorem Holds.get_state (h : Holds P c) (key : κ) : Holds P (get c key).2 := by
  unfold get
  split
  · exact h
  · intro e he
    obtain ⟨f, hf, rfl⟩ := List.mem_map.mp he
    split
    · exact h f hf
    · exact h f hf

/-- What a hit returns meets the condition: eviction loses entries, it never
changes one. -/
theorem Holds.get_value (h : Holds P c) {key : κ} {value : ν} (hg : (get c key).1 = some value) :
    P key value := by
  unfold get at hg
  cases hl : lookup c key with
  | none =>
    rw [hl] at hg
    contradiction
  | some entry =>
    rw [hl, Option.some.injEq] at hg
    have hk := List.find?_some hl
    have hm := h entry (List.mem_of_find?_eq_some hl)
    rw [decide_eq_true_iff] at hk
    rw [hk, hg] at hm
    exact hm

theorem get_insert_create {maxSize : ℕ} (hpos : 0 < maxSize) (key : κ) (value : ν) :
    (get (LruCache.insert (create maxSize) key value) key).1 = some value := by
  have hinsert : (LruCache.insert (create maxSize) key value).cacheMap = [⟨key, value, 0⟩] := by
    unfold LruCache.insert truncateIfNeeded
    rw [if_pos (by
      change 1 ≤ maxSize*2
      omega)]
    rfl
  have hlookup : lookup (LruCache.insert (create maxSize) key value) key =
      some ⟨key, value, 0⟩ := by
    rw [lookup, hinsert]
    exact List.find?_cons_of_pos (decide_eq_true rfl)
  unfold get
  rw [hlookup]

end LruCache
