import BabaChain.Lib.LruCache

/-! Caches of what a store answers. A store may drop entries that its caches keep, and
from then on an answer is the store's or that of the entries kept. -/
namespace CachedReads
open LruCache

variable {κ ν α : Type*}

/-- What a cache holds is what the store says of the key, or what is kept of it.
`reads` is what a cached value stands for. -/
def Told (reads : ν → Option α) (now kept : κ → Option α) (c : Cache κ ν) : Prop :=
  Holds (fun k v => reads v = now k ∨ reads v = kept k) c

/-- The same, where no key of the cache is one that a batch changes. -/
def Untouched (reads : ν → Option α) (now kept after : κ → Option α) (c : Cache κ ν) : Prop :=
  Holds (fun k v => (reads v = now k ∨ reads v = kept k) ∧ after k = now k) c

/-- Everything the store holds is kept. -/
def Covers (kept now : κ → Option α) : Prop := ∀ k v, now k = some v → kept k = some v

/-- A store that has only lost entries. -/
def Loses (now after : κ → Option α) : Prop := ∀ k, after k = now k ∨ after k = none

/-- What is kept after a change of the store: what the store holds then, nothing where it
has lost an entry, and what was kept elsewhere. -/
def keptAfter (now after kept : κ → Option α) : κ → Option α :=
  fun k => (after k).or (if (now k).isSome then none else kept k)

variable {reads : ν → Option α} {now after kept : κ → Option α} {c : Cache κ ν}

theorem covers_refl (now : κ → Option α) : Covers now now := fun _ _ h => h

theorem loses_refl (now : κ → Option α) : Loses now now := fun _ => Or.inl rfl

theorem covers_keptAfter : Covers (keptAfter now after kept) after := by
  intro k v h
  rw [keptAfter, h, Option.some_or]

theorem keptAfter_of_eq (hkept : Covers kept now) {k : κ} (h : after k = now k) :
    keptAfter now after kept k = kept k := by
  rw [keptAfter, h]
  cases hnow : now k with
  | none => rfl
  | some v => exact (hkept k v hnow).symm

theorem keptAfter_self (hkept : Covers kept now) : keptAfter now now kept = kept :=
  funext fun _ => keptAfter_of_eq hkept rfl

/-- Where nothing more is kept than the store holds, that stays so. -/
theorem keptAfter_now (now after : κ → Option α) : keptAfter now after now = after := by
  funext k
  rw [keptAfter]
  cases now k <;> exact Option.or_none

theorem Covers.of_loses (hkept : Covers kept now) (h : Loses now after) : Covers kept after := by
  intro k v hk
  rcases h k with heq | hnone
  · exact hkept k v (heq ▸ hk)
  · rw [hnone] at hk
    contradiction

/-- What the store loses may stay in the caches as long as it is kept. -/
theorem Told.of_loses (h : Told reads now kept c) (hkept : Covers kept now)
    (hloses : Loses now after) : Told reads after kept c := by
  refine h.mono fun k v hv => ?_
  rcases hloses k with heq | hnone
  · rw [heq]
    exact hv
  · rcases hv with hv | hv
    · cases hnow : now k with
      | none => exact Or.inl (by rw [hv, hnow, hnone])
      | some w => exact Or.inr (by rw [hv, hnow, hkept k w hnow])
    · exact Or.inr hv

theorem Told.untouched (h : Told reads now kept c) : Untouched reads now kept now c :=
  h.mono fun _ _ hv => ⟨hv, rfl⟩

/-- Once the batch is written, the caches are right about what the store holds then. -/
theorem Untouched.told_after (h : Untouched reads now kept after c) (hkept : Covers kept now) :
    Told reads after (keptAfter now after kept) c := by
  refine h.mono fun k v hv => ?_
  rw [keptAfter_of_eq hkept hv.2, hv.2]
  exact hv.1

theorem Loses.remove {p : κ → Prop} [DecidablePred p] {after' : κ → Option α}
    (h : Loses now after) (hafter : ∀ k, after' k = if p k then none else after k) :
    Loses now after' := by
  intro k
  rw [hafter]
  split_ifs
  · exact Or.inr rfl
  · exact h k

variable [DecidableEq κ]

theorem Told.insert (h : Told reads now kept c) {key : κ} {value : ν} (hv : reads value = now key) :
    Told reads now kept (LruCache.insert c key value) :=
  Holds.insert h (Or.inl hv)

theorem Told.get_state (h : Told reads now kept c) (key : κ) :
    Told reads now kept (LruCache.get c key).2 :=
  Holds.get_state h key

theorem Told.get_value (h : Told reads now kept c) {key : κ} {value : ν}
    (hg : (LruCache.get c key).1 = some value) : reads value = now key ∨ reads value = kept key :=
  Holds.get_value h hg

theorem Untouched.insert (h : Untouched reads now kept after c) {key : κ} {value : ν}
    (hv : reads value = now key) (hkey : after key = now key) :
    Untouched reads now kept after (LruCache.insert c key value) :=
  Holds.insert h ⟨Or.inl hv, hkey⟩

/-- An entry that is read and then removed leaves nothing behind. -/
theorem Untouched.insert_erase (h : Untouched reads now kept after c) {key : κ} (value : ν)
    {after' : κ → Option α} (hsame : ∀ k, k ≠ key → after' k = after k) :
    Untouched reads now kept after' (LruCache.erase (LruCache.insert c key value) key) := by
  have hinsert : Holds (fun k v => k ≠ key →
      (reads v = now k ∨ reads v = kept k) ∧ after k = now k) (LruCache.insert c key value) :=
    Holds.insert_of h (fun _ _ hP _ _ => hP) fun hne => absurd rfl hne
  refine (Holds.erase hinsert key).mono fun k v hkv => ?_
  obtain ⟨hv, heq⟩ := hkv.1 hkv.2
  exact ⟨hv, by rw [hsame k hkv.2, heq]⟩

theorem Untouched.eraseAll (h : Untouched reads now kept after c) (keys : List κ)
    {after' : κ → Option α} (hsame : ∀ k, k ∉ keys → after' k = after k) :
    Untouched reads now kept after' (keys.foldl (fun c k => LruCache.erase c k) c) := by
  refine (Holds.eraseAll h keys).mono fun k v hkv => ⟨hkv.1.1, ?_⟩
  rw [hsame k hkv.2, hkv.1.2]

/-- The caches follow what is written under some keys. -/
theorem Told.insertAll (h : Told reads now kept c) (hkept : Covers kept now) (keys : List κ)
    {value : ν} (hv : ∀ k ∈ keys, reads value = after k)
    (hsame : ∀ k, k ∉ keys → after k = now k) :
    Told reads after (keptAfter now after kept) (keys.foldl (fun c k => LruCache.insert c k value) c) := by
  refine (Holds.insertAll h value keys).mono fun k v hkv => ?_
  rcases hkv with ⟨hkv, hout⟩ | ⟨rfl, hin⟩
  · rw [keptAfter_of_eq hkept (hsame k hout), hsame k hout]
    exact hkv
  · exact Or.inl (hv k hin)

end CachedReads
