import BabaChain.Lib.LruRecency

/-! A cache that is cut by the stamps of its entries is a list of the keys in the order in which they
were used, cut at the end. -/
namespace LruCache

variable {κ ν : Type*}

def Entry.pair (e : Entry κ ν) : κ × ν := (e.key, e.value)

/-- What a list in the order of use becomes when it has grown past its threshold. -/
def cut (maxSize truncateThreshold : ℕ) (l : List (κ × ν)) : List (κ × ν) :=
  if l.length ≤ truncateThreshold then l else l.take maxSize

/-- The entries by their stamps, the last one first. -/
structure Ordered (c : Cache κ ν) (es : List (Entry κ ν)) : Prop where
  mem_iff : ∀ e, e ∈ es ↔ e ∈ c.cacheMap
  order : es.Pairwise fun e f => f.lastAccess < e.lastAccess

/-- The list has the keys and values of the cache in the order of use. -/
structure Shows (c : Cache κ ν) (l : List (κ × ν)) : Prop where
  stamped : Stamped c
  ordered : ∃ es, Ordered c es ∧ es.map Entry.pair = l

variable {c : Cache κ ν} {l : List (κ × ν)} {es : List (Entry κ ν)} {key : κ} {value : ν}

theorem Ordered.nodup (h : Ordered c es) : es.Nodup :=
  h.order.imp fun hlt heq => absurd (heq ▸ hlt) (lt_irrefl _)

theorem Ordered.perm (h : Ordered c es) (hs : Stamped c) : es.Perm c.cacheMap :=
  (List.perm_ext_iff_of_nodup h.nodup hs.nodup.of_map).mpr h.mem_iff

theorem Shows.perm (h : Shows c l) : (c.cacheMap.map Entry.pair).Perm l := by
  obtain ⟨es, hes, rfl⟩ := h.ordered
  exact (hes.perm h.stamped).symm.map _

theorem shows_of_nil (hs : Stamped c) (hnil : c.cacheMap = []) : Shows c [] :=
  ⟨hs, [], ⟨fun e => by rw [hnil], List.Pairwise.nil⟩, rfl⟩

theorem Ordered.keys_nodup (h : Ordered c es) (hs : Stamped c) : (es.map Entry.key).Nodup :=
  ((h.perm hs).map Entry.key).nodup_iff.mpr hs.nodup

/-- Sorting by the stamps gives the list back. -/
theorem Ordered.mergeSort_eq (h : Ordered c es) (hs : Stamped c) :
    (c.cacheMap.mergeSort fun e f => decide (f.lastAccess ≤ e.lastAccess)) = es := by
  let le : Entry κ ν → Entry κ ν → Bool := fun e f => decide (f.lastAccess ≤ e.lastAccess)
  have hsorted : (c.cacheMap.mergeSort le).Pairwise fun e f => le e f = true :=
    List.pairwise_mergeSort (fun a b d hab hbd => by
      rw [decide_eq_true_iff] at hab hbd ⊢
      exact hbd.trans hab) (fun a b => by
      rw [Bool.or_eq_true, decide_eq_true_iff, decide_eq_true_iff]
      exact le_total _ _) c.cacheMap
  have hperm : (c.cacheMap.mergeSort le).Perm es :=
    (List.mergeSort_perm c.cacheMap le).trans (h.perm hs).symm
  refine hperm.eq_of_pairwise (fun e f he hf hef hfe => ?_) hsorted
    (h.order.imp fun hlt => decide_eq_true hlt.le)
  rw [decide_eq_true_iff] at hef hfe
  by_contra hne
  -- two entries of the list have different stamps
  have hboth : e.lastAccess < f.lastAccess ∨ f.lastAccess < e.lastAccess := by
    have hmem := hperm.mem_iff.mp he
    have hpair : es.Pairwise fun a b => a.lastAccess < b.lastAccess ∨ b.lastAccess < a.lastAccess :=
      h.order.imp Or.inr
    have : Std.Symm fun a b : Entry κ ν => a.lastAccess < b.lastAccess ∨ b.lastAccess < a.lastAccess :=
      ⟨fun a b => Or.symm⟩
    exact hpair.forall hmem hf hne
  omega

theorem threshold_truncate (c : Cache κ ν) :
    (truncateIfNeeded c).truncateThreshold = c.truncateThreshold := by
  rw [truncateIfNeeded]
  split
  · rfl
  · rfl

theorem Shows.truncate (h : Shows c l) :
    Shows (truncateIfNeeded c) (cut c.maxSize c.truncateThreshold l) := by
  refine ⟨h.stamped.truncate, ?_⟩
  obtain ⟨es, hes, rfl⟩ := h.ordered
  have hlength : (es.map Entry.pair).length = c.cacheMap.length := by
    rw [List.length_map]
    exact (hes.perm h.stamped).length_eq
  unfold truncateIfNeeded cut
  rw [hlength]
  split
  · exact ⟨es, hes, rfl⟩
  · refine ⟨es.take c.maxSize, ⟨fun e => ?_, hes.order.sublist (List.take_sublist _ _)⟩,
      List.map_take⟩
    dsimp only
    rw [hes.mergeSort_eq h.stamped]

variable [DecidableEq κ]

/-- A key is used, and comes first. -/
def use (key : κ) (value : ν) (l : List (κ × ν)) : List (κ × ν) :=
  (key, value) :: l.filter fun p => p.1 ≠ key

/-- What is found for a key, which is used then. -/
def find (key : κ) (l : List (κ × ν)) : Option ν × List (κ × ν) :=
  match l.find? fun p => p.1 = key with
  | none => (none, l)
  | some p => (some p.2, use key p.2 l)

theorem length_find {key : κ} (hnodup : (l.map Prod.fst).Nodup) :
    (find key l).2.length = l.length := by
  unfold find
  cases hfind : l.find? fun p => p.1 = key with
  | none => rfl
  | some p =>
    have hkey : p.1 = key := by simpa using List.find?_some hfind
    have hone : (l.map Prod.fst).count key = 1 :=
      List.count_eq_one_of_mem hnodup (hkey ▸ List.mem_map_of_mem (List.mem_of_find?_eq_some hfind))
    rw [List.count, List.countP_map, List.countP_eq_length_filter] at hone
    have hsplit := List.length_eq_length_filter_add (fun p : κ × ν => p.1 == key) (l := l)
    have hother : (l.filter fun p => p.1 ≠ key) = l.filter fun p => !(p.1 == key) := by
      congr 1
      funext p
      by_cases hp : p.1 = key <;> simp [hp]
    change (l.filter fun p => p.1 ≠ key).length+1 = l.length
    rw [hother, hsplit, Nat.add_comm]
    exact congrArg (· + _) hone.symm

theorem Shows.lookup (h : Shows c l) (key : κ) :
    (lookup c key).map Entry.pair = l.find? fun p => p.1 = key := by
  obtain ⟨es, hes, rfl⟩ := h.ordered
  have hfind : lookup c key = es.find? fun e => e.key = key := by
    have hs : Stamped {c with cacheMap := es} :=
      ⟨fun e he => h.stamped.older e ((hes.mem_iff e).mp he), hes.keys_nodup h.stamped,
        h.stamped.size⟩
    apply Option.ext
    intro e
    change LruCache.lookup c key = some e ↔ LruCache.lookup {c with cacheMap := es} key = some e
    rw [h.stamped.lookup_eq_some, hs.lookup_eq_some]
    exact and_congr_left fun _ => (hes.mem_iff e).symm
  rw [hfind, List.find?_map]
  rfl

/-- The entry of a key gets a new stamp, and perhaps a new value. -/
theorem Shows.stamp (h : Shows c l) {e : Entry κ ν} (he : e ∈ c.cacheMap) (hkey : e.key = key) :
    Shows {c with
      cacheMap := c.cacheMap.map fun e =>
        if e.key = key then ⟨key, value, c.accessCounter⟩ else e
      accessCounter := c.accessCounter+1} (use key value l) := by
  let new : Entry κ ν := ⟨key, value, c.accessCounter⟩
  let f : Entry κ ν → Entry κ ν := fun e => if e.key = key then new else e
  have hsame : ∀ d, (f d).key = d.key := by
    intro d
    dsimp only [f]
    split_ifs with hd
    · exact hd.symm
    · rfl
  refine ⟨⟨fun d hd => ?_, ?_, h.stamped.size⟩, ?_⟩
  · obtain ⟨d₀, hd₀, rfl⟩ := List.mem_map.mp hd
    split_ifs
    · exact Nat.lt_succ_self _
    · exact Nat.lt_succ_of_lt (h.stamped.older d₀ hd₀)
  · have hkeys : (c.cacheMap.map f).map Entry.key = c.cacheMap.map Entry.key := by
      rw [List.map_map]
      exact List.map_congr_left fun d _ => hsame d
    change ((c.cacheMap.map f).map Entry.key).Nodup
    rw [hkeys]
    exact h.stamped.nodup
  · obtain ⟨es, hes, rfl⟩ := h.ordered
    refine ⟨new :: es.filter fun d => d.key ≠ key, ⟨fun d => ?_, ?_⟩, ?_⟩
    · change d ∈ new :: es.filter (fun d => d.key ≠ key) ↔ d ∈ c.cacheMap.map f
      rw [List.mem_cons, List.mem_filter, List.mem_map, decide_eq_true_iff, hes.mem_iff]
      constructor
      · rintro (rfl | ⟨hd, hne⟩)
        · exact ⟨e, he, if_pos hkey⟩
        · exact ⟨d, hd, if_neg hne⟩
      · rintro ⟨d, hd, rfl⟩
        by_cases hd' : d.key = key
        · exact Or.inl (if_pos hd')
        · have hf : f d = d := if_neg hd'
          rw [hf]
          exact Or.inr ⟨hd, hd'⟩
    · refine List.pairwise_cons.mpr ⟨fun d hd => ?_, hes.order.filter _⟩
      exact h.stamped.older d ((hes.mem_iff d).mp (List.mem_of_mem_filter hd))
    · rw [use, List.map_cons, List.filter_map]
      rfl

theorem Shows.grow (h : Shows c l) (hlookup : LruCache.lookup c key = none) (value : ν) :
    Shows (grow c key value) (use key value l) := by
  refine ⟨h.stamped.grow hlookup value, ?_⟩
  obtain ⟨es, hes, rfl⟩ := h.ordered
  have hnew : ∀ p ∈ es.map Entry.pair, p.1 ≠ key := by
    intro p hp
    obtain ⟨e, he, rfl⟩ := List.mem_map.mp hp
    exact ne_of_miss hlookup e ((hes.mem_iff e).mp he)
  refine ⟨⟨key, value, c.accessCounter⟩ :: es, ⟨fun e => ?_, ?_⟩, ?_⟩
  · rw [List.mem_cons, hes.mem_iff]
    exact List.mem_cons.symm
  · exact List.pairwise_cons.mpr
      ⟨fun e he => h.stamped.older e ((hes.mem_iff e).mp he), hes.order⟩
  · have hfilter := List.filter_eq_self.mpr fun p hp => decide_eq_true (hnew p hp)
    rw [use, hfilter]
    rfl

theorem Shows.insert (h : Shows c l) (key : κ) (value : ν) :
    Shows (LruCache.insert c key value) (cut c.maxSize c.truncateThreshold (use key value l)) := by
  unfold LruCache.insert
  cases hlookup : LruCache.lookup c key with
  | none => exact (h.grow hlookup value).truncate
  | some e =>
    obtain ⟨he, hkey⟩ := h.stamped.lookup_eq_some.mp hlookup
    exact (h.stamp he hkey).truncate

theorem Shows.get (h : Shows c l) (key : κ) :
    (LruCache.get c key).1 = (find key l).1 ∧ Shows (LruCache.get c key).2 (find key l).2 := by
  have hfind := h.lookup key
  unfold LruCache.get find
  cases hlookup : LruCache.lookup c key with
  | none =>
    rw [hlookup] at hfind
    rw [← hfind]
    exact ⟨rfl, h⟩
  | some e =>
    obtain ⟨he, hkey⟩ := h.stamped.lookup_eq_some.mp hlookup
    rw [hlookup] at hfind
    rw [← hfind]
    refine ⟨rfl, ?_⟩
    have hstamp : (c.cacheMap.map fun d =>
        if d.key = key then {d with lastAccess := c.accessCounter} else d) =
        c.cacheMap.map fun d => if d.key = key then ⟨key, e.value, c.accessCounter⟩ else d := by
      apply List.map_congr_left
      intro d hd
      split_ifs with hd'
      · -- the key has one entry
        have heq := List.inj_on_of_nodup_map h.stamped.nodup hd he (hd'.trans hkey.symm)
        rw [heq, hkey]
      · rfl
    dsimp only [Option.map_some]
    rw [hstamp]
    exact h.stamp he hkey

theorem Shows.erase (h : Shows c l) (key : κ) :
    Shows (LruCache.erase c key) (l.filter fun p => p.1 ≠ key) := by
  refine ⟨h.stamped.erase key, ?_⟩
  obtain ⟨es, hes, rfl⟩ := h.ordered
  refine ⟨es.filter fun e => e.key ≠ key, ⟨fun e => ?_, hes.order.filter _⟩, ?_⟩
  · rw [List.mem_filter, hes.mem_iff, LruCache.erase, List.mem_filter]
  · rw [List.filter_map]
    rfl

end LruCache
