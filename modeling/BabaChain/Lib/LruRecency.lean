import BabaChain.Lib.LruCache

/-! Eviction spares the keys that were used last: asked again they are answered as before, whatever
the cache says. -/
namespace LruCache

variable {κ ν : Type*}

/-- Every stamp is older than the counter, and each key has one entry. -/
structure Stamped (c : Cache κ ν) : Prop where
  older : ∀ e ∈ c.cacheMap, e.lastAccess < c.accessCounter
  nodup : (c.cacheMap.map Entry.key).Nodup
  size : c.maxSize ≤ c.truncateThreshold

/-- The keys of a list were used after all others. -/
def UsedLast (ks : List κ) (c : Cache κ ν) : Prop :=
  ∀ e ∈ c.cacheMap, ∀ e' ∈ c.cacheMap, e.key ∈ ks → e'.key ∉ ks → e'.lastAccess < e.lastAccess

variable {c c' : Cache κ ν} {ks : List κ}

theorem stamped_create (maxSize : ℕ) : Stamped (create maxSize : Cache κ ν) where
  older _ he := absurd he List.not_mem_nil
  nodup := List.nodup_nil
  size := Nat.le_mul_of_pos_right maxSize Nat.two_pos

theorem usedLast_nil (c : Cache κ ν) : UsedLast [] c :=
  fun _ _ _ _ hkey => absurd hkey List.not_mem_nil

theorem UsedLast.mono (h : UsedLast ks c) (hsub : c'.cacheMap ⊆ c.cacheMap) : UsedLast ks c' :=
  fun e he e' he' => h e (hsub he) e' (hsub he')

theorem truncate_subset (c : Cache κ ν) : (truncateIfNeeded c).cacheMap ⊆ c.cacheMap := by
  unfold truncateIfNeeded
  split
  · exact List.Subset.refl _
  · exact fun e he => List.mem_mergeSort.mp (List.mem_of_mem_take he)

theorem maxSize_truncate (c : Cache κ ν) : (truncateIfNeeded c).maxSize = c.maxSize := by
  rw [truncateIfNeeded]
  split
  · rfl
  · rfl

theorem Stamped.truncate (h : Stamped c) : Stamped (truncateIfNeeded c) := by
  unfold truncateIfNeeded
  split
  · exact h
  · refine ⟨fun e he => h.older e (List.mem_mergeSort.mp (List.mem_of_mem_take he)), ?_, h.size⟩
    have hsorted : ((c.cacheMap.mergeSort fun e f => decide (f.lastAccess ≤ e.lastAccess)).map
        Entry.key).Nodup :=
      ((List.mergeSort_perm c.cacheMap _).map Entry.key).nodup_iff.mpr h.nodup
    exact hsorted.sublist ((List.take_sublist _ _).map Entry.key)

/-- No more keys than the cache keeps are all spared. -/
theorem Stamped.mem_truncate (h : Stamped c) (hlast : UsedLast ks c) (hks : ks.length ≤ c.maxSize)
    {e : Entry κ ν} (he : e ∈ c.cacheMap) (hkey : e.key ∈ ks) :
    e ∈ (truncateIfNeeded c).cacheMap := by
  unfold truncateIfNeeded
  split
  · exact he
  · rename_i hlength
    let sorted := c.cacheMap.mergeSort fun e f => decide (f.lastAccess ≤ e.lastAccess)
    have hperm : sorted.Perm c.cacheMap := List.mergeSort_perm _ _
    have horder : sorted.Pairwise fun e f => f.lastAccess ≤ e.lastAccess := by
      have hpairwise : sorted.Pairwise fun e f => decide (f.lastAccess ≤ e.lastAccess) = true :=
        List.pairwise_mergeSort (fun a b d hab hbd => by
          rw [decide_eq_true_iff] at hab hbd ⊢
          exact hbd.trans hab) (fun a b => by
          rw [Bool.or_eq_true, decide_eq_true_iff, decide_eq_true_iff]
          exact le_total _ _) c.cacheMap
      exact hpairwise.imp fun hle => of_decide_eq_true hle
    change e ∈ sorted.take c.maxSize
    have hsplit := List.take_append_drop c.maxSize sorted
    rcases List.mem_append.mp (hsplit.symm ▸ hperm.mem_iff.mpr he) with htake | hdrop
    · exact htake
    · -- all that is kept was used no earlier, so the keys of the list are too many
      exfalso
      rw [← hsplit, List.pairwise_append] at horder
      have hkeys : ∀ f ∈ sorted.take c.maxSize, f.key ∈ ks := by
        intro f hf
        by_contra hnot
        have hold := hlast e he f (hperm.mem_iff.mp (List.mem_of_mem_take hf)) hkey hnot
        exact absurd (horder.2.2 f hf e hdrop) (not_le.mpr hold)
      have hnodup : ((e :: sorted.take c.maxSize).map Entry.key).Nodup := by
        have hall : (sorted.map Entry.key).Nodup := (hperm.map Entry.key).nodup_iff.mpr h.nodup
        rw [← hsplit, List.map_append] at hall
        rw [List.map_cons, List.nodup_cons]
        refine ⟨fun hmem => ?_, (List.nodup_append.mp hall).1⟩
        exact (List.nodup_append.mp hall).2.2 _ hmem _ (List.mem_map_of_mem hdrop) rfl
      have hsub : (e :: sorted.take c.maxSize).map Entry.key ⊆ ks := by
        rw [List.map_cons, List.cons_subset]
        refine ⟨hkey, fun k hk => ?_⟩
        obtain ⟨f, hf, rfl⟩ := List.mem_map.mp hk
        exact hkeys f hf
      have hle := (List.subperm_of_subset hnodup hsub).length_le
      have hsorted := hperm.length_eq
      have hsize := h.size
      rw [List.length_map, List.length_cons, List.length_take] at hle
      omega

/-! ### Answers -/

variable [DecidableEq κ]

/-- What is cached for a key, or what is fetched. -/
def answer (c : Cache κ ν) (fetch : κ → ν) (key : κ) : ν :=
  match lookup c key with
  | some entry => entry.value
  | none => fetch key

/-- A miss is fetched and cached. -/
def ask (c : Cache κ ν) (fetch : κ → ν) (key : κ) : ν × Cache κ ν :=
  match get c key with
  | (some value, c) => (value, c)
  | (none, _) => (fetch key, insert c key (fetch key))

variable {fetch : κ → ν} {key : κ}

/-- A cache that holds what is fetched answers what is fetched. -/
theorem Holds.ask (h : Holds (fun k v => v = fetch k) c) (key : κ) :
    (ask c fetch key).1 = fetch key ∧ Holds (fun k v => v = fetch k) (ask c fetch key).2 := by
  unfold LruCache.ask
  rcases hget : get c key with ⟨value, c'⟩
  cases value with
  | none => exact ⟨rfl, h.insert rfl⟩
  | some value =>
    have hstate := h.get_state key
    rw [hget] at hstate
    exact ⟨h.get_value (congrArg Prod.fst hget), hstate⟩

theorem Stamped.lookup_eq_some (h : Stamped c) {e : Entry κ ν} :
    lookup c key = some e ↔ e ∈ c.cacheMap ∧ e.key = key := by
  constructor
  · intro hlookup
    have hkey := List.find?_some hlookup
    exact ⟨List.mem_of_find?_eq_some hlookup, of_decide_eq_true hkey⟩
  · rintro ⟨he, rfl⟩
    cases hfind : lookup c e.key with
    | none =>
      have hnot := List.find?_eq_none.mp hfind e he
      simp at hnot
    | some f =>
      have hkey := List.find?_some hfind
      rw [decide_eq_true_iff] at hkey
      have hf : f ∈ c.cacheMap := List.mem_of_find?_eq_some hfind
      rw [Option.some.injEq]
      exact List.inj_on_of_nodup_map h.nodup hf he hkey

/-- A cache with the same entry for a key answers the same. -/
theorem Stamped.answer_congr (h : Stamped c) (h' : Stamped c')
    (hsame : ∀ e : Entry κ ν, e.key = key → (e ∈ c'.cacheMap ↔ e ∈ c.cacheMap)) :
    answer c' fetch key = answer c fetch key := by
  have hlookup : lookup c' key = lookup c key := by
    apply Option.ext
    intro e
    rw [h'.lookup_eq_some, h.lookup_eq_some]
    exact and_congr_left fun hkey => hsame e hkey
  rw [answer, hlookup]
  rfl

theorem Stamped.erase (h : Stamped c) (key : κ) : Stamped (erase c key) where
  older e he := h.older e (List.mem_of_mem_filter he)
  nodup := h.nodup.sublist (List.filter_sublist.map Entry.key)
  size := h.size

theorem UsedLast.erase (h : UsedLast ks c) (key : κ) : UsedLast ks (erase c key) :=
  h.mono fun _ he => List.mem_of_mem_filter he

theorem Stamped.answer_erase (h : Stamped c) {key' : κ} (hne : key' ≠ key) :
    answer (LruCache.erase c key) fetch key' = answer c fetch key' := by
  refine h.answer_congr (h.erase key) fun e hkey => ?_
  rw [LruCache.erase, List.mem_filter, decide_eq_true_iff, hkey]
  exact and_iff_left hne

theorem answer_erase_self (c : Cache κ ν) (fetch : κ → ν) (key : κ) :
    answer (erase c key) fetch key = fetch key := by
  have hnone : lookup (erase c key) key = none := by
    rw [lookup, List.find?_eq_none]
    intro e he
    have hne := of_decide_eq_true (List.mem_filter.mp he).2
    simpa using hne
  rw [answer, hnone]

/-- The key that is asked for joins those that were used last, and all of them are answered as
before. -/
structure Asked (ks : List κ) (fetch : κ → ν) (c : Cache κ ν) (key : κ) (r : ν × Cache κ ν) :
    Prop where
  value : r.1 = answer c fetch key
  stamped : Stamped r.2
  usedLast : UsedLast ks r.2
  answers : ∀ k ∈ ks, answer r.2 fetch k = answer c fetch k
  maxSize : r.2.maxSize = c.maxSize

theorem Stamped.ask_hit (h : Stamped c) {ks' : List κ} (hlast : UsedLast ks c)
    (hks : ∀ k, k ∈ ks' ↔ k = key ∨ k ∈ ks) {entry : Entry κ ν}
    (hlookup : lookup c key = some entry) : Asked ks' fetch c key (ask c fetch key) := by
  let stamp := fun e : Entry κ ν => if e.key = key then {e with lastAccess := c.accessCounter} else e
  have hask : ask c fetch key = (entry.value, {c with
      cacheMap := c.cacheMap.map stamp, accessCounter := c.accessCounter+1}) := by
    rw [ask, get, hlookup]
  have hkey : ∀ e, (stamp e).key = e.key := fun e => by dsimp only [stamp]; split <;> rfl
  have hvalue : ∀ e, (stamp e).value = e.value := fun e => by dsimp only [stamp]; split <;> rfl
  have hcounter : ∀ e, e.key = key → (stamp e).lastAccess = c.accessCounter :=
    fun e he => by dsimp only [stamp]; rw [if_pos he]
  have hother : ∀ e, e.key ≠ key → stamp e = e := fun e he => if_neg he
  have hstamped : Stamped (ask c fetch key).2 := by
    rw [hask]
    refine ⟨fun e he => ?_, ?_, h.size⟩
    · obtain ⟨f, hf, rfl⟩ := List.mem_map.mp he
      by_cases hsame : f.key = key
      · rw [hcounter f hsame]
        exact Nat.lt_succ_self _
      · rw [hother f hsame]
        exact Nat.lt_succ_of_lt (h.older f hf)
    · have hkeys : (c.cacheMap.map stamp).map Entry.key = c.cacheMap.map Entry.key := by
        rw [List.map_map]
        exact List.map_congr_left fun e _ => hkey e
      dsimp only
      rw [hkeys]
      exact h.nodup
  refine ⟨?_, hstamped, ?_, fun k _ => ?_, by rw [hask]⟩
  · rw [hask, answer, hlookup]
  · rw [hask]
    intro e he e' he' hin hnot
    obtain ⟨f, hf, rfl⟩ := List.mem_map.mp he
    obtain ⟨f', hf', rfl⟩ := List.mem_map.mp he'
    rw [hkey, hks] at hin hnot
    rw [not_or] at hnot
    rw [hother f' hnot.1]
    by_cases hsame : f.key = key
    · rw [hcounter f hsame]
      exact h.older f' hf'
    · rw [hother f hsame]
      exact hlast f hf f' hf' (hin.resolve_left hsame) hnot.2
  · have hmap : lookup (ask c fetch key).2 k = (lookup c k).map stamp := by
      rw [hask, lookup, lookup, List.find?_map]
      congr 2
      funext e
      rw [Function.comp_apply, hkey]
    rw [answer, hmap, answer]
    cases lookup c k with
    | none => rfl
    | some e => exact hvalue e

/-- One more entry. -/
def grow (c : Cache κ ν) (key : κ) (value : ν) : Cache κ ν :=
  {c with
    cacheMap := ⟨key, value, c.accessCounter⟩ :: c.cacheMap
    accessCounter := c.accessCounter+1}

theorem ask_of_miss (fetch : κ → ν) (hlookup : lookup c key = none) :
    ask c fetch key = (fetch key, truncateIfNeeded (grow c key (fetch key))) := by
  rw [ask, get, hlookup]
  dsimp only
  rw [insert, hlookup]
  rfl

theorem ne_of_miss (hlookup : lookup c key = none) : ∀ e ∈ c.cacheMap, e.key ≠ key := by
  intro e he hkey
  have hnot := List.find?_eq_none.mp hlookup e he
  simp [hkey] at hnot

theorem Stamped.grow (h : Stamped c) (hlookup : lookup c key = none) (value : ν) :
    Stamped (grow c key value) := by
  refine ⟨fun e he => ?_, ?_, h.size⟩
  · rcases List.mem_cons.mp he with rfl | he
    · exact Nat.lt_succ_self _
    · exact Nat.lt_succ_of_lt (h.older e he)
  · change (key :: c.cacheMap.map Entry.key).Nodup
    rw [List.nodup_cons]
    refine ⟨fun hmem => ?_, h.nodup⟩
    obtain ⟨e, he, hkey⟩ := List.mem_map.mp hmem
    exact ne_of_miss hlookup e he hkey

theorem Stamped.ask_miss (h : Stamped c) {ks' : List κ} (hlast : UsedLast ks c)
    (hks : ∀ k, k ∈ ks' ↔ k = key ∨ k ∈ ks) (hlength : ks'.length ≤ c.maxSize)
    (hlookup : lookup c key = none) : Asked ks' fetch c key (ask c fetch key) := by
  have hask := ask_of_miss fetch hlookup
  have hnew := ne_of_miss hlookup
  have hgrown := h.grow hlookup (fetch key)
  have hrecent : UsedLast ks' (LruCache.grow c key (fetch key)) := by
    intro e he e' he' hin hnot
    rw [hks, not_or] at hnot
    rcases List.mem_cons.mp he' with rfl | he'
    · exact absurd rfl hnot.1
    · rcases List.mem_cons.mp he with rfl | he
      · exact h.older e' he'
      · exact hlast e he e' he' (((hks e.key).mp hin).resolve_left (hnew e he)) hnot.2
  have hkeep : ∀ e : Entry κ ν, e.key ∈ ks' →
      (e ∈ (truncateIfNeeded (LruCache.grow c key (fetch key))).cacheMap ↔
        e ∈ (LruCache.grow c key (fetch key)).cacheMap) :=
    fun e hin => ⟨fun he => truncate_subset _ he,
      fun he => hgrown.mem_truncate hrecent hlength he hin⟩
  refine ⟨?_, ?_, ?_, fun k hk => ?_, ?_⟩
  · rw [hask, answer, hlookup]
  · rw [hask]
    exact hgrown.truncate
  · rw [hask]
    exact hrecent.mono (truncate_subset _)
  · rw [hask]
    rw [hgrown.answer_congr hgrown.truncate fun e hkey => hkeep e (hkey ▸ hk)]
    by_cases hsame : k = key
    · have hfound : lookup (LruCache.grow c key (fetch key)) k =
          some ⟨key, fetch key, c.accessCounter⟩ :=
        hgrown.lookup_eq_some.mpr ⟨List.mem_cons_self, hsame.symm⟩
      rw [answer, hfound, answer, hsame, hlookup]
    · refine h.answer_congr hgrown fun e hkey => ?_
      change e ∈ (⟨key, fetch key, c.accessCounter⟩ : Entry κ ν) :: c.cacheMap ↔ _
      rw [List.mem_cons]
      refine or_iff_right fun heq => hsame ?_
      rw [← hkey, heq]
  · rw [hask]
    exact maxSize_truncate _

/-- Whatever is asked for, the cache stays in order. -/
theorem Stamped.asked (h : Stamped c) (fetch : κ → ν) (key : κ) :
    Stamped (ask c fetch key).2 ∧ (ask c fetch key).2.maxSize = c.maxSize := by
  cases hlookup : lookup c key with
  | some entry =>
    have hasked : Asked [key] fetch c key (ask c fetch key) :=
      h.ask_hit (usedLast_nil c) (fun k => by simp) hlookup
    exact ⟨hasked.stamped, hasked.maxSize⟩
  | none =>
    rw [ask_of_miss fetch hlookup]
    exact ⟨(h.grow hlookup _).truncate, maxSize_truncate _⟩

/-- No more keys than the cache keeps can be asked for again and again. -/
theorem Stamped.ask (h : Stamped c) {ks' : List κ} (hlast : UsedLast ks c)
    (hks : ∀ k, k ∈ ks' ↔ k = key ∨ k ∈ ks) (hlength : ks'.length ≤ c.maxSize)
    (fetch : κ → ν) : Asked ks' fetch c key (LruCache.ask c fetch key) := by
  cases hlookup : lookup c key with
  | some entry => exact h.ask_hit hlast hks hlookup
  | none => exact h.ask_miss hlast hks hlength hlookup

end LruCache
