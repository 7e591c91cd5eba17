import BabaChain.Lib.LruOrder
import BabaChain.Lib.Runs

/-! `unordered_lru_cache`: a map of bounded size that keeps what was used most recently. -/
namespace BabaChain.UnorderedLruCache
open LruCache Runs

variable {Key Value : Type*} [DecidableEq Key]

/-- The constructor. A threshold of zero stands for twice the size. -/
def create (maxSize truncateThreshold : ℕ) : Cache Key Value where
  maxSize := maxSize
  truncateThreshold := if truncateThreshold = 0 then maxSize*2 else truncateThreshold

def clear (c : Cache Key Value) : Cache Key Value := {c with cacheMap := []}

inductive Op (Key Value : Type*)
  | insert (key : Key) (value : Value)
  | emplace (key : Key) (value : Value)
  | get (key : Key)
  | keyExists (key : Key)
  | erase (key : Key)
  | clear

inductive Answer (Value : Type*)
  | done
  | value (value : Option Value)
  | found (found : Bool)
deriving DecidableEq

/-- `exists` and a hit of `get` stamp the entry that they find. -/
def step (c : Cache Key Value) : Op Key Value → Answer Value × Cache Key Value
  | .insert key value => (.done, LruCache.insert c key value)
  | .emplace key value => (.done, LruCache.insert c key value)
  | .get key => (.value (LruCache.get c key).1, (LruCache.get c key).2)
  | .keyExists key => (.found (LruCache.get c key).1.isSome, (LruCache.get c key).2)
  | .erase key => (.done, LruCache.erase c key)
  | .clear => (.done, UnorderedLruCache.clear c)

/-! ### Recency -/

/-- The keys in the order in which they were used, the last one first. A key that is inserted, or
found by `get` or `exists`, comes first; a list that has grown past `truncateThreshold` keeps its
first `maxSize` keys. -/
def recentStep (maxSize truncateThreshold : ℕ) (l : List (Key × Value)) :
    Op Key Value → Answer Value × List (Key × Value)
  | .insert key value => (.done, cut maxSize truncateThreshold (use key value l))
  | .emplace key value => (.done, cut maxSize truncateThreshold (use key value l))
  | .get key => (.value (LruCache.find key l).1, (LruCache.find key l).2)
  | .keyExists key => (.found (LruCache.find key l).1.isSome, (LruCache.find key l).2)
  | .erase key => (.done, l.filter fun p => p.1 ≠ key)
  | .clear => (.done, [])

/-- The value of a key after one more operation. -/
def lastStep (key : Key) (value : Option Value) : Op Key Value → Option Value
  | .insert k v => if k = key then some v else value
  | .emplace k v => if k = key then some v else value
  | .erase k => if k = key then none else value
  | .clear => none
  | .get _ => value
  | .keyExists _ => value

/-- The value that a key was given last, unless it was erased since. -/
def lastInserted (key : Key) (ops : List (Op Key Value)) : Option Value :=
  ops.foldl (lastStep key) none

variable {maxSize truncateThreshold : ℕ} {c : Cache Key Value} {l : List (Key × Value)}
  {past : List (Op Key Value)}

/-- The cache with what was done before: it shows the list of recent keys, holds nothing but what
was inserted last, and is no larger than allowed. -/
structure Tracks (maxSize truncateThreshold : ℕ) (past : List (Op Key Value)) (c : Cache Key Value)
    (l : List (Key × Value)) : Prop where
  shows : Shows c l
  size_eq : c.maxSize = maxSize
  threshold_eq : c.truncateThreshold = truncateThreshold
  last : Holds (fun key value => lastInserted key past = some value) c
  length_le : l.length ≤ truncateThreshold

theorem lastInserted_append (key : Key) (past : List (Op Key Value)) (op : Op Key Value) :
    lastInserted key (past ++ [op]) = lastStep key (lastInserted key past) op := by
  rw [lastInserted, List.foldl_append]
  rfl

theorem tracks_create (h : maxSize ≤ truncateThreshold) :
    Tracks maxSize truncateThreshold [] (create maxSize truncateThreshold : Cache Key Value) [] := by
  have hthreshold : (if truncateThreshold = 0 then maxSize*2 else truncateThreshold) =
      truncateThreshold := by
    split_ifs with hzero
    · omega
    · rfl
  refine ⟨shows_of_nil ⟨fun e he => absurd he List.not_mem_nil, List.nodup_nil, ?_⟩ rfl, rfl,
    hthreshold, fun e he => absurd he List.not_mem_nil, Nat.zero_le _⟩
  exact h.trans_eq hthreshold.symm

omit [DecidableEq Key] in
theorem length_cut_le (h : maxSize ≤ truncateThreshold) (l : List (Key × Value)) :
    (cut maxSize truncateThreshold l).length ≤ truncateThreshold := by
  unfold cut
  split_ifs with hlength
  · exact hlength
  · rw [List.length_take]
    exact (min_le_left _ _).trans h

theorem Tracks.insert (h : Tracks maxSize truncateThreshold past c l) (key : Key) (value : Value)
    {op : Op Key Value} (hop : op = .insert key value ∨ op = .emplace key value) :
    Tracks maxSize truncateThreshold (past ++ [op]) (LruCache.insert c key value)
      (cut maxSize truncateThreshold (use key value l)) := by
  have hsize : maxSize ≤ truncateThreshold := by
    rw [← h.size_eq, ← h.threshold_eq]
    exact h.shows.stamped.size
  have hlast (k : Key) : lastInserted k (past ++ [op]) =
      if key = k then some value else lastInserted k past := by
    rcases hop with rfl | rfl <;> exact lastInserted_append k past _
  have hshows := h.shows.insert key value
  rw [h.size_eq, h.threshold_eq] at hshows
  refine ⟨hshows, (maxSize_truncate _).trans h.size_eq, (threshold_truncate _).trans h.threshold_eq,
    ?_, length_cut_le hsize _⟩
  refine h.last.insert_of (fun k v hv hne => ?_) ?_
  · rw [hlast, if_neg fun heq => hne heq.symm]
    exact hv
  · rw [hlast, if_pos rfl]

theorem Tracks.find (h : Tracks maxSize truncateThreshold past c l) (key : Key)
    {op : Op Key Value} (hop : op = .get key ∨ op = .keyExists key) :
    (LruCache.get c key).1 = (LruCache.find key l).1 ∧
      Tracks maxSize truncateThreshold (past ++ [op]) (LruCache.get c key).2 (LruCache.find key l).2 := by
  have hlast (k : Key) : lastInserted k (past ++ [op]) = lastInserted k past := by
    rcases hop with rfl | rfl <;> exact lastInserted_append k past _
  have hsame : (LruCache.get c key).2.maxSize = c.maxSize ∧
      (LruCache.get c key).2.truncateThreshold = c.truncateThreshold := by
    unfold LruCache.get
    split <;> exact ⟨rfl, rfl⟩
  have hnodup : (l.map Prod.fst).Nodup := by
    refine (h.shows.perm.map Prod.fst).nodup_iff.mp ?_
    rw [List.map_map]
    exact h.shows.stamped.nodup
  obtain ⟨hanswer, hshows⟩ := h.shows.get key
  have hlength : (LruCache.find key l).2.length = l.length := length_find hnodup
  have hstate := h.last.get_state key
  exact ⟨hanswer, hshows, hsame.1.trans h.size_eq, hsame.2.trans h.threshold_eq,
    hstate.mono fun k v hv => (hlast k).trans hv, hlength.trans_le h.length_le⟩

/-- One operation gives the answer of the list, and the cache goes on showing it. -/
theorem Tracks.step (h : Tracks maxSize truncateThreshold past c l) (op : Op Key Value) :
    (step c op).1 = (recentStep maxSize truncateThreshold l op).1 ∧
      Tracks maxSize truncateThreshold (past ++ [op]) (step c op).2
        (recentStep maxSize truncateThreshold l op).2 := by
  cases op with
  | insert key value => exact ⟨rfl, h.insert key value (Or.inl rfl)⟩
  | emplace key value => exact ⟨rfl, h.insert key value (Or.inr rfl)⟩
  | get key =>
    obtain ⟨hanswer, htracks⟩ := h.find key (Or.inl rfl)
    exact ⟨congrArg Answer.value hanswer, htracks⟩
  | keyExists key =>
    obtain ⟨hanswer, htracks⟩ := h.find key (Or.inr rfl)
    exact ⟨congrArg (fun value : Option Value => Answer.found value.isSome) hanswer, htracks⟩
  | erase key =>
    refine ⟨rfl, h.shows.erase key, h.size_eq, h.threshold_eq, ?_,
      (List.length_filter_le _ l).trans h.length_le⟩
    refine (h.last.erase key).mono fun k v hv => ?_
    rw [lastInserted_append]
    exact (if_neg hv.2.symm).trans hv.1
  | clear =>
    have hstamped : Stamped (UnorderedLruCache.clear c) :=
      ⟨fun e he => absurd he List.not_mem_nil, List.nodup_nil, h.shows.stamped.size⟩
    exact ⟨rfl, shows_of_nil hstamped rfl, h.size_eq, h.threshold_eq,
      fun e he => absurd he List.not_mem_nil, Nat.zero_le _⟩

theorem Tracks.run (h : Tracks maxSize truncateThreshold past c l) (ops : List (Op Key Value)) :
    outputs UnorderedLruCache.step c ops = outputs (recentStep maxSize truncateThreshold) l ops ∧
      Tracks maxSize truncateThreshold (past ++ ops) (final UnorderedLruCache.step c ops)
        (final (recentStep maxSize truncateThreshold) l ops) := by
  induction ops generalizing past c l with
  | nil =>
    rw [List.append_nil]
    exact ⟨rfl, h⟩
  | cons op ops ih =>
    obtain ⟨hanswer, hnext⟩ := h.step op
    obtain ⟨hanswers, hend⟩ := ih hnext
    rw [List.append_assoc] at hend
    exact ⟨congrArg₂ List.cons hanswer hanswers, hend⟩

/-- Every sequence of operations is answered as by the list of recent keys, and leaves the entries
of that list: a truncation keeps its first `maxSize` keys. No more than `truncateThreshold` entries
are left by any operation, and a lookup gives nothing but the value that was inserted last. -/
theorem unordered_lru_cache_recent (h : maxSize ≤ truncateThreshold) (ops : List (Op Key Value)) :
    let c : Cache Key Value := final step (create maxSize truncateThreshold) ops
    outputs step (create maxSize truncateThreshold) ops =
        outputs (recentStep maxSize truncateThreshold) [] ops ∧
      (c.cacheMap.map Entry.pair).Perm (final (recentStep maxSize truncateThreshold) [] ops) ∧
      c.cacheMap.length ≤ truncateThreshold ∧
      ∀ key value, (get c key).1 = some value → lastInserted key ops = some value := by
  intro c
  obtain ⟨hanswers, hend⟩ := (tracks_create h).run ops
  refine ⟨hanswers, hend.shows.perm, ?_, fun key value hget => ?_⟩
  · have hlength := hend.shows.perm.length_eq
    rw [List.length_map] at hlength
    exact hlength.trans_le hend.length_le
  · exact hend.last.get_value hget

/-- A third key beyond two puts out the one that was not asked for. -/
theorem unordered_lru_cache_recent_three :
    let ops : List (Op ℕ ℕ) := [.insert 1 10, .insert 2 20, .get 1, .insert 3 30]
    ((final step (create 2 2) ops).cacheMap.map Entry.pair).Perm [(3, 30), (1, 10)] := by
  have h := @unordered_lru_cache_recent ℕ ℕ _ 2 2 le_rfl
    [.insert 1 10, .insert 2 20, .get 1, .insert 3 30]
  exact h.2.1

end BabaChain.UnorderedLruCache
