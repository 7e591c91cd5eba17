import BabaChain.Lib.LinkedIndex
import BabaChain.Lib.OrdMap
import BabaChain.Lib.Refinement

/-! `CacheMap` and `CacheMultiMap`: lists of the items that were added most recently, with maps that
find the nodes of the lists. A node is named by a number that is given once. -/
namespace BabaChain.CacheMaps
open LinkedIndex OrdMap Runs
open Std (ExtTreeMap TransOrd LawfulEqOrd)

/-- What is used after it is gone: a node of the list, or a node of the index. -/
inductive Fault
  | listNode
  | indexNode
deriving DecidableEq

variable {K V ι : Type}

/-- `listItems.erase(it)`. -/
def listErase (items : List (ℕ × ι)) (node : ℕ) : Except Fault (List (ℕ × ι)) :=
  if node ∈ items.map Prod.fst then .ok (items.filter fun q => q.1 ≠ node) else .error .listNode

/-- `*it`. -/
def deref (items : List (ℕ × ι)) (node : ℕ) : Except Fault ι :=
  match items.find? fun q => q.1 = node with
  | some q => .ok q.2
  | none => .error .listNode

/-- The items of a list that is read, in new nodes. -/
def readItems (items : List (ℕ × ι)) : List (ℕ × ι) :=
  (items.map Prod.snd).mapIdx fun i p => (i, p)

/-- A new item in front, for which the oldest has to go where there is no room. -/
def pushFront (nMaxSize : ℕ) (p : ι) (l : List ι) : List ι :=
  p :: if l.length = nMaxSize then l.dropLast else l

/-! ### `CacheMap` -/

section CacheMap
variable [Ord K] [TransOrd K]

structure CacheMap (K V : Type) [Ord K] [TransOrd K] where
  nMaxSize : ℕ
  listItems : List (ℕ × K × V) := []
  mapIndex : ExtTreeMap K ℕ := ∅
  /-- How many nodes there have been. -/
  nodes : ℕ := 0

namespace CacheMap

def pruneLast (c : CacheMap K V) : CacheMap K V :=
  match c.listItems.getLast? with
  | none => c
  | some item =>
    {c with mapIndex := c.mapIndex.erase item.2.1, listItems := c.listItems.dropLast}

def insert (c : CacheMap K V) (key : K) (value : V) : Bool × CacheMap K V :=
  if key ∈ c.mapIndex then (false, c)
  else
    let c := if c.listItems.length = c.nMaxSize then c.pruneLast else c
    (true, {c with
      listItems := (c.nodes, key, value) :: c.listItems
      mapIndex := c.mapIndex.insertIfNew key c.nodes
      nodes := c.nodes+1})

def get (c : CacheMap K V) (key : K) : Except Fault (Option V) :=
  match c.mapIndex[key]? with
  | none => .ok none
  | some node => (fun item => some item.2) <$> deref c.listItems node

def erase (c : CacheMap K V) (key : K) : Except Fault (CacheMap K V) :=
  match c.mapIndex[key]? with
  | none => .ok c
  | some node => do
    let listItems ← listErase c.listItems node
    return {c with listItems := listItems, mapIndex := c.mapIndex.erase key}

def rebuildIndex (items : List (ℕ × K × V)) : ExtTreeMap K ℕ :=
  items.foldl (fun m q => m.insertIfNew q.2.1 q.1) ∅

/-- What is read back from the serialization. -/
def roundTrip (c : CacheMap K V) : CacheMap K V where
  nMaxSize := c.nMaxSize
  listItems := readItems c.listItems
  mapIndex := rebuildIndex (readItems c.listItems)
  nodes := c.listItems.length

inductive Op (K V : Type)
  | insert (key : K) (value : V)
  | get (key : K)
  | erase (key : K)
  | roundTrip

def perform (c : CacheMap K V) : Op K V → Except Fault (CacheMap K V)
  | .insert key value => .ok (c.insert key value).2
  | .get key => (fun _ => c) <$> c.get key
  | .erase key => c.erase key
  | .roundTrip => .ok c.roundTrip

/-- The items alone, the newest first. -/
def recent [DecidableEq K] (nMaxSize : ℕ) (l : List (K × V)) : Op K V → List (K × V)
  | .insert key value =>
    if key ∈ l.map Prod.fst then l else pushFront nMaxSize (key, value) l
  | .get _ => l
  | .erase key => l.filter fun p => p.1 ≠ key
  | .roundTrip => l

end CacheMap
end CacheMap

/-! ### `CacheMultiMap` -/

section CacheMultiMap
variable [Ord K] [TransOrd K] [Ord V] [TransOrd V]

structure CacheMultiMap (K V : Type) [Ord K] [TransOrd K] [Ord V] [TransOrd V] where
  nMaxSize : ℕ
  listItems : List (ℕ × K × V) := []
  mapIndex : ExtTreeMap K (ExtTreeMap V ℕ) := ∅
  /-- How many nodes there have been. -/
  nodes : ℕ := 0

namespace CacheMultiMap

/-- The node of a value in the map of its key. -/
def nodeAt (mapIndex : ExtTreeMap K (ExtTreeMap V ℕ)) (p : K × V) : Option ℕ :=
  mapIndex[p.1]?.bind fun mapIt => mapIt[p.2]?

/-- `mapIt.emplace(value, node)`, in the map of a key. -/
def emplaceIn (mapIndex : ExtTreeMap K (ExtTreeMap V ℕ)) (key : K) (value : V) (node : ℕ) :
    ExtTreeMap K (ExtTreeMap V ℕ) :=
  mapIndex.insert key ((mapIndex[key]?.getD ∅).insertIfNew value node)

/-- `mapIt.erase(value)`, in the map of a key, which goes when it is empty. -/
def eraseIn (mapIndex : ExtTreeMap K (ExtTreeMap V ℕ)) (key : K) (value : V) :
    ExtTreeMap K (ExtTreeMap V ℕ) :=
  match mapIndex[key]? with
  | none => mapIndex
  | some mapIt =>
    if (mapIt.erase value).isEmpty then mapIndex.erase key
    else mapIndex.insert key (mapIt.erase value)

def pruneLast (c : CacheMultiMap K V) : CacheMultiMap K V :=
  match c.listItems.getLast? with
  | none => c
  | some item =>
    { c with
      mapIndex := eraseIn c.mapIndex item.2.1 item.2.2
      listItems := c.listItems.dropLast }

/-- The map of the key is found or made first, and the reference to it is used after the oldest item
was pruned. -/
def insert (c : CacheMultiMap K V) (key : K) (value : V) :
    Except Fault (Bool × CacheMultiMap K V) :=
  let c := if key ∈ c.mapIndex then c else {c with mapIndex := c.mapIndex.insert key ∅}
  if (nodeAt c.mapIndex (key, value)).isSome then .ok (false, c)
  else
    let c := if c.listItems.length = c.nMaxSize then c.pruneLast else c
    if key ∈ c.mapIndex then
      .ok (true, {c with
        listItems := (c.nodes, key, value) :: c.listItems
        mapIndex := emplaceIn c.mapIndex key value c.nodes
        nodes := c.nodes+1})
    else .error .indexNode

/-- `mapIt.begin()` has to be there. -/
def get (c : CacheMultiMap K V) (key : K) : Except Fault (Option V) :=
  match c.mapIndex[key]? with
  | none => .ok none
  | some mapIt =>
    match mapIt.toList.head? with
    | none => .error .indexNode
    | some entry => (fun item => some item.2) <$> deref c.listItems entry.2

def getAll (c : CacheMultiMap K V) (key : K) : Except Fault (List V) :=
  match c.mapIndex[key]? with
  | none => .ok []
  | some mapIt => mapIt.toList.mapM fun entry => Prod.snd <$> deref c.listItems entry.2

def eraseKey (c : CacheMultiMap K V) (key : K) : Except Fault (CacheMultiMap K V) :=
  match c.mapIndex[key]? with
  | none => .ok c
  | some mapIt => do
    let listItems ← mapIt.toList.foldlM (fun items entry => listErase items entry.2) c.listItems
    return {c with listItems := listItems, mapIndex := c.mapIndex.erase key}

def erase (c : CacheMultiMap K V) (key : K) (value : V) : Except Fault (CacheMultiMap K V) :=
  match nodeAt c.mapIndex (key, value) with
  | none => .ok c
  | some node => do
    let listItems ← listErase c.listItems node
    return {c with listItems := listItems, mapIndex := eraseIn c.mapIndex key value}

def rebuildIndex (items : List (ℕ × K × V)) : ExtTreeMap K (ExtTreeMap V ℕ) :=
  items.foldl (fun m q => emplaceIn m q.2.1 q.2.2 q.1) ∅

/-- What is read back from the serialization. -/
def roundTrip (c : CacheMultiMap K V) : CacheMultiMap K V where
  nMaxSize := c.nMaxSize
  listItems := readItems c.listItems
  mapIndex := rebuildIndex (readItems c.listItems)
  nodes := c.listItems.length

inductive Op (K V : Type)
  | insert (key : K) (value : V)
  | get (key : K)
  | getAll (key : K)
  | eraseKey (key : K)
  | erase (key : K) (value : V)
  | roundTrip

def perform (c : CacheMultiMap K V) : Op K V → Except Fault (CacheMultiMap K V)
  | .insert key value => Prod.snd <$> c.insert key value
  | .get key => (fun _ => c) <$> c.get key
  | .getAll key => (fun _ => c) <$> c.getAll key
  | .eraseKey key => c.eraseKey key
  | .erase key value => c.erase key value
  | .roundTrip => .ok c.roundTrip

variable [DecidableEq K] [DecidableEq V]

/-- The items alone, the newest first. -/
def recent (nMaxSize : ℕ) (l : List (K × V)) : Op K V → List (K × V)
  | .insert key value => if (key, value) ∈ l then l else pushFront nMaxSize (key, value) l
  | .get _ => l
  | .getAll _ => l
  | .eraseKey key => l.filter fun p => p.1 ≠ key
  | .erase key value => l.filter fun p => p ≠ (key, value)
  | .roundTrip => l

/-- An insertion does not push out the last item of its own key: the list has room, or the pair is
there already, or the oldest item is of another key, or is not the only one of the key. -/
def Spares (nMaxSize : ℕ) (l : List (K × V)) : Op K V → Prop
  | .insert key value =>
    l.length ≠ nMaxSize ∨ (key, value) ∈ l ∨
      ∀ p ∈ l.getLast?, p.1 = key → ∃ q ∈ l.dropLast, q.1 = key
  | _ => True

end CacheMultiMap
end CacheMultiMap

/-! ### Nodes -/

section Nodes
variable {κ α : Type} [DecidableEq κ] {key : ι → κ} {items : List (ℕ × ι)} {index : κ → Option ℕ}
  {node : ℕ} {p : ι}

omit [DecidableEq κ] in
theorem deref_eq (h : Linked key items index) (hp : (node, p) ∈ items) :
    deref items node = .ok p := by
  unfold deref
  cases hfind : items.find? fun q => q.1 = node with
  | none =>
    have hnone := List.find?_eq_none.mp hfind _ hp
    exact absurd (decide_eq_true rfl) hnone
  | some q =>
    have hnode : q.1 = node := by simpa using List.find?_some hfind
    have heq := List.inj_on_of_nodup_map h.nodup (List.mem_of_find?_eq_some hfind) hp hnode
    rw [heq]

theorem listErase_eq (h : Linked key items index) (hp : (node, p) ∈ items) :
    listErase items node = .ok (items.filter fun q => decide (key q.2 ≠ key p)) := by
  have hmem : node ∈ items.map Prod.fst := List.mem_map_of_mem hp
  rw [listErase, if_pos hmem, h.filter_node hp]

omit [DecidableEq κ] in
/-- Nodes that are erased one by one. -/
theorem foldlM_listErase (entries : List (α × ℕ)) (items : List (ℕ × ι))
    (hmem : ∀ entry ∈ entries, entry.2 ∈ items.map Prod.fst)
    (hnodup : (entries.map Prod.snd).Nodup) :
    entries.foldlM (fun items entry => listErase items entry.2) items =
      .ok (items.filter fun q => decide (q.1 ∉ entries.map Prod.snd)) := by
  induction entries generalizing items with
  | nil =>
    rw [List.map_nil, List.filter_eq_self.mpr fun q _ => decide_eq_true List.not_mem_nil]
    rfl
  | cons entry entries ih =>
    rw [List.map_cons, List.nodup_cons] at hnodup
    rw [List.forall_mem_cons] at hmem
    rw [List.foldlM_cons, listErase, if_pos hmem.1, Checked.ok_bind, ih _ _ hnodup.2,
      List.filter_filter]
    · refine congrArg Except.ok (List.filter_congr fun q _ => ?_)
      simp only [List.map_cons, List.mem_cons, not_or, ne_eq, Bool.and_comm, Bool.decide_and]
    · intro other hother
      obtain ⟨q, hq, hnode⟩ := List.mem_map.mp (hmem.2 other hother)
      have hne : q.1 ≠ entry.2 := by
        intro heq
        apply hnodup.1
        rw [← heq, hnode]
        exact List.mem_map_of_mem hother
      exact List.mem_map.mpr ⟨q, List.mem_filter.mpr ⟨hq, decide_eq_true hne⟩, hnode⟩

theorem map_snd_readItems (items : List (ℕ × ι)) :
    (readItems items).map Prod.snd = items.map Prod.snd := by
  apply List.ext_getElem
  · simp [readItems]
  · intro i hi hi'
    simp [readItems]

theorem map_fst_readItems (items : List (ℕ × ι)) :
    (readItems items).map Prod.fst = List.range items.length := by
  apply List.ext_getElem
  · simp [readItems]
  · intro i hi hi'
    simp [readItems]

/-- The list has the items of `l`, in nodes that the index names and that are older than the
next one. -/
structure Held (key : ι → κ) (n nMaxSize nodes : ℕ) (items : List (ℕ × ι))
    (index : κ → Option ℕ) (l : List ι) : Prop where
  maxSize : nMaxSize = n
  linked : Linked key items index
  older : ∀ q ∈ items, q.1 < nodes
  shown : items.map Prod.snd = l
  bounded : l.length ≤ n

omit [DecidableEq κ] in
theorem held_nil (n : ℕ) (h : ∀ k, index k = none) : Held key n n 0 [] index [] :=
  ⟨rfl, linked_nil h, fun _ hq => absurd hq List.not_mem_nil, rfl, Nat.zero_le n⟩

namespace Held
variable {n nMaxSize nodes : ℕ} {l : List ι} {index' : κ → Option ℕ}
  (h : Held key n nMaxSize nodes items index l)
include h

omit [DecidableEq κ] in
theorem length_eq : items.length = l.length := by
  rw [← h.shown, List.length_map]

omit [DecidableEq κ] in
theorem isSome_iff {k : κ} : (index k).isSome ↔ k ∈ l.map key := by
  rw [Option.isSome_iff_exists, ← h.shown, List.map_map, List.mem_map]
  constructor
  · intro hk
    obtain ⟨node, hnode⟩ := hk
    obtain ⟨p, hp, hkey⟩ := (h.linked.index_iff _ _).mp hnode
    exact ⟨_, hp, hkey⟩
  · intro hk
    obtain ⟨q, hq, hkey⟩ := hk
    exact ⟨q.1, (h.linked.index_iff _ _).mpr ⟨q.2, hq, hkey⟩⟩

omit [DecidableEq κ] in
/-- What a node of the index is for is an item. -/
theorem deref_of_index {k : κ} (hk : index k = some node) :
    ∃ p ∈ l, key p = k ∧ deref items node = .ok p := by
  obtain ⟨p, hp, hkey⟩ := (h.linked.index_iff _ _).mp hk
  refine ⟨p, ?_, hkey, deref_eq h.linked hp⟩
  rw [← h.shown]
  exact List.mem_map_of_mem (f := Prod.snd) hp

/-- The oldest item goes. -/
theorem dropLast (hlast : items.getLast? = some (node, p))
    (hindex : ∀ k, index' k = if key p = k then none else index k) :
    Held key n nMaxSize nodes items.dropLast index' l.dropLast := by
  refine ⟨h.maxSize, h.linked.dropLast hlast hindex, ?_, ?_, ?_⟩
  · exact fun q hq => h.older q (List.dropLast_subset _ hq)
  · rw [List.map_dropLast, h.shown]
  · exact (List.dropLast_sublist l).length_le.trans h.bounded

/-- A new item in front of the others, where there is room. -/
theorem cons (hnone : index (key p) = none) (hroom : l.length < n)
    (hindex : ∀ k, index' k = if key p = k then some nodes else index k) :
    Held key n nMaxSize (nodes+1) ((nodes, p) :: items) index' (p :: l) := by
  have hfresh : nodes ∉ items.map Prod.fst := by
    intro hmem
    obtain ⟨q, hq, hnode⟩ := List.mem_map.mp hmem
    have hlt := h.older q hq
    omega
  refine ⟨h.maxSize, h.linked.cons hfresh hnone hindex, ?_, congrArg _ h.shown, hroom⟩
  intro q hq
  rcases List.mem_cons.mp hq with hq | hq
  · rw [hq]
    exact Nat.lt_succ_self _
  · exact (h.older q hq).trans (Nat.lt_succ_self _)

omit [DecidableEq κ] in
theorem filter (keep : κ → Bool)
    (hindex : ∀ k, index' k = if keep k then index k else none) :
    Held key n nMaxSize nodes (items.filter fun q => keep (key q.2)) index'
      (l.filter fun p => keep (key p)) := by
  refine ⟨h.maxSize, h.linked.filter keep hindex, ?_, ?_, ?_⟩
  · exact fun q hq => h.older q (List.mem_of_mem_filter hq)
  · rw [← h.shown, List.filter_map]
    rfl
  · exact (List.length_filter_le _ l).trans h.bounded

theorem readItems {I : Type} (get : I → κ → Option ℕ) (emplace : I → ℕ × ι → I) {m : I}
    (hm : ∀ k, get m k = none)
    (hget : ∀ m q k, get m (key q.2) = none →
      get (emplace m q) k = if key q.2 = k then some q.1 else get m k) :
    Held key n nMaxSize items.length (readItems items)
      (get ((CacheMaps.readItems items).foldl emplace m)) l := by
  have hsame : (CacheMaps.readItems items).map (fun q => key q.2) =
      items.map fun q => key q.2 := by
    have hmap := congrArg (List.map key) (map_snd_readItems items)
    rwa [List.map_map, List.map_map] at hmap
  refine ⟨h.maxSize, ?_, ?_, (map_snd_readItems items).trans h.shown, h.bounded⟩
  · have hlinked := @linked_foldl _ _ key (CacheMaps.readItems items) _ I get emplace hget [] m
      (linked_nil hm)
    rw [List.append_nil, map_fst_readItems, hsame] at hlinked
    exact hlinked List.nodup_range h.linked.keys_nodup
  · intro q hq
    have hmem : q.1 ∈ (CacheMaps.readItems items).map Prod.fst := List.mem_map_of_mem hq
    rw [map_fst_readItems] at hmem
    exact List.mem_range.mp hmem

end Held
end Nodes

theorem getElem?_insertIfNew [Ord K] [TransOrd K] [LawfulEqOrd K] [DecidableEq K]
    (m : ExtTreeMap K V) {k : K} (hk : m[k]? = none) (v : V) (a : K) :
    (m.insertIfNew k v)[a]? = if k = a then some v else m[a]? := by
  rw [ExtTreeMap.getElem?_insertIfNew]
  simp only [Std.LawfulEqCmp.compare_eq_iff_eq, notMem_iff.mpr hk, not_false_eq_true, and_true]

namespace CacheMap
variable [Ord K] [TransOrd K] {n : ℕ} {c : CacheMap K V} {l : List (K × V)}

/-- The map shows the list. -/
def Keeps (n : ℕ) (c : CacheMap K V) (l : List (K × V)) : Prop :=
  Held Prod.fst n c.nMaxSize c.nodes c.listItems (fun k => c.mapIndex[k]?) l

theorem keeps_empty (n : ℕ) : Keeps n ({nMaxSize := n} : CacheMap K V) [] :=
  held_nil n fun _ => ExtTreeMap.getElem?_empty

namespace Keeps
variable (h : Keeps n c l)
include h

theorem mem_iff {k : K} : k ∈ c.mapIndex ↔ k ∈ l.map Prod.fst := by
  rw [ExtTreeMap.mem_iff_isSome_getElem?]
  exact Held.isSome_iff h

/-- Found is what is held. -/
theorem get (key : K) :
    Checked.Succeeds (c.get key) fun found => ∀ value, found = some value ↔ (key, value) ∈ l := by
  rw [CacheMap.get]
  cases hnode : c.mapIndex[key]? with
  | none =>
    refine Checked.succeeds_ok fun value => iff_of_false (by simp) fun hmem => ?_
    exact notMem_iff.mpr hnode (h.mem_iff.mpr (List.mem_map_of_mem (f := Prod.fst) hmem))
  | some node =>
    obtain ⟨p, hp, hkey, hderef⟩ := Held.deref_of_index h hnode
    dsimp only
    rw [hderef]
    refine Checked.succeeds_ok fun value => ?_
    rw [Option.some_inj]
    constructor
    · intro hvalue
      rwa [← hvalue, ← hkey]
    · intro hmem
      have hkeys : (l.map Prod.fst).Nodup := by
        have hnodup := h.linked.keys_nodup
        rwa [← h.shown, List.map_map]
      have heq := List.inj_on_of_nodup_map hkeys hp hmem hkey
      rw [heq]

variable [LawfulEqOrd K] [DecidableEq K]

theorem pruneLast : Keeps n c.pruneLast l.dropLast := by
  rw [CacheMap.pruneLast]
  cases hlast : c.listItems.getLast? with
  | none =>
    have hnil := List.getLast?_eq_none_iff.mp hlast
    have hl : l = [] := by rw [← h.shown, hnil, List.map_nil]
    rwa [hl, List.dropLast_nil, ← hl]
  | some item => exact Held.dropLast h hlast fun k => getElem?_erase _ _ _

theorem insert (hpos : 1 ≤ n) (key : K) (value : V) :
    Keeps n (c.insert key value).2 (recent n l (.insert key value)) := by
  have hcons {c : CacheMap K V} {l : List (K × V)} (h : Keeps n c l)
      (hkey : key ∉ l.map Prod.fst) (hroom : l.length < n) :
      Keeps n {c with
        listItems := (c.nodes, key, value) :: c.listItems
        mapIndex := c.mapIndex.insertIfNew key c.nodes
        nodes := c.nodes+1} ((key, value) :: l) := by
    have hnone : c.mapIndex[key]? = none := notMem_iff.mp (mt h.mem_iff.mp hkey)
    exact Held.cons h hnone hroom (getElem?_insertIfNew _ hnone _)
  rw [CacheMap.insert, recent]
  by_cases hkey : key ∈ l.map Prod.fst
  · rwa [if_pos (h.mem_iff.mpr hkey), if_pos hkey]
  · rw [if_neg (mt h.mem_iff.mp hkey), if_neg hkey, pushFront, Held.length_eq h, h.maxSize]
    by_cases hfull : l.length = n
    · rw [if_pos hfull, if_pos hfull]
      apply hcons h.pruneLast
      · exact fun hmem => hkey (List.map_subset _ (List.dropLast_subset l) hmem)
      · rw [List.length_dropLast]
        omega
    · rw [if_neg hfull, if_neg hfull]
      exact hcons h hkey (Nat.lt_of_le_of_ne h.bounded hfull)

theorem erase (key : K) :
    Checked.Succeeds (c.erase key) fun c' => Keeps n c' (recent n l (.erase key)) := by
  rw [CacheMap.erase, recent]
  cases hnode : c.mapIndex[key]? with
  | none =>
    have hall : (l.filter fun p => decide (p.1 ≠ key)) = l := by
      refine List.filter_eq_self.mpr fun p hp => decide_eq_true fun hkey => ?_
      have hmem := h.mem_iff.mpr (List.mem_map_of_mem (f := Prod.fst) hp)
      rw [hkey] at hmem
      exact notMem_iff.mpr hnode hmem
    rw [hall]
    exact Checked.succeeds_ok h
  | some node =>
    obtain ⟨p, hp, hkey⟩ := (h.linked.index_iff _ _).mp hnode
    dsimp only
    rw [listErase_eq h.linked hp, hkey]
    apply Checked.succeeds_ok
    apply Held.filter h fun k => decide (k ≠ key)
    intro k
    simp only [getElem?_erase, decide_eq_true_eq, eq_comm (a := k), ne_eq, ite_not]

theorem roundTrip : Keeps n c.roundTrip l :=
  Held.readItems h (fun (m : ExtTreeMap K ℕ compare) k => m[k]?)
    (fun m q => m.insertIfNew q.2.1 q.1) (m := ∅) (fun _ => ExtTreeMap.getElem?_empty)
    fun m q k hk => getElem?_insertIfNew m hk q.1 k

/-- Every operation does what the list does. -/
theorem perform (hpos : 1 ≤ n) (op : Op K V) :
    Checked.Succeeds (c.perform op) fun c' => Keeps n c' (recent n l op) := by
  cases op with
  | insert key value => exact Checked.succeeds_ok (h.insert hpos key value)
  | get key =>
    obtain ⟨found, hfound, -⟩ := h.get key
    rw [CacheMap.perform, hfound]
    exact Checked.succeeds_ok h
  | erase key => exact h.erase key
  | roundTrip => exact Checked.succeeds_ok h.roundTrip

end Keeps
end CacheMap

namespace CacheMultiMap
variable [Ord K] [TransOrd K] [Ord V] [TransOrd V]

section Index
variable {m : ExtTreeMap K (ExtTreeMap V ℕ)} {p : K × V} {k key : K} {value : V} {node : ℕ}

theorem mem_of_nodeAt (h : nodeAt m p = some node) : p.1 ∈ m := by
  obtain ⟨mapIt, hmapIt, -⟩ := Option.bind_eq_some_iff.mp h
  exact OrdMap.mem_iff_exists.mpr ⟨mapIt, hmapIt⟩

theorem exists_of_not_isEmpty {mapIt : ExtTreeMap V ℕ} (h : ¬mapIt.isEmpty = true) :
    ∃ (value : V) (node : ℕ), mapIt[value]? = some node := by
  by_contra hnone
  apply h
  rw [ExtTreeMap.isEmpty_iff, ExtTreeMap.eq_empty_iff_forall_not_mem]
  intro value hmem
  exact hnone ⟨value, OrdMap.mem_iff_exists.mp hmem⟩

/-- The map of a key is not empty. -/
def FilledAt (m : ExtTreeMap K (ExtTreeMap V ℕ)) (k : K) : Prop :=
  k ∈ m → ∃ value node, nodeAt m (k, value) = some node

variable [LawfulEqOrd K]

theorem getElem?_eraseIn_of_ne (hk : key ≠ k) : (eraseIn m key value)[k]? = m[k]? := by
  classical
  unfold eraseIn
  cases hmapIt : m[key]? with
  | none => rfl
  | some mapIt =>
    dsimp only
    split_ifs with hempty
    · rw [getElem?_erase, if_neg hk]
    · rw [getElem?_insert, if_neg hk]

theorem getElem?_emplaceIn_of_ne (hk : key ≠ k) :
    (emplaceIn m key value node)[k]? = m[k]? := by
  classical
  rw [emplaceIn, getElem?_insert, if_neg hk]

variable [LawfulEqOrd V]

theorem nodeAt_emplaceIn [DecidableEq K] [DecidableEq V] (hnone : nodeAt m (key, value) = none)
    (p : K × V) :
    nodeAt (emplaceIn m key value node) p = if (key, value) = p then some node else nodeAt m p := by
  have hin : (m[key]?.getD ∅)[value]? = none := by
    cases hmapIt : m[key]? with
    | none => exact ExtTreeMap.getElem?_empty
    | some mapIt =>
      rw [nodeAt, hmapIt] at hnone
      exact hnone
  by_cases hk : key = p.1
  · have hpair : (key, value) = p ↔ value = p.2 := by
      rw [Prod.ext_iff]
      exact and_iff_right hk
    rw [nodeAt, emplaceIn, getElem?_insert, if_pos hk, Option.bind_some,
      getElem?_insertIfNew _ hin]
    simp only [hpair]
    split_ifs with hv
    · rfl
    · rw [nodeAt, ← hk]
      cases m[key]? with
      | none => exact ExtTreeMap.getElem?_empty
      | some mapIt => rfl
  · have hpair : (key, value) ≠ p := fun heq => hk (congrArg Prod.fst heq)
    rw [nodeAt, getElem?_emplaceIn_of_ne hk, if_neg hpair, nodeAt]

theorem nodeAt_eraseIn [DecidableEq K] [DecidableEq V] (p : K × V) :
    nodeAt (eraseIn m key value) p = if (key, value) = p then none else nodeAt m p := by
  by_cases hk : key = p.1
  · have hpair : (key, value) = p ↔ value = p.2 := by
      rw [Prod.ext_iff]
      exact and_iff_right hk
    simp only [hpair, nodeAt, eraseIn, ← hk]
    cases hmapIt : m[key]? with
    | none =>
      dsimp only
      rw [hmapIt, Option.bind_none, ite_self]
    | some mapIt =>
      dsimp only
      rw [Option.bind_some, ← getElem?_erase]
      split_ifs with hempty
      · rw [getElem?_erase, if_pos rfl, ExtTreeMap.isEmpty_iff.mp hempty]
        exact ExtTreeMap.getElem?_empty.symm
      · rw [getElem?_insert, if_pos rfl, Option.bind_some]
  · have hpair : (key, value) ≠ p := fun heq => hk (congrArg Prod.fst heq)
    rw [nodeAt, getElem?_eraseIn_of_ne hk, if_neg hpair, nodeAt]

omit [LawfulEqOrd V] in
theorem filledAt_eraseIn (h : key ≠ k → FilledAt m k) : FilledAt (eraseIn m key value) k := by
  classical
  intro hmem
  by_cases hk : key = k
  · subst hk
    unfold eraseIn at hmem ⊢
    cases hmapIt : m[key]? with
    | none =>
      rw [hmapIt] at hmem
      exact absurd hmem (notMem_iff.mpr hmapIt)
    | some mapIt =>
      rw [hmapIt] at hmem
      dsimp only at hmem ⊢
      split_ifs at hmem ⊢ with hempty
      · exact absurd hmem (notMem_iff.mpr ((getElem?_erase _ _ _).trans (if_pos rfl)))
      · obtain ⟨v, node, hnode⟩ := exists_of_not_isEmpty hempty
        refine ⟨v, node, ?_⟩
        rw [nodeAt, getElem?_insert, if_pos rfl]
        exact hnode
  · rw [OrdMap.mem_iff_exists, getElem?_eraseIn_of_ne hk, ← OrdMap.mem_iff_exists] at hmem
    obtain ⟨v, node, hnode⟩ := h hk hmem
    refine ⟨v, node, ?_⟩
    rw [nodeAt, getElem?_eraseIn_of_ne hk]
    exact hnode

omit [LawfulEqOrd V] in
theorem filledAt_emplaceIn (h : key ≠ k → FilledAt m k) :
    FilledAt (emplaceIn m key value node) k := by
  classical
  intro hmem
  by_cases hk : key = k
  · have hin : value ∈ (m[key]?.getD ∅).insertIfNew value node := ExtTreeMap.mem_insertIfNew_self
    obtain ⟨node', hnode⟩ := OrdMap.mem_iff_exists.mp hin
    refine ⟨value, node', ?_⟩
    rw [nodeAt, emplaceIn, getElem?_insert, if_pos hk]
    exact hnode
  · rw [OrdMap.mem_iff_exists, getElem?_emplaceIn_of_ne hk, ← OrdMap.mem_iff_exists] at hmem
    obtain ⟨v, node', hnode⟩ := h hk hmem
    refine ⟨v, node', ?_⟩
    rw [nodeAt, getElem?_emplaceIn_of_ne hk]
    exact hnode

end Index

variable {n : ℕ} {c : CacheMultiMap K V} {l : List (K × V)}

/-- The map shows the list, and no map of a key is empty. -/
structure Keeps (n : ℕ) (c : CacheMultiMap K V) (l : List (K × V)) : Prop where
  held : Held id n c.nMaxSize c.nodes c.listItems (nodeAt c.mapIndex) l
  filled : ∀ k, FilledAt c.mapIndex k

theorem keeps_empty (n : ℕ) : Keeps n ({nMaxSize := n} : CacheMultiMap K V) [] := by
  refine ⟨held_nil n fun p => ?_, fun k hk => absurd hk ExtTreeMap.not_mem_empty⟩
  exact congrArg (Option.bind · _) ExtTreeMap.getElem?_empty

namespace Keeps
variable [LawfulEqOrd V] (h : Keeps n c l)
include h

omit [LawfulEqOrd V] in
theorem mem_iff {k : K} : k ∈ c.mapIndex ↔ ∃ p ∈ l, p.1 = k := by
  constructor
  · intro hk
    obtain ⟨value, node, hnode⟩ := h.filled k hk
    obtain ⟨p, hp, hpair, -⟩ := h.held.deref_of_index hnode
    exact ⟨p, hp, congrArg Prod.fst hpair⟩
  · intro hk
    obtain ⟨p, hp, hpk⟩ := hk
    have hsome := h.held.isSome_iff.mpr (List.mem_map_of_mem hp)
    obtain ⟨node, hnode⟩ := Option.isSome_iff_exists.mp hsome
    rw [← hpk]
    exact mem_of_nodeAt hnode

omit h in
/-- The nodes in the map of a key are those of its items. -/
theorem nodeAt_entry {key : K} {mapIt : ExtTreeMap V ℕ} (hmapIt : c.mapIndex[key]? = some mapIt)
    {entry : V × ℕ} (hentry : entry ∈ mapIt.toList) :
    nodeAt c.mapIndex (key, entry.1) = some entry.2 := by
  rw [nodeAt, hmapIt]
  exact OrdMap.mem_toList hentry

theorem deref_entry {key : K} {mapIt : ExtTreeMap V ℕ} (hmapIt : c.mapIndex[key]? = some mapIt)
    {entry : V × ℕ} (hentry : entry ∈ mapIt.toList) :
    deref c.listItems entry.2 = .ok (key, entry.1) ∧ (key, entry.1) ∈ l := by
  obtain ⟨p, hp, hpair, hderef⟩ := h.held.deref_of_index (nodeAt_entry hmapIt hentry)
  rw [id] at hpair
  rw [← hpair]
  exact ⟨hderef, hp⟩

theorem get (key : K) :
    Checked.Succeeds (c.get key) fun found => ∀ value ∈ found, (key, value) ∈ l := by
  rw [CacheMultiMap.get]
  cases hmapIt : c.mapIndex[key]? with
  | none => exact Checked.succeeds_ok fun value hvalue => absurd hvalue (Option.not_mem_none value)
  | some mapIt =>
    dsimp only
    cases hhead : mapIt.toList.head? with
    | none =>
      obtain ⟨value, node, hnode⟩ := h.filled key (OrdMap.mem_iff_exists.mpr ⟨mapIt, hmapIt⟩)
      rw [nodeAt, hmapIt] at hnode
      have hentry := ExtTreeMap.mem_toList_iff_getElem?_eq_some.mpr hnode
      rw [List.head?_eq_none_iff.mp hhead] at hentry
      exact absurd hentry List.not_mem_nil
    | some entry =>
      obtain ⟨hderef, hmem⟩ := h.deref_entry hmapIt (List.mem_of_head? hhead)
      dsimp only
      rw [hderef]
      refine Checked.succeeds_ok fun value hvalue => ?_
      cases hvalue
      exact hmem

theorem getAll (key : K) :
    Checked.Succeeds (c.getAll key) fun values => ∀ value, value ∈ values ↔ (key, value) ∈ l := by
  rw [CacheMultiMap.getAll]
  cases hmapIt : c.mapIndex[key]? with
  | none =>
    refine Checked.succeeds_ok fun value => iff_of_false List.not_mem_nil fun hmem => ?_
    exact notMem_iff.mpr hmapIt (h.mem_iff.mpr ⟨_, hmem, rfl⟩)
  | some mapIt =>
    have hturns : ∀ entry ∈ mapIt.toList,
        Checked.Succeeds (Prod.snd <$> deref c.listItems entry.2) fun v => entry.1 = v := by
      intro entry hentry
      rw [(h.deref_entry hmapIt hentry).1]
      exact Checked.succeeds_ok rfl
    refine (Checked.succeeds_mapM hturns).mono fun values hvalues value => ?_
    rw [← List.forall₂_map_left_iff, List.forall₂_eq_eq_eq] at hvalues
    rw [← hvalues, List.mem_map]
    constructor
    · intro hmem
      obtain ⟨entry, hentry, hvalue⟩ := hmem
      rw [← hvalue]
      exact (h.deref_entry hmapIt hentry).2
    · intro hmem
      have hsome := h.held.isSome_iff.mpr (List.mem_map_of_mem (f := id) hmem)
      obtain ⟨node, hnode⟩ := Option.isSome_iff_exists.mp hsome
      rw [id, nodeAt, hmapIt] at hnode
      exact ⟨(value, node), ExtTreeMap.mem_toList_iff_getElem?_eq_some.mpr hnode, rfl⟩

variable [LawfulEqOrd K] [DecidableEq K] [DecidableEq V]

theorem erase (key : K) (value : V) :
    Checked.Succeeds (c.erase key value) fun c' => Keeps n c' (recent n l (.erase key value)) := by
  rw [CacheMultiMap.erase, recent]
  cases hnode : nodeAt c.mapIndex (key, value) with
  | none =>
    have hall : (l.filter fun p => decide (p ≠ (key, value))) = l := by
      refine List.filter_eq_self.mpr fun p hp => decide_eq_true fun hpair => ?_
      have hsome := h.held.isSome_iff.mpr (List.mem_map_of_mem (f := id) hp)
      rw [hpair, id, hnode] at hsome
      contradiction
    rw [hall]
    exact Checked.succeeds_ok h
  | some node =>
    obtain ⟨p, hp, hpair⟩ := (h.held.linked.index_iff _ _).mp hnode
    dsimp only
    rw [listErase_eq h.held.linked hp, hpair]
    refine Checked.succeeds_ok ⟨?_, fun k => filledAt_eraseIn fun _ => h.filled k⟩
    apply h.held.filter fun p => decide (p ≠ (key, value))
    intro p
    simp only [nodeAt_eraseIn, decide_eq_true_eq, eq_comm (a := p), ne_eq, ite_not]

theorem eraseKey (key : K) :
    Checked.Succeeds (c.eraseKey key) fun c' => Keeps n c' (recent n l (.eraseKey key)) := by
  rw [CacheMultiMap.eraseKey, recent]
  cases hmapIt : c.mapIndex[key]? with
  | none =>
    have hall : (l.filter fun p => decide (p.1 ≠ key)) = l := by
      refine List.filter_eq_self.mpr fun p hp => decide_eq_true fun hkey => ?_
      exact notMem_iff.mpr hmapIt (h.mem_iff.mpr ⟨p, hp, hkey⟩)
    rw [hall]
    exact Checked.succeeds_ok h
  | some mapIt =>
    have hlinked := h.held.linked
    have hitem : ∀ entry ∈ mapIt.toList, (entry.2, key, entry.1) ∈ c.listItems := by
      intro entry hentry
      obtain ⟨p, hp, hpair⟩ := (hlinked.index_iff _ _).mp (nodeAt_entry hmapIt hentry)
      rwa [← hpair]
    have hnodes : (mapIt.toList.map Prod.snd).Nodup := by
      refine List.Nodup.map_on (fun e he e' he' hsame => ?_) ?_
      · have hkeys := (hlinked.node_iff (hitem e' he') (hitem e he)).mp hsame
        exact Prod.ext (congrArg Prod.snd hkeys) hsame
      · refine ExtTreeMap.distinct_keys_toList.imp fun hne heq => hne ?_
        rw [heq]
        exact Std.ReflCmp.compare_self
    have hfilter : (c.listItems.filter fun q => decide (q.1 ∉ mapIt.toList.map Prod.snd)) =
        c.listItems.filter fun q => decide (q.2.1 ≠ key) := by
      refine List.filter_congr fun q hq => ?_
      rw [decide_eq_decide]
      refine not_congr ⟨fun hmem => ?_, fun hkey => ?_⟩
      · obtain ⟨entry, hentry, hnode⟩ := List.mem_map.mp hmem
        have hkeys := (hlinked.node_iff (hitem entry hentry) hq).mp hnode.symm
        exact congrArg Prod.fst hkeys
      · have hnode := hlinked.index_eq (p := q.2) hq
        rw [id, nodeAt, hkey, hmapIt] at hnode
        have hentry := ExtTreeMap.mem_toList_iff_getElem?_eq_some.mpr hnode
        exact List.mem_map_of_mem (f := Prod.snd) hentry
    dsimp only
    rw [foldlM_listErase _ _ (fun entry hentry => List.mem_map_of_mem (hitem entry hentry)) hnodes,
      hfilter]
    refine Checked.succeeds_ok ⟨?_, fun k hk => ?_⟩
    · apply h.held.filter fun p => decide (p.1 ≠ key)
      intro p
      rw [nodeAt, getElem?_erase]
      simp only [decide_eq_true_eq, eq_comm (a := p.1), ne_eq, ite_not]
      split_ifs <;> rfl
    · rw [OrdMap.mem_iff_exists] at hk
      obtain ⟨mapIt', hmapIt'⟩ := hk
      obtain ⟨hmem, hne⟩ := getElem?_erase_eq_some.mp hmapIt'
      obtain ⟨value, node, hnode⟩ := h.filled k (OrdMap.mem_iff_exists.mpr ⟨_, hmem⟩)
      refine ⟨value, node, ?_⟩
      rw [nodeAt, getElem?_erase, if_neg hne]
      exact hnode

theorem roundTrip : Keeps n c.roundTrip l := by
  constructor
  · exact h.held.readItems nodeAt (fun m q => emplaceIn m q.2.1 q.2.2 q.1) (m := ∅)
      (fun p => congrArg (Option.bind · _) ExtTreeMap.getElem?_empty)
      fun m q k hk => nodeAt_emplaceIn hk k
  · intro k
    apply List.foldlRecOn _ _ (motive := fun m => FilledAt m k)
    · exact fun hmem => absurd hmem ExtTreeMap.not_mem_empty
    · exact fun m h q _ => filledAt_emplaceIn fun _ => h

omit h in
/-- What an insertion leaves once there is room. -/
theorem emplace {m : ExtTreeMap K (ExtTreeMap V ℕ)} {items : List (ℕ × K × V)} {l : List (K × V)}
    {key : K} {value : V}
    (hheld : Held id n c.nMaxSize c.nodes items (nodeAt m) l)
    (hfilled : ∀ k, key ≠ k → FilledAt m k) (hnew : (key, value) ∉ l) (hroom : l.length < n) :
    Keeps n {c with
      listItems := (c.nodes, key, value) :: items
      mapIndex := emplaceIn m key value c.nodes
      nodes := c.nodes+1} ((key, value) :: l) := by
  have hnone : nodeAt m (key, value) = none := by
    rw [← Option.not_isSome_iff_eq_none, hheld.isSome_iff, List.map_id]
    exact hnew
  exact ⟨hheld.cons hnone hroom (nodeAt_emplaceIn hnone), fun k => filledAt_emplaceIn (hfilled k)⟩

omit [DecidableEq V] [LawfulEqOrd V] in
/-- The map of the key is there, perhaps an empty one. -/
theorem findOrMake (key : K) :
    ∃ c', (if key ∈ c.mapIndex then c else {c with mapIndex := c.mapIndex.insert key ∅}) = c' ∧
      (key ∈ c.mapIndex → c' = c) ∧
      Held id n c'.nMaxSize c'.nodes c'.listItems (nodeAt c'.mapIndex) l ∧
      (∀ k, key ≠ k → FilledAt c'.mapIndex k) ∧ key ∈ c'.mapIndex := by
  by_cases hkey : key ∈ c.mapIndex
  · rw [if_pos hkey]
    exact ⟨c, rfl, fun _ => rfl, h.held, fun k _ => h.filled k, hkey⟩
  · have hnodes : nodeAt (c.mapIndex.insert key ∅) = nodeAt c.mapIndex := by
      funext p
      rw [nodeAt, getElem?_insert]
      split_ifs with hk
      · rw [nodeAt, ← hk, notMem_iff.mp hkey]
        exact ExtTreeMap.getElem?_empty
      · rfl
    rw [if_neg hkey]
    refine ⟨_, rfl, fun hmem => absurd hmem hkey, ?_, fun k hk hmem => ?_, ?_⟩
    · dsimp only
      rw [hnodes]
      exact h.held
    · rw [OrdMap.mem_iff_exists, getElem?_insert, if_neg hk, ← OrdMap.mem_iff_exists] at hmem
      rw [hnodes]
      exact h.filled k hmem
    · exact ExtTreeMap.mem_insert_self

omit h [LawfulEqOrd V] [DecidableEq V] in
/-- The map of the key is still there after the pruning where there is another item of it. -/
theorem mem_eraseIn_iff {m : ExtTreeMap K (ExtTreeMap V ℕ)} {items : List (ℕ × K × V)} {nodes : ℕ}
    {key : K} {p : K × V} (hdropped : Held id n n nodes items (nodeAt (eraseIn m p.1 p.2)) l)
    (hmem : key ∈ m) :
    key ∈ eraseIn m p.1 p.2 ↔ (p.1 = key → ∃ q ∈ l, q.1 = key) := by
  by_cases hkey : p.1 = key
  · rw [imp_iff_right hkey]
    constructor
    · intro hin
      obtain ⟨value, node, hnode⟩ := filledAt_eraseIn (absurd hkey) hin
      obtain ⟨q, hq, hpair, -⟩ := hdropped.deref_of_index hnode
      exact ⟨q, hq, congrArg Prod.fst hpair⟩
    · intro hq
      obtain ⟨q, hq, hkey⟩ := hq
      have hsome := hdropped.isSome_iff.mpr (List.mem_map_of_mem (f := id) hq)
      obtain ⟨node, hnode⟩ := Option.isSome_iff_exists.mp hsome
      rw [← hkey]
      exact mem_of_nodeAt hnode
  · refine iff_of_true ?_ fun heq => absurd heq hkey
    rw [OrdMap.mem_iff_exists, getElem?_eraseIn_of_ne hkey, ← OrdMap.mem_iff_exists]
    exact hmem

/-- An insertion does what the list does, unless the pruning takes the map of the key away. -/
theorem insert (hpos : 1 ≤ n) (key : K) (value : V) :
    Spares n l (.insert key value) ∧ Checked.Succeeds (c.insert key value)
        (fun r => Keeps n r.2 (recent n l (.insert key value))) ∨
      ¬Spares n l (.insert key value) ∧ c.insert key value = .error .indexNode := by
  obtain ⟨c', hc', hsame, hheld, hfilled, hmem⟩ := h.findOrMake key
  have hin : (nodeAt c'.mapIndex (key, value)).isSome = true ↔ (key, value) ∈ l := by
    rw [hheld.isSome_iff, List.map_id]
  unfold CacheMultiMap.insert
  rw [hc', recent, Spares]
  dsimp only
  by_cases hold : (key, value) ∈ l
  · have hkey := h.mem_iff.mpr ⟨_, hold, rfl⟩
    rw [if_pos (hin.mpr hold), if_pos hold, hsame hkey]
    exact Or.inl ⟨Or.inr (Or.inl hold), Checked.succeeds_ok h⟩
  · rw [if_neg (mt hin.mp hold), if_neg hold, pushFront, hheld.length_eq, hheld.maxSize]
    by_cases hfull : l.length = n
    · have hne : c'.listItems ≠ [] := by
        intro hnil
        rw [← hheld.shown, hnil] at hfull
        exact absurd hfull (by simp; omega)
      have hlast := List.getLast?_eq_some_getLast hne
      generalize c'.listItems.getLast hne = item at hlast
      have hlastl : l.getLast? = some item.2 := by
        rw [← hheld.shown, List.getLast?_map, hlast]
        rfl
      have hdropped := hheld.dropLast (p := item.2) hlast fun p => nodeAt_eraseIn p
      have hkept := mem_eraseIn_iff (hheld.maxSize ▸ hdropped) hmem
      have hspares : (l.length ≠ n ∨ (key, value) ∈ l ∨ ∀ p ∈ l.getLast?, p.1 = key →
          ∃ q ∈ l.dropLast, q.1 = key) ↔ key ∈ eraseIn c'.mapIndex item.2.1 item.2.2 := by
        rw [hkept, hlastl, or_iff_right (not_not.mpr hfull), or_iff_right hold]
        simp
      rw [if_pos hfull, if_pos hfull, CacheMultiMap.pruneLast, hlast, hspares]
      dsimp only
      by_cases hkeep : key ∈ eraseIn c'.mapIndex item.2.1 item.2.2
      · rw [if_pos hkeep]
        refine Or.inl ⟨hkeep, Checked.succeeds_ok ?_⟩
        apply emplace hdropped fun k hk => filledAt_eraseIn fun _ => hfilled k hk
        · exact fun hmem => hold (List.dropLast_subset l hmem)
        · rw [List.length_dropLast]
          omega
      · rw [if_neg hkeep]
        exact Or.inr ⟨hkeep, rfl⟩
    · rw [if_neg hfull, if_neg hfull, if_pos hmem]
      refine Or.inl ⟨Or.inl hfull, Checked.succeeds_ok ?_⟩
      exact emplace hheld hfilled hold (Nat.lt_of_le_of_ne hheld.bounded hfull)

/-- An operation that spares the map of its key does what the list does. -/
theorem perform (hpos : 1 ≤ n) (op : Op K V) (hspares : Spares n l op) :
    Checked.Succeeds (c.perform op) fun c' => Keeps n c' (recent n l op) := by
  cases op with
  | insert key value =>
    rcases h.insert hpos key value with ⟨-, r, hr, hkeeps⟩ | ⟨hnot, -⟩
    · rw [CacheMultiMap.perform, hr]
      exact Checked.succeeds_ok hkeeps
    · contradiction
  | get key =>
    obtain ⟨found, hfound, -⟩ := h.get key
    rw [CacheMultiMap.perform, hfound]
    exact Checked.succeeds_ok h
  | getAll key =>
    obtain ⟨values, hvalues, -⟩ := h.getAll key
    rw [CacheMultiMap.perform, hvalues]
    exact Checked.succeeds_ok h
  | eraseKey key => exact h.eraseKey key
  | erase key value => exact h.erase key value
  | roundTrip => exact Checked.succeeds_ok h.roundTrip

theorem perform_error (hpos : 1 ≤ n) (op : Op K V) (hnot : ¬Spares n l op) :
    ∃ e, c.perform op = .error e := by
  cases op with
  | insert key value =>
    rcases h.insert hpos key value with ⟨hspares, -⟩ | ⟨-, herror⟩
    · contradiction
    · exact ⟨.indexNode, by rw [CacheMultiMap.perform, herror]; rfl⟩
  | get key => exact absurd trivial hnot
  | getAll key => exact absurd trivial hnot
  | eraseKey key => exact absurd trivial hnot
  | erase key value => exact absurd trivial hnot
  | roundTrip => exact absurd trivial hnot

end Keeps
end CacheMultiMap

/-! ### Runs -/

variable [Ord K] [TransOrd K] [LawfulEqOrd K] [DecidableEq K] [Ord V] [TransOrd V] [LawfulEqOrd V]
  [DecidableEq V]

/-- A `CacheMap` shows the items that were inserted last through any run, and a `CacheMultiMap`
exactly where no insertion pushes out the last item of its own key. -/
theorem cache_maps_recent {n : ℕ} (hpos : 1 ≤ n) :
    (∀ ops : List (CacheMap.Op K V),
      Checked.Succeeds (ops.foldlM CacheMap.perform {nMaxSize := n}) fun c =>
        c.Keeps n (ops.foldl (CacheMap.recent n) [])) ∧
      ∀ ops : List (CacheMultiMap.Op K V),
        Checked.Succeeds (ops.foldlM CacheMultiMap.perform {nMaxSize := n}) (fun c =>
            c.Keeps n (ops.foldl (CacheMultiMap.recent n) [])) ↔
          Runs.EveryStep (fun l op => ((), CacheMultiMap.recent n l op))
            (CacheMultiMap.Spares n) [] ops := by
  constructor
  · intro ops
    refine (Refinement.succeeds_foldlM_iff (CacheMap.Keeps n) (fun _ _ => True) ?_ ?_
      (CacheMap.keeps_empty n) ops).mpr (Runs.everyStep_true _ _)
    · exact fun c l op h _ => h.perform hpos op
    · exact fun c l op h hnot => absurd trivial hnot
  · intro ops
    apply Refinement.succeeds_foldlM_iff (CacheMultiMap.Keeps n) _ _ _ (CacheMultiMap.keeps_empty n)
    · exact fun c l op h hspares => h.perform hpos op hspares
    · exact fun c l op h hnot => h.perform_error hpos op hnot

theorem cache_maps_recent_two :
    Checked.Succeeds (([.insert 1 1, .insert 1 2, .insert 1 3] : List (CacheMultiMap.Op ℕ ℕ)).foldlM
      CacheMultiMap.perform {nMaxSize := 2}) fun c => c.Keeps 2 [(1, 3), (1, 2)] := by
  refine ((cache_maps_recent (K := ℕ) (V := ℕ) (n := 2) (by decide)).2 _).mpr ?_
  simp [Runs.EveryStep, CacheMultiMap.Spares, CacheMultiMap.recent, pushFront]

/-- The map of the key goes with its only item, and the insertion goes on to use it. -/
theorem multimap_uses_erased :
    ¬∀ ops : List (CacheMultiMap.Op ℕ ℕ),
      Checked.Succeeds (ops.foldlM CacheMultiMap.perform {nMaxSize := 1}) fun c =>
        c.Keeps 1 (ops.foldl (CacheMultiMap.recent 1) []) := by
  intro hall
  obtain ⟨c, hc, -⟩ := hall [.insert 1 1, .insert 1 2]
  have herror : ([.insert 1 1, .insert 1 2] : List (CacheMultiMap.Op ℕ ℕ)).foldlM
      CacheMultiMap.perform {nMaxSize := 1} = .error .indexNode := rfl
  rw [herror] at hc
  contradiction

end BabaChain.CacheMaps
