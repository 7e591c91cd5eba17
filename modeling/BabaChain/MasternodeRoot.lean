import BabaChain.ListInvariant

/-! When the root over the masternode list does not depend on the lists and roots
that were computed before. -/
namespace BabaChain.Evo
open BLS OrdMap Runs

variable {G : Type*} [DecidableEq G] (codec : KeyCodec G) (sha256d : List UInt8 → uint256)

/-- The lists of a node, the simplified lists that it was handed, the keys and
the static variables. -/
structure Node (G : Type*) where
  store : KeyStore G := {}
  lists : ℕ → CDeterministicMNList := fun _ => {}
  smls : List CSimplifiedMNList := []
  rootCache : RootCache := {}

inductive Action (G : Type*)
  /-- A new state gets its key, from a transaction or from another state. -/
  | newKey (k : CBLSLazyPublicKey G)
  /-- Any code decodes a key. -/
  | getKey (r : KeyRef)
  | addMN (i : ℕ) (dmn : CDeterministicMN) (fBumpTotalCount : Bool)
  | updateMN (i : ℕ) (oldDmn : CDeterministicMN) (pdmnState : CDeterministicMNState)
  | updateMNByHash (i : ℕ) (proTxHash : uint256) (pdmnState : CDeterministicMNState)
  | removeMN (i : ℕ) (proTxHash : uint256)
  | assign (i j : ℕ)
  | to_sml (i : ℕ)
  /-- The root of a simplified list, by its position among those handed out. -/
  | calcCbTx (j : ℕ)

inductive Answer
  | none
  | result (r : Except String Unit)
  | sml (sml : CSimplifiedMNList)
  | root (out : Except String Unit × uint256)

namespace Node

/-- The list with an index is replaced by the outcome of an operation on it. -/
def onList (i : ℕ) (n : Node G)
    (op : CDeterministicMNList → KeyStore G → Except String Unit × CDeterministicMNList × KeyStore G) :
    Answer × Node G :=
  let (r, list, store) := op (n.lists i) n.store
  (.result r, {n with store, lists := Function.update n.lists i list})

def step (n : Node G) : Action G → Answer × Node G
  | .newKey k => (.none, {n with store := (n.store.alloc k).2})
  | .getKey r => (.none, {n with store := n.store.put r ((n.store.keys r).get codec).2})
  | .addMN i dmn fBumpTotalCount =>
    n.onList i (CDeterministicMNList.addMN codec sha256d dmn fBumpTotalCount)
  | .updateMN i oldDmn pdmnState =>
    n.onList i (CDeterministicMNList.updateMN codec sha256d oldDmn pdmnState)
  | .updateMNByHash i proTxHash pdmnState =>
    n.onList i (CDeterministicMNList.updateMNByHash codec sha256d proTxHash pdmnState)
  | .removeMN i proTxHash => n.onList i (CDeterministicMNList.removeMN codec sha256d proTxHash)
  | .assign i j => (.none, {n with lists := Function.update n.lists i (n.lists j)})
  | .to_sml i =>
    let (sml, list, store) := (n.lists i).to_sml n.store
    (.sml sml, {n with store, lists := Function.update n.lists i list, smls := n.smls++[sml]})
  | .calcCbTx j =>
    match n.smls[j]? with
    | some sml =>
      let (out, rootCache, store) := calcCbTxMerkleRootMNList codec sha256d sml n.rootCache n.store
      (.root out, {n with store, rootCache})
    | none => (.none, n)

end Node

/-- The entries of a simplified list as they are serialized. -/
def CSimplifiedMNList.serialized (store : KeyStore G) (sml : CSimplifiedMNList) :
    List (List UInt8) :=
  sml.mnList.map fun e => (e.serialize codec store).1

/-- A new entry of a masternode as it is serialized. -/
def CDeterministicMN.serialized (store : KeyStore G) (dmn : CDeterministicMN) : List UInt8 :=
  let (e, store) := dmn.to_sml_entry store
  (e.serialize codec store).1

/-- The masternodes of a list in the order of their hashes, each as a new entry. -/
def CDeterministicMNList.serialized (store : KeyStore G) (list : CDeterministicMNList) :
    List (List UInt8) :=
  list.mnMap.toList.map fun p => p.2.serialized codec store

/-- The answer is the root and the verdict that a direct computation gives. -/
def AsDirect (store : KeyStore G) (sml : CSimplifiedMNList) (out : Except String Unit × uint256) :
    Prop :=
  out.2 = (sml.calcMerkleRoot codec sha256d store).1.1 ∧
    (out.1 = .ok () ↔ (sml.calcMerkleRoot codec sha256d store).1.2 = false)

/-- What an action answers does not depend on any cache. -/
def CacheIndependent (n : Node G) (a : Action G) : Prop :=
  match a with
  | .to_sml i => ∀ sml : CSimplifiedMNList, (n.step codec sha256d a).1 = .sml sml →
      sml.serialized codec (n.step codec sha256d a).2.store =
        (n.lists i).serialized codec (n.step codec sha256d a).2.store
  | .calcCbTx j => ∀ (sml : CSimplifiedMNList) (out : Except String Unit × uint256),
      n.smls[j]? = some sml → (n.step codec sha256d a).1 = .root out →
        AsDirect codec sha256d n.store sml out
  | _ => True

/-- A list is given keys that stand for the same in every state they can be in:
decoded, or in the scheme of the version of their state. An update replaces the
entry that the list has. -/
def Sound (n : Node G) : Action G → Prop
  | .addMN _ dmn _ => dmn.pdmnState.Live codec n.store
  | .updateMN i oldDmn pdmnState =>
    (n.lists i).getMN oldDmn.proTxHash = some oldDmn ∧ pdmnState.Live codec n.store
  | .updateMNByHash _ _ pdmnState => pdmnState.Live codec n.store
  | _ => True

instance (n : Node G) (a : Action G) : Decidable (Sound codec n a) := by
  cases a <;> unfold Sound <;> infer_instance

variable {codec sha256d}

section RootCache
variable {store store' : KeyStore G} {sml : CSimplifiedMNList} {cache : RootCache}

variable (codec sha256d) in
/-- The cached root is the one of the cached list. -/
structure RootCache.Inv (store : KeyStore G) (cache : RootCache) : Prop where
  live : cache.cached_sml.Live codec store
  root : (cache.merkleRootCached, cache.mutatedCached) =
    CSimplifiedMNList.computeMerkleRoot sha256d ((cache.cached_sml.bytes codec store).map sha256d)

omit [DecidableEq G] in
theorem sml_live_evolves (h : sml.Live codec store) (he : store.Evolves codec store') :
    sml.Live codec store' := fun e hmem => live_evolves (h e hmem) he

omit [DecidableEq G] in
theorem RootCache.Inv.evolves (h : cache.Inv codec sha256d store) (he : store.Evolves codec store') :
    cache.Inv codec sha256d store' where
  live := sml_live_evolves h.live he
  root := by
    have hbytes : cache.cached_sml.bytes codec store' = cache.cached_sml.bytes codec store :=
      map_bytes_evolves h.live he
    rw [hbytes]
    exact h.root

theorem calcCbTxMerkleRootMNList_spec (h : sml.Live codec store)
    (hcache : cache.Inv codec sha256d store) :
    AsDirect codec sha256d store sml (calcCbTxMerkleRootMNList codec sha256d sml cache store).1 ∧
      RootCache.Inv codec sha256d (calcCbTxMerkleRootMNList codec sha256d sml cache store).2.2
        (calcCbTxMerkleRootMNList codec sha256d sml cache store).2.1 ∧
      store.Evolves codec (calcCbTxMerkleRootMNList codec sha256d sml cache store).2.2 := by
  obtain ⟨hdirect, _⟩ := @calcMerkleRoot_spec _ _ _ sha256d _ h
  have hverdict : ∀ (mutation : Bool) (reason : String),
      (if mutation then (.error reason : Except String Unit) else .ok ()) = .ok () ↔
        mutation = false := by
    intro mutation reason
    cases mutation with
    | false => exact iff_of_true rfl rfl
    | true => exact iff_of_false (fun h => nomatch h) (fun h => nomatch h)
  -- the list is compared with the cached one
  have hsame : ∀ same, (if sml = cache.cached_sml then (true, store)
      else sml.equal codec cache.cached_sml store) = same →
      (same.1 = true → sml.bytes codec store = cache.cached_sml.bytes codec store) ∧
        store.Evolves codec same.2 := by
    rintro same rfl
    split_ifs with heq
    · subst heq
      exact ⟨fun _ => rfl, KeyStore.evolves_refl store⟩
    · exact sml_equal_spec h hcache.live
  rw [calcCbTxMerkleRootMNList]
  generalize (if sml = cache.cached_sml then (true, store)
    else sml.equal codec cache.cached_sml store) = compared at hsame
  obtain ⟨same, store₁⟩ := compared
  obtain ⟨hbytes, he⟩ := hsame _ rfl
  cases same with
  | true =>
    have hroot := hcache.root
    rw [← hbytes rfl, ← hdirect] at hroot
    refine ⟨⟨congrArg Prod.fst hroot, ?_⟩, hcache.evolves he, he⟩
    rw [← congrArg Prod.snd hroot]
    exact hverdict _ _
  | false =>
    obtain ⟨hroot, he'⟩ := @calcMerkleRoot_spec _ _ _ sha256d _ (sml_live_evolves h he)
    have hbytes : sml.bytes codec store₁ = sml.bytes codec store := map_bytes_evolves h he
    rw [hbytes, ← hdirect] at hroot
    refine ⟨⟨congrArg Prod.fst hroot, ?_⟩, ⟨?_, ?_⟩, he.trans he'⟩
    · rw [← hroot]
      exact hverdict _ _
    · exact sml_live_evolves (sml_live_evolves h he) he'
    · have hbytes' : sml.bytes codec (sml.calcMerkleRoot codec sha256d store₁).2 =
          sml.bytes codec store₁ := map_bytes_evolves (sml_live_evolves h he) he'
      have hroot' : (sml.calcMerkleRoot codec sha256d store₁).1 =
          CSimplifiedMNList.computeMerkleRoot sha256d
            ((sml.bytes codec (sml.calcMerkleRoot codec sha256d store₁).2).map sha256d) := by
        rw [hbytes', hbytes, hroot, hdirect]
      exact hroot'

end RootCache

section Nodes
variable {n : Node G}

variable (codec sha256d) in
structure Node.Inv (n : Node G) : Prop where
  lists : ∀ i, (n.lists i).Inv codec n.store
  smls : ∀ sml ∈ n.smls, sml.Live codec n.store
  rootCache : n.rootCache.Inv codec sha256d n.store

omit [DecidableEq G] in
theorem node_inv_init : Node.Inv codec sha256d ({} : Node G) where
  lists _ := inv_empty {}
  smls _ hmem := absurd hmem List.not_mem_nil
  rootCache := ⟨fun _ hmem => absurd hmem List.not_mem_nil, rfl⟩

omit [DecidableEq G] in
theorem Node.Inv.evolves (h : n.Inv codec sha256d) {store : KeyStore G}
    (he : n.store.Evolves codec store) : Node.Inv codec sha256d {n with store} where
  lists i := (h.lists i).evolves he
  smls sml hmem := sml_live_evolves (h.smls sml hmem) he
  rootCache := h.rootCache.evolves he

omit [DecidableEq G] in
/-- One list is replaced while the keys evolve. -/
theorem Node.Inv.update (h : n.Inv codec sha256d) {store : KeyStore G}
    (he : n.store.Evolves codec store) (i : ℕ) {list : CDeterministicMNList}
    (hlist : list.Inv codec store) :
    Node.Inv codec sha256d {n with store, lists := Function.update n.lists i list} where
  lists := by
    rw [Function.forall_update_iff n.lists fun _ list => list.Inv codec store]
    exact ⟨hlist, fun j _ => (h.lists j).evolves he⟩
  smls sml hmem := sml_live_evolves (h.smls sml hmem) he
  rootCache := h.rootCache.evolves he

omit [DecidableEq G] in
theorem sml_serialized {store : KeyStore G} {sml : CSimplifiedMNList} (h : sml.Live codec store) :
    sml.serialized codec store = sml.bytes codec store :=
  List.map_congr_left fun e hmem => (serialize_spec (h e hmem)).1

omit [DecidableEq G] in
theorem list_serialized {store : KeyStore G} {list : CDeterministicMNList}
    (h : list.Inv codec store) : list.serialized codec store = list.bytes codec store := by
  apply List.map_congr_left
  intro p hp
  obtain ⟨hlive, hbytes, _⟩ := to_sml_entry_spec (h.mn p.1 p.2 (mem_toList hp)).2
  rw [← hbytes, ← (serialize_spec hlive).1]
  rfl

theorem step_spec (h : n.Inv codec sha256d) {a : Action G} (ha : Sound codec n a) :
    CacheIndependent codec sha256d n a ∧ Node.Inv codec sha256d (n.step codec sha256d a).2 := by
  cases a with
  | newKey k => exact ⟨trivial, h.evolves (KeyStore.evolves_alloc k n.store)⟩
  | getKey r =>
    have hkeeps : (n.store.keys r).Keeps codec ((n.store.keys r).get codec).2 :=
      fun legacy hk => (CBLSLazyPublicKey.get_spec hk).2 legacy hk
    exact ⟨trivial, h.evolves (KeyStore.evolves_put hkeeps)⟩
  | addMN i dmn fBumpTotalCount =>
    have he := (@addMN_cases _ codec sha256d dmn fBumpTotalCount (n.lists i)
      n.store).1
    exact ⟨trivial, h.update he i (addMN_spec (h.lists i) ha fBumpTotalCount)⟩
  | updateMN i oldDmn pdmnState =>
    obtain ⟨hlist, he⟩ := @updateMN_spec _ _ sha256d _ _ _ _ _ (h.lists i) ha.1 ha.2
    exact ⟨trivial, h.update he i hlist⟩
  | updateMNByHash i proTxHash pdmnState =>
    obtain ⟨hlist, he⟩ := @updateMNByHash_spec _ _ sha256d _ _ _ _ (h.lists i) proTxHash ha
    exact ⟨trivial, h.update he i hlist⟩
  | removeMN i proTxHash =>
    have he := (@removeMN_cases _ codec sha256d proTxHash (n.lists i)
      n.store).1
    exact ⟨trivial, h.update he i (removeMN_spec (h.lists i) proTxHash)⟩
  | assign i j => exact ⟨trivial, h.update (KeyStore.evolves_refl n.store) i (h.lists j)⟩
  | to_sml i =>
    obtain ⟨hlive, hbytes, hmap, hlist, he⟩ := to_sml_spec (h.lists i)
    refine ⟨fun sml heq => ?_, ?_⟩
    · -- a list taken from the cache serializes as the masternodes do now
      obtain rfl := Answer.sml.inj heq
      have hcurrent := list_serialized ((h.lists i).evolves he)
      rw [list_bytes_evolves (h.lists i) he, ← hbytes] at hcurrent
      exact (sml_serialized hlive).trans hcurrent.symm
    · have hnode := h.update he i hlist
      refine ⟨hnode.lists, fun sml hmem => ?_, hnode.rootCache⟩
      rcases List.mem_append.mp hmem with hmem | hmem
      · exact hnode.smls sml hmem
      · rw [List.mem_singleton.mp hmem]
        exact hlive
  | calcCbTx j =>
    cases hsml : n.smls[j]? with
    | none =>
      -- no such list was built: the action does nothing
      have hstep : n.step codec sha256d (.calcCbTx j) = (.none, n) := by rw [Node.step, hsml]
      rw [hstep]
      refine ⟨fun sml _ hsml' _ => ?_, h⟩
      rw [hsml] at hsml'
      exact absurd hsml' (Option.some_ne_none sml).symm
    | some sml =>
      have hlive := h.smls sml (List.mem_of_getElem? hsml)
      -- hit or miss, the root is the one computed from this list alone
      obtain ⟨hdirect, hcache, he⟩ := calcCbTxMerkleRootMNList_spec hlive h.rootCache
      have hstep : n.step codec sha256d (.calcCbTx j) =
          (.root (calcCbTxMerkleRootMNList codec sha256d sml n.rootCache n.store).1, {n with
            store := (calcCbTxMerkleRootMNList codec sha256d sml n.rootCache n.store).2.2
            rootCache := (calcCbTxMerkleRootMNList codec sha256d sml n.rootCache n.store).2.1}) := by
        rw [Node.step, hsml]
      have hnode := h.evolves he
      constructor
      · intro sml' out hsml' hout
        obtain rfl := Option.some.inj (hsml.symm.trans hsml')
        rw [hstep] at hout
        obtain rfl := Answer.root.inj hout
        exact hdirect
      · rw [hstep]
        exact ⟨hnode.lists, hnode.smls, hcache⟩

end Nodes

/-- From empty lists, every answer is the one that a direct computation gives, as
long as the lists are given keys that stand for the same in every state they can
be in, and updates replace current entries. -/
theorem masternode_root_cache_independent {actions : List (Action G)}
    (h : EveryStep (Node.step codec sha256d) (Sound codec) {} actions) :
    EveryStep (Node.step codec sha256d) (CacheIndependent codec sha256d) {} actions :=
  everyStep_of_invariant (Node.Inv codec sha256d) (fun _ _ hn ha => step_spec hn ha) node_inv_init h

section Samples

/-- A group of one element, with different bytes in the two schemes. -/
def unitCodec : KeyCodec Unit where
  serializeToArray legacy _ := Vector.replicate 48 (if legacy then 1 else 2)
  fromBytes legacy bytes :=
    if bytes = Vector.replicate 48 (if legacy then 1 else 2) then some () else none
  fromBytes_serialize legacy _ := by cases legacy <;> rfl
  serialize_ne_zero legacy _ := by cases legacy <;> decide

def sumBytes (bytes : List UInt8) : uint256 := BitVec.ofNat 256 (bytes.map UInt8.toNat).sum

/-- A key as it is read in the legacy scheme. -/
def legacyKey : CBLSLazyPublicKey Unit :=
  CBLSLazyPublicKey.unserialize true (unitCodec.serializeToArray true ()) {}

def decodedKey : CBLSLazyPublicKey Unit := (legacyKey.get unitCodec).2

def sampleState (nVersion nLastPaidHeight : ℤ) (pubKeyOperator : KeyRef) :
    CDeterministicMNState where
  nVersion
  nLastPaidHeight
  keyIDOwner := 1
  pubKeyOperator
  netInfo := .mn {}

def sampleMN (pdmnState : CDeterministicMNState) : CDeterministicMN where
  internalId := 0
  proTxHash := 1
  collateralOutpoint := ⟨1, 0⟩
  pdmnState

theorem masternode_root_cache_independent_sample :
    EveryStep (Node.step unitCodec sumBytes) (CacheIndependent unitCodec sumBytes) {}
      [.newKey legacyKey, .addMN 0 (sampleMN (sampleState 1 0 0)) true, .to_sml 0, .calcCbTx 0,
        .newKey decodedKey, .updateMNByHash 0 1 (sampleState 2 0 2), .assign 1 0, .to_sml 1,
        .newKey decodedKey, .updateMN 1 (sampleMN (sampleState 2 0 2)) (sampleState 2 5 4),
        .to_sml 1, .calcCbTx 2, .removeMN 1 1, .to_sml 1, .calcCbTx 3] :=
  masternode_root_cache_independent (by decide +kernel)

/-- An update raises the version of a masternode and keeps its legacy key, which
is not decoded yet. -/
def versionUpdate : List (Action Unit) :=
  [.newKey legacyKey, .addMN 0 (sampleMN (sampleState 1 0 0)) true, .newKey legacyKey,
    .updateMNByHash 0 1 (sampleState 2 0 1)]

/-- After such an update, a state with the decoded key is taken for the one before
it, though that one is hashed without its key; and the list that is hashed without
the key gets the root of one that is hashed with it. -/
theorem masternode_root_depends_on_history :
    ¬EveryStep (Node.step unitCodec sumBytes) (CacheIndependent unitCodec sumBytes) {}
        (versionUpdate++[.to_sml 0, .getKey 1, .newKey decodedKey,
          .updateMNByHash 0 1 (sampleState 2 5 3), .to_sml 0]) ∧
      ¬EveryStep (Node.step unitCodec sumBytes) (CacheIndependent unitCodec sumBytes) {}
        (versionUpdate++[.assign 1 0, .newKey legacyKey, .updateMNByHash 1 1 (sampleState 2 5 2),
          .getKey 1, .to_sml 0, .calcCbTx 0, .to_sml 1, .calcCbTx 1]) := by
  constructor
  · intro h
    have hstale := h.2.2.2.2.2.2.2.2.1 _ rfl
    revert hstale
    decide +kernel
  · intro h
    have hroot := (h.2.2.2.2.2.2.2.2.2.2.2.1 _ _ rfl rfl).1
    revert hroot
    decide +kernel

end Samples

end BabaChain.Evo
