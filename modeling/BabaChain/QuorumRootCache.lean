import BabaChain.QuorumRoot
import BabaChain.Lib.Runs
import Mathlib

/-! When the caches of the quorum root cannot be seen from outside. -/
namespace BabaChain.LLMQ
open Runs OrdMap LruCache
open Std (ExtTreeMap)

variable {G₁ G₂ : Type*} (hs : Hashing G₁ G₂) (c : Consensus)

/-- A call looks at a quorum when it is among the active ones of its type. -/
def Listed (e : Call G₁ G₂) (llmqType : LLMQType) (block_hash : uint256) : Prop :=
  ∃ vec, (e.quorums c)[llmqType]? = some vec ∧ ∃ blockIndex ∈ vec, blockIndex.hash = block_hash

/-- A later call finds what an earlier one found for the quorums that both look
at, with rotation as it was then. -/
def Compatible (e e' : Call G₁ G₂) : Prop :=
  ∀ llmqType block_hash pqc, Listed c e llmqType block_hash → Listed c e' llmqType block_hash →
    minedCommitment e.db llmqType block_hash = some pqc →
      minedCommitment e'.db llmqType block_hash = some pqc ∧
        rotationEnabled c e.pindexPrev llmqType = rotationEnabled c e'.pindexPrev llmqType

/-- The hashes of one type, read from the database alone. -/
def directBlocks (e : Call G₁ G₂) (llmqType : LLMQType) :
    List CBlockIndex → TypeHashes → Option TypeHashes
  | [], hashes => some hashes
  | blockIndex :: rest, hashes =>
    (readQcHash hs c e llmqType blockIndex.hash).bind fun qc_hash =>
      directBlocks e llmqType rest
        (addHash (rotationEnabled c e.pindexPrev llmqType) hashes qc_hash)

def directTypes (e : Call G₁ G₂) : List (LLMQType × List CBlockIndex) →
    QcHashMap × QcIndexedHashMap → Option (QcHashMap × QcIndexedHashMap)
  | [], maps => some maps
  | (llmqType, vec) :: rest, maps =>
    (directBlocks hs c e llmqType vec (maps.1.getD llmqType [], maps.2.getD llmqType ∅)).bind
      fun hashes => directTypes e rest
        (maps.1.insert llmqType hashes.1, maps.2.insert llmqType hashes.2)

/-- The result of the lookup without any cache. -/
def directHashes (e : Call G₁ G₂) : Option (QcHashMap × QcIndexedHashMap) :=
  directTypes hs c e (e.quorums c).toList (∅, ∅)

/-- A cache entry is what an earlier call read for a quorum it looked at. -/
def ReadBy (past : List (Call G₁ G₂)) (llmqType : LLMQType) (block_hash : uint256)
    (qc_hash : QcHash) : Prop :=
  ∃ e ∈ past, Listed c e llmqType block_hash ∧ readQcHash hs c e llmqType block_hash = some qc_hash

def QcCaches.maps (caches : QcCaches) : QcHashMap × QcIndexedHashMap :=
  (caches.qcHashes_cached, caches.qcIndexedHashes_cached)

/-- All that the caches know comes from the earlier calls. -/
structure Sound (past : List (Call G₁ G₂)) (caches : QcCaches) : Prop where
  entries : ∀ llmqType, Holds (ReadBy hs c past llmqType) (caches.hashCache llmqType)
  cached : ∀ e : Call G₁ G₂, e.quorums c = caches.quorums_cached →
    (∀ e' ∈ past, Compatible c e' e) → directHashes hs c e = some caches.maps

variable {hs c} {e e' : Call G₁ G₂} {past : List (Call G₁ G₂)} {llmqType : LLMQType}
  {block_hash : uint256}

theorem Compatible.read_eq (h : Compatible c e' e) {qc_hash : QcHash}
    (hl' : Listed c e' llmqType block_hash) (hl : Listed c e llmqType block_hash)
    (hr : readQcHash hs c e' llmqType block_hash = some qc_hash) :
    readQcHash hs c e llmqType block_hash = some qc_hash ∧
      rotationEnabled c e'.pindexPrev llmqType = rotationEnabled c e.pindexPrev llmqType := by
  obtain ⟨pqc, hm, hv⟩ := Option.map_eq_some_iff.mp hr
  obtain ⟨hm', hrot⟩ := h llmqType block_hash pqc hl' hl hm
  refine ⟨?_, hrot⟩
  rw [readQcHash, hm', Option.map_some, ← hrot, ← hv]

/-- A hit gives what the call itself would read. -/
theorem ReadBy.read_eq {qc_hash : QcHash} (hpast : ∀ e' ∈ past, Compatible c e' e)
    (hl : Listed c e llmqType block_hash)
    (hr : ReadBy hs c (e :: past) llmqType block_hash qc_hash) :
    readQcHash hs c e llmqType block_hash = some qc_hash := by
  obtain ⟨e', he', hl', hread⟩ := hr
  rcases List.mem_cons.mp he' with rfl | he'
  · exact hread
  · exact ((hpast e' he').read_eq hl' hl hread).1

/-- One lookup: the answer of the database, and a cache that knows no more. -/
theorem cachedQcHash_spec (hpast : ∀ e' ∈ past, Compatible c e' e)
    (hl : Listed c e llmqType block_hash) {cache : QcHashCache}
    (hc : Holds (ReadBy hs c (e :: past) llmqType) cache) :
    (cachedQcHash hs c e llmqType block_hash cache).1 = readQcHash hs c e llmqType block_hash ∧
      Holds (ReadBy hs c (e :: past) llmqType)
        (cachedQcHash hs c e llmqType block_hash cache).2 := by
  have hvalue := @hc.get_value _ _ _ _ _ block_hash
  have hstate := hc.get_state block_hash
  unfold cachedQcHash
  generalize LruCache.get cache block_hash = r at hvalue hstate
  obtain ⟨hit, cache'⟩ := r
  cases hit with
  | some qc_hash => exact ⟨(ReadBy.read_eq hpast hl (hvalue rfl)).symm, hstate⟩
  | none =>
    dsimp only
    cases hread : readQcHash hs c e llmqType block_hash with
    | none => exact ⟨rfl, hstate⟩
    | some qc_hash => exact ⟨rfl, hstate.insert ⟨e, List.mem_cons_self, hl, hread⟩⟩

/-- The inner loop collects the hashes of the database, and stops where it lacks
a commitment. -/
theorem addBlocks_spec (hpast : ∀ e' ∈ past, Compatible c e' e) {blocks : List CBlockIndex}
    (hl : ∀ b ∈ blocks, Listed c e llmqType b.hash) {cache : QcHashCache} (hashes : TypeHashes)
    (hc : Holds (ReadBy hs c (e :: past) llmqType) cache) :
    Holds (ReadBy hs c (e :: past) llmqType)
        (addBlocks hs c e llmqType blocks cache hashes).2.1 ∧
      directBlocks hs c e llmqType blocks hashes =
        if (addBlocks hs c e llmqType blocks cache hashes).1 = true then
          some (addBlocks hs c e llmqType blocks cache hashes).2.2 else none := by
  induction blocks generalizing cache hashes with
  | nil => exact ⟨hc, rfl⟩
  | cons b blocks ih =>
    obtain ⟨hread, hc'⟩ := cachedQcHash_spec hpast (hl b List.mem_cons_self) hc
    rw [addBlocks, directBlocks, ← hread]
    generalize cachedQcHash hs c e llmqType b.hash cache = r at hc'
    obtain ⟨found, cache'⟩ := r
    cases found with
    | none => exact ⟨hc', rfl⟩
    | some qc_hash =>
      exact ih (fun b' hb' => hl b' (List.mem_cons_of_mem b hb')) _ hc'

theorem hashCache_insert (caches : QcCaches) (t : LLMQType) (cache : QcHashCache) :
    ({caches with qc_hashes_cached := caches.qc_hashes_cached.insert llmqType cache}).hashCache t =
      if llmqType = t then cache else caches.hashCache t := by
  unfold QcCaches.hashCache
  rw [ExtTreeMap.getD_eq_getD_getElem?, ExtTreeMap.getD_eq_getD_getElem?, getElem?_insert]
  split <;> rfl

/-- The outer loop, type by type. -/
theorem addTypes_spec (hpast : ∀ e' ∈ past, Compatible c e' e)
    {types : List (LLMQType × List CBlockIndex)}
    (hl : ∀ t ∈ types, ∀ b ∈ t.2, Listed c e t.1 b.hash) {caches : QcCaches}
    (hc : ∀ t, Holds (ReadBy hs c (e :: past) t) (caches.hashCache t)) :
    (∀ t, Holds (ReadBy hs c (e :: past) t) ((addTypes hs c e types caches).2.hashCache t)) ∧
      (addTypes hs c e types caches).2.quorums_cached = caches.quorums_cached ∧
      directTypes hs c e types caches.maps =
        if (addTypes hs c e types caches).1 = true then
          some (addTypes hs c e types caches).2.maps else none := by
  induction types generalizing caches with
  | nil => exact ⟨hc, rfl, rfl⟩
  | cons entry types ih =>
    obtain ⟨llmqType, vec⟩ := entry
    obtain ⟨hcache, hdirect⟩ := addBlocks_spec hpast (hl (llmqType, vec) List.mem_cons_self)
      (caches.qcHashes_cached.getD llmqType [], caches.qcIndexedHashes_cached.getD llmqType ∅)
      (hc llmqType)
    rw [addTypes, directTypes, QcCaches.maps, hdirect]
    generalize addBlocks hs c e llmqType vec (caches.hashCache llmqType) _ = r at hcache
    obtain ⟨found, cache, hashes⟩ := r
    have hkept : ∀ t, Holds (ReadBy hs c (e :: past) t)
        (if llmqType = t then cache else caches.hashCache t) := by
      intro t
      split
      · next ht => exact ht ▸ hcache
      · exact hc t
    cases found with
    | false => exact ⟨fun t => (hashCache_insert caches t cache) ▸ hkept t, rfl, rfl⟩
    | true =>
      have hrest := fun entry hentry => hl entry (List.mem_cons_of_mem (llmqType, vec) hentry)
      exact ih hrest fun t => (hashCache_insert caches t cache) ▸ hkept t

theorem directBlocks_congr (h : Compatible c e e') {blocks : List CBlockIndex}
    (hl : ∀ b ∈ blocks, Listed c e llmqType b.hash ∧ Listed c e' llmqType b.hash)
    {hashes res : TypeHashes} (hd : directBlocks hs c e llmqType blocks hashes = some res) :
    directBlocks hs c e' llmqType blocks hashes = some res := by
  induction blocks generalizing hashes with
  | nil => exact hd
  | cons b blocks ih =>
    obtain ⟨hb, hb'⟩ := hl b List.mem_cons_self
    rw [directBlocks] at hd ⊢
    obtain ⟨qc_hash, hread, hrest⟩ := Option.bind_eq_some_iff.mp hd
    obtain ⟨hread', hrot⟩ := h.read_eq hb hb' hread
    rw [hread', Option.bind_some, ← hrot]
    exact ih (fun b' hmem => hl b' (List.mem_cons_of_mem b hmem)) hrest

theorem directTypes_congr (h : Compatible c e e') {types : List (LLMQType × List CBlockIndex)}
    (hl : ∀ t ∈ types, ∀ b ∈ t.2, Listed c e t.1 b.hash ∧ Listed c e' t.1 b.hash)
    {maps res : QcHashMap × QcIndexedHashMap} (hd : directTypes hs c e types maps = some res) :
    directTypes hs c e' types maps = some res := by
  induction types generalizing maps with
  | nil => exact hd
  | cons entry types ih =>
    obtain ⟨llmqType, vec⟩ := entry
    rw [directTypes] at hd ⊢
    obtain ⟨hashes, hblocks, hrest⟩ := Option.bind_eq_some_iff.mp hd
    rw [directBlocks_congr h (hl (llmqType, vec) List.mem_cons_self) hblocks, Option.bind_some]
    exact ih (fun t hmem => hl t (List.mem_cons_of_mem _ hmem)) hrest

theorem listed_of_mem_toList {t : LLMQType × List CBlockIndex} (ht : t ∈ (e.quorums c).toList)
    {b : CBlockIndex} (hb : b ∈ t.2) : Listed c e t.1 b.hash :=
  ⟨t.2, ExtTreeMap.mem_toList_iff_getElem?_eq_some.mp ht, b, hb, rfl⟩

/-- With the same quorums, a later call reads what a successful earlier one read. -/
theorem directHashes_congr (h : Compatible c e e') (hq : e.quorums c = e'.quorums c)
    {maps : QcHashMap × QcIndexedHashMap} (hd : directHashes hs c e = some maps) :
    directHashes hs c e' = some maps := by
  unfold directHashes at hd ⊢
  rw [← hq]
  apply directTypes_congr h _ hd
  intro t ht b hb
  exact ⟨listed_of_mem_toList ht hb, listed_of_mem_toList (hq ▸ ht) hb⟩

/-- The map has a key for every type of the network, whatever the call. -/
theorem quorums_eq_empty_iff : e.quorums c = ∅ ↔ c.llmqs = [] := by
  have hmem : ∀ (llmqs : List LLMQParams) (m : QuorumMap), llmqs.foldl (fun ret params =>
      ret.insert params.type (activeCommitments e.db e.pindexPrev c params)) m = ∅ →
      llmqs = [] := by
    intro llmqs
    induction llmqs with
    | nil => exact fun _ _ => rfl
    | cons params llmqs ih =>
      intro m hm
      have hnil := ih _ hm
      rw [hnil] at hm
      exact absurd hm (ExtTreeMap.insert_ne_empty)
  refine ⟨hmem c.llmqs ∅, fun h => ?_⟩
  rw [Call.quorums, getMinedAndActiveCommitmentsUntilBlock, h, List.foldl_nil]

theorem hashCache_resetCaches {caches : QcCaches} {P : LLMQType → uint256 → QcHash → Prop}
    (h : ∀ t, Holds (P t) (caches.hashCache t)) (t : LLMQType) :
    Holds (P t) ((resetCaches c caches).hashCache t) := by
  unfold resetCaches QcCaches.hashCache
  dsimp only
  split
  · -- the first call: every cache is new
    have hinit : ∀ (llmqs : List LLMQParams) (m : ExtTreeMap LLMQType QcHashCache),
        Holds (P t) (m.getD t (LruCache.create 0)) → Holds (P t) ((llmqs.foldl (fun cache llmq =>
          cache.insert llmq.type (LruCache.create llmq.keepOldKeys)) m).getD t
            (LruCache.create 0)) := by
      intro llmqs
      induction llmqs with
      | nil => exact fun m hm => hm
      | cons llmq llmqs ih =>
        intro m hm
        apply ih
        rw [ExtTreeMap.getD_insert]
        split
        · exact holds_create _ _
        · exact hm
    apply hinit
    exact holds_create _ _
  · exact h t

theorem sound_initial : Sound hs c [] {} where
  entries _ := holds_create _ _
  cached e he _ := by
    rw [directHashes, he]
    rfl

/-- One call on caches that come from compatible calls: the answer is the one
without caches, and the call joins those that the caches come from. -/
theorem cachedGet_spec {caches : QcCaches} (h : Sound hs c past caches)
    (hpast : ∀ e' ∈ past, Compatible c e' e) :
    (cachedGetQcHashesQcIndexedHashes hs c e caches).1 = directHashes hs c e ∧
      Sound hs c (e :: past) (cachedGetQcHashesQcIndexedHashes hs c e caches).2 := by
  have hmono : ∀ t, Holds (ReadBy hs c (e :: past) t) (caches.hashCache t) := by
    intro t
    refine Holds.mono (h.entries t) fun k v hread => ?_
    obtain ⟨e', he', hrest⟩ := hread
    exact ⟨e', List.mem_cons_of_mem e he', hrest⟩
  unfold cachedGetQcHashesQcIndexedHashes
  by_cases hq : e.quorums c = caches.quorums_cached
  · rw [if_pos hq]
    refine ⟨(h.cached e hq hpast).symm, hmono, fun e' he' hcomp => ?_⟩
    exact h.cached e' he' fun e'' hmem => hcomp e'' (List.mem_cons_of_mem e hmem)
  · rw [if_neg hq]
    have hl : ∀ t ∈ (e.quorums c).toList, ∀ b ∈ t.2, Listed c e t.1 b.hash :=
      fun t ht b hb => listed_of_mem_toList ht hb
    have hreset : ∀ t, Holds (ReadBy hs c (e :: past) t) ((resetCaches c caches).hashCache t) :=
      hashCache_resetCaches hmono
    obtain ⟨hentries, hcached, hdirect⟩ := addTypes_spec hpast hl hreset
    have hresult : directHashes hs c e = _ := hdirect
    cases hr : addTypes hs c e (e.quorums c).toList (resetCaches c caches) with
    | mk found caches' =>
      rw [hr] at hentries hcached hresult
      cases found with
      | true =>
        refine ⟨hresult.symm, hentries, fun e' he' hcomp => ?_⟩
        exact directHashes_congr (hcomp e List.mem_cons_self) he'.symm hresult
      | false =>
        refine ⟨hresult.symm, hentries, fun e' he' _ => ?_⟩
        -- no list of quorums equals the cleared one: a call on it cannot fail
        have hnil := quorums_eq_empty_iff.mp (he'.trans hcached)
        rw [directHashes, quorums_eq_empty_iff.mpr hnil] at hresult
        cases hresult

/-- Calls that agree on the quorums they look at get the answers of a fresh
process, in any history, failed calls included. -/
theorem quorum_root_cache_independent {calls : List (Call G₁ G₂)}
    (h : calls.Pairwise (Compatible c)) :
    outputs (calcCbTxMerkleRootQuorums hs c) {} calls =
      calls.map fun e => (calcCbTxMerkleRootQuorums hs c {} e).1 := by
  have hfresh : ∀ e : Call G₁ G₂, (calcCbTxMerkleRootQuorums hs c {} e).1 =
      calcFromHashes hs c e (directHashes hs c e) := by
    intro e
    have hsound : Sound hs c [] {} := sound_initial
    obtain ⟨hv, _⟩ := cachedGet_spec hsound
      (fun e' he' => absurd he' List.not_mem_nil : ∀ e' ∈ [], Compatible c e' e)
    rw [← hv]
    rfl
  apply outputs_eq_map (Sound hs c) (Compatible c) _ _ sound_initial _ h
  · intro past caches e hs' hpast
    obtain ⟨hv, hstate⟩ := cachedGet_spec hs' hpast
    refine ⟨?_, hstate⟩
    rw [hfresh e, ← hv]
    rfl
  · exact fun e' he' => absurd he' List.not_mem_nil

theorem llmqTest_nodup :
    (([⟨100, false, 24, 2, 4⟩] : List LLMQParams).map LLMQParams.type).Nodup :=
  List.nodup_singleton _

/-- The quorum type of the tests: no rotation, one quorum every 24 blocks. -/
def llmqTest : Consensus where
  llmqs := [⟨100, false, 24, 2, 4⟩]
  DIP0024Height := 1
  nodup := llmqTest_nodup

/-- The commitment of the quorum that starts at block 24, by the members that
signed it. The hash of a block is its height plus 1. -/
def sampleCommitment (signers : List Bool) : CFinalCommitment Unit Unit where
  nVersion := 3
  llmqType := 100
  quorumHash := 25
  signers := signers
  validMembers := [true, true, true]
  quorumPublicKey := some ()
  quorumVvecHash := 7
  quorumSig := some ()
  membersSig := some ()

/-- A coinbase alone, on top of a block 34 that mined the given commitment. -/
def sampleCall (hash : uint256) (signers : List Bool) : Call Unit Unit where
  db := {
    minedCommitment := fun llmqType quorumHash =>
      if llmqType = 100 ∧ quorumHash = 25 then some (sampleCommitment signers, hash) else none
    minedByInversedHeight := fun _ => {entries := [⟨34, 24, by decide⟩]}
    minedByInversedHeightQIndexed := fun _ _ => {} }
  pindexPrev := ⟨hash, (List.range 34).reverse.map fun height => BitVec.ofNat 256 (height+1)⟩
  vtx := [⟨3, 5, []⟩]

theorem minedCommitment_sample {hash : uint256} (hne : hash ≠ 0) (signers : List Bool)
    (llmqType : LLMQType) (block_hash : uint256) :
    minedCommitment (sampleCall hash signers).db llmqType block_hash =
      if llmqType = 100 ∧ block_hash = 25 then some (sampleCommitment signers) else none := by
  unfold minedCommitment getMinedCommitment sampleCall
  dsimp only
  split
  · rw [Option.getD_some, if_neg hne]
  · rfl

def sampleHashing : Hashing Unit Unit where
  serializeHash qc := BitVec.ofNat 256 (qc.signers.count true)
  getTxPayload _ := none
  sha256D64 a b := a+b

/-- Two competing blocks 34 that mine the same commitment. -/
theorem quorum_root_cache_independent_reorg :
    outputs (calcCbTxMerkleRootQuorums sampleHashing llmqTest) {}
        [sampleCall 35 [true, true, true], sampleCall 36 [true, true, true]] =
      [sampleCall 35 [true, true, true], sampleCall 36 [true, true, true]].map
        fun e => (calcCbTxMerkleRootQuorums sampleHashing llmqTest {} e).1 := by
  apply quorum_root_cache_independent
  rw [List.pairwise_pair]
  intro llmqType block_hash pqc _ _ hm
  rw [minedCommitment_sample (by decide)] at hm ⊢
  exact ⟨hm, rfl⟩

/-- Two competing blocks 34 that mine different commitments of one quorum: a node
that saw the first answers for the second with the hash of the first. -/
theorem quorum_root_depends_on_history :
    ¬∃ hs : Hashing Unit Unit,
      hs.serializeHash (sampleCommitment [true, true, true]) ≠
          hs.serializeHash (sampleCommitment [true, true, false]) ∧
        outputs (calcCbTxMerkleRootQuorums hs llmqTest) {}
            [sampleCall 35 [true, true, true], sampleCall 36 [true, true, false]] =
          [sampleCall 35 [true, true, true], sampleCall 36 [true, true, false]].map
            fun e => (calcCbTxMerkleRootQuorums hs llmqTest {} e).1 := by
  intro h
  obtain ⟨hs, hne, heq⟩ := h
  have h1 : outputs (calcCbTxMerkleRootQuorums hs llmqTest) {}
            [sampleCall 35 [true, true, true], sampleCall 36 [true, true, false]] =
      [(.ok (), some (hs.serializeHash (sampleCommitment [true, true, true]))),
       (.ok (), some (hs.serializeHash (sampleCommitment [true, true, true])))] := rfl
  have h2 : [sampleCall 35 [true, true, true], sampleCall 36 [true, true, false]].map
            (fun e => (calcCbTxMerkleRootQuorums hs llmqTest {} e).1) =
      [(.ok (), some (hs.serializeHash (sampleCommitment [true, true, true]))),
       (.ok (), some (hs.serializeHash (sampleCommitment [true, true, false])))] := rfl
  rw [h1, h2] at heq
  have hsecond := (List.cons.inj (List.cons.inj heq).2).1
  exact hne (Option.some.inj (Prod.mk.inj hsecond).2)

end BabaChain.LLMQ
