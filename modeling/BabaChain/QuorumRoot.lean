import BabaChain.Quorums
import BabaChain.Lib.LruCache
import BabaChain.Lib.MerkleRoot

/-! The root over the active commitments that a coinbase commits to, and the
caches that its computation keeps between calls. -/
namespace BabaChain.LLMQ
open Std (ExtTreeMap)

abbrev QcHashMap := ExtTreeMap LLMQType (List uint256)
abbrev IndexedHashes := ExtTreeMap ℤ uint256
abbrev QcIndexedHashMap := ExtTreeMap LLMQType IndexedHashes

/-- The hash of a commitment and its index, 0 where there is no rotation. -/
abbrev QcHash := uint256 × ℤ
abbrev QcHashCache := LruCache.Cache uint256 QcHash

/-- The static variables of `CachedGetQcHashesQcIndexedHashes`. -/
structure QcCaches where
  quorums_cached : QuorumMap := ∅
  qc_hashes_cached : ExtTreeMap LLMQType QcHashCache := ∅
  qcHashes_cached : QcHashMap := ∅
  qcIndexedHashes_cached : QcIndexedHashMap := ∅

structure BlockTx where
  nVersion : BitVec 16
  nType : BitVec 16
  vExtraPayload : List UInt8
deriving DecidableEq, Repr

def TRANSACTION_QUORUM_COMMITMENT : BitVec 16 := 6
def SPECIAL_VERSION : ℤ := 3

def BlockTx.isSpecialTxVersion (tx : BlockTx) : Bool :=
  decide (SPECIAL_VERSION ≤ tx.nVersion.toInt)

/-- The serialization and hashing that the computation rests on: the payload is
decoded to its commitment, and `SHA256D64` hashes one pair. -/
structure Hashing (G₁ G₂ : Type*) where
  serializeHash : CFinalCommitment G₁ G₂ → uint256
  getTxPayload : List UInt8 → Option (CFinalCommitment G₁ G₂)
  sha256D64 : uint256 → uint256 → uint256

/-- What one call reads: the database, the previous block and the block. -/
structure Call (G₁ G₂ : Type*) where
  db : CEvoDB G₁ G₂
  pindexPrev : CBlockIndex
  vtx : List BlockTx

variable {G₁ G₂ : Type*} (hs : Hashing G₁ G₂) (c : Consensus)

def rotationEnabled (pindex : CBlockIndex) (llmqType : LLMQType) : Bool :=
  (c.getLLMQ llmqType).any fun llmq_params => isQuorumRotationEnabled c llmq_params pindex

/-- The commitment of a quorum, where the database names the block it was mined in. -/
def minedCommitment (db : CEvoDB G₁ G₂) (llmqType : LLMQType) (block_hash : uint256) :
    Option (CFinalCommitment G₁ G₂) :=
  let (pqc, dummy_hash) := getMinedCommitment db llmqType block_hash
  if dummy_hash = 0 then none else some pqc

def Call.quorums (e : Call G₁ G₂) : QuorumMap :=
  getMinedAndActiveCommitmentsUntilBlock e.db e.pindexPrev c

/-- The entry that a miss computes. -/
def readQcHash (e : Call G₁ G₂) (llmqType : LLMQType) (block_hash : uint256) : Option QcHash :=
  (minedCommitment e.db llmqType block_hash).map fun pqc =>
    (hs.serializeHash pqc, if rotationEnabled c e.pindexPrev llmqType then pqc.quorumIndex else 0)

def cachedQcHash (e : Call G₁ G₂) (llmqType : LLMQType) (block_hash : uint256)
    (cache : QcHashCache) : Option QcHash × QcHashCache :=
  match LruCache.get cache block_hash with
  | (some qc_hash, cache) => (some qc_hash, cache)
  | (none, cache) =>
    match readQcHash hs c e llmqType block_hash with
    | none => (none, cache)
    | some qc_hash => (some qc_hash, LruCache.insert cache block_hash qc_hash)

/-- The hashes of one type: in list order, or by index where there is rotation. -/
abbrev TypeHashes := List uint256 × IndexedHashes

def addHash (rotation_enabled : Bool) (hashes : TypeHashes) (qc_hash : QcHash) : TypeHashes :=
  if rotation_enabled then
    (hashes.1, hashes.2.insert qc_hash.2 qc_hash.1)
  else
    (hashes.1++[qc_hash.1], hashes.2)

/-- The inner loop. It stops at a quorum without a commitment, with what it has
collected so far. -/
def addBlocks (e : Call G₁ G₂) (llmqType : LLMQType) :
    List CBlockIndex → QcHashCache → TypeHashes → Bool × QcHashCache × TypeHashes
  | [], cache, hashes => (true, cache, hashes)
  | blockIndex :: rest, cache, hashes =>
    match cachedQcHash hs c e llmqType blockIndex.hash cache with
    | (none, cache) => (false, cache, hashes)
    | (some qc_hash, cache) =>
      addBlocks e llmqType rest cache
        (addHash (rotationEnabled c e.pindexPrev llmqType) hashes qc_hash)

/-- The LRU cache of a type. `InitQuorumsCache` gives every type one. -/
def QcCaches.hashCache (caches : QcCaches) (llmqType : LLMQType) : QcHashCache :=
  caches.qc_hashes_cached.getD llmqType (LruCache.create 0)

/-- The outer loop, over the types in the order of the map. -/
def addTypes (e : Call G₁ G₂) : List (LLMQType × List CBlockIndex) → QcCaches → Bool × QcCaches
  | [], caches => (true, caches)
  | (llmqType, vecBlockIndexes) :: rest, caches =>
    let hashes := (caches.qcHashes_cached.getD llmqType [],
      caches.qcIndexedHashes_cached.getD llmqType ∅)
    let (found, cache, vec_hashes, map_indexed_hashes) :=
      addBlocks hs c e llmqType vecBlockIndexes (caches.hashCache llmqType) hashes
    let caches := {caches with
      qc_hashes_cached := caches.qc_hashes_cached.insert llmqType cache
      qcHashes_cached := caches.qcHashes_cached.insert llmqType vec_hashes
      qcIndexedHashes_cached := caches.qcIndexedHashes_cached.insert llmqType map_indexed_hashes}
    -- leaving early keeps what was already added to the three caches
    if found then addTypes e rest caches else (false, caches)

/-- `InitQuorumsCache`. -/
def initQuorumsCache : ExtTreeMap LLMQType QcHashCache :=
  c.llmqs.foldl (fun cache llmq => cache.insert llmq.type (LruCache.create llmq.keepOldKeys)) ∅

def resetCaches (caches : QcCaches) : QcCaches where
  qc_hashes_cached :=
    if caches.qc_hashes_cached = ∅ then initQuorumsCache c else caches.qc_hashes_cached

def cachedGetQcHashesQcIndexedHashes (e : Call G₁ G₂) (caches : QcCaches) :
    Option (QcHashMap × QcIndexedHashMap) × QcCaches :=
  let quorums := e.quorums c
  if quorums = caches.quorums_cached then
    (some (caches.qcHashes_cached, caches.qcIndexedHashes_cached), caches)
  else
    match addTypes hs c e quorums.toList (resetCaches c caches) with
    | (false, caches) => (none, caches)
    | (true, caches) =>
      (some (caches.qcHashes_cached, caches.qcIndexedHashes_cached),
        {caches with quorums_cached := quorums})

/-- One transaction of the block: its commitment joins those of its type. -/
def addTx (pindexPrev : CBlockIndex) (hashes : QcHashMap × QcIndexedHashMap) (tx : BlockTx) :
    Except String (QcHashMap × QcIndexedHashMap) :=
  let (qcHashes, qcIndexedHashes) := hashes
  if tx.isSpecialTxVersion && tx.nType == TRANSACTION_QUORUM_COMMITMENT then
    match hs.getTxPayload tx.vExtraPayload with
    | none => .error "bad-qc-payload-calc-cbtx-quorummerkleroot"
    | some commitment =>
      -- null commitments are allowed but not used
      if commitment.isNull then
        .ok hashes
      else
        match c.getLLMQ commitment.llmqType with
        | none => .error "bad-qc-commitment-type-calc-cbtx-quorummerkleroot"
        | some llmq_params =>
          let qcHash := hs.serializeHash commitment
          if isQuorumRotationEnabled c llmq_params pindexPrev then
            let map_indexed_hashes := qcIndexedHashes.getD commitment.llmqType ∅
            .ok (qcHashes, qcIndexedHashes.insert commitment.llmqType
              (map_indexed_hashes.insert commitment.quorumIndex qcHash))
          else
            let vec_hashes := qcHashes.getD llmq_params.type []
            -- the last entry is the oldest quorum
            let vec_hashes := if vec_hashes.length = llmq_params.signingActiveQuorumCount then
              vec_hashes.dropLast else vec_hashes
            .ok (qcHashes.insert llmq_params.type (vec_hashes++[qcHash]), qcIndexedHashes)
  else
    .ok hashes

def appendIndexed (qcHashes : QcHashMap) (qcIndexedHashes : QcIndexedHashMap) : QcHashMap :=
  qcIndexedHashes.toList.foldl (fun qcHashes (llmqType, map_indexed_hashes) =>
    qcHashes.insert llmqType
      (qcHashes.getD llmqType []++map_indexed_hashes.toList.map Prod.snd)) qcHashes

/-- The hashes of all types, where no type has more than its active quorums. The
source asserts that each type is one of the network. -/
def vecHashesFinal : List (LLMQType × List uint256) → Except String (List uint256)
  | [] => .ok []
  | (llmqType, vec_hashes) :: rest =>
    if (c.getLLMQ llmqType).elim 0 LLMQParams.signingActiveQuorumCount < vec_hashes.length then
      .error "excess-quorums-calc-cbtx-quorummerkleroot"
    else
      (vecHashesFinal rest).map fun hashes => vec_hashes++hashes

/-- The verdict, and the root where one is computed. -/
abbrev Output := Except String Unit × Option uint256

def rootOfHashes (vec_hashes_final : List uint256) : Output :=
  let (merkleRootRet, mutation) :=
    MerkleRoot.computeMerkleRoot hs.sha256D64 0 (vec_hashes_final.insertionSort (· ≤ ·))
  if mutation then
    (.error "mutated-calc-cbtx-quorummerkleroot", some merkleRootRet)
  else
    (.ok (), some merkleRootRet)

/-- What follows the lookup: it reads no cache. -/
def calcFromHashes (e : Call G₁ G₂) (retVal : Option (QcHashMap × QcIndexedHashMap)) : Output :=
  match retVal with
  | none => (.error "commitment-not-found", none)
  | some hashes =>
    match (e.vtx.drop 1).foldlM (addTx hs c e.pindexPrev) hashes with
    | .error reason => (.error reason, none)
    | .ok (qcHashes, qcIndexedHashes) =>
      match vecHashesFinal c (appendIndexed qcHashes qcIndexedHashes).toList with
      | .error reason => (.error reason, none)
      | .ok vec_hashes_final => rootOfHashes hs vec_hashes_final

def calcCbTxMerkleRootQuorums (caches : QcCaches) (e : Call G₁ G₂) : Output × QcCaches :=
  let (retVal, caches) := cachedGetQcHashesQcIndexedHashes hs c e caches
  (calcFromHashes hs c e retVal, caches)

end BabaChain.LLMQ
