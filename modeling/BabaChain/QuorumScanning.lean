import BabaChain.CommitmentUndo
import BabaChain.Lib.Columns
import BabaChain.Lib.Runs
import BabaChain.Lib.StoreWrites
import Mathlib

/-! Scanning for the quorums mined until a block, through the cache of `ScanQuorums`. -/
namespace BabaChain.LLMQ
open LruCache

variable {G₁ G₂ : Type}

/-! ### Parameters -/

/-- The parameters of a quorum type, with those that only the scanning needs. The mining window
of a cycle ends before the next cycle, and the constructor of the cache asserts its size. -/
structure ScanParams extends LLMQParams where
  keepOldConnections : ℕ
  dkgMiningWindowStart : ℕ
  dkgMiningWindowEnd : ℕ
  window_lt : dkgMiningWindowEnd < dkgInterval
  cache_pos : 0 < (if useRotation then keepOldConnections/signingActiveQuorumCount
    else keepOldConnections)*(dkgMiningWindowEnd-dkgMiningWindowStart)

namespace ScanParams

def maxCycles (params : ScanParams) (quorums_count : ℕ) : ℕ :=
  if params.useRotation then quorums_count/params.signingActiveQuorumCount else quorums_count

def cacheSize (params : ScanParams) : ℕ :=
  params.maxCycles params.keepOldConnections*
    (params.dkgMiningWindowEnd-params.dkgMiningWindowStart)

theorem cacheSize_pos (params : ScanParams) : 0 < params.cacheSize := params.cache_pos

end ScanParams

/-! ### Mined commitments -/

variable (db : CEvoDB G₁ G₂) (params : ScanParams) (pindex : CBlockIndex)

/-- Every turn of the loop finds a quorum, so `maxCount` turns are enough. -/
def getMinedCommitmentsIndexedUntilBlock (maxCount : ℕ) : List CBlockIndex :=
  Columns.readColumns
    (getLastMinedCommitmentsPerQuorumIndexUntilBlock db pindex params.toLLMQParams)
    maxCount maxCount 0 []

def scanCommitments (maxCount : ℕ) : List CBlockIndex :=
  if params.useRotation then
    getMinedCommitmentsIndexedUntilBlock db params pindex maxCount
  else
    getMinedCommitmentsUntilBlock db params.type pindex maxCount

/-! ### Quorums -/

/-- A quorum without its members, which follow from its first block. -/
structure CQuorum (G₁ G₂ : Type) where
  qc : CFinalCommitment G₁ G₂ := {}
  m_quorum_base_block_index : CBlockIndex := ⟨0, []⟩
  minedBlockHash : uint256 := 0
deriving Inhabited, DecidableEq

/-- `GetQuorum` without its own cache: a quorum is built from its commitment. -/
def getQuorum (llmqType : LLMQType) (pQuorumBaseBlockIndex : CBlockIndex) :
    Option (CQuorum G₁ G₂) :=
  let (qc, minedBlockHash) := getMinedCommitment db llmqType pQuorumBaseBlockIndex.hash
  if minedBlockHash = 0 then
    none
  else
    some
      { qc := qc
        m_quorum_base_block_index := pQuorumBaseBlockIndex
        minedBlockHash := minedBlockHash }

/-- The block that quorums are scanned and cached for: quorum sets only change in the mining
window of a cycle. `none` where the window would lie below the first block. -/
def storeBlock (pindexStart : CBlockIndex) : Option CBlockIndex :=
  let quorumCycleStartHeight := pindexStart.nHeight-pindexStart.nHeight%params.dkgInterval
  let quorumCycleMiningStartHeight := quorumCycleStartHeight+params.dkgMiningWindowStart
  let quorumCycleMiningEndHeight := quorumCycleStartHeight+params.dkgMiningWindowEnd
  if pindexStart.nHeight < quorumCycleMiningStartHeight then
    if quorumCycleMiningEndHeight < params.dkgInterval then
      none
    else
      pindexStart.getAncestor (quorumCycleMiningEndHeight-params.dkgInterval)
  else if quorumCycleMiningEndHeight < pindexStart.nHeight then
    pindexStart.getAncestor quorumCycleMiningEndHeight
  else
    some pindexStart

/-! ### What a chain has mined -/

namespace ScanParams

/-- The quorums of a cycle are mined one by one with rotation, and there is one otherwise. -/
def width : ℕ := if params.useRotation then params.signingActiveQuorumCount else 1

def quorumIndex (e : MinedHeight) : ℕ :=
  if params.useRotation then e.quorumHeight%params.dkgInterval else 0

end ScanParams

/-- The heights that were mined for a quorum index. -/
def minedHeights (quorumIndex : ℕ) : MinedHeights :=
  if params.useRotation then db.minedByInversedHeightQIndexed params.type quorumIndex
  else db.minedByInversedHeight params.type

/-- What `ProcessCommitment` sees to: a commitment is mined once and under the index that its
first block has in the cycle, and is kept with its heights. -/
structure Scannable (tip : CBlockIndex) : Prop where
  index : ∀ i < params.width, ∀ e ∈ (minedHeights db params i).entries, params.quorumIndex e = i
  once : ∀ i < params.width,
    ((minedHeights db params i).entries.map MinedHeight.quorumHeight).Nodup
  available : ∀ i < params.width, ∀ e ∈ (minedHeights db params i).entries,
    ∀ b ∈ tip.getAncestor e.quorumHeight, (getQuorum db params.type b).isSome = true

/-- What scanning takes from the rest of the node: the quorum types, when they are enabled, the
tables of the database and the chain by its tip. -/
structure ScanEnv (G₁ G₂ : Type) where
  llmqs : List ScanParams
  isQuorumTypeEnabled : LLMQType → CBlockIndex → Bool
  db : CEvoDB G₁ G₂
  tip : CBlockIndex
  nodup : (tip.hash :: tip.pprev).Nodup
  scannable : ∀ params ∈ llmqs, Scannable db params tip

def ScanEnv.getLLMQ (env : ScanEnv G₁ G₂) (llmqType : LLMQType) : Option ScanParams :=
  env.llmqs.find? fun params => params.type = llmqType

/-! ### Scanning -/

abbrev ScanCache (G₁ G₂ : Type) := LLMQType → Cache uint256 (List (CQuorum G₁ G₂))

variable (env : ScanEnv G₁ G₂)

/-- The caches as the first call makes them. -/
def freshScanCache : ScanCache G₁ G₂ := fun llmqType =>
  create (((env.getLLMQ llmqType).map ScanParams.cacheSize).getD 0)

/-- The scan itself: it goes on after the quorums that were cached. -/
def scanFrom (scanQuorumsCache : ScanCache G₁ G₂)
    (pindexStore pIndexScanCommitments : CBlockIndex)
    (nScanCommitments nCountRequested : ℕ) (vecResultQuorums : List (CQuorum G₁ G₂)) :
    List (CQuorum G₁ G₂) × ScanCache G₁ G₂ :=
  let pQuorumBaseBlockIndexes :=
    scanCommitments env.db params pIndexScanCommitments nScanCommitments
  match pQuorumBaseBlockIndexes.mapM (getQuorum env.db params.type) with
  | none => ([], scanQuorumsCache)
  | some quorums =>
    let vecResultQuorums := vecResultQuorums ++ quorums
    let cache := insert (scanQuorumsCache params.type) pindexStore.hash
      (vecResultQuorums.take params.keepOldConnections)
    (vecResultQuorums.take nCountRequested,
      if vecResultQuorums.isEmpty = true then scanQuorumsCache
      else Function.update scanQuorumsCache params.type cache)

def scanStore (scanQuorumsCache : ScanCache G₁ G₂) (pindexStore : CBlockIndex)
    (nCountRequested : ℕ) : List (CQuorum G₁ G₂) × ScanCache G₁ G₂ :=
  match get (scanQuorumsCache params.type) pindexStore.hash with
  | (some vecResultQuorums, cache) =>
    let scanQuorumsCache := Function.update scanQuorumsCache params.type cache
    if vecResultQuorums.length = nCountRequested then
      (vecResultQuorums, scanQuorumsCache)
    else if nCountRequested < vecResultQuorums.length then
      (vecResultQuorums.take nCountRequested, scanQuorumsCache)
    else
      match vecResultQuorums.getLast? with
      | none =>
        scanFrom params env scanQuorumsCache pindexStore pindexStore nCountRequested
          nCountRequested []
      | some back =>
        match BlockProcessor.parent back.m_quorum_base_block_index with
        -- nothing is returned, not even what was cached
        | none => ([], scanQuorumsCache)
        | some pprev =>
          scanFrom params env scanQuorumsCache pindexStore pprev
            (nCountRequested-vecResultQuorums.length) nCountRequested vecResultQuorums
  | (none, _) =>
    scanFrom params env scanQuorumsCache pindexStore pindexStore
      (max nCountRequested params.keepOldConnections) nCountRequested []

/-- `ScanQuorums`. The parameters of a type that is enabled are known, as the source asserts. -/
def scanQuorums (llmqType : LLMQType) (pindexStart : Option CBlockIndex) (nCountRequested : ℕ)
    (scanQuorumsCache : ScanCache G₁ G₂) : List (CQuorum G₁ G₂) × ScanCache G₁ G₂ :=
  match pindexStart, env.getLLMQ llmqType with
  | some pindexStart, some params =>
    if nCountRequested = 0 ∨ env.isQuorumTypeEnabled llmqType pindexStart = false then
      ([], scanQuorumsCache)
    else
      match storeBlock params pindexStart with
      | none => ([], scanQuorumsCache)
      | some pindexStore => scanStore params env scanQuorumsCache pindexStore nCountRequested
  | _, _ => ([], scanQuorumsCache)

/-- A call, with the height of its start block on the chain. Above the tip there is none. -/
structure ScanCall where
  llmqType : LLMQType
  height : ℕ
  nCountRequested : ℕ

def scanStep (scanQuorumsCache : ScanCache G₁ G₂) (call : ScanCall) :
    List (CQuorum G₁ G₂) × ScanCache G₁ G₂ :=
  scanQuorums env call.llmqType (env.tip.getAncestor call.height) call.nCountRequested
    scanQuorumsCache

/-! ### The quorums in question -/

/-- The commitments mined until a block: for each index the newest, then for each index the one
before, and so on. -/
def minedUntil : List MinedHeight :=
  Columns.listing params.width fun i => (minedHeights db params i).untilBlock pindex

def ScanEnv.baseOf (e : MinedHeight) : CBlockIndex :=
  (env.tip.getAncestor e.quorumHeight).getD ⟨0, []⟩

def ScanEnv.quorumOf (e : MinedHeight) : CQuorum G₁ G₂ :=
  (getQuorum env.db params.type (env.baseOf e)).getD default

def quorumsUntil : List (CQuorum G₁ G₂) :=
  (minedUntil env.db params pindex).map (env.quorumOf params)

/-- What a call is for: the quorums mined until its store block, at most as many as it asks for. -/
def minedQuorums (llmqType : LLMQType) (pindexStart : Option CBlockIndex) (nCountRequested : ℕ) :
    List (CQuorum G₁ G₂) :=
  match pindexStart, env.getLLMQ llmqType with
  | some pindexStart, some params =>
    if env.isQuorumTypeEnabled llmqType pindexStart = false then
      []
    else
      match storeBlock params pindexStart with
      | none => []
      | some pindexStore => (quorumsUntil params pindexStore env).take nCountRequested
  | _, _ => []

/-! ### Blocks of the chain -/

section Chain

variable {db params env} {b a : CBlockIndex} {height : ℕ}

theorem getAncestor_of_le (hle : height ≤ b.nHeight) :
    ∃ a, b.getAncestor height = some a := by
  unfold CBlockIndex.getAncestor
  rw [if_neg (not_lt.mpr hle)]
  cases hd : (b.hash :: b.pprev).drop (b.nHeight-height) with
  | nil =>
    have hlen := List.drop_eq_nil_iff.mp hd
    rw [List.length_cons] at hlen
    unfold CBlockIndex.nHeight at hlen
    omega
  | cons hash pprev => exact ⟨⟨hash, pprev⟩, rfl⟩

/-- The blocks of a chain are told apart by their heights. -/
theorem eq_of_suffix {a a' : CBlockIndex} (ha : a.hash :: a.pprev <:+ b.hash :: b.pprev)
    (ha' : a'.hash :: a'.pprev <:+ b.hash :: b.pprev) (hheight : a.nHeight = a'.nHeight) :
    a = a' := by
  have hlen : (a.hash :: a.pprev).length = (a'.hash :: a'.pprev).length := by
    rw [List.length_cons, List.length_cons]
    exact congrArg (· + 1) hheight
  have heq := (List.suffix_of_suffix_length_le ha ha' hlen.le).eq_of_length hlen
  rw [List.cons.injEq] at heq
  cases a
  cases a'
  rw [CBlockIndex.mk.injEq]
  exact heq

theorem getAncestor_getAncestor (ha : b.getAncestor height = some a) {height' : ℕ}
    (hle : height' ≤ height) : a.getAncestor height' = b.getAncestor height' := by
  obtain ⟨hsuffix, hheight⟩ := BlockProcessor.getAncestor_eq_some ha
  obtain ⟨c, hc⟩ := getAncestor_of_le (b := a) (hheight ▸ hle)
  have hab : a.nHeight ≤ b.nHeight := by
    have hlen := hsuffix.length_le
    rw [List.length_cons, List.length_cons] at hlen
    exact Nat.le_of_succ_le_succ hlen
  obtain ⟨d, hd⟩ := getAncestor_of_le (b := b) (hle.trans (hheight ▸ hab))
  obtain ⟨hcs, hch⟩ := BlockProcessor.getAncestor_eq_some hc
  obtain ⟨hds, hdh⟩ := BlockProcessor.getAncestor_eq_some hd
  rw [hc, hd, eq_of_suffix (hcs.trans hsuffix) hds (hch.trans hdh.symm)]

theorem parent_of_pos (ha : b.getAncestor height = some a) (hpos : 0 < height) :
    BlockProcessor.parent a = b.getAncestor (height-1) := by
  obtain ⟨hsuffix, hheight⟩ := BlockProcessor.getAncestor_eq_some ha
  have hab : a.nHeight ≤ b.nHeight := by
    have hlen := hsuffix.length_le
    rw [List.length_cons, List.length_cons] at hlen
    exact Nat.le_of_succ_le_succ hlen
  have hparent : height-1 ≤ b.nHeight := by omega
  obtain ⟨c, hc⟩ := getAncestor_of_le hparent
  obtain ⟨hcs, hch⟩ := BlockProcessor.getAncestor_eq_some hc
  obtain ⟨hash, pprev⟩ := a
  unfold CBlockIndex.nHeight at hheight
  cases pprev with
  | nil =>
    rw [List.length_nil] at hheight
    omega
  | cons h rest =>
    rw [List.length_cons] at hheight
    have hrest : (⟨h, rest⟩ : CBlockIndex) = c := by
      refine eq_of_suffix ((List.suffix_cons _ _).trans hsuffix) hcs ?_
      rw [hch]
      change rest.length = height-1
      omega
    rw [hc, ← hrest]
    rfl

theorem parent_of_zero (ha : b.getAncestor 0 = some a) : BlockProcessor.parent a = none := by
  have hheight := (BlockProcessor.getAncestor_eq_some ha).2
  obtain ⟨hash, pprev⟩ := a
  rw [show pprev = [] from List.eq_nil_of_length_eq_zero hheight, BlockProcessor.parent]

end Chain

/-! ### Entries until a block -/

theorem untilBlock_eq_filter (m : MinedHeights) :
    m.untilBlock pindex = m.entries.filter fun e =>
      decide (e.nMinedHeight ≤ pindex.nHeight) && decide (0 < e.nMinedHeight) := by
  have hdrop := OrdMap.dropWhile_eq_filter
    (p := fun e : MinedHeight => decide (pindex.nHeight < e.nMinedHeight)) m.sorted
    fun e _ f _ hef hf => by
      rw [decide_eq_true_eq] at hf ⊢
      exact hf.trans hef
  have htake := OrdMap.takeWhile_eq_filter
    (p := fun e : MinedHeight => decide (0 < e.nMinedHeight))
    (m.sorted.filter fun e : MinedHeight => !decide (pindex.nHeight < e.nMinedHeight))
    fun e _ f _ hef hf => by
      rw [decide_eq_true_eq] at hf ⊢
      exact hf.trans hef
  rw [MinedHeights.untilBlock, hdrop, htake, List.filter_filter]
  congr 1
  funext e
  rw [← decide_not, Bool.and_comm]
  congr 2
  exact propext not_lt

variable {pindex} in
/-- Until a lower block there are the entries that were mined by then. -/
theorem untilBlock_filter (m : MinedHeights) {pprev : CBlockIndex} {quorumHeight : ℕ}
    (hheight : pprev.nHeight+1 = quorumHeight) (hle : pprev.nHeight ≤ pindex.nHeight) :
    m.untilBlock pprev = (m.untilBlock pindex).filter fun e =>
      decide (e.nMinedHeight < quorumHeight) := by
  rw [untilBlock_eq_filter, untilBlock_eq_filter, List.filter_filter]
  congr 1
  funext e
  rw [Bool.eq_iff_iff]
  simp only [Bool.and_eq_true, decide_eq_true_eq]
  omega

/-! ### What a scan finds -/

variable {env params pindex} {S : CBlockIndex} {height : ℕ}

theorem ScanEnv.mem_of_getLLMQ {llmqType : LLMQType}
    (hparams : env.getLLMQ llmqType = some params) :
    params ∈ env.llmqs ∧ params.type = llmqType := by
  have htype := List.find?_some hparams
  exact ⟨List.mem_of_find?_eq_some hparams, of_decide_eq_true htype⟩

theorem untilBlock_sublist (m : MinedHeights) (pindex : CBlockIndex) :
    (m.untilBlock pindex).Sublist m.entries :=
  (List.takeWhile_sublist _).trans (List.dropWhile_sublist _)

theorem mem_untilBlock {m : MinedHeights} {e : MinedHeight} (he : e ∈ m.untilBlock S) :
    e ∈ m.entries :=
  (untilBlock_sublist m S).mem he

theorem nHeight_le (hS : env.tip.getAncestor height = some S) : S.nHeight ≤ env.tip.nHeight := by
  have hlen := (BlockProcessor.getAncestor_eq_some hS).1.length_le
  rw [List.length_cons, List.length_cons] at hlen
  exact Nat.le_of_succ_le_succ hlen

/-- The assertion on the first block of a quorum holds: it is on the chain of the scan. -/
theorem baseOf_eq (hS : env.tip.getAncestor height = some S) {m : MinedHeights} {e : MinedHeight}
    (he : e ∈ m.untilBlock S) : S.getAncestor e.quorumHeight = some (env.baseOf e) ∧
      env.tip.getAncestor e.quorumHeight = some (env.baseOf e) := by
  obtain ⟨a, ha⟩ := Option.isSome_iff_exists.mp (getAncestor_untilBlock S he)
  have hle : e.quorumHeight ≤ height := by
    have hmined := e.le.trans (untilBlock_le S he)
    rw [(BlockProcessor.getAncestor_eq_some hS).2] at hmined
    exact hmined
  have htip := ha
  rw [getAncestor_getAncestor hS hle] at htip
  rw [ScanEnv.baseOf, htip, Option.getD_some]
  exact ⟨ha, rfl⟩

theorem quorumOf_eq (hmem : params ∈ env.llmqs) (hS : env.tip.getAncestor height = some S)
    {i : ℕ} (hi : i < params.width) {e : MinedHeight}
    (he : e ∈ (minedHeights env.db params i).untilBlock S) :
    getQuorum env.db params.type (env.baseOf e) = some (env.quorumOf params e) := by
  have havailable := (env.scannable params hmem).available i hi e (mem_untilBlock he) _
    (baseOf_eq hS he).2
  obtain ⟨quorum, hquorum⟩ := Option.isSome_iff_exists.mp havailable
  rw [ScanEnv.quorumOf, hquorum, Option.getD_some]

theorem mem_minedUntil {e : MinedHeight} : e ∈ minedUntil env.db params S ↔
    ∃ i < params.width, e ∈ (minedHeights env.db params i).untilBlock S :=
  Columns.mem_listing

/-- A scan finds the first of the commitments mined until its block. -/
theorem scanCommitments_eq (hS : env.tip.getAncestor height = some S) (maxCount : ℕ) :
    scanCommitments env.db params S maxCount =
      ((minedUntil env.db params S).take maxCount).map env.baseOf := by
  unfold scanCommitments minedUntil
  by_cases hrotation : params.useRotation = true
  · have hrows : ∀ i, minedHeights env.db params i =
        env.db.minedByInversedHeightQIndexed params.type i := fun i => by
      rw [minedHeights, if_pos hrotation]
    have hcol : ∀ r, getLastMinedCommitmentsPerQuorumIndexUntilBlock env.db S
        params.toLLMQParams (0+r) = Columns.column params.signingActiveQuorumCount
          (fun i => ((minedHeights env.db params i).untilBlock S).map env.baseOf) r := by
      intro r
      rw [Nat.zero_add]
      refine List.filterMap_congr fun i _ => ?_
      rw [getLastMinedCommitmentsByQuorumIndexUntilBlock]
      dsimp only
      rw [hrows, List.getElem?_map]
      cases he : ((env.db.minedByInversedHeightQIndexed params.type i).untilBlock S)[r]? with
      | none => rfl
      | some e => exact (baseOf_eq hS (List.mem_of_getElem? he)).1
    rw [if_pos hrotation, getMinedCommitmentsIndexedUntilBlock,
      Columns.readColumns_eq hcol (Columns.deep_depth _ _) (by
        rw [List.length_nil, Nat.sub_zero])]
    rw [List.nil_append, List.length_nil, Nat.sub_zero, ScanParams.width, if_pos hrotation,
      List.map_take, ← Columns.listing_map, Columns.listing]
  · have hrows : (fun i => (minedHeights env.db params i).untilBlock S) =
        fun _ => (env.db.minedByInversedHeight params.type).untilBlock S := by
      funext i
      rw [minedHeights, if_neg hrotation]
    rw [if_neg hrotation, getMinedCommitmentsUntilBlock, ScanParams.width, if_neg hrotation,
      hrows, Columns.listing_one, ← List.filterMap_eq_map]
    exact List.filterMap_congr fun e he => (baseOf_eq hS (List.mem_of_mem_take he)).1

/-- Every quorum that a scan asks for is there. -/
theorem scanQuorums_available (hmem : params ∈ env.llmqs)
    (hS : env.tip.getAncestor height = some S) (maxCount : ℕ) :
    (scanCommitments env.db params S maxCount).mapM (getQuorum env.db params.type) =
      some ((quorumsUntil params S env).take maxCount) := by
  rw [scanCommitments_eq hS, quorumsUntil, ← List.map_take]
  have hall : ∀ e ∈ (minedUntil env.db params S).take maxCount,
      getQuorum env.db params.type (env.baseOf e) = some (env.quorumOf params e) := by
    intro e he
    obtain ⟨i, hi, he⟩ := mem_minedUntil.mp (List.mem_of_mem_take he)
    exact quorumOf_eq hmem hS hi he
  generalize (minedUntil env.db params S).take maxCount = entries at hall
  induction entries with
  | nil => rfl
  | cons e entries ih =>
    rw [List.forall_mem_cons] at hall
    rw [List.map_cons, List.mapM_cons, hall.1, ih hall.2]
    rfl

theorem quorumIndex_of_mem (hmem : params ∈ env.llmqs) {i : ℕ} (hi : i < params.width)
    {e : MinedHeight} (he : e ∈ (minedHeights env.db params i).untilBlock S) :
    params.quorumIndex e = i :=
  (env.scannable params hmem).index i hi e (mem_untilBlock he)

theorem minedUntil_nodup (hmem : params ∈ env.llmqs) :
    (minedUntil env.db params S).Nodup := by
  have htag : ∀ i < params.width, ∀ e ∈ (minedHeights env.db params i).untilBlock S,
      params.quorumIndex e = i := fun i hi e he => quorumIndex_of_mem hmem hi he
  refine Columns.nodup_listing htag fun i hi => ?_
  exact ((env.scannable params hmem).once i hi).of_map.sublist (untilBlock_sublist _ S)

/-- An entry is told by the first block of its quorum. -/
theorem eq_of_quorumHeight (hmem : params ∈ env.llmqs) {S' : CBlockIndex} {e f : MinedHeight}
    (he : e ∈ minedUntil env.db params S) (hf : f ∈ minedUntil env.db params S')
    (hheight : e.quorumHeight = f.quorumHeight) : e = f := by
  obtain ⟨i, hi, he⟩ := mem_minedUntil.mp he
  obtain ⟨j, hj, hf⟩ := mem_minedUntil.mp hf
  have hij : i = j := by
    rw [← quorumIndex_of_mem hmem hi he, ← quorumIndex_of_mem hmem hj hf, ScanParams.quorumIndex,
      ScanParams.quorumIndex, hheight]
  subst hij
  exact List.inj_on_of_nodup_map ((env.scannable params hmem).once i hi) (mem_untilBlock he)
    (mem_untilBlock hf) hheight

theorem quorumOf_base (hmem : params ∈ env.llmqs) (hS : env.tip.getAncestor height = some S)
    {e : MinedHeight} (he : e ∈ minedUntil env.db params S) :
    env.tip.getAncestor e.quorumHeight =
      some (env.quorumOf params e).m_quorum_base_block_index := by
  obtain ⟨i, hi, he⟩ := mem_minedUntil.mp he
  have hquorum := quorumOf_eq hmem hS hi he
  unfold getQuorum at hquorum
  dsimp only at hquorum
  split_ifs at hquorum with hmined
  rw [Option.some.injEq] at hquorum
  rw [← hquorum, (baseOf_eq hS he).2]

theorem quorumOf_injOn (hmem : params ∈ env.llmqs) (hS : env.tip.getAncestor height = some S)
    {S' : CBlockIndex} {height' : ℕ} (hS' : env.tip.getAncestor height' = some S')
    {e f : MinedHeight} (he : e ∈ minedUntil env.db params S)
    (hf : f ∈ minedUntil env.db params S')
    (heq : env.quorumOf params e = env.quorumOf params f) : e = f := by
  have hebase := quorumOf_base hmem hS he
  rw [heq, ← quorumOf_base hmem hS' hf] at hebase
  obtain ⟨b, hb⟩ := Option.isSome_iff_exists.mp
    (Option.isSome_of_eq_some (quorumOf_base hmem hS' hf))
  refine eq_of_quorumHeight hmem he hf ?_
  rw [← (BlockProcessor.getAncestor_eq_some (hebase.trans hb)).2,
    (BlockProcessor.getAncestor_eq_some hb).2]

theorem quorumsUntil_nodup (hmem : params ∈ env.llmqs)
    (hS : env.tip.getAncestor height = some S) : (quorumsUntil params S env).Nodup :=
  (minedUntil_nodup hmem).map_on fun _ he _ hf heq => quorumOf_injOn hmem hS hS he hf heq

/-! ### Going on after a cached quorum -/

/-- A scan can go on from below the first block of the last quorum that is cached: it is not the
first block of the chain, no cached quorum was mined below it, all others were, and these have
greater indexes than the last cached quorum or none has. -/
structure Resumes (params : ScanParams) (mined : List MinedHeight) (k : ℕ) (last : MinedHeight) :
    Prop where
  base : 0 < last.quorumHeight
  cached : ∀ e ∈ mined.take (k+1), last.quorumHeight ≤ e.nMinedHeight
  left : ∀ e ∈ mined.drop (k+1), e.nMinedHeight < last.quorumHeight
  side : Columns.OneSide params.quorumIndex last (mined.drop (k+1))

/-- Scans for a type resume at every block that one is cached for. -/
def Resumable (env : ScanEnv G₁ G₂) (llmqType : LLMQType) : Prop :=
  ∀ (height : ℕ) (pindexStart S : CBlockIndex) (params : ScanParams) (k : ℕ) (last : MinedHeight),
    env.tip.getAncestor height = some pindexStart → env.getLLMQ llmqType = some params →
    env.isQuorumTypeEnabled llmqType pindexStart = true →
    storeBlock params pindexStart = some S →
    k+1 = min params.keepOldConnections (minedUntil env.db params S).length →
    (minedUntil env.db params S)[k]? = some last →
    Resumes params (minedUntil env.db params S) k last

/-- Below the first block of a quorum a scan finds what is left exactly where it resumes. -/
theorem minedUntil_parent_iff (hmem : params ∈ env.llmqs) {k : ℕ} {last : MinedHeight}
    (hlast : (minedUntil env.db params S)[k]? = some last) {T : CBlockIndex}
    (hpos : 0 < last.quorumHeight)
    (hT : env.tip.getAncestor (last.quorumHeight-1) = some T) :
    minedUntil env.db params T = (minedUntil env.db params S).drop (k+1) ↔
      Resumes params (minedUntil env.db params S) k last := by
  obtain ⟨i, hi, he⟩ := mem_minedUntil.mp (List.mem_of_getElem? hlast)
  have hlow := last.le.trans (untilBlock_le S he)
  have hTheight := (BlockProcessor.getAncestor_eq_some hT).2
  have hrows : minedUntil env.db params T = Columns.listing params.width fun j =>
      ((minedHeights env.db params j).untilBlock S).filter fun e =>
        decide (e.nMinedHeight < last.quorumHeight) := by
    refine Columns.listing_congr fun j _ => ?_
    exact untilBlock_filter _ (by omega) (by omega)
  rw [hrows]
  have htag : ∀ j < params.width, ∀ e ∈ (minedHeights env.db params j).untilBlock S,
      params.quorumIndex e = j := fun j hj e he => quorumIndex_of_mem hmem hj he
  have hiff := Columns.listing_filter_iff
    (p := fun e : MinedHeight => decide (e.nMinedHeight < last.quorumHeight))
    htag (minedUntil_nodup hmem) hlast
  refine hiff.trans ?_
  simp only [decide_eq_true_eq, decide_eq_false_iff_not, not_lt]
  exact ⟨fun ⟨hcached, hleft, hside⟩ => ⟨hpos, hcached, hleft, hside⟩,
    fun h => ⟨h.cached, h.left, h.side⟩⟩

/-! ### The cache -/

/-- What is cached for a block are the newest quorums until it. -/
def CacheTells (env : ScanEnv G₁ G₂) (params : ScanParams)
    (cache : Cache uint256 (List (CQuorum G₁ G₂))) : Prop :=
  Holds (fun hash vec => ∀ (height : ℕ) (S : CBlockIndex), env.tip.getAncestor height = some S →
    S.hash = hash → vec = (quorumsUntil params S env).take params.keepOldConnections) cache

theorem eq_of_hash {S' : CBlockIndex} {height' : ℕ} (hS : env.tip.getAncestor height = some S)
    (hS' : env.tip.getAncestor height' = some S') (hhash : S.hash = S'.hash) : S = S' := by
  obtain ⟨hs, hheight⟩ := BlockProcessor.getAncestor_eq_some hS
  obtain ⟨hs', hheight'⟩ := BlockProcessor.getAncestor_eq_some hS'
  -- a block of the same hash lies neither before the other nor after it
  have hnot : ∀ {a b : CBlockIndex}, a.hash :: a.pprev <:+ env.tip.hash :: env.tip.pprev →
      b.hash :: b.pprev <:+ a.hash :: a.pprev → a.hash = b.hash → a.nHeight = b.nHeight := by
    intro a b ha hb heq
    rcases List.suffix_cons_iff.mp hb with hsame | hbelow
    · exact congrArg List.length (List.tail_eq_of_cons_eq hsame).symm
    · have hnodup := env.nodup.sublist ha.sublist
      rw [List.nodup_cons, heq] at hnodup
      exact absurd (hbelow.subset List.mem_cons_self) hnodup.1
  rcases List.suffix_or_suffix_of_suffix hs hs' with hsub | hsub
  · exact eq_of_suffix hs hs' (hnot hs' hsub hhash.symm).symm
  · exact eq_of_suffix hs hs' (hnot hs hsub hhash)

theorem cacheTells_insert {cache : Cache uint256 (List (CQuorum G₁ G₂))}
    (h : CacheTells env params cache) (hS : env.tip.getAncestor height = some S)
    {vec : List (CQuorum G₁ G₂)}
    (hvec : vec = (quorumsUntil params S env).take params.keepOldConnections) :
    CacheTells env params (insert cache S.hash vec) := by
  refine Holds.insert h fun height' S' hS' hhash => ?_
  rw [eq_of_hash hS' hS hhash]
  exact hvec

theorem scanFrom_eq (hmem : params ∈ env.llmqs) {T : CBlockIndex} {height' : ℕ}
    (hT : env.tip.getAncestor height' = some T) (scanQuorumsCache : ScanCache G₁ G₂)
    (nScan n : ℕ) (vec : List (CQuorum G₁ G₂)) :
    scanFrom params env scanQuorumsCache S T nScan n vec =
      let found := vec ++ (quorumsUntil params T env).take nScan
      (found.take n, if found.isEmpty = true then scanQuorumsCache else
        Function.update scanQuorumsCache params.type
          (insert (scanQuorumsCache params.type) S.hash
            (found.take params.keepOldConnections))) := by
  unfold scanFrom
  dsimp only
  rw [scanQuorums_available hmem hT]

/-- A scan that finds a first part of the quorums, at least as many as are cached. -/
theorem scanFrom_spec (hmem : params ∈ env.llmqs) (hS : env.tip.getAncestor height = some S)
    {T : CBlockIndex} {height' : ℕ} (hT : env.tip.getAncestor height' = some T)
    {scanQuorumsCache : ScanCache G₁ G₂} (hcache : CacheTells env params
      (scanQuorumsCache params.type)) {nScan n m : ℕ} {vec : List (CQuorum G₁ G₂)}
    (hfound : vec ++ (quorumsUntil params T env).take nScan = (quorumsUntil params S env).take m)
    (hn : n ≤ m)
    (hm : min params.keepOldConnections (quorumsUntil params S env).length ≤ m) :
    (scanFrom params env scanQuorumsCache S T nScan n vec).1 =
        (quorumsUntil params S env).take n ∧
      CacheTells env params ((scanFrom params env scanQuorumsCache S T nScan n vec).2
        params.type) := by
  rw [scanFrom_eq hmem hT]
  dsimp only
  rw [hfound, List.take_take, List.take_take, min_eq_left hn]
  refine ⟨rfl, ?_⟩
  split_ifs with hempty
  · exact hcache
  · rw [Function.update_self]
    refine cacheTells_insert hcache hS ?_
    rw [List.take_eq_take_iff]
    omega

theorem last_cached {vec : List (CQuorum G₁ G₂)} {back : CQuorum G₁ G₂}
    (hvec : vec = (quorumsUntil params S env).take params.keepOldConnections)
    (hback : vec.getLast? = some back) : ∃ k last, k+1 = vec.length ∧
      (minedUntil env.db params S)[k]? = some last ∧ back = env.quorumOf params last := by
  have hne : vec ≠ [] := by
    rintro rfl
    contradiction
  have hpos := List.length_pos_iff.mpr hne
  rw [List.getLast?_eq_getElem?] at hback
  have hlength : vec.length ≤ params.keepOldConnections := by
    rw [hvec, List.length_take]
    exact min_le_left _ _
  rw [hvec, List.getElem?_take_of_lt (by rw [← hvec]; omega), ← hvec, quorumsUntil,
    List.getElem?_map, Option.map_eq_some_iff] at hback
  obtain ⟨last, hlast, hquorum⟩ := hback
  exact ⟨vec.length-1, last, by omega, hlast, hquorum.symm⟩

/-- A call that meets what its store block has cached returns the quorums until that block. -/
theorem scanStore_spec (hmem : params ∈ env.llmqs) (hS : env.tip.getAncestor height = some S)
    {scanQuorumsCache : ScanCache G₁ G₂} (hcache : CacheTells env params
      (scanQuorumsCache params.type))
    (hresumes : ∀ k last, k+1 = min params.keepOldConnections
      (minedUntil env.db params S).length → (minedUntil env.db params S)[k]? = some last →
      Resumes params (minedUntil env.db params S) k last) (n : ℕ) :
    (scanStore params env scanQuorumsCache S n).1 = (quorumsUntil params S env).take n ∧
      CacheTells env params ((scanStore params env scanQuorumsCache S n).2 params.type) := by
  have hget := Holds.get_state hcache S.hash
  have hvalue : ∀ vec, (get (scanQuorumsCache params.type) S.hash).1 = some vec → _ :=
    fun vec hvec => Holds.get_value hcache hvec
  unfold scanStore
  cases hasked : get (scanQuorumsCache params.type) S.hash with
  | mk hit cache =>
    rw [hasked] at hget hvalue
    cases hit with
    | none =>
      refine scanFrom_spec hmem hS hS hcache (List.nil_append _) (le_max_left _ _) ?_
      exact (min_le_left _ _).trans (le_max_right _ _)
    | some vec =>
      have hvec := hvalue vec rfl height S hS rfl
      have hlength : vec.length =
          min params.keepOldConnections (quorumsUntil params S env).length := by
        rw [hvec, List.length_take]
      have htells : CacheTells env params
          (Function.update scanQuorumsCache params.type cache params.type) := by
        rw [Function.update_self]
        exact hget
      dsimp only
      by_cases hexact : vec.length = n
      · rw [if_pos hexact]
        refine ⟨?_, htells⟩
        rw [hvec, List.take_eq_take_iff]
        omega
      rw [if_neg hexact]
      by_cases hmore : n < vec.length
      · rw [if_pos hmore]
        refine ⟨?_, htells⟩
        rw [hvec, List.take_take, List.take_eq_take_iff]
        omega
      rw [if_neg hmore]
      cases hback : vec.getLast? with
      | none =>
        have hnil := List.getLast?_eq_none_iff.mp hback
        rw [hnil, List.length_nil] at hlength
        refine scanFrom_spec hmem hS hS htells (List.nil_append _) (le_refl n) ?_
        omega
      | some back =>
        obtain ⟨k, last, hk, hlast, rfl⟩ := last_cached hvec hback
        have hmined : (quorumsUntil params S env).length =
            (minedUntil env.db params S).length := List.length_map _
        have hres := hresumes k last (by omega) hlast
        have hbase := quorumOf_base hmem hS (List.mem_of_getElem? hlast)
        have hparent := parent_of_pos hbase hres.base
        obtain ⟨T, hT⟩ : ∃ T, env.tip.getAncestor (last.quorumHeight-1) = some T := by
          refine getAncestor_of_le ?_
          have hlow := nHeight_le hbase
          rw [(BlockProcessor.getAncestor_eq_some hbase).2] at hlow
          omega
        rw [hT] at hparent
        dsimp only
        rw [hparent]
        have hleft := (minedUntil_parent_iff hmem hlast hres.base hT).mpr hres
        have hvec' : vec = (quorumsUntil params S env).take vec.length := by
          conv_lhs => rw [hvec]
          rw [List.take_eq_take_iff]
          omega
        refine scanFrom_spec hmem hS hT htells ?_ (le_refl n) (by omega)
        calc
          vec ++ (quorumsUntil params T env).take (n-vec.length)
            = (quorumsUntil params S env).take vec.length ++
                ((quorumsUntil params S env).drop vec.length).take (n-vec.length) := by
              rw [← hvec', quorumsUntil, hleft, ← hk, List.map_drop, quorumsUntil]
          _ = (quorumsUntil params S env).take (vec.length+(n-vec.length)) :=
              List.take_add.symm
          _ = (quorumsUntil params S env).take n := by
              rw [Nat.add_sub_of_le (not_lt.mp hmore)]

/-- The caches of the other types stay as they are. -/
theorem scanFrom_of_ne {t : LLMQType} (hne : t ≠ params.type) (scanQuorumsCache : ScanCache G₁ G₂)
    (T : CBlockIndex) (nScan n : ℕ) (vec : List (CQuorum G₁ G₂)) :
    (scanFrom params env scanQuorumsCache S T nScan n vec).2 t = scanQuorumsCache t := by
  unfold scanFrom
  dsimp only
  split
  · rfl
  · split_ifs
    · rfl
    · exact Function.update_of_ne hne _ _

theorem scanStore_of_ne {t : LLMQType} (hne : t ≠ params.type)
    (scanQuorumsCache : ScanCache G₁ G₂) (n : ℕ) :
    (scanStore params env scanQuorumsCache S n).2 t = scanQuorumsCache t := by
  unfold scanStore
  cases get (scanQuorumsCache params.type) S.hash with
  | mk hit cache =>
    have hupdate : Function.update scanQuorumsCache params.type cache t = scanQuorumsCache t :=
      Function.update_of_ne hne _ _
    cases hit with
    | none => exact scanFrom_of_ne hne _ _ _ _ _
    | some vec =>
      dsimp only
      split_ifs
      · exact hupdate
      · exact hupdate
      · split
        · exact (scanFrom_of_ne hne _ _ _ _ _).trans hupdate
        · split
          · exact hupdate
          · exact (scanFrom_of_ne hne _ _ _ _ _).trans hupdate

/-! ### Runs -/

/-- A call after others: it answers as the first call of a process would, with the quorums mined
until its store block, each once. -/
structure Transparent (env : ScanEnv G₁ G₂) (calls : List ScanCall) (call : ScanCall) : Prop where
  fresh : (scanStep env (Runs.final (scanStep env) (freshScanCache env) calls) call).1 =
    (scanStep env (freshScanCache env) call).1
  mined : (scanStep env (Runs.final (scanStep env) (freshScanCache env) calls) call).1 =
    minedQuorums env call.llmqType (env.tip.getAncestor call.height) call.nCountRequested
  nodup : (scanStep env (Runs.final (scanStep env) (freshScanCache env) calls) call).1.Nodup

/-- The cache of a type holds what it should. -/
def ScanInv (env : ScanEnv G₁ G₂) (llmqType : LLMQType) (scanQuorumsCache : ScanCache G₁ G₂) :
    Prop :=
  ∀ params, env.getLLMQ llmqType = some params →
    CacheTells env params (scanQuorumsCache llmqType)

theorem scanInv_fresh (env : ScanEnv G₁ G₂) (llmqType : LLMQType) :
    ScanInv env llmqType (freshScanCache env) :=
  fun _ _ => holds_create _ _

theorem storeBlock_ancestor {pindexStart : CBlockIndex}
    (hstart : env.tip.getAncestor height = some pindexStart)
    (hstore : storeBlock params pindexStart = some S) :
    ∃ height', env.tip.getAncestor height' = some S := by
  have hsame : ∀ {height'}, pindexStart.getAncestor height' = some S →
      env.tip.getAncestor height' = some S := by
    intro height' h
    refine (getAncestor_getAncestor hstart ?_).symm.trans h
    unfold CBlockIndex.getAncestor at h
    split_ifs at h with hlt
    rw [← (BlockProcessor.getAncestor_eq_some hstart).2]
    exact not_lt.mp hlt
  unfold storeBlock at hstore
  dsimp only at hstore
  split_ifs at hstore
  · exact ⟨_, hsame hstore⟩
  · exact ⟨_, hsame hstore⟩
  · rw [Option.some.injEq] at hstore
    exact ⟨height, hstore ▸ hstart⟩

/-- What one call keeps and answers where scans for the type resume. -/
theorem scanStep_spec {llmqType : LLMQType} (hresumable : Resumable env llmqType)
    {scanQuorumsCache : ScanCache G₁ G₂} (hinv : ScanInv env llmqType scanQuorumsCache)
    (call : ScanCall) :
    ScanInv env llmqType (scanStep env scanQuorumsCache call).2 ∧
      (call.llmqType = llmqType → (scanStep env scanQuorumsCache call).1 =
        minedQuorums env llmqType (env.tip.getAncestor call.height) call.nCountRequested) := by
  unfold scanStep scanQuorums minedQuorums
  cases hstart : env.tip.getAncestor call.height with
  | none => exact ⟨hinv, fun _ => rfl⟩
  | some pindexStart =>
    cases hparams : env.getLLMQ call.llmqType with
    | none =>
      refine ⟨hinv, fun heq => ?_⟩
      rw [← heq, hparams]
    | some params =>
      obtain ⟨hmem, htype⟩ := env.mem_of_getLLMQ hparams
      dsimp only
      by_cases hempty : call.nCountRequested = 0 ∨
          env.isQuorumTypeEnabled call.llmqType pindexStart = false
      · rw [if_pos hempty]
        refine ⟨hinv, fun heq => ?_⟩
        rw [← heq, hparams]
        dsimp only
        rcases hempty with hzero | hoff
        · rw [hzero]
          split_ifs
          · rfl
          · split <;> rfl
        · rw [if_pos hoff]
      · rw [not_or, Bool.not_eq_false] at hempty
        rw [if_neg (by rw [not_or, Bool.not_eq_false]; exact hempty)]
        cases hstore : storeBlock params pindexStart with
        | none =>
          refine ⟨hinv, fun heq => ?_⟩
          rw [← heq, hparams]
          dsimp only
          rw [hempty.2, if_neg (Bool.noConfusion), hstore]
        | some S =>
          obtain ⟨height', hS⟩ := storeBlock_ancestor hstart hstore
          dsimp only
          by_cases heq : call.llmqType = llmqType
          · subst heq
            have hspec := scanStore_spec hmem hS (htype ▸ hinv params hparams)
              (fun k last hk hlast => hresumable call.height pindexStart S params k last hstart
                hparams hempty.2 hstore hk hlast) call.nCountRequested
            refine ⟨fun params' hparams' => ?_, fun _ => ?_⟩
            · rw [hparams, Option.some.injEq] at hparams'
              rw [← hparams', ← htype]
              exact hspec.2
            · rw [hparams]
              dsimp only
              rw [hempty.2, if_neg (Bool.noConfusion), hstore]
              exact hspec.1
          · refine ⟨fun params' hparams' => ?_, fun h => absurd h heq⟩
            rw [scanStore_of_ne (by rw [htype]; exact fun h => heq h.symm)]
            exact hinv params' hparams'

theorem scanInv_final {llmqType : LLMQType} (hresumable : Resumable env llmqType)
    (calls : List ScanCall) :
    ScanInv env llmqType (Runs.final (scanStep env) (freshScanCache env) calls) :=
  Runs.final_invariant (C := fun _ _ => True) (ScanInv env llmqType)
    (fun _ call hinv _ => (scanStep_spec hresumable hinv call).1) (scanInv_fresh env llmqType)
    (Runs.everyStep_true _ calls)

/-! ### The first calls -/

theorem scanStore_of_miss {scanQuorumsCache : ScanCache G₁ G₂}
    (hmiss : (get (scanQuorumsCache params.type) S.hash).1 = none) (n : ℕ) :
    scanStore params env scanQuorumsCache S n =
      scanFrom params env scanQuorumsCache S S (max n params.keepOldConnections) n [] := by
  unfold scanStore
  cases hasked : get (scanQuorumsCache params.type) S.hash with
  | mk hit cache =>
    rw [hasked] at hmiss
    dsimp only at hmiss
    subst hmiss
    rfl

/-- A call that asks for more than what is cached goes on below the last quorum cached. -/
theorem scanStore_of_more {scanQuorumsCache : ScanCache G₁ G₂}
    {vec : List (CQuorum G₁ G₂)} {back : CQuorum G₁ G₂} {n : ℕ}
    (hhit : (get (scanQuorumsCache params.type) S.hash).1 = some vec) (hmore : vec.length < n)
    (hback : vec.getLast? = some back) :
    (scanStore params env scanQuorumsCache S n).1 =
      match BlockProcessor.parent back.m_quorum_base_block_index with
      | none => []
      | some T => (scanFrom params env scanQuorumsCache S T (n-vec.length) n vec).1 := by
  unfold scanStore
  cases hasked : get (scanQuorumsCache params.type) S.hash with
  | mk hit cache =>
    rw [hasked] at hhit
    dsimp only at hhit
    subst hhit
    dsimp only
    rw [if_neg hmore.ne, if_neg hmore.not_gt, hback]
    dsimp only
    cases BlockProcessor.parent back.m_quorum_base_block_index with
    | none => rfl
    | some T =>
      dsimp only
      unfold scanFrom
      dsimp only
      cases (scanCommitments env.db params T (n-vec.length)).mapM (getQuorum env.db params.type)
        with
      | none => rfl
      | some quorums => rfl

theorem scanStore_fresh (hmem : params ∈ env.llmqs)
    (hparams : env.getLLMQ params.type = some params)
    (hS : env.tip.getAncestor height = some S) (n : ℕ) :
    (scanStore params env (freshScanCache env) S n).1 = (quorumsUntil params S env).take n := by
  rw [scanStore_of_miss rfl]
  have hcache : CacheTells env params (freshScanCache env params.type) :=
    scanInv_fresh env params.type params hparams
  refine (scanFrom_spec hmem hS hS hcache (List.nil_append _) (le_max_left _ _) ?_).1
  exact (min_le_left _ _).trans (le_max_right _ _)

/-- What the first call of a process leaves in the cache. -/
theorem get_after_fresh (hmem : params ∈ env.llmqs)
    (hparams : env.getLLMQ params.type = some params)
    (hS : env.tip.getAncestor height = some S) (hne : minedUntil env.db params S ≠ []) :
    (get ((scanStore params env (freshScanCache env) S 1).2 params.type) S.hash).1 =
      some ((quorumsUntil params S env).take params.keepOldConnections) := by
  have hquorums : quorumsUntil params S env ≠ [] := fun hnil => hne (List.map_eq_nil_iff.mp hnil)
  have hsize : freshScanCache env params.type = create params.cacheSize := by
    rw [freshScanCache, hparams, Option.map_some, Option.getD_some]
  rw [scanStore_of_miss rfl, scanFrom_eq hmem hS]
  dsimp only
  rw [List.nil_append, if_neg (by
    rw [List.isEmpty_iff, List.take_eq_nil_iff]
    rintro (hzero | hnil)
    · omega
    · exact hquorums hnil), Function.update_self, hsize,
    get_insert_create params.cacheSize_pos, List.take_take, min_eq_left (le_max_right _ _)]

/-- The first call of a process answers with the quorums mined until its store block. -/
theorem scanStep_fresh (env : ScanEnv G₁ G₂) (call : ScanCall) :
    (scanStep env (freshScanCache env) call).1 =
      minedQuorums env call.llmqType (env.tip.getAncestor call.height) call.nCountRequested := by
  unfold scanStep scanQuorums minedQuorums
  cases hstart : env.tip.getAncestor call.height with
  | none => rfl
  | some pindexStart =>
    cases hparams : env.getLLMQ call.llmqType with
    | none => rfl
    | some params =>
      obtain ⟨hmem, htype⟩ := env.mem_of_getLLMQ hparams
      dsimp only
      cases hoff : env.isQuorumTypeEnabled call.llmqType pindexStart with
      | false => rw [if_pos (Or.inr rfl), if_pos rfl]
      | true =>
        rw [if_neg (fun h : true = false => Bool.noConfusion h)]
        cases hstore : storeBlock params pindexStart with
        | none =>
          dsimp only
          rw [ite_self]
        | some S =>
          obtain ⟨height, hS⟩ := storeBlock_ancestor hstart hstore
          dsimp only
          by_cases hzero : call.nCountRequested = 0
          · rw [if_pos (Or.inl hzero), hzero, List.take_zero]
          · rw [if_neg (fun h => h.elim hzero Bool.noConfusion)]
            exact scanStore_fresh hmem (htype ▸ hparams) hS _

theorem minedQuorums_nodup (env : ScanEnv G₁ G₂) (llmqType : LLMQType) (height n : ℕ) :
    (minedQuorums env llmqType (env.tip.getAncestor height) n).Nodup := by
  unfold minedQuorums
  cases hstart : env.tip.getAncestor height with
  | none => exact List.nodup_nil
  | some pindexStart =>
    cases hparams : env.getLLMQ llmqType with
    | none => exact List.nodup_nil
    | some params =>
      dsimp only
      split_ifs
      · exact List.nodup_nil
      · cases hstore : storeBlock params pindexStart with
        | none => exact List.nodup_nil
        | some S =>
          obtain ⟨height', hS⟩ := storeBlock_ancestor hstart hstore
          have hnodup := quorumsUntil_nodup (env.mem_of_getLLMQ hparams).1 hS
          exact hnodup.sublist (List.take_sublist n _)

/-! ### Transparency -/

theorem scanStep_eq {pindexStart : CBlockIndex} {llmqType : LLMQType} {n : ℕ}
    (hstart : env.tip.getAncestor height = some pindexStart)
    (hparams : env.getLLMQ llmqType = some params)
    (hon : env.isQuorumTypeEnabled llmqType pindexStart = true)
    (hstore : storeBlock params pindexStart = some S) (hn : n ≠ 0)
    (scanQuorumsCache : ScanCache G₁ G₂) :
    scanStep env scanQuorumsCache ⟨llmqType, height, n⟩ =
      scanStore params env scanQuorumsCache S n := by
  simp only [scanStep, scanQuorums, hstart, hparams, hon, hstore, hn, or_self, if_false,
    Bool.true_eq_false]

theorem minedQuorums_eq {pindexStart : CBlockIndex} {llmqType : LLMQType} {n : ℕ}
    (hstart : env.tip.getAncestor height = some pindexStart)
    (hparams : env.getLLMQ llmqType = some params)
    (hon : env.isQuorumTypeEnabled llmqType pindexStart = true)
    (hstore : storeBlock params pindexStart = some S) :
    minedQuorums env llmqType (env.tip.getAncestor height) n =
      (quorumsUntil params S env).take n := by
  simp only [minedQuorums, hstart, hparams, hon, hstore, if_false, Bool.true_eq_false]

theorem eq_of_map_eq {α β : Type*} {f : α → β} {l l' : List α}
    (hinj : ∀ a ∈ l, ∀ b ∈ l', f a = f b → a = b) (heq : l.map f = l'.map f) : l = l' := by
  induction l generalizing l' with
  | nil => exact (List.map_eq_nil_iff.mp heq.symm).symm
  | cons a l ih =>
    obtain ⟨b, rest, rfl, hb, hrest⟩ := List.map_eq_cons_iff.mp heq.symm
    rw [hinj a List.mem_cons_self b List.mem_cons_self hb.symm,
      ih (fun a' ha b' hb => hinj a' (List.mem_cons_of_mem a ha) b'
        (List.mem_cons_of_mem b hb)) hrest.symm]

/-- Where a scan does not resume, asking again for more shows it. -/
theorem resumes_of_transparent {llmqType : LLMQType}
    (htransparent : ∀ (calls : List ScanCall) (height n : ℕ),
      Transparent env calls ⟨llmqType, height, n⟩) : Resumable env llmqType := by
  intro height pindexStart S params k last hstart hparams hon hstore hk hlast
  obtain ⟨hmem, htype⟩ := env.mem_of_getLLMQ hparams
  subst htype
  obtain ⟨height', hS⟩ := storeBlock_ancestor hstart hstore
  have hne : minedUntil env.db params S ≠ [] := List.ne_nil_of_mem (List.mem_of_getElem? hlast)
  have hanswer : ∀ n, (scanStore params env
      (scanStore params env (freshScanCache env) S 1).2 S (n+1)).1 =
        (quorumsUntil params S env).take (n+1) := by
    intro n
    have hmined := (htransparent [⟨params.type, height, 1⟩] height (n+1)).mined
    rw [minedQuorums_eq hstart hparams hon hstore] at hmined
    rw [Runs.final, Runs.final, scanStep_eq hstart hparams hon hstore (Nat.succ_ne_zero n),
      scanStep_eq hstart hparams hon hstore one_ne_zero] at hmined
    exact hmined
  have hget := get_after_fresh hmem hparams hS hne
  obtain ⟨vec, hvec⟩ : ∃ vec, vec = (quorumsUntil params S env).take params.keepOldConnections :=
    ⟨_, rfl⟩
  rw [← hvec] at hget
  have hmapped : (quorumsUntil params S env).length = (minedUntil env.db params S).length :=
    List.length_map _
  have hlength : vec.length = k+1 := by rw [hvec, List.length_take, hmapped, hk]
  have hback : vec.getLast? = some (env.quorumOf params last) := by
    rw [List.getLast?_eq_getElem?, hlength, Nat.add_sub_cancel, hvec,
      List.getElem?_take_of_lt (by omega), quorumsUntil, List.getElem?_map, hlast,
      Option.map_some]
  have hbase := quorumOf_base hmem hS (List.mem_of_getElem? hlast)
  have hmore : ∀ n, k < n → vec.length < n+1 := fun n h => by omega
  rcases Nat.eq_zero_or_pos last.quorumHeight with hzero | hpos
  · rw [hzero] at hbase
    have hnone := hanswer (k+1)
    rw [scanStore_of_more hget (hmore _ (Nat.lt_succ_self k)) hback, parent_of_zero hbase]
      at hnone
    have hempty := List.take_eq_nil_iff.mp hnone.symm
    rcases hempty with hcount | hnil
    · omega
    · exact absurd (List.map_eq_nil_iff.mp hnil) hne
  · have hparent := parent_of_pos hbase hpos
    obtain ⟨T, hT⟩ : ∃ T, env.tip.getAncestor (last.quorumHeight-1) = some T := by
      refine getAncestor_of_le ?_
      have hlow := nHeight_le hbase
      rw [(BlockProcessor.getAncestor_eq_some hbase).2] at hlow
      omega
    have hall := hanswer (k+1+(quorumsUntil params S env).length+
      (quorumsUntil params T env).length)
    rw [scanStore_of_more hget (hmore _ (by omega)) hback, hparent, hT] at hall
    dsimp only at hall
    rw [scanFrom_eq hmem hT, hlength] at hall
    dsimp only at hall
    rw [List.take_of_length_le (l := quorumsUntil params T env) (by omega),
      List.take_of_length_le (l := quorumsUntil params S env) (by omega),
      List.take_of_length_le (by
        rw [List.length_append, hlength]
        omega)] at hall
    have hkept : vec = (quorumsUntil params S env).take (k+1) := by
      rw [hvec, List.take_eq_take_iff]
      omega
    rw [hkept] at hall
    conv_rhs at hall => rw [← List.take_append_drop (k+1) (quorumsUntil params S env)]
    have hleft := List.append_cancel_left hall
    rw [quorumsUntil, quorumsUntil, ← List.map_drop] at hleft
    refine (minedUntil_parent_iff hmem hlast hpos hT).mp (eq_of_map_eq (fun e he f hf => ?_) hleft)
    exact quorumOf_injOn hmem hT hS he (List.mem_of_mem_drop hf)

/-- Scans for a type are transparent to the cache on every history of calls exactly when they
resume at every block that one is cached for. -/
theorem scanQuorums_transparent_iff (env : ScanEnv G₁ G₂) (llmqType : LLMQType) :
    (∀ (calls : List ScanCall) (height nCountRequested : ℕ),
      Transparent env calls ⟨llmqType, height, nCountRequested⟩) ↔ Resumable env llmqType := by
  refine ⟨resumes_of_transparent, fun hresumable calls height n => ?_⟩
  have hmined := (scanStep_spec hresumable (scanInv_final hresumable calls)
    ⟨llmqType, height, n⟩).2 rfl
  refine ⟨hmined.trans (scanStep_fresh env ⟨llmqType, height, n⟩).symm, hmined, ?_⟩
  rw [hmined]
  exact minedQuorums_nodup env llmqType height n

/-! ### Quorums that are returned twice -/

def dip0024Params : ScanParams where
  type := 103
  useRotation := true
  dkgInterval := 24
  signingActiveQuorumCount := 2
  keepOldKeys := 4
  keepOldConnections := 4
  dkgMiningWindowStart := 12
  dkgMiningWindowEnd := 20
  window_lt := by decide
  cache_pos := by decide

def minedIn (quorumIndex : ℕ) (cycles : List ℕ) : List MinedHeight :=
  cycles.map fun cycle => ⟨24*cycle+12, 24*cycle+min quorumIndex 12, by omega⟩

theorem sorted_nil : ([] : List MinedHeight).Pairwise fun e f => f.nMinedHeight < e.nMinedHeight :=
  List.Pairwise.nil

/-- A chain in the sixth cycle, in which the first of its two quorums was not mined. -/
def skippedCycle : ScanEnv Unit Unit where
  llmqs := [dip0024Params]
  isQuorumTypeEnabled _ _ := true
  db :=
    { minedCommitment := fun _ quorumHash => some ({quorumHash := quorumHash}, 1)
      minedByInversedHeight := fun _ => {sorted := sorted_nil}
      minedByInversedHeightQIndexed := fun _ quorumIndex =>
        match quorumIndex with
        | 0 => {entries := minedIn 0 [5, 4, 3, 2], sorted := by decide}
        | 1 => {entries := minedIn 1 [6, 5, 4, 3, 2], sorted := by decide}
        | _ => {sorted := sorted_nil} }
  tip := ⟨167, ((List.range 166).map fun height => BitVec.ofNat 256 (height+1)).reverse⟩
  nodup := by decide +kernel
  scannable := by
    intro params hparams
    rw [List.mem_singleton.mp hparams]
    refine ⟨by decide, by decide, fun _ _ _ _ _ _ => rfl⟩

/-- After a first call, asking for six quorums returns one of them twice. -/
theorem scanQuorums_not_transparent :
    ¬∀ (calls : List ScanCall) (height nCountRequested : ℕ),
      Transparent skippedCycle calls ⟨103, height, nCountRequested⟩ := by
  intro htransparent
  have hnodup := (htransparent [⟨103, 166, 1⟩] 166 6).nodup
  revert hnodup
  decide +kernel

end BabaChain.LLMQ
