import BabaChain.Primitives
import BabaChain.Lib.OrdMap

/-! Quorum types, their mined commitments and the quorums active at a block. -/
namespace BabaChain.LLMQ
open Std (ExtTreeMap)

abbrev LLMQType := UInt8

structure LLMQParams where
  type : LLMQType
  useRotation : Bool
  dkgInterval : ℕ
  signingActiveQuorumCount : ℕ
  keepOldKeys : ℕ
deriving DecidableEq, Repr

/-- The quorum types of a network. `AddLLMQ` asserts that it adds each once. -/
structure Consensus where
  llmqs : List LLMQParams
  DIP0024Height : ℤ
  nodup : (llmqs.map LLMQParams.type).Nodup

def Consensus.getLLMQ (c : Consensus) (llmqType : LLMQType) : Option LLMQParams :=
  c.llmqs.find? fun llmq_param => llmq_param.type = llmqType

/-- A block with the hashes of its ancestors, newest first. Two pointers are
equal where these are. -/
structure CBlockIndex where
  hash : uint256
  pprev : List uint256
deriving DecidableEq, Repr

namespace CBlockIndex

def nHeight (pindex : CBlockIndex) : ℕ := pindex.pprev.length

def getAncestor (pindex : CBlockIndex) (height : ℕ) : Option CBlockIndex :=
  if pindex.nHeight < height then
    none
  else
    match (pindex.hash :: pindex.pprev).drop (pindex.nHeight-height) with
    | [] => none
    | hash :: pprev => some ⟨hash, pprev⟩

end CBlockIndex

def isQuorumRotationEnabled (c : Consensus) (llmqParams : LLMQParams) (pindex : CBlockIndex) :
    Bool :=
  if llmqParams.useRotation then
    let cycleQuorumBaseHeight := pindex.nHeight-pindex.nHeight%llmqParams.dkgInterval
    -- active after the ancestor one block below the cycle base
    decide (1 ≤ cycleQuorumBaseHeight ∧ c.DIP0024Height ≤ cycleQuorumBaseHeight)
  else
    false

/-- A final commitment. A BLS key or signature that is not valid is `none`. -/
structure CFinalCommitment (G₁ G₂ : Type*) where
  nVersion : BitVec 16 := 1
  llmqType : LLMQType := 0xff
  quorumHash : uint256 := 0
  quorumIndex : ℤ := 0
  signers : List Bool := []
  validMembers : List Bool := []
  quorumPublicKey : Option G₁ := none
  quorumVvecHash : uint256 := 0
  quorumSig : Option G₂ := none
  membersSig : Option G₂ := none
deriving DecidableEq

variable {G₁ G₂ : Type*}

def CFinalCommitment.isNull (qc : CFinalCommitment G₁ G₂) : Bool :=
  if true ∈ qc.signers ∨ true ∈ qc.validMembers then
    false
  else
    !(qc.quorumPublicKey.isSome || qc.quorumVvecHash != 0 || qc.membersSig.isSome ||
      qc.quorumSig.isSome)

/-- The height a commitment was mined at, and that of its quorum's first block. -/
structure MinedHeight where
  nMinedHeight : ℕ
  quorumHeight : ℕ
  le : quorumHeight ≤ nMinedHeight

/-- The heights that an iterator meets under one key prefix: the keys hold the
inversed heights, so the newest comes first. -/
structure MinedHeights where
  entries : List MinedHeight := []
  sorted : entries.Pairwise fun e f => f.nMinedHeight < e.nMinedHeight := by simp

/-- The tables of the database that `CQuorumBlockProcessor` keeps. -/
structure CEvoDB (G₁ G₂ : Type*) where
  minedCommitment : LLMQType → uint256 → Option (CFinalCommitment G₁ G₂ × uint256)
  minedByInversedHeight : LLMQType → MinedHeights
  minedByInversedHeightQIndexed : LLMQType → ℕ → MinedHeights

/-- The entries from `Seek(firstKey)` on and before `lastKey`. -/
def MinedHeights.untilBlock (m : MinedHeights) (pindex : CBlockIndex) : List MinedHeight :=
  (m.entries.dropWhile fun e => decide (pindex.nHeight < e.nMinedHeight)).takeWhile
    fun e => decide (0 < e.nMinedHeight)

variable (db : CEvoDB G₁ G₂) (llmqType : LLMQType) (pindex : CBlockIndex)

def getMinedCommitment (quorumHash : uint256) : CFinalCommitment G₁ G₂ × uint256 :=
  (db.minedCommitment llmqType quorumHash).getD ({}, 0)

/-- The most recent quorum is at index 0. The ancestors exist, as the source
asserts: a quorum starts no later than its commitment is mined. -/
def getMinedCommitmentsUntilBlock (maxCount : ℕ) : List CBlockIndex :=
  (((db.minedByInversedHeight llmqType).untilBlock pindex).take maxCount).filterMap
    fun e => pindex.getAncestor e.quorumHeight

def getLastMinedCommitmentsByQuorumIndexUntilBlock (quorumIndex cycle : ℕ) : Option CBlockIndex :=
  (((db.minedByInversedHeightQIndexed llmqType quorumIndex).untilBlock pindex)[cycle]?).bind
    fun e => pindex.getAncestor e.quorumHeight

def getLastMinedCommitmentsPerQuorumIndexUntilBlock (params : LLMQParams) (cycle : ℕ) :
    List CBlockIndex :=
  (List.range params.signingActiveQuorumCount).filterMap fun quorumIndex =>
    getLastMinedCommitmentsByQuorumIndexUntilBlock db params.type pindex quorumIndex cycle

/-- The quorums of each type, by `std::map`. -/
abbrev QuorumMap := ExtTreeMap LLMQType (List CBlockIndex)

def activeCommitments (c : Consensus) (params : LLMQParams) : List CBlockIndex :=
  if isQuorumRotationEnabled c params pindex then
    getLastMinedCommitmentsPerQuorumIndexUntilBlock db pindex params 0
  else
    getMinedCommitmentsUntilBlock db params.type pindex params.signingActiveQuorumCount

def getMinedAndActiveCommitmentsUntilBlock (c : Consensus) : QuorumMap :=
  c.llmqs.foldl (fun ret params => ret.insert params.type (activeCommitments db pindex c params)) ∅

theorem untilBlock_le {m : MinedHeights} {e : MinedHeight} (he : e ∈ m.untilBlock pindex) :
    e.nMinedHeight ≤ pindex.nHeight := by
  have hd := (List.takeWhile_sublist _).mem he
  have hs := m.sorted
  generalize m.entries = entries at hd hs
  induction entries with
  | nil => exact absurd hd List.not_mem_nil
  | cons f entries ih =>
    obtain ⟨hf, hs⟩ := List.pairwise_cons.mp hs
    by_cases hlt : pindex.nHeight < f.nMinedHeight
    · rw [List.dropWhile_cons_of_pos (by simpa only [decide_eq_true_eq] using hlt)] at hd
      exact ih hd hs
    · rw [List.dropWhile_cons_of_neg (by simpa only [decide_eq_true_eq] using hlt)] at hd
      rcases List.mem_cons.mp hd with rfl | hd
      · exact not_lt.mp hlt
      · exact (hf e hd).le.trans (not_lt.mp hlt)

/-- The assertion on the ancestor holds for every entry met. -/
theorem getAncestor_untilBlock {m : MinedHeights} {e : MinedHeight}
    (he : e ∈ m.untilBlock pindex) : (pindex.getAncestor e.quorumHeight).isSome = true := by
  have hle := e.le.trans (untilBlock_le pindex he)
  unfold CBlockIndex.getAncestor
  rw [if_neg (not_lt.mpr hle)]
  cases hd : (pindex.hash :: pindex.pprev).drop (pindex.nHeight-e.quorumHeight) with
  | nil =>
    have hlen := List.drop_eq_nil_iff.mp hd
    rw [List.length_cons] at hlen
    unfold CBlockIndex.nHeight at hlen
    omega
  | cons hash pprev => rfl

end BabaChain.LLMQ
