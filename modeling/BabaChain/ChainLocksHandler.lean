import BabaChain.CoinbaseChainLock
import BabaChain.InstantSend
import BabaChain.Lib.Runs

/-! `CChainLocksHandler`: the best ChainLock, the block that it names, and what is
answered about other blocks from it. -/
namespace BabaChain.ChainLock
open Std OrdMap InstantSend

variable {G PK : Type*}

namespace ChainLockSig

/-- The ChainLock of a handler that has none. -/
def null : ChainLockSig G := ⟨-1, 0, none⟩

def isNull (clsig : ChainLockSig G) : Bool := clsig.nHeight == -1 && clsig.blockHash == 0

end ChainLockSig

/-! ### Verification -/

/-- What the verification of a ChainLock rests on: the hashes, the quorum that is selected
for a request among those mined up to a block, and the check of a signature. -/
structure Signing (G PK : Type*) where
  serializeHash : ChainLockSig G → uint256
  genSigRequestId : ℤ → uint256
  signHash : uint256 → uint256 → uint256 → uint256
  selectQuorum : CBlockIndex G → uint256 → Option (CQuorum PK)
  verifyInsecure : PK → uint256 → G → Bool

def SIGN_HEIGHT_OFFSET : ℤ := 8

inductive VerifyRecSigStatus where
  | noQuorum
  | invalid
  | valid
deriving DecidableEq

namespace Signing

variable (c : Signing G PK)

/-- `SelectQuorumForSigning`, up to the selection among the quorums that are found. -/
def selectQuorumForSigning (active_chain : CBlockIndex G) (selectionHash : uint256)
    (signHeight : ℤ) : Option (CQuorum PK) :=
  let signHeight := if signHeight = -1 then nHeight active_chain else signHeight
  let startBlockHeight := signHeight-SIGN_HEIGHT_OFFSET
  if nHeight active_chain < startBlockHeight ∨ startBlockHeight < 0 then
    none
  else
    (getAncestor active_chain startBlockHeight).bind fun pindexStart =>
      c.selectQuorum pindexStart selectionHash

/-- `VerifyRecoveredSig`. -/
def verifyRecoveredSig (active_chain : CBlockIndex G) (signedAtHeight : ℤ) (id msgHash : uint256)
    (sig : CBLSSignature G) : VerifyRecSigStatus :=
  match c.selectQuorumForSigning active_chain id signedAtHeight with
  | none => .noQuorum
  | some quorum =>
    -- a signature that is not valid verifies for nothing
    if sig.any (c.verifyInsecure quorum.quorumPublicKey
        (c.signHash quorum.quorumHash id msgHash)) then
      .valid
    else
      .invalid

/-- `VerifyChainLock`. -/
def verifyChainLock (active_chain : CBlockIndex G) (clsig : ChainLockSig G) : VerifyRecSigStatus :=
  c.verifyRecoveredSig active_chain clsig.nHeight (c.genSigRequestId clsig.nHeight) clsig.blockHash
    clsig.sig

end Signing

/-! ### The handler -/

/-- The blocks with a known header, each under its own hash. -/
structure BlockManager (G : Type*) where
  m_block_index : ExtTreeMap uint256 (CBlockIndex G)
  wellFormed : ∀ (hash : uint256) (pindex : CBlockIndex G),
    m_block_index[hash]? = some pindex → pindex ≠ [] ∧ getBlockHash pindex = hash

namespace BlockManager

def lookupBlockIndex (m : BlockManager G) (hash : uint256) : Option (CBlockIndex G) :=
  m.m_block_index[hash]?

/-- `AddToBlockIndex`. -/
def addToBlockIndex (m : BlockManager G) (block : Block G) (hashPrevBlock : uint256) :
    BlockManager G :=
  if m.m_block_index.contains block.hash then
    m
  else
    { m_block_index := m.m_block_index.insert block.hash
        (block :: (m.lookupBlockIndex hashPrevBlock).getD [])
      wellFormed := fun hash pindex hget => by
        rw [getElem?_insert] at hget
        split_ifs at hget with heq
        · rw [Option.some.injEq] at hget
          subst hget
          exact ⟨List.cons_ne_nil _ _, heq⟩
        · exact m.wellFormed hash pindex hget }

end BlockManager

structure CChainState (G : Type*) where
  m_blockman : BlockManager G
  m_chain : CBlockIndex G

structure CChainLocksHandler (G : Type*) where
  m_chainstate : CChainState G
  isEnabled : Bool := false
  bestChainLockHash : uint256 := 0
  bestChainLock : ChainLockSig G := .null
  bestChainLockWithKnownBlock : ChainLockSig G := .null
  bestChainLockBlockIndex : Option (CBlockIndex G) := none
  seenChainLocks : ExtTreeMap uint256 ℤ := ∅
  tryLockChainTipScheduled : Bool := false
  lastCleanupTime : ℤ := 0

inductive MessageProcessingResult where
  | empty
  | misbehavingError (score : ℕ)
  | inv (hash : uint256)
deriving DecidableEq

namespace CChainLocksHandler

/-- `CheckActiveState`. What was known before ChainLocks were switched on is dropped. -/
def checkActiveState (h : CChainLocksHandler G) (sporkActive : Bool) : CChainLocksHandler G :=
  if !h.isEnabled && sporkActive then
    {h with
      isEnabled := sporkActive
      bestChainLockHash := 0
      bestChainLock := .null
      bestChainLockWithKnownBlock := .null
      bestChainLockBlockIndex := none}
  else
    {h with isEnabled := sporkActive}

/-- The last part of `ProcessNewChainLock`, where the ChainLock has been verified. -/
def setBestChainLock (h : CChainLocksHandler G) (clsig : ChainLockSig G) (hash : uint256) :
    MessageProcessingResult × CChainLocksHandler G :=
  let pindex := h.m_chainstate.m_blockman.lookupBlockIndex clsig.blockHash
  let h := {h with bestChainLockHash := hash, bestChainLock := clsig}
  match pindex with
  | none => (.inv hash, h)
  | some pindex =>
    -- the ChainLock is not relayed, and is the best one all the same
    if nHeight pindex ≠ clsig.nHeight then (.empty, h)
    else
      (.inv hash,
        {h with bestChainLockWithKnownBlock := clsig, bestChainLockBlockIndex := some pindex})

variable (c : Signing G PK)

/-- `ProcessNewChainLock`. The heights are compared again after the verification, for what
other threads did meanwhile; within one call nothing has changed. -/
def processNewChainLock (h : CChainLocksHandler G) (now : ℤ) (sporkActive : Bool) (peer : NodeId)
    (clsig : ChainLockSig G) (hash : uint256) : MessageProcessingResult × CChainLocksHandler G :=
  let h := h.checkActiveState sporkActive
  if h.seenChainLocks.contains hash then
    (.empty, h)
  else
    let h := {h with seenChainLocks := h.seenChainLocks.insert hash now}
    if !h.bestChainLock.isNull && clsig.nHeight ≤ h.bestChainLock.nHeight then
      (.empty, h)
    else if c.verifyChainLock h.m_chainstate.m_chain clsig ≠ .valid then
      (if peer ≠ -1 then .misbehavingError 10 else .empty, h)
    else
      h.setBestChainLock clsig hash

/-- `AcceptedBlockHeader`. -/
def acceptedBlockHeader (h : CChainLocksHandler G) (pindexNew : CBlockIndex G) :
    CChainLocksHandler G :=
  if getBlockHash pindexNew = h.bestChainLock.blockHash then
    if h.bestChainLock.nHeight ≠ nHeight pindexNew then h
    else
      {h with
        bestChainLockWithKnownBlock := h.bestChainLock
        bestChainLockBlockIndex := some pindexNew}
  else
    h

def CLEANUP_INTERVAL : ℤ := 30

def CLEANUP_SEEN_TIMEOUT : ℤ := 24*60*60

/-- `Cleanup`, as far as it is about ChainLocks. -/
def cleanup (h : CChainLocksHandler G) (isBlockchainSynced : Bool) (now : ℤ) :
    CChainLocksHandler G :=
  if !isBlockchainSynced then
    h
  else if now-h.lastCleanupTime < CLEANUP_INTERVAL then
    h
  else
    {h with
      lastCleanupTime := now
      seenChainLocks := h.seenChainLocks.filter fun _ t => !decide (CLEANUP_SEEN_TIMEOUT ≤ now-t)}

/-- `HasChainLock`. -/
def hasChainLock (h : CChainLocksHandler G) (height : ℤ) (blockHash : uint256) : Bool :=
  if !h.isEnabled then
    false
  else
    match h.bestChainLockBlockIndex with
    | none => false
    | some pindex =>
      if nHeight pindex < height then false
      else if height = nHeight pindex then blockHash == getBlockHash pindex
      else
        match getAncestor pindex height with
        | none => false
        | some pAncestor => getBlockHash pAncestor == blockHash

/-- `HasConflictingChainLock`; `none` is a failed assertion. -/
def hasConflictingChainLock (h : CChainLocksHandler G) (height : ℤ) (blockHash : uint256) :
    Option Bool :=
  if !h.isEnabled then
    some false
  else
    match h.bestChainLockBlockIndex with
    | none => some false
    | some pindex =>
      if nHeight pindex < height then some false
      else if height = nHeight pindex then some (blockHash != getBlockHash pindex)
      else (getAncestor pindex height).map fun pAncestor => getBlockHash pAncestor != blockHash

/-! ### Calls -/

/-- A call of the handler, or a change of the blocks around it: a header that becomes known,
or another tip. -/
inductive Call (G : Type*) where
  | processNewChainLock (now : ℤ) (sporkActive : Bool) (peer : NodeId) (clsig : ChainLockSig G)
  | acceptedBlockHeader (blockHash : uint256)
  | updatedBlockTip
  | serviceQueue (now : ℤ) (sporkActive isBlockchainSynced : Bool)
  | checkActiveState (sporkActive : Bool)
  | addToBlockIndex (block : Block G) (hashPrevBlock : uint256)
  | setTip (blockHash : uint256)

/-- A call. Every caller gives a ChainLock under its own hash, and the headers and tips
are known blocks. `serviceQueue` is the task that `UpdatedBlockTip` schedules, and runs
every few seconds besides; what it signs comes back as a ChainLock. -/
def call (h : CChainLocksHandler G) : Call G → MessageProcessingResult × CChainLocksHandler G
  | .processNewChainLock now sporkActive peer clsig =>
    h.processNewChainLock c now sporkActive peer clsig (c.serializeHash clsig)
  | .acceptedBlockHeader blockHash =>
    match h.m_chainstate.m_blockman.lookupBlockIndex blockHash with
    | none => (.empty, h)
    | some pindexNew => (.empty, h.acceptedBlockHeader pindexNew)
  | .updatedBlockTip => (.empty, {h with tryLockChainTipScheduled := true})
  | .serviceQueue now sporkActive isBlockchainSynced =>
    let h := (h.checkActiveState sporkActive).cleanup isBlockchainSynced now
    (.empty, {h with tryLockChainTipScheduled := false})
  | .checkActiveState sporkActive => (.empty, h.checkActiveState sporkActive)
  | .addToBlockIndex block hashPrevBlock =>
    (.empty, {h with m_chainstate := {h.m_chainstate with
      m_blockman := h.m_chainstate.m_blockman.addToBlockIndex block hashPrevBlock}})
  | .setTip blockHash =>
    match h.m_chainstate.m_blockman.lookupBlockIndex blockHash with
    | none => (.empty, h)
    | some pindex => (.empty, {h with m_chainstate := {h.m_chainstate with m_chain := pindex}})

end CChainLocksHandler

end BabaChain.ChainLock
