import BabaChain.ChainLocksHandler

/-! What holds of the best ChainLock and its block after any calls of the handler. -/
namespace BabaChain.ChainLock
open OrdMap InstantSend
open Std (ExtTreeMap)

variable {G PK : Type*} {c : Signing G PK} {h : CChainLocksHandler G} {clsig : ChainLockSig G}
  {pindex : CBlockIndex G} {sporkActive : Bool}

/-! ### Blocks -/

theorem nHeight_nonneg (hne : pindex ≠ []) : 0 ≤ nHeight pindex := by
  have hlen := List.length_pos_iff.mpr hne
  unfold nHeight
  omega

theorem getAncestor_of_le {height : ℤ} (hzero : 0 ≤ height) (hle : height ≤ nHeight pindex) :
    getAncestor pindex height = some (pindex.drop (nHeight pindex-height).toNat) := by
  rw [getAncestor, if_neg (by omega)]

theorem lookup_addToBlockIndex {m : BlockManager G} {block : Block G}
    {hashPrevBlock hash : uint256} :
    (m.addToBlockIndex block hashPrevBlock).lookupBlockIndex hash =
      if m.lookupBlockIndex block.hash = none ∧ block.hash = hash then
        some (block :: (m.lookupBlockIndex hashPrevBlock).getD [])
      else m.lookupBlockIndex hash := by
  unfold BlockManager.addToBlockIndex
  split_ifs with hin hnew hnew
  · rw [ExtTreeMap.contains_iff_mem, mem_iff_exists] at hin
    obtain ⟨v, hv⟩ := hin
    rw [BlockManager.lookupBlockIndex, hv] at hnew
    exact absurd hnew.1 (by simp)
  · rfl
  · change (m.m_block_index.insert _ _)[hash]? = _
    rw [getElem?_insert, if_pos hnew.2]
  · change (m.m_block_index.insert _ _)[hash]? = _
    rw [getElem?_insert, if_neg fun heq => hnew ⟨?_, heq⟩]
    · rfl
    · rw [ExtTreeMap.contains_iff_mem, notMem_iff] at hin
      exact hin

/-- A block that is known stays so. -/
theorem lookup_addToBlockIndex_of_known {m : BlockManager G} {hash : uint256} (block : Block G)
    (hashPrevBlock : uint256) (hknown : m.lookupBlockIndex hash = some pindex) :
    (m.addToBlockIndex block hashPrevBlock).lookupBlockIndex hash = some pindex := by
  rw [lookup_addToBlockIndex, if_neg ?_, hknown]
  rintro ⟨hnone, rfl⟩
  rw [hnone] at hknown
  contradiction

/-! ### Verified ChainLocks -/

/-- A verified ChainLock is for a height at which a quorum signs, or for the tip. -/
theorem Signing.nHeight_of_valid {active_chain : CBlockIndex G}
    (hvalid : c.verifyChainLock active_chain clsig = .valid) :
    clsig.nHeight = -1 ∨ SIGN_HEIGHT_OFFSET ≤ clsig.nHeight ∧
      clsig.nHeight-SIGN_HEIGHT_OFFSET ≤ nHeight active_chain := by
  by_cases htip : clsig.nHeight = -1
  · exact Or.inl htip
  · right
    by_contra hrange
    rw [verifyChainLock, verifyRecoveredSig, selectQuorumForSigning] at hvalid
    simp only [htip, if_false] at hvalid
    rw [if_pos (by omega)] at hvalid
    contradiction

namespace CChainLocksHandler

/-- The ChainLock is new, above the best one, and verifies. -/
def Takes (c : Signing G PK) (h : CChainLocksHandler G) (clsig : ChainLockSig G) : Prop :=
  h.seenChainLocks.contains (c.serializeHash clsig) = false ∧
    (h.bestChainLock.isNull = true ∨ h.bestChainLock.nHeight < clsig.nHeight) ∧
    c.verifyChainLock h.m_chainstate.m_chain clsig = .valid

instance Takes.decidable (c : Signing G PK) (h : CChainLocksHandler G) (clsig : ChainLockSig G) :
    Decidable (Takes c h clsig) :=
  inferInstanceAs (Decidable (_ ∧ _))

/-- A ChainLock that is taken becomes the best one. -/
theorem processNewChainLock_of_takes {now : ℤ} {peer : NodeId}
    (htakes : Takes c (h.checkActiveState sporkActive) clsig) :
    h.processNewChainLock c now sporkActive peer clsig (c.serializeHash clsig) =
      {h.checkActiveState sporkActive with
        seenChainLocks := (h.checkActiveState sporkActive).seenChainLocks.insert
          (c.serializeHash clsig) now}.setBestChainLock clsig (c.serializeHash clsig) := by
  obtain ⟨hseen, hbest, hvalid⟩ := htakes
  have hnewer : (!(h.checkActiveState sporkActive).bestChainLock.isNull &&
      decide (clsig.nHeight ≤ (h.checkActiveState sporkActive).bestChainLock.nHeight)) = false := by
    rcases hbest with hnull | hlt
    · rw [hnull]
      rfl
    · rw [decide_eq_false (by omega), Bool.and_false]
  simp only [processNewChainLock, hseen, hnewer, hvalid, Bool.false_eq_true, if_false, ne_eq,
    not_true_eq_false]

/-- Any other is at most remembered as seen. -/
theorem processNewChainLock_of_not_takes (now : ℤ) (peer : NodeId)
    (htakes : ¬Takes c (h.checkActiveState sporkActive) clsig) :
    ∃ seen, (h.processNewChainLock c now sporkActive peer clsig (c.serializeHash clsig)).2 =
      {h.checkActiveState sporkActive with seenChainLocks := seen} := by
  unfold processNewChainLock
  dsimp only
  split_ifs with hseen hnewer hvalid
  · exact ⟨_, rfl⟩
  · exact ⟨_, rfl⟩
  · exact ⟨_, rfl⟩
  · exact ⟨_, rfl⟩
  · refine absurd ⟨Bool.eq_false_iff.mpr hseen, ?_, not_ne_iff.mp hvalid⟩ htakes
    rw [Bool.and_eq_true, Bool.not_eq_true', decide_eq_true_iff, not_and_or, Bool.not_eq_false,
      not_le] at hnewer
    exact hnewer

theorem checkActiveState_same (h : CChainLocksHandler G) (sporkActive : Bool) :
    (h.checkActiveState sporkActive).m_chainstate = h.m_chainstate ∧
      (h.checkActiveState sporkActive).isEnabled = sporkActive := by
  unfold checkActiveState
  split_ifs
  · exact ⟨rfl, rfl⟩
  · exact ⟨rfl, rfl⟩

theorem checkActiveState_of_enabled (henabled : h.isEnabled = true) (sporkActive : Bool) :
    h.checkActiveState sporkActive = {h with isEnabled := sporkActive} := by
  rw [checkActiveState, henabled]
  rfl

/-! ### Consistency -/

/-- What is claimed of the handler between two calls. -/
structure Consistent (c : Signing G PK) (h : CChainLocksHandler G) : Prop where
  hash : h.bestChainLock = .null ∧ h.bestChainLockHash = 0 ∨
    h.bestChainLockHash = c.serializeHash h.bestChainLock
  knownBlock : h.bestChainLockWithKnownBlock.isNull = false → ∃ pindex,
    h.m_chainstate.m_blockman.lookupBlockIndex h.bestChainLockWithKnownBlock.blockHash =
        some pindex ∧
      nHeight pindex = h.bestChainLockWithKnownBlock.nHeight ∧
      h.bestChainLockBlockIndex = some pindex
  height : h.bestChainLock.isNull = false → ∀ pindex,
    h.m_chainstate.m_blockman.lookupBlockIndex h.bestChainLock.blockHash = some pindex →
      nHeight pindex = h.bestChainLock.nHeight
  answers : ∀ pindex, h.bestChainLockBlockIndex = some pindex →
    ∀ height blockHash, 0 ≤ height → height ≤ nHeight pindex →
      h.hasConflictingChainLock height blockHash = some !h.hasChainLock height blockHash

/-- What is claimed of one call. -/
def Kept (c : Signing G PK) (h : CChainLocksHandler G) (call : Call G) : Prop :=
  (h.isEnabled = true → (h.call c call).2.isEnabled = true →
      h.bestChainLock.nHeight ≤ (h.call c call).2.bestChainLock.nHeight) ∧
    Consistent c (h.call c call).2

/-- What a call must meet: the best ChainLock has the height of its block, when it is taken
or when the block becomes known, and ChainLocks are not off while there is a locked block. -/
def Agrees (c : Signing G PK) (h : CChainLocksHandler G) : Call G → Prop
  | .processNewChainLock _ sporkActive _ clsig =>
    (h.bestChainLockBlockIndex ≠ none → sporkActive = true) ∧
      (Takes c (h.checkActiveState sporkActive) clsig → clsig.isNull = false →
        ∀ pindex, h.m_chainstate.m_blockman.lookupBlockIndex clsig.blockHash = some pindex →
          nHeight pindex = clsig.nHeight ∧ sporkActive = true)
  | .acceptedBlockHeader blockHash =>
    h.bestChainLock.isNull = false → blockHash = h.bestChainLock.blockHash →
      h.m_chainstate.m_blockman.lookupBlockIndex blockHash ≠ none → h.isEnabled = true
  | .serviceQueue _ sporkActive _ | .checkActiveState sporkActive =>
    h.bestChainLockBlockIndex ≠ none → sporkActive = true
  | .addToBlockIndex block hashPrevBlock =>
    h.bestChainLock.isNull = false → block.hash = h.bestChainLock.blockHash →
      h.m_chainstate.m_blockman.lookupBlockIndex block.hash = none →
        nHeight (block :: (h.m_chainstate.m_blockman.lookupBlockIndex hashPrevBlock).getD []) =
          h.bestChainLock.nHeight
  | .updatedBlockTip | .setTip _ => True

/-- What holds of the handler between two calls. -/
structure Sound (c : Signing G PK) (h : CChainLocksHandler G) : Prop where
  hash : h.bestChainLock = .null ∧ h.bestChainLockHash = 0 ∨
    h.bestChainLockHash = c.serializeHash h.bestChainLock
  knownBlock : h.bestChainLockWithKnownBlock.isNull = true ∧ h.bestChainLockBlockIndex = none ∨
    ∃ pindex, h.m_chainstate.m_blockman.lookupBlockIndex h.bestChainLockWithKnownBlock.blockHash =
        some pindex ∧
      nHeight pindex = h.bestChainLockWithKnownBlock.nHeight ∧
      h.bestChainLockBlockIndex = some pindex
  height : h.bestChainLock.isNull = false → ∀ pindex,
    h.m_chainstate.m_blockman.lookupBlockIndex h.bestChainLock.blockHash = some pindex →
      nHeight pindex = h.bestChainLock.nHeight
  enabled : h.bestChainLockBlockIndex ≠ none → h.isEnabled = true

theorem isNull_null : (ChainLockSig.null : ChainLockSig G).isNull = true := rfl

theorem sound_start (m_chainstate : CChainState G) :
    Sound c ({m_chainstate := m_chainstate} : CChainLocksHandler G) where
  hash := Or.inl ⟨rfl, rfl⟩
  knownBlock := Or.inl ⟨rfl, rfl⟩
  height hnull := absurd hnull (by simp [isNull_null])
  enabled hne := absurd rfl hne

/-- Of the blocks up to the locked one, each is locked or conflicts, while ChainLocks are
on. -/
theorem answers_of_enabled (henabled : h.isEnabled = true)
    (hindex : h.bestChainLockBlockIndex = some pindex) {height : ℤ} (blockHash : uint256)
    (hzero : 0 ≤ height) (hle : height ≤ nHeight pindex) :
    h.hasConflictingChainLock height blockHash = some !h.hasChainLock height blockHash := by
  rw [hasConflictingChainLock, hasChainLock, henabled, hindex]
  simp only [Bool.not_true, Bool.false_eq_true, if_false, not_lt.mpr hle]
  split_ifs with htop
  · rfl
  · rw [getAncestor_of_le hzero hle]
    rfl

/-- While they are off, the locked block itself is neither. -/
theorem not_answers_of_disabled (hdisabled : h.isEnabled = false) (height : ℤ)
    (blockHash : uint256) :
    h.hasConflictingChainLock height blockHash ≠ some !h.hasChainLock height blockHash := by
  rw [hasConflictingChainLock, hasChainLock, hdisabled]
  simp

theorem Sound.consistent (hs : Sound c h) : Consistent c h where
  hash := hs.hash
  knownBlock hnull := by
    rcases hs.knownBlock with ⟨hnull', -⟩ | hknown
    · rw [hnull'] at hnull
      contradiction
    · exact hknown
  height := hs.height
  answers pindex hindex height blockHash hzero hle := by
    have henabled := hs.enabled (by rw [hindex]; exact Option.some_ne_none pindex)
    exact answers_of_enabled henabled hindex blockHash hzero hle

/-- A consistent handler has a locked block only while ChainLocks are on. -/
theorem Consistent.enabled (hc : Consistent c h)
    (hindex : h.bestChainLockBlockIndex = some pindex) (hne : pindex ≠ []) :
    h.isEnabled = true := by
  by_contra hdisabled
  rw [Bool.not_eq_true] at hdisabled
  exact not_answers_of_disabled hdisabled (nHeight pindex) 0
    (hc.answers pindex hindex (nHeight pindex) 0 (nHeight_nonneg hne) le_rfl)

theorem Sound.withSeen (hs : Sound c h) (seen : ExtTreeMap uint256 ℤ) :
    Sound c {h with seenChainLocks := seen} :=
  ⟨hs.hash, hs.knownBlock, hs.height, hs.enabled⟩

theorem Sound.checkActiveState (hs : Sound c h)
    (hspork : h.bestChainLockBlockIndex ≠ none → sporkActive = true) :
    Sound c (h.checkActiveState sporkActive) := by
  unfold CChainLocksHandler.checkActiveState
  split_ifs with hon
  · exact ⟨Or.inl ⟨rfl, rfl⟩, Or.inl ⟨rfl, rfl⟩, fun hnull => absurd hnull (by simp [isNull_null]),
      fun hne => absurd rfl hne⟩
  · exact ⟨hs.hash, hs.knownBlock, hs.height, hspork⟩

theorem Sound.cleanup (hs : Sound c h) (isBlockchainSynced : Bool) (now : ℤ) :
    Sound c (h.cleanup isBlockchainSynced now) := by
  unfold CChainLocksHandler.cleanup
  split_ifs
  · exact hs
  · exact hs
  · exact ⟨hs.hash, hs.knownBlock, hs.height, hs.enabled⟩

theorem lookup_ne_nil {m : BlockManager G} {hash : uint256}
    (hget : m.lookupBlockIndex hash = some pindex) : pindex ≠ [] :=
  (m.wellFormed hash pindex hget).1

/-- The null ChainLock has the height of no block. -/
theorem nHeight_ne_of_isNull (hnull : clsig.isNull = true) (hne : pindex ≠ []) :
    nHeight pindex ≠ clsig.nHeight := by
  have hzero := nHeight_nonneg hne
  rw [ChainLockSig.isNull, Bool.and_eq_true, beq_iff_eq] at hnull
  omega

theorem setBestChainLock_best (h : CChainLocksHandler G) (clsig : ChainLockSig G)
    (hash : uint256) :
    (h.setBestChainLock clsig hash).2.bestChainLock = clsig ∧
      (h.setBestChainLock clsig hash).2.bestChainLockHash = hash ∧
      (h.setBestChainLock clsig hash).2.isEnabled = h.isEnabled ∧
      (h.setBestChainLock clsig hash).2.m_chainstate = h.m_chainstate := by
  unfold setBestChainLock
  dsimp only
  cases h.m_chainstate.m_blockman.lookupBlockIndex clsig.blockHash with
  | none => exact ⟨rfl, rfl, rfl, rfl⟩
  | some pindex =>
    dsimp only
    split_ifs
    · exact ⟨rfl, rfl, rfl, rfl⟩
    · exact ⟨rfl, rfl, rfl, rfl⟩

theorem Sound.setBestChainLock (hs : Sound c h)
    (hagrees : clsig.isNull = false → ∀ pindex,
      h.m_chainstate.m_blockman.lookupBlockIndex clsig.blockHash = some pindex →
        nHeight pindex = clsig.nHeight ∧ h.isEnabled = true) :
    Sound c (h.setBestChainLock clsig (c.serializeHash clsig)).2 := by
  unfold CChainLocksHandler.setBestChainLock
  dsimp only
  cases hget : h.m_chainstate.m_blockman.lookupBlockIndex clsig.blockHash with
  | none =>
    refine ⟨Or.inr rfl, hs.knownBlock, fun _ pindex hpindex => ?_, hs.enabled⟩
    rw [hget] at hpindex
    contradiction
  | some pindex =>
    dsimp only
    split_ifs with hheight
    · -- a ChainLock with another height than its block is none
      refine ⟨Or.inr rfl, hs.knownBlock, fun hnull => ?_, hs.enabled⟩
      exact absurd (hagrees hnull pindex hget).1 hheight
    · rw [ne_eq, not_not] at hheight
      have hnull : clsig.isNull = false := by
        rw [Bool.eq_false_iff]
        exact fun hnull => nHeight_ne_of_isNull hnull (lookup_ne_nil hget) hheight
      refine ⟨Or.inr rfl, Or.inr ⟨pindex, hget, hheight, rfl⟩, fun _ pindex' hpindex => ?_,
        fun _ => (hagrees hnull pindex hget).2⟩
      rw [hget, Option.some.injEq] at hpindex
      exact hpindex ▸ hheight

theorem Sound.processNewChainLock (hs : Sound c h) {now : ℤ} {peer : NodeId}
    (hagrees : Agrees c h (.processNewChainLock now sporkActive peer clsig)) :
    Sound c (h.processNewChainLock c now sporkActive peer clsig (c.serializeHash clsig)).2 := by
  have hactive := hs.checkActiveState hagrees.1
  have hsame := checkActiveState_same h sporkActive
  by_cases htakes : Takes c (h.checkActiveState sporkActive) clsig
  · rw [processNewChainLock_of_takes htakes]
    apply (hactive.withSeen _).setBestChainLock
    intro hnull pindex hget
    dsimp only at hget ⊢
    rw [hsame.1] at hget
    rw [hsame.2]
    exact hagrees.2 htakes hnull pindex hget
  · obtain ⟨seen, hseen⟩ := processNewChainLock_of_not_takes now peer htakes
    rw [hseen]
    exact hactive.withSeen seen

theorem Sound.acceptedBlockHeader (hs : Sound c h) {blockHash : uint256}
    (hget : h.m_chainstate.m_blockman.lookupBlockIndex blockHash = some pindex)
    (hagrees : Agrees c h (.acceptedBlockHeader blockHash)) :
    Sound c (h.acceptedBlockHeader pindex) := by
  obtain ⟨hne, hhash⟩ := h.m_chainstate.m_blockman.wellFormed blockHash pindex hget
  unfold CChainLocksHandler.acceptedBlockHeader
  split_ifs with hbest hheight
  · exact hs
  · rw [ne_eq, not_not] at hheight
    have hnull : h.bestChainLock.isNull = false := by
      rw [Bool.eq_false_iff]
      exact fun hnull => nHeight_ne_of_isNull hnull hne hheight.symm
    rw [hhash] at hbest
    refine ⟨hs.hash, Or.inr ⟨pindex, ?_, hheight.symm, rfl⟩, hs.height, fun _ => ?_⟩
    · exact hbest ▸ hget
    · exact hagrees hnull hbest (by rw [hget]; exact Option.some_ne_none pindex)
  · exact hs

theorem Sound.addToBlockIndex (hs : Sound c h) {block : Block G} {hashPrevBlock : uint256}
    (hagrees : Agrees c h (.addToBlockIndex block hashPrevBlock)) :
    Sound c {h with m_chainstate := {h.m_chainstate with
      m_blockman := h.m_chainstate.m_blockman.addToBlockIndex block hashPrevBlock}} := by
  refine ⟨hs.hash, ?_, fun hnull pindex hget => ?_, hs.enabled⟩
  · rcases hs.knownBlock with hnone | ⟨pindex, hget, hknown⟩
    · exact Or.inl hnone
    · exact Or.inr ⟨pindex, lookup_addToBlockIndex_of_known block hashPrevBlock hget, hknown⟩
  · dsimp only at hget
    rw [lookup_addToBlockIndex] at hget
    split_ifs at hget with hnew
    · rw [Option.some.injEq] at hget
      subst hget
      exact hagrees hnull hnew.2 hnew.1
    · exact hs.height hnull pindex hget

/-- A call that agrees with the blocks leaves the handler sound. -/
theorem Sound.call (hs : Sound c h) (call : Call G) (hagrees : Agrees c h call) :
    Sound c (h.call c call).2 := by
  cases call with
  | processNewChainLock now sporkActive peer clsig => exact hs.processNewChainLock hagrees
  | acceptedBlockHeader blockHash =>
    unfold CChainLocksHandler.call
    dsimp only
    cases hget : h.m_chainstate.m_blockman.lookupBlockIndex blockHash with
    | none => exact hs
    | some pindex => exact hs.acceptedBlockHeader hget hagrees
  | updatedBlockTip => exact ⟨hs.hash, hs.knownBlock, hs.height, hs.enabled⟩
  | serviceQueue now sporkActive isBlockchainSynced =>
    have hcleaned := (hs.checkActiveState hagrees).cleanup isBlockchainSynced now
    exact ⟨hcleaned.hash, hcleaned.knownBlock, hcleaned.height, hcleaned.enabled⟩
  | checkActiveState sporkActive => exact hs.checkActiveState hagrees
  | addToBlockIndex block hashPrevBlock => exact hs.addToBlockIndex hagrees
  | setTip blockHash =>
    unfold CChainLocksHandler.call
    dsimp only
    cases h.m_chainstate.m_blockman.lookupBlockIndex blockHash with
    | none => exact hs
    | some pindex => exact ⟨hs.hash, hs.knownBlock, hs.height, hs.enabled⟩

/-! ### What a call that keeps the claim tells -/

/-- Another best ChainLock is higher. -/
theorem height_le_processNewChainLock (henabled : h.isEnabled = true) (now : ℤ) (peer : NodeId)
    (clsig : ChainLockSig G) :
    h.bestChainLock.nHeight ≤ (h.processNewChainLock c now sporkActive peer clsig
      (c.serializeHash clsig)).2.bestChainLock.nHeight := by
  by_cases htakes : Takes c (h.checkActiveState sporkActive) clsig
  · rw [processNewChainLock_of_takes htakes, (setBestChainLock_best _ _ _).1]
    obtain ⟨-, hbest, hvalid⟩ := htakes
    rw [checkActiveState_of_enabled henabled _] at hbest
    rcases hbest with hnull | hlt
    · rw [ChainLockSig.isNull, Bool.and_eq_true, beq_iff_eq] at hnull
      have hheight := Signing.nHeight_of_valid hvalid
      rw [SIGN_HEIGHT_OFFSET] at hheight
      dsimp only at hnull
      omega
    · exact hlt.le
  · obtain ⟨seen, hseen⟩ := processNewChainLock_of_not_takes now peer htakes
    rw [hseen, checkActiveState_of_enabled henabled _]

theorem cleanup_same (h : CChainLocksHandler G) (isBlockchainSynced : Bool) (now : ℤ) :
    (h.cleanup isBlockchainSynced now).bestChainLock = h.bestChainLock ∧
      (h.cleanup isBlockchainSynced now).bestChainLockBlockIndex = h.bestChainLockBlockIndex ∧
      (h.cleanup isBlockchainSynced now).isEnabled = h.isEnabled := by
  unfold cleanup
  split_ifs
  · exact ⟨rfl, rfl, rfl⟩
  · exact ⟨rfl, rfl, rfl⟩
  · exact ⟨rfl, rfl, rfl⟩

theorem acceptedBlockHeader_best (h : CChainLocksHandler G) (pindexNew : CBlockIndex G) :
    (h.acceptedBlockHeader pindexNew).bestChainLock = h.bestChainLock := by
  unfold acceptedBlockHeader
  split_ifs
  · rfl
  · rfl
  · rfl

theorem acceptedBlockHeader_isEnabled (h : CChainLocksHandler G) (pindexNew : CBlockIndex G) :
    (h.acceptedBlockHeader pindexNew).isEnabled = h.isEnabled := by
  unfold acceptedBlockHeader
  split_ifs
  · rfl
  · rfl
  · rfl

/-- The best ChainLock's height does not decrease while ChainLocks are on. -/
theorem height_le_call (henabled : h.isEnabled = true) (call : Call G) :
    h.bestChainLock.nHeight ≤ (h.call c call).2.bestChainLock.nHeight := by
  cases call with
  | processNewChainLock now sporkActive peer clsig =>
    exact height_le_processNewChainLock henabled now peer clsig
  | acceptedBlockHeader blockHash =>
    unfold CChainLocksHandler.call
    dsimp only
    cases h.m_chainstate.m_blockman.lookupBlockIndex blockHash with
    | none => exact le_rfl
    | some pindex => exact (congrArg _ (acceptedBlockHeader_best h pindex)).ge
  | updatedBlockTip => exact le_rfl
  | serviceQueue now sporkActive isBlockchainSynced =>
    have hclean := cleanup_same (h.checkActiveState sporkActive) isBlockchainSynced now
    rw [checkActiveState_of_enabled henabled _] at hclean
    unfold CChainLocksHandler.call
    dsimp only
    rw [checkActiveState_of_enabled henabled _, hclean.1]
  | checkActiveState sporkActive =>
    unfold CChainLocksHandler.call
    dsimp only
    rw [checkActiveState_of_enabled henabled _]
  | addToBlockIndex block hashPrevBlock => exact le_rfl
  | setTip blockHash =>
    unfold CChainLocksHandler.call
    dsimp only
    cases h.m_chainstate.m_blockman.lookupBlockIndex blockHash with
    | none => exact le_rfl
    | some pindex => exact le_rfl

theorem Sound.index_ne_nil (hs : Sound c h) (hindex : h.bestChainLockBlockIndex = some pindex) :
    pindex ≠ [] := by
  rcases hs.knownBlock with ⟨-, hnone⟩ | ⟨pindex', hget, -, hindex'⟩
  · rw [hnone] at hindex
    contradiction
  · rw [hindex, Option.some.injEq] at hindex'
    subst hindex'
    exact lookup_ne_nil hget

/-- The locked block is then the block of the ChainLock, if it has the right height, or the
one from before. -/
theorem setBestChainLock_index (h : CChainLocksHandler G) (clsig : ChainLockSig G)
    (hash : uint256) :
    ((h.setBestChainLock clsig hash).2.bestChainLockBlockIndex = h.bestChainLockBlockIndex ∨
      ∃ pindex, h.m_chainstate.m_blockman.lookupBlockIndex clsig.blockHash = some pindex ∧
        (h.setBestChainLock clsig hash).2.bestChainLockBlockIndex = some pindex) ∧
    ∀ pindex, h.m_chainstate.m_blockman.lookupBlockIndex clsig.blockHash = some pindex →
      nHeight pindex = clsig.nHeight →
        (h.setBestChainLock clsig hash).2.bestChainLockBlockIndex = some pindex := by
  unfold setBestChainLock
  dsimp only
  cases h.m_chainstate.m_blockman.lookupBlockIndex clsig.blockHash with
  | none => exact ⟨Or.inl rfl, fun pindex hget => absurd hget (by simp)⟩
  | some pindex =>
    dsimp only
    split_ifs with hheight
    · refine ⟨Or.inl rfl, fun pindex' hget hheight' => absurd hheight' ?_⟩
      rw [← Option.some.inj hget]
      exact hheight
    · exact ⟨Or.inr ⟨pindex, rfl, rfl⟩, fun pindex' hget _ => hget⟩

/-- A locked block stays locked while ChainLocks are on, or another one follows it. -/
theorem Sound.index_processNewChainLock (hs : Sound c h) (now : ℤ) (peer : NodeId)
    (hne : h.bestChainLockBlockIndex ≠ none) :
    ∃ pindex, pindex ≠ [] ∧ (h.processNewChainLock c now sporkActive peer clsig
      (c.serializeHash clsig)).2.bestChainLockBlockIndex = some pindex := by
  obtain ⟨pindex, hsome⟩ := Option.ne_none_iff_exists'.mp hne
  have hactive := checkActiveState_of_enabled (hs.enabled hne) sporkActive
  by_cases htakes : Takes c (h.checkActiveState sporkActive) clsig
  · rw [processNewChainLock_of_takes htakes, hactive]
    have hindex := fun g => (setBestChainLock_index g clsig (c.serializeHash clsig)).1
    rcases hindex _ with hsame | ⟨pindex', hget, hnew⟩
    · exact ⟨pindex, hs.index_ne_nil hsome, hsame.trans hsome⟩
    · exact ⟨pindex', lookup_ne_nil hget, hnew⟩
  · obtain ⟨seen, hseen⟩ := processNewChainLock_of_not_takes now peer htakes
    rw [hseen, hactive]
    exact ⟨pindex, hs.index_ne_nil hsome, hsome⟩

theorem processNewChainLock_isEnabled (h : CChainLocksHandler G) (now : ℤ) (sporkActive : Bool)
    (peer : NodeId) (clsig : ChainLockSig G) :
    (h.processNewChainLock c now sporkActive peer clsig (c.serializeHash clsig)).2.isEnabled =
      sporkActive := by
  by_cases htakes : Takes c (h.checkActiveState sporkActive) clsig
  · rw [processNewChainLock_of_takes htakes, (setBestChainLock_best _ _ _).2.2.1]
    exact (checkActiveState_same h sporkActive).2
  · obtain ⟨seen, hseen⟩ := processNewChainLock_of_not_takes now peer htakes
    rw [hseen]
    exact (checkActiveState_same h sporkActive).2

/-- A call of `ProcessNewChainLock` that keeps the claim agrees with the blocks. -/
theorem Sound.agrees_processNewChainLock (hs : Sound c h) {now : ℤ} {peer : NodeId}
    (hkept : Consistent c
      (h.processNewChainLock c now sporkActive peer clsig (c.serializeHash clsig)).2) :
    Agrees c h (.processNewChainLock now sporkActive peer clsig) := by
  have henabled := processNewChainLock_isEnabled (c := c) h now sporkActive peer clsig
  constructor
  · intro hne
    obtain ⟨pindex, hpindex, hindex⟩ := hs.index_processNewChainLock now peer hne
    rw [← henabled]
    exact hkept.enabled hindex hpindex
  · intro htakes hnull pindex hget
    rw [processNewChainLock_of_takes htakes] at hkept henabled
    generalize hseen : {h.checkActiveState sporkActive with
      seenChainLocks := (h.checkActiveState sporkActive).seenChainLocks.insert
        (c.serializeHash clsig) now} = h' at hkept henabled
    have hchain : h'.m_chainstate = h.m_chainstate := by
      rw [← hseen]
      exact (checkActiveState_same h sporkActive).1
    rw [← hchain] at hget
    obtain ⟨hbest, -, -, hsame⟩ := setBestChainLock_best h' clsig (c.serializeHash clsig)
    have hheight : nHeight pindex = clsig.nHeight := by
      have hkeptHeight := hkept.height
      rw [hbest, hsame] at hkeptHeight
      exact hkeptHeight hnull pindex hget
    refine ⟨hheight, ?_⟩
    rw [← henabled]
    have hindex := (setBestChainLock_index h' clsig (c.serializeHash clsig)).2 pindex hget hheight
    exact hkept.enabled hindex (lookup_ne_nil hget)

/-- While a block is locked, ChainLocks cannot be switched off. -/
theorem Sound.agrees_checkActiveState (hs : Sound c h) {h' : CChainLocksHandler G}
    (hkept : Consistent c h')
    (hindex : h'.bestChainLockBlockIndex = (h.checkActiveState sporkActive).bestChainLockBlockIndex)
    (henabled : h'.isEnabled = sporkActive) :
    h.bestChainLockBlockIndex ≠ none → sporkActive = true := by
  intro hne
  obtain ⟨pindex, hsome⟩ := Option.ne_none_iff_exists'.mp hne
  rw [checkActiveState_of_enabled (hs.enabled hne) _] at hindex
  rw [← henabled]
  exact hkept.enabled (hindex.trans hsome) (hs.index_ne_nil hsome)

/-- A call that keeps the claim agrees with the blocks. -/
theorem Sound.agrees (hs : Sound c h) (call : Call G) (hkept : Consistent c (h.call c call).2) :
    Agrees c h call := by
  cases call with
  | processNewChainLock now sporkActive peer clsig => exact hs.agrees_processNewChainLock hkept
  | acceptedBlockHeader blockHash =>
    intro hnull hbest hknown
    obtain ⟨pindex, hget⟩ := Option.ne_none_iff_exists'.mp hknown
    unfold CChainLocksHandler.call at hkept
    simp only [hget] at hkept
    obtain ⟨hne, hhash⟩ := h.m_chainstate.m_blockman.wellFormed blockHash pindex hget
    have hheight := hs.height hnull pindex (hbest ▸ hget)
    unfold CChainLocksHandler.acceptedBlockHeader at hkept
    rw [if_pos (hhash.trans hbest), if_neg (not_not.mpr hheight.symm)] at hkept
    have hindex : some pindex = some pindex := rfl
    exact hkept.enabled hindex hne
  | updatedBlockTip => trivial
  | serviceQueue now sporkActive isBlockchainSynced =>
    obtain ⟨-, hindex, henabled⟩ :=
      cleanup_same (h.checkActiveState sporkActive) isBlockchainSynced now
    exact hs.agrees_checkActiveState hkept hindex
      (henabled.trans (checkActiveState_same h sporkActive).2)
  | checkActiveState sporkActive =>
    exact hs.agrees_checkActiveState hkept rfl (checkActiveState_same h sporkActive).2
  | addToBlockIndex block hashPrevBlock =>
    intro hnull hbest hnew
    refine hkept.height hnull _ ?_
    change (h.m_chainstate.m_blockman.addToBlockIndex block hashPrevBlock).lookupBlockIndex
      h.bestChainLock.blockHash = _
    rw [lookup_addToBlockIndex, if_pos ⟨hnew, hbest⟩]
  | setTip blockHash => trivial

/-- Along any calls, the best ChainLock does not fall while ChainLocks are on, the handler
is consistent, and blocks up to the locked one are locked or conflict, exactly when every
ChainLock that is taken has the height of its block and ChainLocks stay on while a block is
locked. -/
theorem best_kept_iff (c : Signing G PK) (m_chainstate : CChainState G) (calls : List (Call G)) :
    Runs.EveryStep (fun h call => CChainLocksHandler.call c h call) (Kept c)
        {m_chainstate := m_chainstate} calls ↔
      Runs.EveryStep (fun h call => CChainLocksHandler.call c h call) (Agrees c)
        {m_chainstate := m_chainstate} calls := by
  refine Runs.everyStep_iff (Sound c) ?_ ?_ (sound_start m_chainstate) calls
  · intro h call hs hagrees
    have hafter := hs.call call hagrees
    exact ⟨⟨fun henabled _ => height_le_call henabled call, hafter.consistent⟩, hafter⟩
  · intro h call hs hkept
    exact hs.agrees call hkept.2

section Examples

/-- A network where every signature is good. -/
def trusting : Signing Unit Unit where
  serializeHash clsig := BitVec.ofInt 256 clsig.nHeight+clsig.blockHash
  genSigRequestId := BitVec.ofInt 256
  signHash quorumHash id msgHash := quorumHash+id+msgHash
  selectQuorum _ _ := some ⟨1, ()⟩
  verifyInsecure _ _ _ := true

/-- A chain state with two blocks. -/
def twoBlocks : CChainState Unit where
  m_blockman := (BlockManager.mk ∅ (by simp)).addToBlockIndex ⟨10, none⟩ 0
    |>.addToBlockIndex ⟨11, none⟩ 10
  m_chain := [⟨11, none⟩, ⟨10, none⟩]

/-- A ChainLock for height 8 that names the block at height 1 stays the best one. -/
theorem best_not_kept :
    ¬Runs.EveryStep (fun h call => CChainLocksHandler.call trusting h call) (Kept trusting)
      {m_chainstate := twoBlocks} [.processNewChainLock 0 true 5 ⟨8, 11, some ()⟩] := by
  rintro ⟨⟨-, hconsistent⟩, -⟩
  have hheight := hconsistent.height (by decide +kernel) [⟨11, none⟩, ⟨10, none⟩]
    (by decide +kernel)
  exact absurd hheight (by decide +kernel)

end Examples

end CChainLocksHandler

end BabaChain.ChainLock
