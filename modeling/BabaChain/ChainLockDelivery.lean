import BabaChain.ChainLockState
import BabaChain.Lib.Highest
import Mathlib

/-! Which ChainLock a node ends with, as messages and blocks come in any order. -/
namespace BabaChain.ChainLock
open OrdMap InstantSend
open Std (ExtTreeMap)

variable {G PK : Type*} {c : Signing G PK} {h : CChainLocksHandler G} {clsig : ChainLockSig G}
  {chain chain' : CBlockIndex G}

/-! ### Growing chains -/

theorem getAncestor_of_suffix (hgrows : chain <:+ chain') {height : ℤ}
    (hle : height ≤ nHeight chain) : getAncestor chain' height = getAncestor chain height := by
  obtain ⟨blocks, rfl⟩ := hgrows
  unfold nHeight at hle
  unfold getAncestor nHeight
  rw [List.length_append]
  by_cases hneg : height < 0
  · rw [if_pos (Or.inr hneg), if_pos (Or.inr hneg)]
  · rw [if_neg (by push_cast; omega), if_neg (by omega)]
    have hdrop : (((blocks.length+chain.length : ℕ) : ℤ)-1-height).toNat =
        blocks.length+((chain.length : ℤ)-1-height).toNat := by
      push_cast
      omega
    rw [hdrop, List.drop_append, List.drop_eq_nil_of_le (by omega), List.nil_append,
      Nat.add_sub_cancel_left]

/-- What verifies against a chain verifies against any chain that has grown from it, if it
names a height. -/
theorem Signing.valid_of_suffix (hgrows : chain <:+ chain') (hheight : clsig.nHeight ≠ -1)
    (hvalid : c.verifyChainLock chain clsig = .valid) :
    c.verifyChainLock chain' clsig = .valid := by
  have hrange := (Signing.nHeight_of_valid hvalid).resolve_left hheight
  have hlen : nHeight chain ≤ nHeight chain' := by
    have hle := hgrows.length_le
    unfold nHeight
    omega
  rw [verifyChainLock, verifyRecoveredSig, selectQuorumForSigning] at hvalid ⊢
  simp only [hheight, if_false] at hvalid ⊢
  rw [if_neg (by omega)] at hvalid ⊢
  rw [getAncestor_of_suffix hgrows hrange.2]
  exact hvalid

namespace CChainLocksHandler

/-- ChainLocks are on, and the chain only grows. -/
def Growing (h : CChainLocksHandler G) : Call G → Prop
  | .processNewChainLock _ sporkActive _ _ | .serviceQueue _ sporkActive _
  | .checkActiveState sporkActive => sporkActive = true
  | .setTip blockHash => ∀ pindex ∈ h.m_chainstate.m_blockman.lookupBlockIndex blockHash,
      h.m_chainstate.m_chain <:+ pindex
  | .acceptedBlockHeader _ | .updatedBlockTip | .addToBlockIndex _ _ => True

/-- The ChainLocks that are delivered. -/
def delivered (calls : List (Call G)) : List (ChainLockSig G) :=
  calls.filterMap fun
    | .processNewChainLock _ _ _ clsig => some clsig
    | _ => none

/-- The highest of some ChainLocks that verify against a chain. Height -1 is that of no
block: a handler without ChainLock has it. -/
structure IsHighest (c : Signing G PK) (chain : CBlockIndex G) (clsigs : List (ChainLockSig G))
    (clsig : ChainLockSig G) : Prop where
  mem : clsig ∈ clsigs
  height : clsig.nHeight ≠ -1
  valid : c.verifyChainLock chain clsig = .valid
  above : ∀ other ∈ clsigs, c.verifyChainLock chain other = .valid →
    other = clsig ∨ other.nHeight < clsig.nHeight

/-- The handler ends with the highest ChainLock that verifies against the chain, and with
one of no height if there is none. -/
def EndsWithHighest (c : Signing G PK) (h : CChainLocksHandler G)
    (clsigs : List (ChainLockSig G)) : Prop :=
  IsHighest c h.m_chainstate.m_chain clsigs h.bestChainLock ∨
    h.bestChainLock.nHeight = -1 ∧ ∀ clsig ∈ clsigs, clsig.nHeight ≠ -1 →
      c.verifyChainLock h.m_chainstate.m_chain clsig ≠ .valid

/-- A node after some calls, from the start. -/
def nodeAfter (c : Signing G PK) (m_chainstate : CChainState G) (calls : List (Call G)) :
    CChainLocksHandler G :=
  Runs.final (call c) {m_chainstate := m_chainstate} calls

/-- The ChainLock is not remembered as seen, and verifies against the chain of the moment. -/
def Heard (c : Signing G PK) (h : CChainLocksHandler G) (clsig : ChainLockSig G) : Prop :=
  h.seenChainLocks.contains (c.serializeHash clsig) = false ∧
    c.verifyChainLock h.m_chainstate.m_chain clsig = .valid

/-- The ChainLock is delivered at some time at which it is heard. -/
def HeardIn (c : Signing G PK) (h : CChainLocksHandler G) (calls : List (Call G))
    (clsig : ChainLockSig G) : Prop :=
  ∃ past now sporkActive peer rest,
    calls = past++.processNewChainLock now sporkActive peer clsig :: rest ∧
      Heard c (Runs.final (call c) h past) clsig

/-! ### Which ChainLocks are taken -/

/-- The ChainLock that a call takes, where ChainLocks are on. -/
def takes (c : Signing G PK) (h : CChainLocksHandler G) : Call G → Option (ChainLockSig G)
  | .processNewChainLock _ _ _ clsig => if Takes c h clsig then some clsig else none
  | _ => none

/-- A handler whose ChainLocks have not been switched on yet has none. -/
def Started (h : CChainLocksHandler G) : Prop :=
  h.isEnabled = true ∨ h.bestChainLock = .null

theorem checkActiveState_of_started (hstarted : Started h) :
    (h.checkActiveState true).bestChainLock = h.bestChainLock ∧
      (h.checkActiveState true).seenChainLocks = h.seenChainLocks := by
  unfold checkActiveState
  split_ifs with hon
  · rw [Bool.and_true, Bool.not_eq_true'] at hon
    rcases hstarted with henabled | hnull
    · rw [hon] at henabled
      contradiction
    · exact ⟨hnull.symm, rfl⟩
  · exact ⟨rfl, rfl⟩

theorem takes_checkActiveState (hstarted : Started h) :
    Takes c (h.checkActiveState true) clsig ↔ Takes c h clsig := by
  obtain ⟨hbest, hseen⟩ := checkActiveState_of_started hstarted
  rw [Takes, Takes, hbest, hseen, (checkActiveState_same h true).1]

/-- A ChainLock is taken by no other call. -/
theorem call_of_takes_eq_none (hstarted : Started h) {call : Call G} (hgrows : Growing h call)
    (htakes : takes c h call = none) :
    (h.call c call).2.bestChainLock = h.bestChainLock ∧ Started (h.call c call).2 := by
  have hon : Started (h.checkActiveState true) := Or.inl (checkActiveState_same h true).2
  obtain ⟨hbest, hseen⟩ := checkActiveState_of_started hstarted
  cases call with
  | processNewChainLock now sporkActive peer clsig =>
    have hspork : sporkActive = true := hgrows
    subst hspork
    have hnot : ¬Takes c (h.checkActiveState true) clsig := by
      rw [takes_checkActiveState hstarted]
      intro htaken
      rw [takes, if_pos htaken] at htakes
      contradiction
    obtain ⟨seen, hafter⟩ := processNewChainLock_of_not_takes now peer hnot
    unfold CChainLocksHandler.call
    dsimp only
    rw [hafter]
    exact ⟨hbest, hon⟩
  | acceptedBlockHeader blockHash =>
    unfold CChainLocksHandler.call
    dsimp only
    cases h.m_chainstate.m_blockman.lookupBlockIndex blockHash with
    | none => exact ⟨rfl, hstarted⟩
    | some pindex =>
      have hsame := acceptedBlockHeader_best h pindex
      refine ⟨hsame, ?_⟩
      rw [Started, hsame, acceptedBlockHeader_isEnabled]
      exact hstarted
  | updatedBlockTip => exact ⟨rfl, hstarted⟩
  | serviceQueue now sporkActive isBlockchainSynced =>
    have hspork : sporkActive = true := hgrows
    subst hspork
    obtain ⟨hclean, -, henabled⟩ := cleanup_same (h.checkActiveState true) isBlockchainSynced now
    exact ⟨hclean.trans hbest, Or.inl (henabled.trans (checkActiveState_same h true).2)⟩
  | checkActiveState sporkActive =>
    have hspork : sporkActive = true := hgrows
    subst hspork
    exact ⟨hbest, hon⟩
  | addToBlockIndex block hashPrevBlock => exact ⟨rfl, hstarted⟩
  | setTip blockHash =>
    unfold CChainLocksHandler.call
    dsimp only
    cases h.m_chainstate.m_blockman.lookupBlockIndex blockHash with
    | none => exact ⟨rfl, hstarted⟩
    | some pindex => exact ⟨rfl, hstarted⟩

/-- Where ChainLocks are on, the best one changes to those that are taken, which are
higher. -/
theorem keeps_best (c : Signing G PK) :
    Highest.Keeps (call c) (fun h => h.bestChainLock) (fun clsig => clsig.nHeight) (takes c)
      (Started (G := G)) Growing where
  inv h call hstarted hgrows := by
    cases htakes : takes c h call with
    | none => exact (call_of_takes_eq_none hstarted hgrows htakes).2
    | some clsig =>
      cases call with
      | processNewChainLock now sporkActive peer clsig' =>
        have hspork : sporkActive = true := hgrows
        exact Or.inl ((processNewChainLock_isEnabled h now sporkActive peer clsig').trans hspork)
      | _ => contradiction
  taken h call clsig hstarted hgrows htakes := by
    cases call with
    | processNewChainLock now sporkActive peer clsig' =>
      have hspork : sporkActive = true := hgrows
      subst hspork
      have htaken : Takes c h clsig' := by
        by_contra hnot
        rw [takes, if_neg hnot] at htakes
        contradiction
      rw [takes, if_pos htaken, Option.some.injEq] at htakes
      subst htakes
      have hactive := (takes_checkActiveState hstarted).mpr htaken
      unfold CChainLocksHandler.call
      dsimp only
      rw [processNewChainLock_of_takes hactive, (setBestChainLock_best _ _ _).1]
      refine ⟨rfl, ?_⟩
      obtain ⟨-, hbest, hvalid⟩ := htaken
      rcases hbest with hnull | hlt
      · rw [ChainLockSig.isNull, Bool.and_eq_true, beq_iff_eq] at hnull
        have hheight := Signing.nHeight_of_valid hvalid
        rw [SIGN_HEIGHT_OFFSET] at hheight
        omega
      · exact hlt.le
    | _ => contradiction
  kept h call hstarted hgrows htakes := (call_of_takes_eq_none hstarted hgrows htakes).1

theorem call_chain_suffix {call : Call G} (hgrows : Growing h call) :
    h.m_chainstate.m_chain <:+ (h.call c call).2.m_chainstate.m_chain := by
  have hactive := fun sporkActive => (checkActiveState_same h sporkActive).1
  cases call with
  | processNewChainLock now sporkActive peer clsig =>
    unfold CChainLocksHandler.call
    dsimp only
    by_cases htakes : Takes c (h.checkActiveState sporkActive) clsig
    · rw [processNewChainLock_of_takes htakes, (setBestChainLock_best _ _ _).2.2.2, hactive]
    · obtain ⟨seen, hseen⟩ := processNewChainLock_of_not_takes now peer htakes
      rw [hseen, hactive]
  | acceptedBlockHeader blockHash =>
    unfold CChainLocksHandler.call
    dsimp only
    cases h.m_chainstate.m_blockman.lookupBlockIndex blockHash with
    | none => exact List.suffix_rfl
    | some pindex =>
      dsimp only
      unfold CChainLocksHandler.acceptedBlockHeader
      split_ifs
      · exact List.suffix_rfl
      · exact List.suffix_rfl
      · exact List.suffix_rfl
  | updatedBlockTip => exact List.suffix_rfl
  | serviceQueue now sporkActive isBlockchainSynced =>
    unfold CChainLocksHandler.call CChainLocksHandler.cleanup
    dsimp only
    split_ifs
    · rw [hactive]
    · rw [hactive]
    · rw [hactive]
  | checkActiveState sporkActive =>
    unfold CChainLocksHandler.call
    dsimp only
    rw [hactive]
  | addToBlockIndex block hashPrevBlock => exact List.suffix_rfl
  | setTip blockHash =>
    unfold CChainLocksHandler.call
    dsimp only
    cases hget : h.m_chainstate.m_blockman.lookupBlockIndex blockHash with
    | none => exact List.suffix_rfl
    | some pindex => exact hgrows pindex hget

theorem final_chain_suffix {calls : List (Call G)}
    (hgrows : Runs.EveryStep (call c) Growing h calls) :
    h.m_chainstate.m_chain <:+ (Runs.final (call c) h calls).m_chainstate.m_chain := by
  induction calls generalizing h with
  | nil => exact List.suffix_rfl
  | cons call calls ih => exact (call_chain_suffix hgrows.1).trans (ih hgrows.2)

/-- What a ChainLock verifies against on the way, it verifies against in the end. -/
theorem valid_final {past : List (Call G)} {call : Call G} {rest : List (Call G)}
    (hgrows : Runs.EveryStep (CChainLocksHandler.call c) Growing h (past++call :: rest))
    (hheight : clsig.nHeight ≠ -1)
    (hvalid : c.verifyChainLock
      (Runs.final (CChainLocksHandler.call c) h past).m_chainstate.m_chain clsig = .valid) :
    c.verifyChainLock (Runs.final (CChainLocksHandler.call c) h
      (past++call :: rest)).m_chainstate.m_chain clsig = .valid := by
  rw [Runs.everyStep_append] at hgrows
  rw [Runs.final_append]
  exact Signing.valid_of_suffix (final_chain_suffix hgrows.2) hheight hvalid

theorem mem_delivered {calls : List (Call G)} :
    clsig ∈ delivered calls ↔ ∃ past now sporkActive peer rest,
      calls = past++.processNewChainLock now sporkActive peer clsig :: rest := by
  constructor
  · intro hmem
    obtain ⟨call, hcall, hsome⟩ := List.mem_filterMap.mp hmem
    obtain ⟨past, rest, hsplit⟩ := List.append_of_mem hcall
    cases call with
    | processNewChainLock now sporkActive peer clsig' =>
      rw [Option.some.injEq] at hsome
      exact ⟨past, now, sporkActive, peer, rest, hsome ▸ hsplit⟩
    | _ => contradiction
  · rintro ⟨past, now, sporkActive, peer, rest, rfl⟩
    apply List.mem_filterMap.mpr
    exact ⟨_, List.mem_append_right past List.mem_cons_self, rfl⟩

theorem taken_iff {calls : List (Call G)} :
    Highest.Taken (call c) (takes c) h calls clsig ↔ ∃ past now sporkActive peer rest,
      calls = past++.processNewChainLock now sporkActive peer clsig :: rest ∧
        Takes c (Runs.final (call c) h past) clsig := by
  constructor
  · rintro ⟨past, call, rest, rfl, htakes⟩
    cases call with
    | processNewChainLock now sporkActive peer clsig' =>
      rw [takes] at htakes
      split_ifs at htakes with htaken
      rw [Option.some.injEq] at htakes
      subst htakes
      exact ⟨past, now, sporkActive, peer, rest, rfl, htaken⟩
    | _ => contradiction
  · rintro ⟨past, now, sporkActive, peer, rest, rfl, htaken⟩
    exact ⟨past, _, rest, rfl, by rw [takes, if_pos htaken]⟩

/-- Of the ChainLocks that are taken, the highest one that verifies in the end is above. -/
theorem IsHighest.above_taken {calls : List (Call G)}
    (hgrows : Runs.EveryStep (call c) Growing h calls)
    (hhighest : IsHighest c (Runs.final (call c) h calls).m_chainstate.m_chain (delivered calls)
      clsig) (other : ChainLockSig G)
    (htaken : Highest.Taken (call c) (takes c) h calls other) :
    other = clsig ∨ other.nHeight < clsig.nHeight := by
  obtain ⟨past, now, sporkActive, peer, rest, rfl, -, -, hvalid⟩ := taken_iff.mp htaken
  by_cases hheight : other.nHeight = -1
  · right
    have hrange := (Signing.nHeight_of_valid hhighest.valid).resolve_left hhighest.height
    rw [SIGN_HEIGHT_OFFSET] at hrange
    omega
  · apply hhighest.above other
    · exact mem_delivered.mpr ⟨past, now, sporkActive, peer, rest, rfl⟩
    · exact valid_final hgrows hheight hvalid

/-- The highest ChainLock is taken when it is heard, if not before. -/
theorem IsHighest.taken_iff_heardIn {calls : List (Call G)} (hstarted : Started h)
    (hnull : h.bestChainLock = .null) (hgrows : Runs.EveryStep (call c) Growing h calls)
    (hhighest : IsHighest c (Runs.final (call c) h calls).m_chainstate.m_chain (delivered calls)
      clsig) :
    Highest.Taken (call c) (takes c) h calls clsig ↔ HeardIn c h calls clsig := by
  constructor
  · intro htaken
    obtain ⟨past, now, sporkActive, peer, rest, hsplit, hseen, -, hvalid⟩ := taken_iff.mp htaken
    exact ⟨past, now, sporkActive, peer, rest, hsplit, hseen, hvalid⟩
  · rintro ⟨past, now, sporkActive, peer, rest, hsplit, hseen, hvalid⟩
    by_cases hbest : (Runs.final (call c) h past).bestChainLock.isNull = true ∨
        (Runs.final (call c) h past).bestChainLock.nHeight < clsig.nHeight
    · exact taken_iff.mpr ⟨past, now, sporkActive, peer, rest, hsplit, hseen, hbest, hvalid⟩
    · -- the best one is not lower, so it is this one, and was taken before
      rw [not_or, not_lt] at hbest
      have hpast : Runs.EveryStep (call c) Growing h past := by
        rw [hsplit, Runs.everyStep_append] at hgrows
        exact hgrows.1
      rcases (keeps_best c).final_best hstarted hpast with hsame | htaken
      · rw [hsame, hnull] at hbest
        exact absurd isNull_null hbest.1
      · obtain ⟨past', call', rest', rfl, htakes⟩ := htaken
        have htaken' : Highest.Taken (CChainLocksHandler.call c) (takes c) h calls
            (Runs.final (CChainLocksHandler.call c) h (past'++call' :: rest')).bestChainLock := by
          refine ⟨past', call', rest'++.processNewChainLock now sporkActive peer clsig :: rest,
            ?_, htakes⟩
          rw [hsplit, List.append_assoc, List.cons_append]
        rcases hhighest.above_taken hgrows _ htaken' with heq | hlt
        · exact heq ▸ htaken'
        · omega

/-- However messages, headers and blocks come in, a node ends with the highest ChainLock
that verifies in the end exactly when that one is heard: it is delivered at some time when
it is not remembered as seen, and verifies already. -/
theorem ends_with_highest_iff (c : Signing G PK) (m_chainstate : CChainState G)
    (calls : List (Call G))
    (hgrows : Runs.EveryStep (call c) Growing {m_chainstate := m_chainstate} calls) :
    EndsWithHighest c (nodeAfter c m_chainstate calls) (delivered calls) ↔
      ∀ clsig ∈ delivered calls, clsig.nHeight ≠ -1 →
        c.verifyChainLock (nodeAfter c m_chainstate calls).m_chainstate.m_chain clsig = .valid →
        ∃ highest, IsHighest c (nodeAfter c m_chainstate calls).m_chainstate.m_chain
            (delivered calls) highest ∧
          HeardIn c {m_chainstate := m_chainstate} calls highest := by
  have hstarted : Started ({m_chainstate := m_chainstate} : CChainLocksHandler G) := Or.inr rfl
  have hfinal : ∀ highest, IsHighest c (nodeAfter c m_chainstate calls).m_chainstate.m_chain
      (delivered calls) highest →
      ((nodeAfter c m_chainstate calls).bestChainLock = highest ↔
        HeardIn c {m_chainstate := m_chainstate} calls highest) := by
    intro highest hhighest
    rw [← hhighest.taken_iff_heardIn hstarted rfl hgrows]
    refine (keeps_best c).final_eq_iff hstarted ?_ hgrows (hhighest.above_taken hgrows)
    rintro rfl
    exact hhighest.height rfl
  constructor
  · rintro (hhighest | ⟨-, hnone⟩)
    · exact fun _ _ _ _ => ⟨_, hhighest, (hfinal _ hhighest).mp rfl⟩
    · exact fun clsig hmem hheight hvalid => absurd hvalid (hnone clsig hmem hheight)
  · intro hheard
    by_cases hsome : ∃ clsig ∈ delivered calls, clsig.nHeight ≠ -1 ∧
        c.verifyChainLock (nodeAfter c m_chainstate calls).m_chainstate.m_chain clsig = .valid
    · obtain ⟨clsig, hmem, hheight, hvalid⟩ := hsome
      obtain ⟨highest, hhighest, hin⟩ := hheard clsig hmem hheight hvalid
      left
      rw [(hfinal highest hhighest).mpr hin]
      exact hhighest
    · right
      have hnone : ∀ clsig ∈ delivered calls, clsig.nHeight ≠ -1 →
          c.verifyChainLock (nodeAfter c m_chainstate calls).m_chainstate.m_chain clsig ≠
            .valid :=
        fun clsig hmem hheight hvalid => hsome ⟨clsig, hmem, hheight, hvalid⟩
      refine ⟨?_, hnone⟩
      rcases (keeps_best c).final_best hstarted hgrows with hsame | htaken
      · exact congrArg ChainLockSig.nHeight hsame
      · by_contra hheight
        obtain ⟨past, now, sporkActive, peer, rest, hsplit, -, -, hvalid⟩ := taken_iff.mp htaken
        apply hnone _ (mem_delivered.mpr ⟨past, now, sporkActive, peer, rest, hsplit⟩) hheight
        unfold nodeAfter at hheight ⊢
        rw [hsplit] at hgrows hheight ⊢
        exact valid_final hgrows hheight (hsplit ▸ hvalid)

section Examples

theorem unindexed (hash : uint256) (pindex : CBlockIndex Unit)
    (h : (∅ : ExtTreeMap uint256 (CBlockIndex Unit))[hash]? = some pindex) :
    pindex ≠ [] ∧ getBlockHash pindex = hash := by
  rw [ExtTreeMap.getElem?_empty] at h
  cases h

/-- A chain of ten blocks of which one is connected so far. -/
def tenHeaders : CChainState Unit where
  m_blockman := (List.range 10).foldl
    (fun m i => m.addToBlockIndex ⟨BitVec.ofNat 256 (i+10), none⟩ (BitVec.ofNat 256 (i+9)))
    (BlockManager.mk ∅ unindexed)
  m_chain := [⟨10, none⟩]

/-- The ChainLock of the block at height 9, received before the blocks and again after. -/
def earlyThenAgain : List (Call Unit) :=
  [.processNewChainLock 0 true 5 ⟨9, 19, some ()⟩, .setTip 19,
    .processNewChainLock 1 true 5 ⟨9, 19, some ()⟩]

def afterTheBlocks : List (Call Unit) :=
  [.setTip 19, .processNewChainLock 0 true 5 ⟨9, 19, some ()⟩]

theorem setTip_growing : ∀ pindex ∈ tenHeaders.m_blockman.lookupBlockIndex 19,
    tenHeaders.m_chain <:+ pindex := by
  intro pindex hpindex
  have hget : tenHeaders.m_blockman.lookupBlockIndex 19 =
      some ((List.range 10).reverse.map fun i => ⟨BitVec.ofNat 256 (i+10), none⟩) := by
    decide +kernel
  rw [hget, Option.mem_some] at hpindex
  subst hpindex
  decide +kernel

/-- A ChainLock that comes before its quorum is known is remembered as seen, and ignored
when it comes again. -/
theorem early_not_highest :
    Runs.EveryStep (call trusting) Growing {m_chainstate := tenHeaders} earlyThenAgain ∧
      ¬EndsWithHighest trusting (nodeAfter trusting tenHeaders earlyThenAgain)
        (delivered earlyThenAgain) := by
  refine ⟨⟨rfl, setTip_growing, rfl, trivial⟩, ?_⟩
  rintro (hhighest | ⟨-, hnone⟩)
  · exact absurd hhighest.height (by decide +kernel)
  · exact absurd (hnone ⟨9, 19, some ()⟩ List.mem_cons_self (by decide)) (by decide +kernel)

theorem ends_with_highest_afterTheBlocks :
    Runs.EveryStep (call trusting) Growing {m_chainstate := tenHeaders} afterTheBlocks ∧
      (EndsWithHighest trusting (nodeAfter trusting tenHeaders afterTheBlocks)
          (delivered afterTheBlocks) ↔
        ∀ clsig ∈ delivered afterTheBlocks, clsig.nHeight ≠ -1 →
          trusting.verifyChainLock
              (nodeAfter trusting tenHeaders afterTheBlocks).m_chainstate.m_chain clsig = .valid →
          ∃ highest, IsHighest trusting
              (nodeAfter trusting tenHeaders afterTheBlocks).m_chainstate.m_chain
              (delivered afterTheBlocks) highest ∧
            HeardIn trusting {m_chainstate := tenHeaders} afterTheBlocks highest) :=
  have hgrows : Runs.EveryStep (call trusting) Growing {m_chainstate := tenHeaders}
      afterTheBlocks := ⟨setTip_growing, rfl, trivial⟩
  ⟨hgrows, ends_with_highest_iff trusting tenHeaders afterTheBlocks hgrows⟩

end Examples

end CChainLocksHandler

end BabaChain.ChainLock
