import BabaChain.GovernanceStore
import BabaChain.GovernanceTallies
import Mathlib

/-! The index of votes agrees with the vote files of the objects, as long as no orphan vote is
taken. -/
namespace BabaChain.Governance.Store
open Runs
open Governance.CGovernanceObject (instanceOf_setInstance)
open Std (ExtTreeMap)

variable {G : Type*}

/-! ### Vote files -/

section Votes
variable {env : VoteChecks G}

namespace CGovernanceObjectVoteFile

/-- The count, the list and the index of a vote file say the same. -/
structure Agrees (getHash : CGovernanceVote → uint256) (file : CGovernanceObjectVoteFile) :
    Prop where
  count : file.nMemoryVotes = file.listVotes.length
  nodup : (file.listVotes.map getHash).Nodup
  index : ∀ nHash vote, file.mapVoteIndex[nHash]? = some vote ↔
    vote ∈ file.listVotes ∧ getHash vote = nHash

variable {file : CGovernanceObjectVoteFile}

theorem Agrees.mem_index_iff (h : Agrees env.getHash file) {nHash : uint256} :
    nHash ∈ file.mapVoteIndex ↔ ∃ vote ∈ file.listVotes, env.getHash vote = nHash := by
  rw [OrdMap.mem_iff_exists]
  exact exists_congr fun vote => h.index nHash vote

theorem Agrees.hasVote_iff (h : Agrees env.getHash file) {nHash : uint256} :
    file.hasVote nHash = true ↔ ∃ vote ∈ file.listVotes, env.getHash vote = nHash := by
  unfold hasVote
  rw [decide_eq_true_eq]
  exact h.mem_index_iff

theorem agrees_empty : Agrees env.getHash {} where
  count := rfl
  nodup := List.nodup_nil
  index nHash vote := by
    rw [ExtTreeMap.getElem?_empty]
    exact iff_of_false nofun fun h => absurd h.1 List.not_mem_nil

theorem Agrees.removeVotes (h : Agrees env.getHash file) (p : CGovernanceVote → Bool) :
    Agrees env.getHash (file.removeVotes env p) where
  count := by
    have hlength := (List.filter_append_perm p file.listVotes).length_eq
    rw [List.length_append] at hlength
    unfold CGovernanceObjectVoteFile.removeVotes
    dsimp only
    rw [h.count, ← hlength]
    push_cast
    ring
  nodup := h.nodup.sublist (List.filter_sublist.map _)
  index nHash vote := by
    unfold CGovernanceObjectVoteFile.removeVotes
    dsimp only
    rw [OrdMap.getElem?_foldl_erase, List.mem_filter, Bool.not_eq_true']
    split_ifs with hremoved
    · obtain ⟨other, hother, hhash⟩ := List.mem_map.mp hremoved
      rw [List.mem_filter] at hother
      refine iff_of_false nofun fun ⟨⟨hmem, hkeep⟩, hsame⟩ => ?_
      have heq := List.inj_on_of_nodup_map h.nodup hother.1 hmem (hhash.trans hsame.symm)
      rw [heq] at hother
      exact nomatch hkeep.symm.trans hother.2
    · rw [h.index]
      refine ⟨fun ⟨hmem, hhash⟩ => ⟨⟨hmem, ?_⟩, hhash⟩, fun hvote => ⟨hvote.1.1, hvote.2⟩⟩
      by_contra hnot
      exact hremoved (List.mem_map.mpr
        ⟨vote, List.mem_filter.mpr ⟨hmem, (Bool.not_eq_false _).mp hnot⟩, hhash⟩)

theorem Agrees.push (h : Agrees env.getHash file) {vote : CGovernanceVote}
    (hnew : file.hasVote (env.getHash vote) = false) (listVotes : List CGovernanceVote)
    (hperm : listVotes.Perm (vote :: file.listVotes)) :
    Agrees env.getHash
      { nMemoryVotes := file.nMemoryVotes+1
        listVotes := listVotes
        mapVoteIndex := file.mapVoteIndex.insert (env.getHash vote) vote } := by
  have hnone : ∀ old ∈ file.listVotes, env.getHash old ≠ env.getHash vote := by
    intro old hmem hsame
    rw [h.hasVote_iff.mpr ⟨old, hmem, hsame⟩] at hnew
    exact nomatch hnew
  refine ⟨?_, ?_, fun nHash other => ?_⟩
  · dsimp only
    rw [hperm.length_eq, h.count, List.length_cons]
    push_cast
    rfl
  · rw [(hperm.map env.getHash).nodup_iff, List.map_cons, List.nodup_cons]
    refine ⟨fun hmem => ?_, h.nodup⟩
    obtain ⟨old, hold, hsame⟩ := List.mem_map.mp hmem
    exact hnone old hold hsame
  · dsimp only
    rw [OrdMap.getElem?_insert, hperm.mem_iff, List.mem_cons]
    split_ifs with hsame
    · rw [Option.some.injEq]
      constructor
      · rintro rfl
        exact ⟨Or.inl rfl, hsame⟩
      · rintro ⟨rfl | hmem, hhash⟩
        · rfl
        · exact absurd (hhash.trans hsame.symm) (hnone other hmem)
    · rw [h.index]
      refine and_congr_left fun hhash => ⟨Or.inr, fun hmem => hmem.resolve_left ?_⟩
      rintro rfl
      exact hsame hhash

theorem Agrees.addVote (h : Agrees env.getHash file) (vote : CGovernanceVote) :
    Agrees env.getHash (file.addVote env vote) := by
  unfold CGovernanceObjectVoteFile.addVote
  dsimp only
  split_ifs with hknown
  · exact h
  · exact (h.push (eq_false_of_ne_true hknown) _ (List.Perm.refl _)).removeVotes _

/-- The votes that are left when a vote has come in. -/
theorem mem_addVote_iff {vote old : CGovernanceVote}
    (hnew : file.hasVote (env.getHash vote) = false) :
    old ∈ (file.addVote env vote).listVotes ↔ (old = vote ∨ old ∈ file.listVotes) ∧
      ¬(old.masternodeOutpoint = vote.masternodeOutpoint ∧ old.nParentHash = vote.nParentHash ∧
        old.nVoteSignal = vote.nVoteSignal ∧ old.nTime < vote.nTime) := by
  unfold CGovernanceObjectVoteFile.addVote
  dsimp only
  rw [hnew, if_neg (by decide), removeOldVotes, CGovernanceObjectVoteFile.removeVotes]
  dsimp only
  rw [List.mem_filter, List.mem_cons, Bool.not_eq_true', Bool.and_eq_false_iff,
    Bool.and_eq_false_iff, Bool.and_eq_false_iff, beq_eq_false_iff_ne, beq_eq_false_iff_ne,
    beq_eq_false_iff_ne, decide_eq_false_iff_not]
  tauto

/-- Votes of different hashes are all kept. -/
theorem agrees_rebuildLoop (h : Agrees env.getHash file) {listVotes : List CGovernanceVote}
    (hnodup : ((file.listVotes ++ listVotes).map env.getHash).Nodup) :
    Agrees env.getHash (rebuildLoop env listVotes file) ∧
      (rebuildLoop env listVotes file).listVotes = file.listVotes ++ listVotes := by
  induction listVotes generalizing file with
  | nil => exact ⟨h, (List.append_nil _).symm⟩
  | cons vote listVotes ih =>
    have hnew : file.hasVote (env.getHash vote) = false := by
      rw [← Bool.not_eq_true, h.hasVote_iff]
      rintro ⟨old, hmem, hsame⟩
      rw [List.map_append, List.nodup_append] at hnodup
      exact hnodup.2.2 _ (List.mem_map.mpr ⟨old, hmem, rfl⟩) _
        (List.mem_map.mpr ⟨vote, List.mem_cons_self, rfl⟩) hsame
    have hnot : env.getHash vote ∉ file.mapVoteIndex := of_decide_eq_false hnew
    have hpush := h.push hnew (file.listVotes ++ [vote]) List.perm_append_comm
    rw [rebuildLoop, if_neg hnot]
    rw [List.append_cons] at hnodup
    obtain ⟨hagrees, hlist⟩ := ih hpush hnodup
    exact ⟨hagrees, hlist.trans (List.append_cons _ _ _).symm⟩

theorem Agrees.rebuildIndex (h : Agrees env.getHash file) :
    Agrees env.getHash (file.rebuildIndex env) ∧
      (file.rebuildIndex env).listVotes = file.listVotes :=
  agrees_rebuildLoop agrees_empty h.nodup

end CGovernanceObjectVoteFile

open CGovernanceObjectVoteFile

/-! ### Objects -/

namespace CGovernanceObject

/-- A vote is that of an instance. -/
structure IsVoteOf (outpoint : COutPoint) (eSignal : Int32) (voteInstance : vote_instance_t)
    (vote : CGovernanceVote) : Prop where
  outpoint : vote.masternodeOutpoint = outpoint
  signal : vote.nVoteSignal = eSignal
  outcome : vote.nVoteOutcome = voteInstance.eOutcome
  time : vote.nTime = voteInstance.nCreationTime

/-- The votes of an object are in order: its vote file agrees with itself, the votes are for the
object, and every instance with an outcome has its vote. -/
structure InOrder (getHash : CGovernanceVote → uint256) (nHash : uint256)
    (govobj : CGovernanceObject) : Prop where
  hash : govobj.hash = nHash
  file : Agrees getHash govobj.voteFile
  parents : ∀ vote ∈ govobj.fileVotes, vote.nParentHash = nHash
  instances : ∀ outpoint eSignal,
    (govobj.instanceOf outpoint eSignal).eOutcome ≠ VOTE_OUTCOME_NONE →
      ∃ vote ∈ govobj.fileVotes,
        IsVoteOf outpoint eSignal (govobj.instanceOf outpoint eSignal) vote

/-- Objects with the same votes. Default records and flags may differ. -/
structure SameVotes (govobj govobj' : CGovernanceObject) : Prop where
  hash : govobj'.hash = govobj.hash
  file : govobj'.voteFile = govobj.voteFile
  type : govobj'.type = govobj.type
  instances : ∀ outpoint eSignal,
    govobj'.instanceOf outpoint eSignal = govobj.instanceOf outpoint eSignal

variable {govobj govobj' : CGovernanceObject} {nHash : uint256}

theorem SameVotes.refl (govobj : CGovernanceObject) : SameVotes govobj govobj :=
  ⟨rfl, rfl, rfl, fun _ _ => rfl⟩

theorem SameVotes.trans {govobj'' : CGovernanceObject} (h : SameVotes govobj govobj')
    (h' : SameVotes govobj' govobj'') : SameVotes govobj govobj'' where
  hash := h'.hash.trans h.hash
  file := h'.file.trans h.file
  type := h'.type.trans h.type
  instances outpoint eSignal := (h'.instances outpoint eSignal).trans (h.instances outpoint eSignal)

theorem SameVotes.fileVotes_eq (h : SameVotes govobj govobj') :
    govobj'.fileVotes = govobj.fileVotes :=
  congrArg CGovernanceObjectVoteFile.listVotes h.file

theorem InOrder.congr (h : InOrder env.getHash nHash govobj) (hsame : SameVotes govobj govobj') :
    InOrder env.getHash nHash govobj' where
  hash := hsame.hash.trans h.hash
  file := hsame.file ▸ h.file
  parents := by
    rw [hsame.fileVotes_eq]
    exact h.parents
  instances outpoint eSignal := by
    rw [hsame.fileVotes_eq, hsame.instances]
    exact h.instances outpoint eSignal

/-- Only default records and flags of the base have changed. -/
theorem sameVotes_of_untouched {base : Governance.CGovernanceObject}
    (h : govobj.Untouched base) : SameVotes govobj (govobj.withBase base) where
  hash := rfl
  file := by
    unfold voteFile withBase
    rw [h.fileVotes_eq]
  type := h.type_eq
  instances := h.instanceOf_eq

/-- What an object is after it has taken a vote. -/
structure Takes (env : VoteChecks G) (vote : CGovernanceVote)
    (govobj govobj' : CGovernanceObject) : Prop where
  unknown : govobj.voteFile.hasVote (env.getHash vote) = false
  hash : govobj'.hash = govobj.hash
  file : govobj'.voteFile = govobj.voteFile.addVote env vote
  voted : IsVoteOf vote.masternodeOutpoint vote.nVoteSignal
    (govobj'.instanceOf vote.masternodeOutpoint vote.nVoteSignal) vote
  instances : ∀ outpoint eSignal,
    ¬(vote.masternodeOutpoint = outpoint ∧ vote.nVoteSignal = eSignal) →
      govobj'.instanceOf outpoint eSignal = govobj.instanceOf outpoint eSignal

theorem takes_setInstance {vote : CGovernanceVote}
    (hnew : govobj.voteFile.hasVote (env.getHash vote) = false) (nTime : ℤ) :
    Takes env vote govobj
      ((govobj.withBase
        {govobj.setInstance vote.masternodeOutpoint vote.nVoteSignal
            ⟨vote.nVoteOutcome, nTime, vote.nTime⟩ with
          fDirtyCache := true}).withVoteFile (govobj.voteFile.addVote env vote)) where
  unknown := hnew
  hash := rfl
  file := rfl
  voted := by
    have hself : (govobj.setInstance vote.masternodeOutpoint vote.nVoteSignal
        ⟨vote.nVoteOutcome, nTime, vote.nTime⟩).instanceOf vote.masternodeOutpoint
          vote.nVoteSignal = ⟨vote.nVoteOutcome, nTime, vote.nTime⟩ :=
      (instanceOf_setInstance _ _ _ _ _).trans (if_pos ⟨rfl, rfl⟩)
    exact ⟨rfl, rfl, (congrArg vote_instance_t.eOutcome hself).symm,
      (congrArg vote_instance_t.nCreationTime hself).symm⟩
  instances outpoint eSignal hne := (instanceOf_setInstance _ _ _ _ _).trans (if_neg hne)

variable (env) in
/-- A vote is taken, or the votes stay as they are. -/
theorem processVote_cases (fRateChecksEnabled : Bool) (nNow : ℤ) (govobj : CGovernanceObject)
    (vote : CGovernanceVote) :
    ((govobj.processVote env fRateChecksEnabled nNow vote).1 = (true, {}) ∧
        Takes env vote govobj (govobj.processVote env fRateChecksEnabled nNow vote).2) ∨
      ((govobj.processVote env fRateChecksEnabled nNow vote).1.1 = false ∧
        SameVotes govobj (govobj.processVote env fRateChecksEnabled nNow vote).2) := by
  have hrecord := sameVotes_of_untouched
    (Governance.CGovernanceObject.untouched_emplaceRecord govobj.toCGovernanceObject
      vote.masternodeOutpoint)
  have hinstance := sameVotes_of_untouched
    (Governance.CGovernanceObject.untouched_setInstance govobj.toCGovernanceObject
      vote.masternodeOutpoint vote.nVoteSignal)
  unfold processVote
  by_cases hknown : govobj.voteFile.hasVote (env.getHash vote) = true
  · rw [if_pos hknown]
    exact Or.inr ⟨rfl, SameVotes.refl govobj⟩
  rw [if_neg hknown]
  cases env.getMNByCollateral vote.masternodeOutpoint with
  | none => exact Or.inr ⟨rfl, SameVotes.refl govobj⟩
  | some dmn =>
    dsimp only
    split_ifs
    · exact Or.inr ⟨rfl, hrecord⟩
    · exact Or.inr ⟨rfl, hrecord⟩
    · exact Or.inr ⟨rfl, hinstance⟩
    · exact Or.inr ⟨rfl, hinstance⟩
    · exact Or.inr ⟨rfl, hinstance⟩
    · exact Or.inl ⟨rfl, takes_setInstance (eq_false_of_ne_true hknown) nNow⟩
    · exact Or.inl ⟨rfl, takes_setInstance (eq_false_of_ne_true hknown) _⟩

/-- Whether a vote is taken depends on the votes only. -/
theorem SameVotes.processVote_eq (h : SameVotes govobj govobj') (fRateChecksEnabled : Bool)
    (nNow : ℤ) (vote : CGovernanceVote) :
    (govobj'.processVote env fRateChecksEnabled nNow vote).1 =
      (govobj.processVote env fRateChecksEnabled nNow vote).1 := by
  have hkey : govobj'.onlyVotingKeyAllowed vote = govobj.onlyVotingKeyAllowed vote :=
    onlyVotingKeyAllowed_congr h.type vote
  unfold processVote
  rw [h.file, h.instances, hkey]
  cases env.getMNByCollateral vote.masternodeOutpoint with
  | none => split_ifs <;> rfl
  | some dmn =>
    dsimp only
    by_cases hknown : govobj.voteFile.hasVote (env.getHash vote) = true
    · rw [if_pos hknown, if_pos hknown]
    · rw [if_neg hknown, if_neg hknown]
      split_ifs <;> rfl

theorem InOrder.takes {vote : CGovernanceVote} (h : InOrder env.getHash nHash govobj)
    (hparent : vote.nParentHash = nHash) (htakes : Takes env vote govobj govobj') :
    InOrder env.getHash nHash govobj' := by
  have hmem : ∀ old, old ∈ govobj'.fileVotes ↔ (old = vote ∨ old ∈ govobj.fileVotes) ∧
      ¬(old.masternodeOutpoint = vote.masternodeOutpoint ∧ old.nParentHash = vote.nParentHash ∧
        old.nVoteSignal = vote.nVoteSignal ∧ old.nTime < vote.nTime) := by
    intro old
    have hlist : govobj'.fileVotes = (govobj.voteFile.addVote env vote).listVotes :=
      congrArg CGovernanceObjectVoteFile.listVotes htakes.file
    rw [hlist]
    exact mem_addVote_iff htakes.unknown
  refine ⟨htakes.hash.trans h.hash, htakes.file ▸ h.file.addVote vote, ?_, ?_⟩
  · intro old hold
    rcases ((hmem old).mp hold).1 with rfl | hold
    · exact hparent
    · exact h.parents old hold
  · intro outpoint eSignal houtcome
    by_cases hslot : vote.masternodeOutpoint = outpoint ∧ vote.nVoteSignal = eSignal
    · obtain ⟨rfl, rfl⟩ := hslot
      refine ⟨vote, (hmem vote).mpr ⟨Or.inl rfl, fun hold => ?_⟩, htakes.voted⟩
      exact Int64.lt_irrefl hold.2.2.2
    · rw [htakes.instances outpoint eSignal hslot] at houtcome ⊢
      obtain ⟨old, hold, hvote⟩ := h.instances outpoint eSignal houtcome
      refine ⟨old, (hmem old).mpr ⟨Or.inr hold, fun hreplaced => hslot ?_⟩, hvote⟩
      exact ⟨hreplaced.1.symm.trans hvote.outpoint, hreplaced.2.2.1.symm.trans hvote.signal⟩

/-! #### Votes that go -/

/-- The votes of an object are in order, and no new ones. -/
structure Loses (getHash : CGovernanceVote → uint256) (nHash : uint256)
    (govobj govobj' : CGovernanceObject) : Prop where
  order : InOrder getHash nHash govobj'
  votes : ∀ vote ∈ govobj'.fileVotes, vote ∈ govobj.fileVotes

theorem Loses.trans {govobj'' : CGovernanceObject} (h : Loses env.getHash nHash govobj govobj')
    (h' : Loses env.getHash nHash govobj' govobj'') : Loses env.getHash nHash govobj govobj'' :=
  ⟨h'.order, fun vote hmem => h.votes vote (h'.votes vote hmem)⟩

theorem InOrder.loses_same (h : InOrder env.getHash nHash govobj)
    (hsame : SameVotes govobj govobj') :
    Loses env.getHash nHash govobj govobj' :=
  ⟨h.congr hsame, fun _ hmem => hsame.fileVotes_eq ▸ hmem⟩

theorem InOrder.clearMasternode (h : InOrder env.getHash nHash govobj) (outpoint : COutPoint) :
    Loses env.getHash nHash govobj (govobj.clearMasternode env outpoint) := by
  have hmem : ∀ vote, vote ∈ (govobj.clearMasternode env outpoint).fileVotes ↔
      vote ∈ govobj.fileVotes ∧ vote.masternodeOutpoint ≠ outpoint := by
    intro vote
    unfold CGovernanceObject.clearMasternode withVoteFile removeVotesFromMasternode
      CGovernanceObjectVoteFile.removeVotes
    dsimp only
    rw [List.mem_filter, Bool.not_eq_true', beq_eq_false_iff_ne]
    rfl
  have hinstance : ∀ outpoint' eSignal,
      (govobj.clearMasternode env outpoint).instanceOf outpoint' eSignal =
        if outpoint = outpoint' then {} else govobj.instanceOf outpoint' eSignal := by
    intro outpoint' eSignal
    unfold Governance.CGovernanceObject.instanceOf CGovernanceObject.clearMasternode withVoteFile
      withBase
    dsimp only
    rw [OrdMap.getElem?_erase]
    split_ifs with heq
    · rfl
    · rfl
  refine ⟨⟨h.hash, h.file.removeVotes _, ?_, ?_⟩, fun vote hvote => ((hmem vote).mp hvote).1⟩
  · exact fun vote hvote => h.parents vote ((hmem vote).mp hvote).1
  · intro outpoint' eSignal houtcome
    rw [hinstance] at houtcome ⊢
    split_ifs at houtcome ⊢ with heq
    · exact absurd rfl houtcome
    · obtain ⟨vote, hvote, his⟩ := h.instances outpoint' eSignal houtcome
      exact ⟨vote, (hmem vote).mpr ⟨hvote, fun hsame => heq (hsame.symm.trans his.outpoint)⟩, his⟩

theorem InOrder.clearMasternodeVotes (h : InOrder env.getHash nHash govobj) :
    Loses env.getHash nHash govobj (govobj.clearMasternodeVotes env) := by
  unfold CGovernanceObject.clearMasternodeVotes
  generalize (govobj.mapCurrentMNVotes.toList.filter fun record =>
    (env.getMNByCollateral record.1).isNone) = records
  induction records generalizing govobj with
  | nil => exact h.loses_same (SameVotes.refl govobj)
  | cons record records ih =>
    rw [List.foldl_cons]
    have hfirst := h.clearMasternode record.1
    exact hfirst.trans (ih hfirst.order)

/-- The hashes of the votes that go are given back. -/
structure Removes (getHash : CGovernanceVote → uint256) (nHash : uint256)
    (govobj : CGovernanceObject) (result : List uint256 × CGovernanceObject) : Prop where
  loses : Loses getHash nHash govobj result.2
  kept : ∀ vote ∈ result.2.fileVotes, getHash vote ∉ result.1
  removed : ∀ hash ∈ result.1, ∃ vote ∈ govobj.fileVotes, getHash vote = hash

theorem getHash_tmpVote {outpoint : COutPoint} {eSignal : Int32} {voteInstance : vote_instance_t}
    {vote : CGovernanceVote} (hvote : IsVoteOf outpoint eSignal voteInstance vote)
    (hparent : vote.nParentHash = govobj.hash) :
    env.getHash (govobj.tmpVote outpoint eSignal voteInstance) = env.getHash vote := by
  unfold VoteChecks.getHash CGovernanceVote.hashBytes tmpVote
  dsimp only
  rw [hvote.outpoint, hvote.signal, hvote.outcome, hvote.time, hparent]

theorem InOrder.removeInvalidVotes (h : InOrder env.getHash nHash govobj) (nNow : ℤ)
    (mnOutpoint : COutPoint) :
    Removes env.getHash nHash govobj (govobj.removeInvalidVotes env nNow mnOutpoint) := by
  have hsame : Removes env.getHash nHash govobj (([], govobj) : List uint256 × CGovernanceObject) :=
    ⟨h.loses_same (SameVotes.refl govobj), fun _ _ => List.not_mem_nil,
      fun _ hmem => absurd hmem List.not_mem_nil⟩
  unfold CGovernanceObject.removeInvalidVotes
  cases hrecord : govobj.mapCurrentMNVotes[mnOutpoint]? with
  | none => exact hsame
  | some record =>
    unfold CGovernanceObjectVoteFile.removeInvalidVotes
    dsimp only
    have houtpoint : ∀ vote, isInvalid env nNow mnOutpoint (decide (govobj.type = .PROPOSAL)) vote =
        true → vote.masternodeOutpoint = mnOutpoint := by
      intro vote hinvalid
      exact beq_iff_eq.mp (Bool.and_eq_true_iff.mp hinvalid).1
    generalize isInvalid env nNow mnOutpoint (decide (govobj.type = .PROPOSAL)) = p at *
    generalize hremoved : (govobj.voteFile.listVotes.filter p).map env.getHash = removedVotes
    by_cases hnone : removedVotes = []
    · rw [if_pos hnone]
      exact hsame
    rw [if_neg hnone]
    let kept := record.filter fun eSignal voteInstance =>
      decide (env.getHash (govobj.tmpVote mnOutpoint eSignal voteInstance) ∉ removedVotes)
    generalize hresult : (govobj.withBase {govobj.toCGovernanceObject with
      mapCurrentMNVotes := if kept.isEmpty then govobj.mapCurrentMNVotes.erase mnOutpoint
        else govobj.mapCurrentMNVotes.insert mnOutpoint kept
      fDirtyCache := true}).withVoteFile (govobj.voteFile.removeVotes env p) = govobj'
    have hinstance : ∀ outpoint eSignal, govobj'.instanceOf outpoint eSignal =
        if mnOutpoint = outpoint then kept[eSignal]?.getD {}
        else govobj.instanceOf outpoint eSignal := by
      intro outpoint eSignal
      rw [← hresult]
      unfold Governance.CGovernanceObject.instanceOf withVoteFile withBase
      dsimp only
      by_cases hempty : kept.isEmpty = true
      · rw [if_pos hempty, OrdMap.getElem?_erase]
        split_ifs
        · rw [ExtTreeMap.isEmpty_iff.mp hempty]
          rfl
        · rfl
      · rw [if_neg hempty, OrdMap.getElem?_insert]
        split_ifs
        · rfl
        · rfl
    have hmem : ∀ vote, vote ∈ govobj'.fileVotes ↔ vote ∈ govobj.fileVotes ∧ p vote = false := by
      intro vote
      rw [← hresult]
      unfold withVoteFile CGovernanceObjectVoteFile.removeVotes
      dsimp only
      rw [List.mem_filter, Bool.not_eq_true']
      rfl
    have hgone : ∀ vote ∈ govobj.fileVotes, env.getHash vote ∉ removedVotes → p vote = false := by
      intro vote hvote hnot
      by_contra hp
      refine hnot (hremoved ▸ List.mem_map.mpr ⟨vote, List.mem_filter.mpr ⟨hvote, ?_⟩, rfl⟩)
      exact (Bool.not_eq_false _).mp hp
    refine ⟨⟨⟨?_, ?_, ?_, ?_⟩, fun vote hvote => ((hmem vote).mp hvote).1⟩, ?_, ?_⟩
    · rw [← hresult]
      exact h.hash
    · rw [← hresult]
      exact h.file.removeVotes p
    · exact fun vote hvote => h.parents vote ((hmem vote).mp hvote).1
    · intro outpoint eSignal houtcome
      rw [hinstance] at houtcome ⊢
      split_ifs at houtcome ⊢ with heq
      · have hkept : kept[eSignal]? = record[eSignal]?.filter fun voteInstance => decide
            (env.getHash (govobj.tmpVote mnOutpoint eSignal voteInstance) ∉ removedVotes) :=
          ExtTreeMap.getElem?_filter'
        cases hget : record[eSignal]? with
        | none =>
          rw [hkept, hget] at houtcome
          exact absurd rfl houtcome
        | some voteInstance =>
          rw [hget, Option.filter_some] at hkept
          rw [hkept] at houtcome ⊢
          split_ifs at houtcome ⊢ with htmp
          · have hsame : govobj.instanceOf mnOutpoint eSignal = voteInstance := by
              rw [Governance.CGovernanceObject.instanceOf, hrecord, Option.getD_some, hget,
                Option.getD_some]
            obtain ⟨vote, hvote, his⟩ := h.instances mnOutpoint eSignal (hsame ▸ houtcome)
            rw [hsame] at his
            rw [getHash_tmpVote his ((h.parents vote hvote).trans h.hash.symm)] at htmp
            exact ⟨vote, (hmem vote).mpr ⟨hvote, hgone vote hvote (of_decide_eq_true htmp)⟩,
              heq ▸ his⟩
          · exact absurd rfl houtcome
      · obtain ⟨vote, hvote, his⟩ := h.instances outpoint eSignal houtcome
        refine ⟨vote, (hmem vote).mpr ⟨hvote, ?_⟩, his⟩
        by_contra hp
        exact heq ((houtpoint vote ((Bool.not_eq_false _).mp hp)).symm.trans his.outpoint)
    · intro vote hvote hmem'
      obtain ⟨hvote, hkeep⟩ := (hmem vote).mp hvote
      obtain ⟨other, hother, hhash⟩ := List.mem_map.mp (hremoved.symm ▸ hmem')
      rw [List.mem_filter] at hother
      have heq := List.inj_on_of_nodup_map h.file.nodup hother.1 hvote hhash
      rw [heq] at hother
      cases hkeep.symm.trans hother.2
    · intro hash hmem'
      obtain ⟨vote, hvote, hhash⟩ := List.mem_map.mp (hremoved.symm ▸ hmem')
      exact ⟨vote, List.mem_of_mem_filter hvote, hhash⟩

/-! #### Flags and restarts -/

theorem sameVotes_prepareDeletion (nDeletionTime : ℤ) :
    SameVotes govobj (govobj.prepareDeletion nDeletionTime) :=
  ⟨rfl, rfl, rfl, fun _ _ => rfl⟩

theorem sameVotes_setExpired : SameVotes govobj govobj.setExpired :=
  ⟨rfl, rfl, rfl, fun _ _ => rfl⟩

theorem sameVotes_updateSentinelVariables (nGovernanceMinQuorum time : ℤ) :
    SameVotes govobj (govobj.updateSentinelVariables env nGovernanceMinQuorum time) := by
  unfold updateSentinelVariables Governance.CGovernanceObject.updateSentinelVariables
  dsimp only
  by_cases hnone : getValidWeightedMNsCount env.tip_mn_list = 0
  · rw [if_pos hnone]
    exact SameVotes.refl govobj
  · rw [if_neg hnone]
    exact ⟨rfl, rfl, rfl, fun _ _ => rfl⟩

theorem InOrder.reload (h : InOrder env.getHash nHash govobj) :
    Loses env.getHash nHash govobj (govobj.reload env) := by
  obtain ⟨hfile, hlist⟩ := h.file.rebuildIndex
  have hvotes : (govobj.reload env).fileVotes = govobj.fileVotes := hlist
  refine ⟨⟨h.hash, hfile, ?_, ?_⟩, fun vote hmem => hvotes ▸ hmem⟩
  · rw [hvotes]
    exact h.parents
  · rw [hvotes]
    exact h.instances

end CGovernanceObject

end Votes

open Store.CGovernanceObject CGovernanceObjectVoteFile

/-! ### The manager -/

namespace CGovernanceManager

variable {p : StoreParams G} {env : StoreEnv G} {man man' man'' : CGovernanceManager G}
  {nHash : uint256} {govobj govobj' : CGovernanceObject}

/-- The votes of all objects are in order. -/
def Ordered (p : StoreParams G) (man : CGovernanceManager G) : Prop :=
  ∀ nHash govobj, man.mapObjects[nHash]? = some govobj → InOrder p.checks.getHash nHash govobj

/-- The index has every vote of every object once, and nothing of other objects. -/
structure Indexed (p : StoreParams G) (man : CGovernanceManager G) : Prop where
  maxSize : man.cmapVoteToObject.nMaxSize = MAX_CACHE_SIZE
  keys : (man.cmapVoteToObject.listItems.map Prod.fst).Nodup
  ordered : Ordered p man
  indexed : ∀ nHash govobj, man.mapObjects[nHash]? = some govobj → ∀ vote ∈ govobj.fileVotes,
    (p.checks.getHash vote, nHash) ∈ man.cmapVoteToObject.listItems
  refers : ∀ item ∈ man.cmapVoteToObject.listItems, item.2 ∈ man.mapObjects

theorem indexed_empty : Indexed p {} where
  maxSize := rfl
  keys := List.nodup_nil
  ordered nHash govobj hget := by
    rw [ExtTreeMap.getElem?_empty] at hget
    exact nomatch hget
  indexed nHash govobj hget := by
    rw [ExtTreeMap.getElem?_empty] at hget
    exact nomatch hget
  refers item hmem := absurd hmem List.not_mem_nil

/-! #### Steps that take nothing in -/

/-- Objects and votes have gone, and with each object that is gone its items of the index. -/
structure Cleans (p : StoreParams G) (man man' : CGovernanceManager G) : Prop where
  maxSize : man'.cmapVoteToObject.nMaxSize = man.cmapVoteToObject.nMaxSize
  sublist : man'.cmapVoteToObject.listItems.Sublist man.cmapVoteToObject.listItems
  objects : ∀ nHash govobj', man'.mapObjects[nHash]? = some govobj' →
    ∃ govobj, man.mapObjects[nHash]? = some govobj ∧ Loses p.checks.getHash nHash govobj govobj'
  items : ∀ item ∈ man.cmapVoteToObject.listItems, item.2 ∈ man'.mapObjects →
    item ∈ man'.cmapVoteToObject.listItems
  refers : ∀ item ∈ man'.cmapVoteToObject.listItems, item.2 ∈ man.mapObjects →
    item.2 ∈ man'.mapObjects

theorem Cleans.mem_of_mem (h : Cleans p man man') (hmem : nHash ∈ man'.mapObjects) :
    nHash ∈ man.mapObjects := by
  obtain ⟨govobj', hget⟩ := OrdMap.mem_iff_exists.mp hmem
  obtain ⟨govobj, hget, -⟩ := h.objects nHash govobj' hget
  exact OrdMap.mem_iff_exists.mpr ⟨govobj, hget⟩

theorem Cleans.trans (h : Cleans p man man') (h' : Cleans p man' man'') : Cleans p man man'' where
  maxSize := h'.maxSize.trans h.maxSize
  sublist := h'.sublist.trans h.sublist
  objects nHash govobj'' hget := by
    obtain ⟨govobj', hget', hloses'⟩ := h'.objects nHash govobj'' hget
    obtain ⟨govobj, hget, hloses⟩ := h.objects nHash govobj' hget'
    exact ⟨govobj, hget, hloses.trans hloses'⟩
  items item hmem hobject := h'.items item (h.items item hmem (h'.mem_of_mem hobject)) hobject
  refers item hmem hobject :=
    h'.refers item hmem (h.refers item (h'.sublist.subset hmem) hobject)

theorem Cleans.ordered (h : Cleans p man man') : Ordered p man' := by
  intro nHash govobj' hget
  obtain ⟨govobj, -, hloses⟩ := h.objects nHash govobj' hget
  exact hloses.order

theorem Indexed.cleans (h : Indexed p man) (hcleans : Cleans p man man') : Indexed p man' where
  maxSize := hcleans.maxSize.trans h.maxSize
  keys := h.keys.sublist (hcleans.sublist.map _)
  ordered := hcleans.ordered
  indexed nHash govobj' hget vote hvote := by
    obtain ⟨govobj, hget', hloses⟩ := hcleans.objects nHash govobj' hget
    exact hcleans.items _ (h.indexed nHash govobj hget' vote (hloses.votes vote hvote))
      (OrdMap.mem_iff_exists.mpr ⟨govobj', hget⟩)
  refers item hmem := hcleans.refers item hmem (h.refers item (hcleans.sublist.subset hmem))

/-- The objects and the index are as before. -/
theorem Ordered.cleans_same (h : Ordered p man) (hobjects : man'.mapObjects = man.mapObjects)
    (hcmap : man'.cmapVoteToObject = man.cmapVoteToObject) : Cleans p man man' where
  maxSize := congrArg CacheMap.nMaxSize hcmap
  sublist := hcmap ▸ List.Sublist.refl _
  objects nHash govobj hget := by
    rw [hobjects] at hget
    exact ⟨govobj, hget, (h nHash govobj hget).loses_same (SameVotes.refl govobj)⟩
  items item hmem _ := hcmap ▸ hmem
  refers item _ hobject := hobjects ▸ hobject

/-- One object has lost votes. -/
theorem Ordered.cleans_update (h : Ordered p man) (hget : man.mapObjects[nHash]? = some govobj)
    (hloses : Loses p.checks.getHash nHash govobj govobj')
    (hobjects : man'.mapObjects = man.mapObjects.insert nHash govobj')
    (hcmap : man'.cmapVoteToObject = man.cmapVoteToObject) : Cleans p man man' where
  maxSize := congrArg CacheMap.nMaxSize hcmap
  sublist := hcmap ▸ List.Sublist.refl _
  objects other other' hother := by
    rw [hobjects, OrdMap.getElem?_insert] at hother
    split_ifs at hother with heq
    · rw [← Option.some.inj hother, ← heq]
      exact ⟨govobj, hget, hloses⟩
    · exact ⟨other', hother, (h other other' hother).loses_same (SameVotes.refl other')⟩
  items item hmem _ := hcmap ▸ hmem
  refers item _ hobject := by
    rw [hobjects, ExtTreeMap.mem_insert]
    exact Or.inr hobject

/-- One object has gone, and its items of the index. -/
theorem Ordered.cleans_erase (h : Ordered p man)
    (hobjects : man'.mapObjects = man.mapObjects.erase nHash)
    (hsize : man'.cmapVoteToObject.nMaxSize = man.cmapVoteToObject.nMaxSize)
    (hitems : man'.cmapVoteToObject.listItems =
      man.cmapVoteToObject.listItems.filter fun item => item.2 ≠ nHash) : Cleans p man man' where
  maxSize := hsize
  sublist := hitems ▸ List.filter_sublist
  objects other other' hother := by
    rw [hobjects, OrdMap.getElem?_erase_eq_some] at hother
    exact ⟨other', hother.1, (h other other' hother.1).loses_same (SameVotes.refl other')⟩
  items item hmem hobject := by
    obtain ⟨other', hother⟩ := OrdMap.mem_iff_exists.mp hobject
    rw [hobjects, OrdMap.getElem?_erase_eq_some] at hother
    rw [hitems, List.mem_filter, decide_eq_true_eq]
    exact ⟨hmem, hother.2.symm⟩
  refers item hmem hobject := by
    rw [hitems, List.mem_filter, decide_eq_true_eq] at hmem
    obtain ⟨other', hother⟩ := OrdMap.mem_iff_exists.mp hobject
    rw [hobjects, OrdMap.mem_iff_exists]
    exact ⟨other', OrdMap.getElem?_erase_eq_some.mpr ⟨hother, hmem.2.symm⟩⟩

theorem Ordered.cleans_foldl {α : Type*} {f : CGovernanceManager G → α → CGovernanceManager G}
    (hstep : ∀ man a, Ordered p man → Cleans p man (f man a)) (h : Ordered p man) (l : List α) :
    Cleans p man (l.foldl f man) := by
  induction l generalizing man with
  | nil => exact h.cleans_same rfl rfl
  | cons a l ih =>
    have hfirst := hstep man a h
    exact hfirst.trans (ih hfirst.ordered)

theorem Ordered.clearMasternodeVotes (h : Ordered p man) (nHash : uint256) :
    Cleans p man (man.clearMasternodeVotes p env nHash) := by
  unfold CGovernanceManager.clearMasternodeVotes
  cases hget : man.mapObjects[nHash]? with
  | none => exact h.cleans_same rfl rfl
  | some govobj =>
    have horder : InOrder (p.at env).getHash nHash govobj := h nHash govobj hget
    exact h.cleans_update hget horder.clearMasternodeVotes rfl rfl

theorem Ordered.cleanTrigger (h : Ordered p man) (trigger : uint256 × CSuperblock) :
    Cleans p man (cleanTrigger p env man trigger) := by
  unfold CGovernanceManager.cleanTrigger
  cases hget : man.mapObjects[trigger.1]? with
  | none => exact h.cleans_same rfl rfl
  | some pObj =>
    have hobj := h trigger.1 pObj hget
    dsimp only
    split_ifs
    · exact h.cleans_update hget (hobj.loses_same (sameVotes_prepareDeletion _)) rfl rfl
    · exact h.cleans_update hget (hobj.loses_same
        (sameVotes_setExpired.trans (sameVotes_prepareDeletion _))) rfl rfl
    · exact h.cleans_same rfl rfl

theorem Ordered.cleanAndRemoveTriggers (h : Ordered p man) :
    Cleans p man (man.cleanAndRemoveTriggers p env) :=
  h.cleans_foldl (fun _ trigger hman => hman.cleanTrigger trigger) _

theorem Ordered.checkObject (h : Ordered p man) (nHash : uint256) :
    Cleans p man (checkObject p env man nHash) := by
  unfold CGovernanceManager.checkObject
  cases hget : man.mapObjects[nHash]? with
  | none => exact h.cleans_same rfl rfl
  | some pObj =>
    have hobj := h nHash pObj hget
    have hupdated : SameVotes pObj (if pObj.fDirtyCache then
        pObj.updateSentinelVariables (p.at env) p.nGovernanceMinQuorum env.clock.time
        else pObj) := by
      split_ifs
      · exact sameVotes_updateSentinelVariables _ _
      · exact SameVotes.refl pObj
    dsimp only
    generalize (if pObj.fDirtyCache then
        pObj.updateSentinelVariables (p.at env) p.nGovernanceMinQuorum env.clock.time
        else pObj) = updated at *
    by_cases hdelete : ((updated.fCachedDelete || updated.fExpired) &&
        decide (GOVERNANCE_DELETION_DELAY ≤ env.clock.time-updated.nDeletionTime)) = true
    · rw [if_pos hdelete]
      exact h.cleans_erase rfl rfl rfl
    · rw [if_neg hdelete]
      refine h.cleans_update hget (hobj.loses_same (hupdated.trans ?_)) rfl rfl
      split_ifs
      · exact sameVotes_prepareDeletion _
      · exact SameVotes.refl updated

theorem Ordered.checkAndRemove (h : Ordered p man) : Cleans p man (man.checkAndRemove p env) := by
  unfold CGovernanceManager.checkAndRemove
  split_ifs
  · exact h.cleans_same rfl rfl
  · have hcleared : Cleans p man (env.vecDirtyHashes.foldl
        (fun man nHash => man.clearMasternodeVotes p env nHash) man) :=
      h.cleans_foldl (fun man nHash hman => hman.clearMasternodeVotes nHash) _
    have hcleaned : Cleans p _ (CGovernanceManager.cleanAndRemoveTriggers p env _) :=
      hcleared.ordered.cleanAndRemoveTriggers
    refine (hcleared.trans hcleaned).trans ?_
    exact hcleaned.ordered.cleans_foldl (fun man nHash hman => hman.checkObject nHash) _

/-! #### Votes that go -/

theorem Indexed.unique (h : Indexed p man) {hash a b : uint256}
    (ha : (hash, a) ∈ man.cmapVoteToObject.listItems)
    (hb : (hash, b) ∈ man.cmapVoteToObject.listItems) : a = b :=
  (Prod.mk.inj (List.inj_on_of_nodup_map h.keys ha hb rfl)).2

theorem foldl_erase {K V : Type*} [DecidableEq K] (removed : List K) (cmap : CacheMap K V) :
    removed.foldl erase cmap =
      {cmap with listItems := cmap.listItems.filter fun item => item.1 ∉ removed} := by
  induction removed generalizing cmap with
  | nil =>
    rw [List.foldl_nil, List.filter_eq_self.mpr]
    exact fun item _ => decide_eq_true List.not_mem_nil
  | cons key removed ih =>
    rw [List.foldl_cons, ih, erase]
    dsimp only
    rw [List.filter_filter]
    congr 1
    apply List.filter_congr
    intro item _
    rw [← Bool.decide_and, decide_eq_decide, List.mem_cons, not_or, and_comm]

theorem Indexed.removeInvalidVotesOf (h : Indexed p man) (outpoint : COutPoint)
    (nHash : uint256) : Indexed p (removeInvalidVotesOf p env outpoint man nHash) := by
  unfold CGovernanceManager.removeInvalidVotesOf
  cases hget : man.mapObjects[nHash]? with
  | none => exact h
  | some govobj =>
    have horder : InOrder (p.at env).getHash nHash govobj := h.ordered nHash govobj hget
    have hremoves : Removes p.checks.getHash nHash govobj _ :=
      horder.removeInvalidVotes env.clock.adjusted outpoint
    dsimp only
    rw [foldl_erase]
    generalize govobj.removeInvalidVotes (p.at env) env.clock.adjusted outpoint = result at *
    refine ⟨h.maxSize, h.keys.sublist (List.filter_sublist.map _), ?_, ?_, ?_⟩
    · intro other other' hother
      rw [OrdMap.getElem?_insert] at hother
      split_ifs at hother with heq
      · rw [← Option.some.inj hother, ← heq]
        exact hremoves.loses.order
      · exact h.ordered other other' hother
    · intro other other' hother vote hvote
      rw [List.mem_filter, decide_eq_true_eq]
      rw [OrdMap.getElem?_insert] at hother
      split_ifs at hother with heq
      · rw [← Option.some.inj hother] at hvote
        rw [← heq]
        exact ⟨h.indexed nHash govobj hget vote (hremoves.loses.votes vote hvote),
          hremoves.kept vote hvote⟩
      · have hitem := h.indexed other other' hother vote hvote
        refine ⟨hitem, fun hremoved => heq ?_⟩
        obtain ⟨vote', hvote', hhash⟩ := hremoves.removed _ hremoved
        have hitem' := h.indexed nHash govobj hget vote' hvote'
        rw [hhash] at hitem'
        exact h.unique hitem' hitem
    · intro item hitem
      rw [ExtTreeMap.mem_insert]
      exact Or.inr (h.refers item (List.mem_of_mem_filter hitem))

theorem Indexed.removeInvalidVotes [DecidableEq G] (h : Indexed p man) :
    Indexed p (man.removeInvalidVotes p env) := by
  unfold CGovernanceManager.removeInvalidVotes
  split_ifs
  · exact h
  · have hcleared : ∀ (outpoints : List COutPoint) (man : CGovernanceManager G), Indexed p man →
        Indexed p (outpoints.foldl (fun man outpoint => man.mapObjects.keys.foldl
          (CGovernanceManager.removeInvalidVotesOf p env outpoint) man) man) := by
      intro outpoints man hman
      refine List.foldlRecOn outpoints _ hman fun man hman outpoint _ => ?_
      exact List.foldlRecOn man.mapObjects.keys _ hman fun man hman nHash _ =>
        hman.removeInvalidVotesOf outpoint nHash
    exact { hcleared _ _ h with }

/-! #### Votes that come -/

theorem hasKey_eq_false_iff {K V : Type*} [DecidableEq K] {cmap : CacheMap K V} {key : K} :
    cmap.hasKey key = false ↔ key ∉ cmap.listItems.map Prod.fst := by
  unfold CacheMap.hasKey
  rw [List.any_eq_false, List.mem_map, not_exists]
  refine forall_congr' fun item => ?_
  rw [not_and, beq_iff_eq]

/-- With room, nothing goes for an item that comes. -/
theorem insert_eq {K V : Type*} [DecidableEq K] {cmap : CacheMap K V} {key : K}
    (hnew : cmap.hasKey key = false) (hroom : cmap.listItems.length < cmap.nMaxSize) (value : V) :
    cmap.insert key value = (true, {cmap with listItems := (key, value) :: cmap.listItems}) := by
  unfold CacheMap.insert CacheMap.pruneLast
  rw [hnew, if_neg (by decide), if_neg hroom.ne]

theorem Indexed.takes {vote : CGovernanceVote} (h : Indexed p man)
    (hget : man.mapObjects[vote.nParentHash]? = some govobj)
    (hnew : man.cmapVoteToObject.hasKey (p.checks.getHash vote) = false)
    (htakes : Takes p.checks vote govobj govobj')
    (hobjects : man'.mapObjects = man.mapObjects.insert vote.nParentHash govobj')
    (hsize : man'.cmapVoteToObject.nMaxSize = man.cmapVoteToObject.nMaxSize)
    (hitems : man'.cmapVoteToObject.listItems =
      (p.checks.getHash vote, vote.nParentHash) :: man.cmapVoteToObject.listItems) :
    Indexed p man' where
  maxSize := hsize.trans h.maxSize
  keys := by
    rw [hitems, List.map_cons, List.nodup_cons]
    exact ⟨hasKey_eq_false_iff.mp hnew, h.keys⟩
  ordered nHash other hother := by
    rw [hobjects, OrdMap.getElem?_insert] at hother
    split_ifs at hother with heq
    · rw [← Option.some.inj hother, ← heq]
      exact (h.ordered vote.nParentHash govobj hget).takes rfl htakes
    · exact h.ordered nHash other hother
  indexed nHash other hother old hold := by
    rw [hitems, List.mem_cons]
    rw [hobjects, OrdMap.getElem?_insert] at hother
    split_ifs at hother with heq
    · rw [← Option.some.inj hother] at hold
      have hlist : govobj'.fileVotes = (govobj.voteFile.addVote p.checks vote).listVotes :=
        congrArg CGovernanceObjectVoteFile.listVotes htakes.file
      rw [hlist, mem_addVote_iff htakes.unknown] at hold
      rw [← heq]
      rcases hold.1 with rfl | hold
      · exact Or.inl rfl
      · exact Or.inr (h.indexed vote.nParentHash govobj hget old hold)
    · exact Or.inr (h.indexed nHash other hother old hold)
  refers item hitem := by
    rw [hobjects, ExtTreeMap.mem_insert]
    rw [hitems] at hitem
    rcases List.mem_cons.mp hitem with rfl | hitem
    · exact Or.inl Std.ReflCmp.compare_self
    · exact Or.inr (h.refers item hitem)

/-- There is room for a vote. -/
def HasRoom (man : CGovernanceManager G) : Prop :=
  man.cmapVoteToObject.listItems.length < MAX_CACHE_SIZE

instance (man : CGovernanceManager G) : Decidable (HasRoom man) :=
  inferInstanceAs (Decidable (_ < _))

theorem Indexed.processVote (h : Indexed p man) (hroom : HasRoom man) (vote : CGovernanceVote) :
    Indexed p (man.processVote p env vote).2 := by
  unfold CGovernanceManager.processVote
  dsimp only
  by_cases hknown : man.cmapVoteToObject.hasKey (p.checks.getHash vote) = true
  · rw [if_pos hknown]
    exact h
  rw [if_neg hknown]
  rw [Bool.not_eq_true] at hknown
  by_cases hinvalid : man.cmapInvalidVotes.hasKey (p.checks.getHash vote) = true
  · rw [if_pos hinvalid]
    exact h
  rw [if_neg hinvalid]
  cases hget : man.mapObjects[vote.nParentHash]? with
  | none => exact h.cleans (h.ordered.cleans_same rfl rfl)
  | some govobj =>
    dsimp only
    by_cases hignored : (govobj.fCachedDelete || govobj.fExpired) = true
    · rw [if_pos hignored]
      exact h
    rw [if_neg hignored, insert_eq hknown (h.maxSize ▸ hroom)]
    dsimp only
    have hcases := processVote_cases (p.at env) man.fRateChecksEnabled env.clock.adjusted
      govobj vote
    generalize govobj.processVote (p.at env) man.fRateChecksEnabled env.clock.adjusted vote =
      result at *
    obtain ⟨⟨fOk, exception⟩, govobj'⟩ := result
    dsimp only at hcases ⊢
    rcases hcases with ⟨hok, htakes⟩ | ⟨hrefused, hsame⟩
    · obtain ⟨rfl, rfl⟩ := Prod.mk.inj hok
      have htakes' : Takes p.checks vote govobj govobj' :=
        ⟨htakes.unknown, htakes.hash, htakes.file, htakes.voted, htakes.instances⟩
      exact h.takes hget hknown htakes' rfl rfl rfl
    · subst hrefused
      rw [if_neg (by decide)]
      have hloses := (h.ordered vote.nParentHash govobj hget).loses_same hsame
      split_ifs
      · exact h.cleans (h.ordered.cleans_update hget hloses rfl rfl)
      · exact h.cleans (h.ordered.cleans_update hget hloses rfl rfl)

/-! #### Objects that come -/

variable (p env) in
theorem newObject_sameVotes (nHash : uint256) (type : GovernanceObject) :
    SameVotes {type := type, hash := nHash} (newObject p env nHash type) :=
  sameVotes_updateSentinelVariables _ _

theorem instanceOf_new (nHash : uint256) (type : GovernanceObject) (outpoint : COutPoint)
    (eSignal : Int32) :
    ({type := type, hash := nHash} : CGovernanceObject).instanceOf outpoint eSignal = {} := by
  rw [Governance.CGovernanceObject.instanceOf, ExtTreeMap.getElem?_empty, Option.getD_none,
    ExtTreeMap.getElem?_empty, Option.getD_none]

variable (p env) in
theorem newObject_inOrder (nHash : uint256) (type : GovernanceObject) :
    InOrder p.checks.getHash nHash (newObject p env nHash type) ∧
      (newObject p env nHash type).fileVotes = [] := by
  have hsame := newObject_sameVotes p env nHash type
  refine ⟨InOrder.congr ⟨rfl, agrees_empty, ?_, ?_⟩ hsame, hsame.fileVotes_eq⟩
  · exact fun vote hmem => absurd hmem List.not_mem_nil
  · intro outpoint eSignal houtcome
    rw [instanceOf_new] at houtcome
    exact absurd rfl houtcome

theorem Indexed.insertNew (h : Indexed p man) (horder : InOrder p.checks.getHash nHash govobj)
    (hnone : govobj.fileVotes = [])
    (hobjects : man'.mapObjects = man.mapObjects.insert nHash govobj)
    (hcmap : man'.cmapVoteToObject = man.cmapVoteToObject) : Indexed p man' where
  maxSize := hcmap ▸ h.maxSize
  keys := hcmap ▸ h.keys
  ordered other other' hother := by
    rw [hobjects, OrdMap.getElem?_insert] at hother
    split_ifs at hother with heq
    · rw [← Option.some.inj hother, ← heq]
      exact horder
    · exact h.ordered other other' hother
  indexed other other' hother vote hvote := by
    rw [hcmap]
    rw [hobjects, OrdMap.getElem?_insert] at hother
    split_ifs at hother with heq
    · rw [← Option.some.inj hother, hnone] at hvote
      exact absurd hvote List.not_mem_nil
    · exact h.indexed other other' hother vote hvote
  refers item hitem := by
    rw [hobjects, ExtTreeMap.mem_insert]
    exact Or.inr (h.refers item (hcmap ▸ hitem))

/-- A vote that an object without votes takes. -/
structure FitsNew (env : VoteChecks G) (nNow : ℤ) (type : GovernanceObject)
    (vote : CGovernanceVote) : Prop where
  signal : vote.nVoteSignal ≠ VOTE_SIGNAL_NONE
  current : Governance.CGovernanceObject.obsolete {} vote = false
  valid : vote.isValid env nNow
    (decide (type = .PROPOSAL) && vote.nVoteSignal == VOTE_SIGNAL_FUNDING) = true

theorem newObject_processVote {type : GovernanceObject} {vote : CGovernanceVote}
    (hfits : ¬FitsNew (p.at env) env.clock.adjusted type vote) :
    ((newObject p env nHash type).processVote (p.at env) false env.clock.adjusted vote).1.1 =
      false := by
  rw [(newObject_sameVotes p env nHash type).processVote_eq]
  unfold CGovernanceObject.processVote
  rw [instanceOf_new]
  by_cases hknown : ({type := type, hash := nHash} : CGovernanceObject).voteFile.hasVote
      ((p.at env).getHash vote) = true
  · rw [if_pos hknown]
  rw [if_neg hknown]
  cases (p.at env).getMNByCollateral vote.masternodeOutpoint with
  | none => rfl
  | some dmn =>
    dsimp only
    split_ifs with hsignal _ hobsolete _ hinvalid
    · rfl
    · rfl
    · rfl
    · rfl
    · rfl
    · rw [Bool.not_eq_true', Bool.not_eq_false] at hinvalid
      exact absurd ⟨hsignal, eq_false_of_ne_true hobsolete, hinvalid⟩ hfits

/-- An object that comes in takes none of the orphan votes that wait for it. -/
def RefusesOrphans (p : StoreParams G) (env : StoreEnv G) (man : CGovernanceManager G)
    (nHash : uint256) (type : GovernanceObject) : Prop :=
  ∀ pairVote ∈ man.cmmapOrphanVotes.getAll nHash, ¬pairVote.2 < env.clock.adjusted →
    ¬FitsNew (p.at env) env.clock.adjusted type pairVote.1

variable (p env nHash) in
theorem foldl_checkOrphanVote {govobj govobj' : CGovernanceObject}
    (hsame : SameVotes govobj govobj') {pairs : List vote_time_pair_t}
    (hrefuses : ∀ pairVote ∈ pairs, ¬pairVote.2 < env.clock.adjusted →
      (govobj.processVote (p.at env) false env.clock.adjusted pairVote.1).1.1 = false)
    (orphans : OrphanVotes) :
    SameVotes govobj (pairs.foldl (checkOrphanVote p env nHash) (govobj', orphans)).1 := by
  induction pairs generalizing govobj' orphans with
  | nil => exact hsame
  | cons pairVote pairs ih =>
    rw [List.forall_mem_cons] at hrefuses
    rw [List.foldl_cons, checkOrphanVote]
    dsimp only
    by_cases hexpired : pairVote.2 < env.clock.adjusted
    · rw [if_pos hexpired]
      exact ih hsame hrefuses.2 _
    · rw [if_neg hexpired]
      refine ih (hsame.trans ?_) hrefuses.2 _
      have hfalse := hrefuses.1 hexpired
      rw [← hsame.processVote_eq] at hfalse
      rcases processVote_cases (p.at env) false env.clock.adjusted govobj' pairVote.1 with
        ⟨hok, -⟩ | ⟨-, hkept⟩
      · rw [hok] at hfalse
        exact nomatch hfalse
      · exact hkept

theorem Indexed.checkOrphanVotes {type : GovernanceObject} (h : Indexed p man)
    (hrefuses : RefusesOrphans p env man nHash type) :
    Indexed p (man.checkOrphanVotes p env nHash (newObject p env nHash type)) := by
  obtain ⟨horder, hnone⟩ := newObject_inOrder p env nHash type
  have hsame := foldl_checkOrphanVote p env nHash (SameVotes.refl (newObject p env nHash type))
    (fun pairVote hpair hexpired => newObject_processVote (hrefuses pairVote hpair hexpired))
    man.cmmapOrphanVotes
  exact h.insertNew (horder.congr hsame) (hsame.fileVotes_eq.trans hnone) rfl rfl

variable (p env) in
theorem addNewTrigger_same (man : CGovernanceManager G) (nHash : uint256) :
    (man.addNewTrigger p env nHash).2.mapObjects = man.mapObjects ∧
      (man.addNewTrigger p env nHash).2.cmapVoteToObject = man.cmapVoteToObject ∧
      (man.addNewTrigger p env nHash).2.cmmapOrphanVotes = man.cmmapOrphanVotes := by
  unfold addNewTrigger
  split_ifs
  · exact ⟨rfl, rfl, rfl⟩
  · cases p.superblock nHash with
    | none => exact ⟨rfl, rfl, rfl⟩
    | some pSuperblock => exact ⟨rfl, rfl, rfl⟩

theorem Indexed.addGovernanceObject {type : GovernanceObject} {isValidLocally : Bool}
    (h : Indexed p man)
    (hrefuses : isValidLocally = true → nHash ∉ man.mapObjects →
      (type = .TRIGGER → (man.addNewTrigger p env nHash).1 = true) →
        RefusesOrphans p env man nHash type) :
    Indexed p (man.addGovernanceObject p env nHash type isValidLocally) := by
  unfold CGovernanceManager.addGovernanceObject
  by_cases hskip : isValidLocally = false ∨ nHash ∈ man.mapObjects
  · rw [if_pos hskip]
    exact h
  rw [if_neg hskip]
  rw [not_or, Bool.not_eq_false] at hskip
  have hrefuses' := hrefuses hskip.1 hskip.2
  by_cases htrigger : type = .TRIGGER
  · rw [if_pos htrigger]
    replace hrefuses' := fun hadded => hrefuses' fun _ => hadded
    obtain ⟨hobjects, hcmap, horphans⟩ := addNewTrigger_same p env man nHash
    generalize man.addNewTrigger p env nHash = result at *
    obtain ⟨added, man'⟩ := result
    dsimp only at hobjects hcmap horphans ⊢
    have h' : Indexed p man' := h.cleans (h.ordered.cleans_same hobjects hcmap)
    split_ifs with hadded
    · apply h'.checkOrphanVotes
      unfold RefusesOrphans
      rw [horphans]
      exact hrefuses' hadded
    · obtain ⟨horder, hnone⟩ := newObject_inOrder p env nHash type
      have hsame : SameVotes (newObject p env nHash type) _ :=
        sameVotes_prepareDeletion env.clock.time
      exact h'.insertNew (horder.congr hsame) (hsame.fileVotes_eq.trans hnone) rfl rfl
  · rw [if_neg htrigger]
    exact h.checkOrphanVotes (hrefuses' fun htype => absurd htype htrigger)

/-! #### Restarts -/

theorem Ordered.addCachedTrigger (h : Ordered p man) (nHash : uint256) :
    Cleans p man (addCachedTrigger p env man nHash) := by
  unfold CGovernanceManager.addCachedTrigger
  cases hget : man.mapObjects[nHash]? with
  | none => exact h.cleans_same rfl rfl
  | some govobj =>
    dsimp only
    by_cases htype : govobj.type ≠ .TRIGGER
    · rw [if_pos htype]
      exact h.cleans_same rfl rfl
    rw [if_neg htype]
    obtain ⟨hobjects, hcmap, -⟩ := addNewTrigger_same p env man nHash
    generalize man.addNewTrigger p env nHash = result at *
    obtain ⟨added, man'⟩ := result
    dsimp only at hobjects hcmap ⊢
    split_ifs
    · exact h.cleans_same hobjects hcmap
    · refine h.cleans_update hget ((h nHash govobj hget).loses_same
        (sameVotes_prepareDeletion env.clock.time)) ?_ hcmap
      dsimp only
      rw [hobjects]

/-- Items with new keys all come in, as long as there is room. -/
theorem foldl_insert {K V : Type*} [DecidableEq K] {items : List (K × V)} {cmap : CacheMap K V}
    (hkeys : (items.map Prod.fst ++ cmap.listItems.map Prod.fst).Nodup)
    (hroom : items.length+cmap.listItems.length ≤ cmap.nMaxSize) :
    items.foldl (fun cmap item => (cmap.insert item.1 item.2).2) cmap =
      {cmap with listItems := items.reverse ++ cmap.listItems} := by
  induction items generalizing cmap with
  | nil => rfl
  | cons item items ih =>
    rw [List.length_cons] at hroom
    rw [List.map_cons, List.cons_append, List.nodup_cons, List.mem_append, not_or] at hkeys
    rw [List.foldl_cons, insert_eq (hasKey_eq_false_iff.mpr hkeys.1.2) (by omega)]
    dsimp only
    rw [ih]
    · dsimp only
      rw [List.reverse_cons, List.append_assoc, List.singleton_append]
    · dsimp only
      rw [List.map_cons, List.nodup_middle, List.nodup_cons, List.mem_append, not_or]
      exact ⟨hkeys.1, hkeys.2⟩
    · dsimp only
      rw [List.length_cons]
      omega

theorem mem_votesOfObjects {mapObjects : ExtTreeMap uint256 CGovernanceObject}
    {item : uint256 × uint256} :
    item ∈ votesOfObjects p mapObjects ↔ ∃ govobj : CGovernanceObject,
      mapObjects[item.2]? = some govobj ∧
        ∃ vote ∈ govobj.fileVotes, p.checks.getHash vote = item.1 := by
  unfold votesOfObjects
  rw [List.mem_flatMap]
  constructor
  · rintro ⟨⟨nHash, govobj⟩, hobject, hitem⟩
    obtain ⟨vote, hvote, rfl⟩ := List.mem_map.mp hitem
    exact ⟨govobj, OrdMap.mem_toList hobject, vote, hvote, rfl⟩
  · rintro ⟨govobj, hget, vote, hvote, hhash⟩
    refine ⟨(item.2, govobj), ExtTreeMap.mem_toList_iff_getElem?_eq_some.mpr hget,
      List.mem_map.mpr ⟨vote, hvote, ?_⟩⟩
    rw [hhash]

theorem votesOfObjects_nodup {mapObjects : ExtTreeMap uint256 CGovernanceObject}
    (h : ∀ nHash govobj, mapObjects[nHash]? = some govobj →
      InOrder p.checks.getHash nHash govobj) : (votesOfObjects p mapObjects).Nodup := by
  unfold votesOfObjects
  rw [List.nodup_flatMap]
  constructor
  · rintro ⟨nHash, govobj⟩ hobject
    have hnodup := (h nHash govobj (OrdMap.mem_toList hobject)).file.nodup
    refine List.Nodup.of_map Prod.fst ?_
    rw [List.map_map]
    exact hnodup
  · refine ExtTreeMap.distinct_keys_toList.imp fun {a b} hne => ?_
    rw [Function.onFun, List.disjoint_left]
    intro item ha hb
    obtain ⟨vote, -, rfl⟩ := List.mem_map.mp ha
    obtain ⟨vote', -, heq⟩ := List.mem_map.mp hb
    rw [(Prod.mk.inj heq).2] at hne
    exact hne Std.ReflCmp.compare_self

/-- The index is rebuilt from objects that hold no more votes than the old one knows. -/
theorem Ordered.rebuildIndexes (h : Ordered p man)
    (hsize : man.cmapVoteToObject.nMaxSize = MAX_CACHE_SIZE)
    {items : List (uint256 × uint256)} (hkeys : (items.map Prod.fst).Nodup)
    (hsub : votesOfObjects p man.mapObjects ⊆ items) (hroom : items.length < MAX_CACHE_SIZE) :
    Indexed p (man.rebuildIndexes p) := by
  have hnodup := votesOfObjects_nodup h
  have hfirst : ((votesOfObjects p man.mapObjects).map Prod.fst).Nodup :=
    hnodup.map_on fun a ha b hb hab => List.inj_on_of_nodup_map hkeys (hsub ha) (hsub hb) hab
  have hlength : (votesOfObjects p man.mapObjects).length ≤ items.length :=
    List.Nodup.length_le_of_subset hnodup hsub
  have hrebuilt : (man.rebuildIndexes p).cmapVoteToObject =
      ⟨man.cmapVoteToObject.nMaxSize, (votesOfObjects p man.mapObjects).reverse⟩ := by
    unfold CGovernanceManager.rebuildIndexes
    dsimp only
    rw [foldl_insert]
    · dsimp only
      rw [List.append_nil]
    · dsimp only
      rw [List.map_nil, List.append_nil]
      exact hfirst
    · dsimp only
      rw [List.length_nil, hsize]
      omega
  refine ⟨?_, ?_, h, ?_, ?_⟩
  · rw [hrebuilt]
    exact hsize
  · rw [hrebuilt, List.map_reverse, List.nodup_reverse]
    exact hfirst
  · intro nHash govobj hget vote hvote
    rw [hrebuilt]
    dsimp only
    rw [List.mem_reverse, mem_votesOfObjects]
    exact ⟨govobj, hget, vote, hvote, rfl⟩
  · intro item hitem
    rw [hrebuilt] at hitem
    dsimp only at hitem
    rw [List.mem_reverse, mem_votesOfObjects] at hitem
    obtain ⟨govobj, hget, -⟩ := hitem
    exact OrdMap.mem_iff_exists.mpr ⟨govobj, hget⟩

theorem Indexed.restart (h : Indexed p man) (hroom : HasRoom man) :
    Indexed p (man.restart p env) := by
  have hstored : ∀ nHash govobj', (man.stored p).mapObjects[nHash]? = some govobj' →
      ∃ govobj, man.mapObjects[nHash]? = some govobj ∧
        Loses p.checks.getHash nHash govobj govobj' := by
    intro nHash govobj' hget
    unfold stored at hget
    dsimp only at hget
    rw [ExtTreeMap.getElem?_map] at hget
    obtain ⟨govobj, hstored, rfl⟩ := Option.map_eq_some_iff.mp hget
    exact ⟨govobj, hstored, (h.ordered nHash govobj hstored).reload⟩
  have hordered : Ordered p (man.stored p) := by
    intro nHash govobj' hget
    obtain ⟨govobj, -, hloses⟩ := hstored nHash govobj' hget
    exact hloses.order
  have hcleans : Cleans p (man.stored p) ((man.stored p).checkAndRemove p env) :=
    hordered.checkAndRemove
  have hsub : votesOfObjects p ((man.stored p).checkAndRemove p env).mapObjects ⊆
      man.cmapVoteToObject.listItems := by
    intro item hitem
    obtain ⟨govobj', hget, vote, hvote, hhash⟩ := mem_votesOfObjects.mp hitem
    obtain ⟨kept, hkept, hloses⟩ := hcleans.objects item.2 govobj' hget
    obtain ⟨govobj, hget, hreload⟩ := hstored item.2 kept hkept
    have hindexed := h.indexed item.2 govobj hget vote
      (hreload.votes vote (hloses.votes vote hvote))
    rw [hhash] at hindexed
    exact hindexed
  have hrebuilt := hcleans.ordered.rebuildIndexes hcleans.maxSize h.keys hsub hroom
  unfold CGovernanceManager.restart initOnLoad
  exact hrebuilt.cleans (hrebuilt.ordered.cleans_foldl
    (fun man nHash hman => hman.addCachedTrigger nHash) _)

/-! #### Runs -/

/-- There is room, and no orphan vote is taken. -/
def NoOrphanTaken (p : StoreParams G) (man : CGovernanceManager G)
    (operation : StoreEnv G × Operation) : Prop :=
  match operation.2 with
  | .AddGovernanceObject nHash type isValidLocally =>
    isValidLocally = true → nHash ∉ man.mapObjects →
      (type = .TRIGGER → (man.addNewTrigger p operation.1 nHash).1 = true) →
        RefusesOrphans p operation.1 man nHash type
  | _ => True

theorem Indexed.step [DecidableEq G] (h : Indexed p man) (operation : StoreEnv G × Operation)
    (hroom : HasRoom man) (hcondition : NoOrphanTaken p man operation) :
    Indexed p (step p man operation).2 := by
  obtain ⟨env, operation⟩ := operation
  unfold Store.step
  cases operation with
  | ProcessVote vote => exact h.processVote hroom vote
  | AddGovernanceObject nHash type isValidLocally => exact h.addGovernanceObject hcondition
  | RemoveInvalidVotes => exact h.removeInvalidVotes
  | ClearMasternodeVotes nHash => exact h.cleans (h.ordered.clearMasternodeVotes nHash)
  | CheckAndRemove => exact h.cleans h.ordered.checkAndRemove
  | CleanOrphanObjects => exact h.cleans (h.ordered.cleans_same rfl rfl)
  | Restart => exact h.restart hroom

/-- Some object holds a vote with a hash. -/
def Holds (p : StoreParams G) (man : CGovernanceManager G) (hash : uint256) : Prop :=
  ∃ (nHash : uint256) (govobj : CGovernanceObject), man.mapObjects[nHash]? = some govobj ∧
    ∃ vote ∈ govobj.fileVotes, p.checks.getHash vote = hash

/-- The index says what the objects hold, and the parts of each object agree. -/
structure Exact (p : StoreParams G) (man : CGovernanceManager G) : Prop where
  have_iff : ∀ hash, man.haveVoteForHash hash = true ↔ Holds p man hash
  serialize_iff : ∀ hash, (man.serializeVoteForHash hash).isSome = true ↔ Holds p man hash
  serialized : ∀ hash vote, man.serializeVoteForHash hash = some vote →
    p.checks.getHash vote = hash
  refers : ∀ item ∈ man.cmapVoteToObject.listItems, item.2 ∈ man.mapObjects
  ordered : Ordered p man

theorem find?_eq_some_iff {K V : Type*} [DecidableEq K] {cmap : CacheMap K V}
    (hkeys : (cmap.listItems.map Prod.fst).Nodup) {key : K} {value : V} :
    Store.get cmap key = some value ↔ (key, value) ∈ cmap.listItems := by
  unfold Store.get
  constructor
  · intro h
    obtain ⟨item, hfind, rfl⟩ := Option.map_eq_some_iff.mp h
    have hfound := List.find?_some hfind
    have hkey : item.1 = key := of_decide_eq_true hfound
    rw [← hkey]
    exact List.mem_of_find?_eq_some hfind
  · intro hmem
    cases hfind : cmap.listItems.find? fun item => item.1 = key with
    | none =>
      have hnone := List.find?_eq_none.mp hfind _ hmem
      exact absurd (decide_eq_true rfl) hnone
    | some item =>
      have hfound := List.find?_some hfind
      have hkey : item.1 = key := of_decide_eq_true hfound
      have heq := List.inj_on_of_nodup_map hkeys (List.mem_of_find?_eq_some hfind) hmem hkey
      rw [heq, Option.map_some]

theorem Indexed.serialize_eq_some_iff (h : Indexed p man) {hash : uint256}
    {vote : CGovernanceVote} :
    man.serializeVoteForHash hash = some vote ↔ ∃ (nHash : uint256) (govobj : CGovernanceObject),
      man.mapObjects[nHash]? = some govobj ∧ vote ∈ govobj.fileVotes ∧
        p.checks.getHash vote = hash := by
  unfold serializeVoteForHash serializeVoteToStream
  rw [Option.bind_eq_some_iff]
  constructor
  · rintro ⟨nHash, -, hobject⟩
    obtain ⟨govobj, hget, hvote⟩ := Option.bind_eq_some_iff.mp hobject
    exact ⟨nHash, govobj, hget, ((h.ordered nHash govobj hget).file.index hash vote).mp hvote⟩
  · rintro ⟨nHash, govobj, hget, hvote, hhash⟩
    refine ⟨nHash, ?_, Option.bind_eq_some_iff.mpr ⟨govobj, hget, ?_⟩⟩
    · rw [find?_eq_some_iff h.keys, ← hhash]
      exact h.indexed nHash govobj hget vote hvote
    · exact ((h.ordered nHash govobj hget).file.index hash vote).mpr ⟨hvote, hhash⟩

theorem haveVoteForHash_eq (man : CGovernanceManager G) (hash : uint256) :
    man.haveVoteForHash hash = (man.serializeVoteForHash hash).isSome := by
  unfold haveVoteForHash serializeVoteForHash serializeVoteToStream
  cases Store.get man.cmapVoteToObject hash with
  | none => rfl
  | some nHashGovobj =>
    rw [Option.bind_some]
    dsimp only
    cases man.mapObjects[nHashGovobj]? with
    | none => rfl
    | some govobj =>
      rw [Option.bind_some]
      unfold hasVote
      rw [Bool.eq_iff_iff, decide_eq_true_eq]
      exact ExtTreeMap.mem_iff_isSome_getElem?

theorem Indexed.exact (h : Indexed p man) : Exact p man := by
  have hserialize : ∀ hash, (man.serializeVoteForHash hash).isSome = true ↔ Holds p man hash := by
    intro hash
    rw [Option.isSome_iff_exists]
    constructor
    · rintro ⟨vote, hvote⟩
      obtain ⟨nHash, govobj, hget, hvote, hhash⟩ := h.serialize_eq_some_iff.mp hvote
      exact ⟨nHash, govobj, hget, vote, hvote, hhash⟩
    · rintro ⟨nHash, govobj, hget, vote, hvote, hhash⟩
      exact ⟨vote, h.serialize_eq_some_iff.mpr ⟨nHash, govobj, hget, hvote, hhash⟩⟩
  refine ⟨fun hash => ?_, hserialize, fun hash vote hvote => ?_, h.refers, h.ordered⟩
  · rw [haveVoteForHash_eq]
    exact hserialize hash
  · obtain ⟨nHash, govobj, -, -, hhash⟩ := h.serialize_eq_some_iff.mp hvote
    exact hhash

/-- In a run that always has room and in which no orphan vote is taken, the index is exact in every
state. -/
theorem voteIndex_exact [DecidableEq G] (p : StoreParams G)
    (operations : List (StoreEnv G × Operation))
    (hrun : EveryStep (Store.step p)
      (fun man operation => HasRoom man ∧ NoOrphanTaken p man operation) {} operations) :
    ∀ past, past <+: operations → Exact p (final (Store.step p) {} past) := by
  intro past hpast
  apply Indexed.exact
  exact prefix_invariant (Indexed p)
    (fun man operation h hcondition => h.step operation hcondition.1 hcondition.2)
    indexed_empty hrun hpast

/-! ### Runs with one vote -/

section Samples

def sampleParams : StoreParams Unit where
  checks := sampleChecks
  network := .main
  superblockParams := mainSuperblockParams
  nGovernanceMinQuorum := 10
  superblock _ := none
  validate _ := true

def sampleEnv : StoreEnv Unit where
  clock := sampleClock
  tip_mn_list := sampleChecks.tip_mn_list

def sampleObject : Operation := .AddGovernanceObject 9 .PROPOSAL true

/-- The object, the vote, and a restart. -/
def voteAfterObject : List (StoreEnv Unit × Operation) :=
  [(sampleEnv, sampleObject), (sampleEnv, .ProcessVote (sampleVote [1])), (sampleEnv, .Restart)]

/-- The vote, and then its object. -/
def voteBeforeObject : List (StoreEnv Unit × Operation) :=
  [(sampleEnv, .ProcessVote (sampleVote [1])), (sampleEnv, sampleObject)]

theorem voteIndex_exact_sample :
    Exact sampleParams (final (Store.step sampleParams) {} voteAfterObject) :=
  voteIndex_exact sampleParams voteAfterObject
    ⟨⟨by decide +kernel, fun _ _ _ _ hpair => absurd hpair List.not_mem_nil⟩,
      ⟨by decide +kernel, trivial⟩, ⟨by decide +kernel, trivial⟩, trivial⟩
    voteAfterObject List.prefix_rfl

/-- An orphan vote that a new object takes does not come into the index. -/
theorem orphan_not_indexed :
    EveryStep (Store.step sampleParams) (fun man _ => HasRoom man) {} voteBeforeObject ∧
      ¬Exact sampleParams (final (Store.step sampleParams) {} voteBeforeObject) := by
  refine ⟨⟨?_, ?_, trivial⟩, fun h => ?_⟩
  · show HasRoom _
    decide +kernel
  · show HasRoom _
    decide +kernel
  have hvotes : (final (Store.step sampleParams) {} voteBeforeObject).mapObjects[(9 : uint256)]?.map
      (fun govobj => govobj.fileVotes) = some [sampleVote [1]] := by decide +kernel
  obtain ⟨govobj, hget, hlist⟩ := Option.map_eq_some_iff.mp hvotes
  have hholds : Holds sampleParams (final (Store.step sampleParams) {} voteBeforeObject)
      (sampleChecks.getHash (sampleVote [1])) :=
    ⟨9, govobj, hget, sampleVote [1], hlist ▸ List.mem_singleton_self _, rfl⟩
  have hhave := (h.have_iff _).mpr hholds
  revert hhave
  decide +kernel

end Samples

end CGovernanceManager

end BabaChain.Governance.Store
