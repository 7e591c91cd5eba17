import BabaChain.GovernanceVoteIndex
import BabaChain.TriggerVotes

/-! What a vote leaves behind that a governance object refuses: the records and instances that are
made before it is checked. -/
namespace BabaChain.Governance.Store
open OrdMap
open Std (ExtTreeMap)

variable {G : Type*}

/-! ### Records -/

def getCurrentMNVotes (govobj : Governance.CGovernanceObject) (mnCollateralOutpoint : COutPoint) :
    Option vote_rec_t :=
  govobj.mapCurrentMNVotes[mnCollateralOutpoint]?

/-- Whether `VoteGovernanceTriggers` finds that the masternode voted already. -/
def reportsFunding (govobj : Governance.CGovernanceObject) (outpoint : COutPoint) : Bool :=
  (getCurrentMNVotes govobj outpoint).any fun voteRecord => voteRecord.contains VOTE_SIGNAL_FUNDING

theorem fundingInstance_isSome (trigger : Signing.CGovernanceObject) (outpoint : COutPoint) :
    (trigger.fundingInstance outpoint).isSome =
      reportsFunding trigger.toCGovernanceObject outpoint := by
  unfold Signing.CGovernanceObject.fundingInstance reportsFunding getCurrentMNVotes
  cases trigger.mapCurrentMNVotes[outpoint]? with
  | none => rfl
  | some voteRecord =>
    rw [Option.bind_some, Option.any_some, ExtTreeMap.contains_eq_isSome_getElem?]

variable (env : VoteChecks G) (fRateChecksEnabled : Bool) (nNow : ℤ) (govobj : CGovernanceObject)
  (vote : CGovernanceVote)

/-- The vote is known or its masternode is not; or the masternode has a record already, and an
instance in it if the signal is one that is counted. -/
def Recorded : Prop :=
  govobj.voteFile.hasVote (env.getHash vote) = true ∨
    env.getMNByCollateral vote.masternodeOutpoint = none ∨
      ∃ voteRecord, getCurrentMNVotes govobj.toCGovernanceObject vote.masternodeOutpoint =
        some voteRecord ∧
          (Governance.CGovernanceObject.Counted vote.nVoteSignal → vote.nVoteSignal ∈ voteRecord)

variable {env fRateChecksEnabled nNow govobj vote}

section Records

variable (base : Governance.CGovernanceObject) (outpoint : COutPoint) (eSignal : Int32)

/-- An entry that is written again as it is. -/
theorem insert_eq_iff {κ ν : Type*} [Ord κ] [Std.TransOrd κ] [Std.LawfulEqOrd κ] [DecidableEq κ]
    (m : ExtTreeMap κ ν) (k : κ) (v : ν) : m.insert k v = m ↔ m[k]? = some v := by
  constructor
  · intro heq
    rw [← heq, getElem?_insert, if_pos rfl]
  · intro hk
    apply ExtTreeMap.ext_getElem?
    intro a
    rw [getElem?_insert]
    split_ifs with ha
    · rw [← ha, hk]
    · rfl

theorem emplaceRecord_eq_iff :
    base.emplaceRecord outpoint = base ↔ (getCurrentMNVotes base outpoint).isSome = true := by
  have hmap : base.emplaceRecord outpoint = base ↔ base.mapCurrentMNVotes.insert outpoint
      ((base.mapCurrentMNVotes[outpoint]?).getD ∅) = base.mapCurrentMNVotes := by
    constructor
    · exact congrArg Governance.CGovernanceObject.mapCurrentMNVotes
    · intro heq
      rw [Governance.CGovernanceObject.emplaceRecord, heq]
  rw [hmap, insert_eq_iff, getCurrentMNVotes]
  cases base.mapCurrentMNVotes[outpoint]? with
  | none => simp
  | some voteRecord => simp

theorem setInstance_eq_iff :
    base.setInstance outpoint eSignal (base.instanceOf outpoint eSignal) = base ↔
      ∃ voteRecord, getCurrentMNVotes base outpoint = some voteRecord ∧ eSignal ∈ voteRecord := by
  have hmap : base.setInstance outpoint eSignal (base.instanceOf outpoint eSignal) = base ↔
      base.mapCurrentMNVotes.insert outpoint (((base.mapCurrentMNVotes[outpoint]?).getD ∅).insert
        eSignal (base.instanceOf outpoint eSignal)) = base.mapCurrentMNVotes := by
    constructor
    · exact congrArg Governance.CGovernanceObject.mapCurrentMNVotes
    · intro heq
      rw [Governance.CGovernanceObject.setInstance, heq]
  rw [hmap, insert_eq_iff, getCurrentMNVotes, Governance.CGovernanceObject.instanceOf]
  cases base.mapCurrentMNVotes[outpoint]? with
  | none => simp
  | some voteRecord =>
    rw [Option.getD_some, Option.some.injEq, eq_comm, insert_eq_iff]
    simp only [Option.some.injEq, exists_eq_left', mem_iff_exists]
    cases voteRecord[eSignal]? with
    | none => simp
    | some voteInstance => simp

/-- Which instances for funding are there once an instance is made. -/
theorem reportsFunding_setInstance (voteInstance : vote_instance_t) (a : COutPoint) :
    reportsFunding (base.setInstance outpoint eSignal voteInstance) a = true ↔
      reportsFunding base a = true ∨ outpoint = a ∧ eSignal = VOTE_SIGNAL_FUNDING := by
  unfold reportsFunding getCurrentMNVotes Governance.CGovernanceObject.setInstance
  dsimp only
  rw [getElem?_insert]
  by_cases ha : outpoint = a
  · subst ha
    rw [if_pos rfl, Option.any_some, ExtTreeMap.contains_insert, Bool.or_eq_true, beq_iff_eq,
      Std.LawfulEqOrd.compare_eq_iff_eq]
    cases base.mapCurrentMNVotes[outpoint]? with
    | none => simp
    | some voteRecord => simp [or_comm]
  · rw [if_neg ha]
    simp [ha]

theorem reportsFunding_emplaceRecord (a : COutPoint) :
    reportsFunding (base.emplaceRecord outpoint) a = reportsFunding base a := by
  unfold reportsFunding getCurrentMNVotes Governance.CGovernanceObject.emplaceRecord
  dsimp only
  rw [getElem?_insert]
  by_cases ha : outpoint = a
  · subst ha
    rw [if_pos rfl, Option.any_some]
    cases base.mapCurrentMNVotes[outpoint]? with
    | none => simp
    | some voteRecord => simp
  · rw [if_neg ha]

end Records

/-! ### Votes that are refused -/

/-- What is left of an object when it refuses a vote. -/
inductive Leaves (env : VoteChecks G) (govobj : CGovernanceObject) (vote : CGovernanceVote) :
    CGovernanceObject → Prop
  | same (h : govobj.voteFile.hasVote (env.getHash vote) = true ∨
      env.getMNByCollateral vote.masternodeOutpoint = none) : Leaves env govobj vote govobj
  | withRecord (hnew : govobj.voteFile.hasVote (env.getHash vote) = false)
      (hmn : env.getMNByCollateral vote.masternodeOutpoint ≠ none)
      (hnot : ¬Governance.CGovernanceObject.Counted vote.nVoteSignal) :
      Leaves env govobj vote (govobj.withBase (govobj.emplaceRecord vote.masternodeOutpoint))
  | withInstance (hnew : govobj.voteFile.hasVote (env.getHash vote) = false)
      (hmn : env.getMNByCollateral vote.masternodeOutpoint ≠ none)
      (hcounted : Governance.CGovernanceObject.Counted vote.nVoteSignal) :
      Leaves env govobj vote (govobj.withBase (govobj.setInstance vote.masternodeOutpoint
        vote.nVoteSignal (govobj.instanceOf vote.masternodeOutpoint vote.nVoteSignal)))

theorem processVote_leaves
    (hrefused : (govobj.processVote env fRateChecksEnabled nNow vote).1.1 = false) :
    Leaves env govobj vote (govobj.processVote env fRateChecksEnabled nNow vote).2 := by
  unfold CGovernanceObject.processVote at hrefused ⊢
  by_cases hknown : govobj.voteFile.hasVote (env.getHash vote) = true
  · rw [if_pos hknown]
    exact .same (Or.inl hknown)
  rw [if_neg hknown] at hrefused ⊢
  rw [Bool.not_eq_true] at hknown
  cases hdmn : env.getMNByCollateral vote.masternodeOutpoint with
  | none => exact .same (Or.inr hdmn)
  | some dmn =>
    have hmn : env.getMNByCollateral vote.masternodeOutpoint ≠ none := by
      rw [hdmn]
      exact Option.some_ne_none dmn
    rw [hdmn] at hrefused
    dsimp only at hrefused ⊢
    by_cases hnone : vote.nVoteSignal = VOTE_SIGNAL_NONE
    · rw [if_pos hnone]
      exact .withRecord hknown hmn fun h => h.1 hnone
    rw [if_neg hnone] at hrefused ⊢
    by_cases hsignal : (decide (vote.nVoteSignal < VOTE_SIGNAL_NONE) ||
        decide (VOTE_SIGNAL_UNKNOWN ≤ vote.nVoteSignal)) = true
    · rw [if_pos hsignal]
      refine .withRecord hknown hmn ?_
      rintro ⟨-, hlow, hhigh⟩
      simp [hlow, hhigh] at hsignal
    · rw [if_neg hsignal] at hrefused ⊢
      have hcounted : Governance.CGovernanceObject.Counted vote.nVoteSignal := by
        simp only [Bool.or_eq_true, decide_eq_true_eq, not_or] at hsignal
        exact ⟨hnone, hsignal⟩
      split_ifs at hrefused ⊢
      · exact .withInstance hknown hmn hcounted
      · exact .withInstance hknown hmn hcounted
      · exact .withInstance hknown hmn hcounted

/-- The base is all that changes. -/
theorem withBase_eq_iff (base : Governance.CGovernanceObject) :
    govobj.withBase base = govobj ↔ base = govobj.toCGovernanceObject := by
  constructor
  · exact congrArg CGovernanceObject.toCGovernanceObject
  · intro heq
    rw [heq]
    rfl

/-- A vote without a valid signature is refused. -/
theorem refused_of_not_valid
    (hinvalid : vote.isValid env nNow (govobj.onlyVotingKeyAllowed vote) = false) :
    (govobj.processVote env fRateChecksEnabled nNow vote).1.1 = false := by
  unfold CGovernanceObject.processVote
  by_cases hknown : govobj.voteFile.hasVote (env.getHash vote) = true
  · rw [if_pos hknown]
  · rw [if_neg hknown]
    cases env.getMNByCollateral vote.masternodeOutpoint with
    | none => rfl
    | some dmn =>
      dsimp only
      rw [hinvalid]
      split_ifs <;> first | rfl | contradiction

/-- What is recorded already, where the vote is new and its masternode known. -/
theorem recorded_iff (hnew : govobj.voteFile.hasVote (env.getHash vote) = false)
    (hmn : env.getMNByCollateral vote.masternodeOutpoint ≠ none) :
    Recorded env govobj vote ↔
      ∃ voteRecord, getCurrentMNVotes govobj.toCGovernanceObject vote.masternodeOutpoint =
        some voteRecord ∧
          (Governance.CGovernanceObject.Counted vote.nVoteSignal →
            vote.nVoteSignal ∈ voteRecord) := by
  unfold Recorded
  rw [hnew]
  simp only [Bool.false_eq_true, hmn, false_or]

theorem reportsFunding_iff (base : Governance.CGovernanceObject) (outpoint : COutPoint) :
    reportsFunding base outpoint = true ↔
      ∃ voteRecord, getCurrentMNVotes base outpoint = some voteRecord ∧
        VOTE_SIGNAL_FUNDING ∈ voteRecord := by
  unfold reportsFunding
  rw [Option.any_eq_true]
  rfl

/-- What the refusal leaves is the object as it was exactly if nothing had to be made. -/
theorem Leaves.eq_iff {govobj' : CGovernanceObject} (h : Leaves env govobj vote govobj') :
    govobj' = govobj ↔ Recorded env govobj vote := by
  cases h with
  | same h =>
    refine iff_of_true rfl ?_
    rcases h with hknown | hmn
    · exact Or.inl hknown
    · exact Or.inr (Or.inl hmn)
  | withRecord hnew hmn hnot =>
    rw [withBase_eq_iff, emplaceRecord_eq_iff, recorded_iff hnew hmn,
      Option.isSome_iff_exists]
    exact exists_congr fun voteRecord => (and_iff_left fun h => absurd h hnot).symm
  | withInstance hnew hmn hcounted =>
    rw [withBase_eq_iff, setInstance_eq_iff, recorded_iff hnew hmn]
    exact exists_congr fun voteRecord => and_congr_right fun _ =>
      (imp_iff_right hcounted).symm

theorem counted_funding : Governance.CGovernanceObject.Counted VOTE_SIGNAL_FUNDING := by
  refine ⟨?_, ?_, ?_⟩ <;> decide

/-- It makes its masternode seem to have voted for funding exactly if an instance for funding had
to be made. -/
theorem Leaves.reportsFunding_iff {govobj' : CGovernanceObject}
    (h : Leaves env govobj vote govobj') :
    (∀ outpoint, reportsFunding govobj'.toCGovernanceObject outpoint =
        reportsFunding govobj.toCGovernanceObject outpoint) ↔
      (vote.nVoteSignal = VOTE_SIGNAL_FUNDING → Recorded env govobj vote) := by
  cases h with
  | same h =>
    refine iff_of_true (fun _ => rfl) fun _ => ?_
    exact (Leaves.same h).eq_iff.mp rfl
  | withRecord hnew hmn hnot =>
    refine iff_of_true (fun outpoint => ?_) fun heq => ?_
    · exact reportsFunding_emplaceRecord _ _ _
    · rw [heq] at hnot
      exact absurd counted_funding hnot
  | withInstance hnew hmn hcounted =>
    have hafter : ∀ a, reportsFunding (govobj.setInstance vote.masternodeOutpoint vote.nVoteSignal
        (govobj.instanceOf vote.masternodeOutpoint vote.nVoteSignal)) a = true ↔
          reportsFunding govobj.toCGovernanceObject a = true ∨
            vote.masternodeOutpoint = a ∧ vote.nVoteSignal = VOTE_SIGNAL_FUNDING :=
      reportsFunding_setInstance _ _ _ _
    have hrecorded : vote.nVoteSignal = VOTE_SIGNAL_FUNDING → (Recorded env govobj vote ↔
        reportsFunding govobj.toCGovernanceObject vote.masternodeOutpoint = true) := by
      intro heq
      rw [recorded_iff hnew hmn, Store.reportsFunding_iff, heq]
      exact exists_congr fun voteRecord => and_congr_right fun _ =>
        imp_iff_right counted_funding
    constructor
    · intro hsame heq
      rw [hrecorded heq, ← hsame]
      exact (hafter _).mpr (Or.inr ⟨rfl, heq⟩)
    · intro hfunding outpoint
      rw [Bool.eq_iff_iff]
      refine (hafter outpoint).trans (or_iff_left_of_imp ?_)
      rintro ⟨rfl, heq⟩
      exact (hrecorded heq).mp (hfunding heq)

variable (env fRateChecksEnabled nNow govobj vote) in
/-- A vote without a valid signature is refused, and a refused vote leaves the object as it is
exactly if nothing has to be made for it. So it makes a masternode seem to have voted for funding
exactly if it is for funding and an instance has to be made. -/
theorem refused_unchanged_iff :
    (vote.isValid env nNow (govobj.onlyVotingKeyAllowed vote) = false →
      (govobj.processVote env fRateChecksEnabled nNow vote).1.1 = false) ∧
    ((govobj.processVote env fRateChecksEnabled nNow vote).1.1 = false →
      ((govobj.processVote env fRateChecksEnabled nNow vote).2 = govobj ↔
          Recorded env govobj vote) ∧
        ((∀ trigger : Signing.CGovernanceObject, trigger.toCGovernanceObject =
            (govobj.processVote env fRateChecksEnabled nNow vote).2.toCGovernanceObject →
          ∀ outpoint, (trigger.fundingInstance outpoint).isSome =
            reportsFunding govobj.toCGovernanceObject outpoint) ↔
          (vote.nVoteSignal = VOTE_SIGNAL_FUNDING → Recorded env govobj vote))) := by
  refine ⟨refused_of_not_valid, fun hrefused => ?_⟩
  have hleaves := processVote_leaves hrefused
  refine ⟨hleaves.eq_iff, ?_⟩
  rw [← hleaves.reportsFunding_iff]
  constructor
  · intro h outpoint
    rw [← h {toCGovernanceObject := _} rfl outpoint, fundingInstance_isSome]
  · intro h trigger htrigger outpoint
    rw [fundingInstance_isSome, htrigger, h]

/-! ### A vote in the name of a masternode -/

/-- A trigger that has no votes. -/
def newTrigger : CGovernanceObject where
  type := .TRIGGER
  hash := 9

/-- The vote of the masternode for a new tip, if it likes the trigger. -/
def votesYes (govobj : CGovernanceObject) : Bool :=
  (Signing.voteGovernanceTriggers Signing.sampleParams {} (Signing.sampleTip 1993919)
    (some {toCGovernanceObject := govobj.toCGovernanceObject})).1.votedYes.isSome

/-- A vote with a wrong signature is refused. After it the masternode takes it that it has voted for
the trigger and does not vote, where it would have voted before. -/
theorem refused_vote_left :
    let vote := sampleVote [0]
    let result := newTrigger.processVote sampleChecks false 200 vote
    vote.isValid sampleChecks 200 (newTrigger.onlyVotingKeyAllowed vote) = false ∧
      result.1 = (false, ⟨.PERMANENT_ERROR, 20⟩) ∧ result.2 ≠ newTrigger ∧
        reportsFunding result.2.toCGovernanceObject sampleOutpoint = true ∧
          votesYes newTrigger = true ∧ votesYes result.2 = false := by
  dsimp only
  have hreports : reportsFunding (newTrigger.processVote sampleChecks false 200
      (sampleVote [0])).2.toCGovernanceObject sampleOutpoint = true := by
    decide +kernel
  refine ⟨by decide +kernel, by decide +kernel, fun hsame => ?_, hreports, by decide +kernel,
    by decide +kernel⟩
  rw [hsame] at hreports
  revert hreports
  decide +kernel

end BabaChain.Governance.Store
