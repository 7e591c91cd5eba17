import BabaChain.GovernanceVotes
import BabaChain.Lib.Convergence
import BabaChain.ListRuns
import Mathlib.Data.Prod.Lex

/-! The tallies of governance votes: whatever the order in which votes are processed, an object ends
with the greatest vote of each masternode. -/
namespace BabaChain.Governance
open Runs Convergence
open Std (ExtTreeMap)

/-! ### The order of votes -/

/-- Later votes count, and of two votes of one time the one with the greater outcome. -/
def voteRank (vote : CGovernanceVote) : ℤ ×ₗ ℤ :=
  toLex (vote.nTime.toInt, vote.nVoteOutcome.toInt)

def instanceRank (voteInstance : vote_instance_t) : ℤ ×ₗ ℤ :=
  toLex (voteInstance.nCreationTime.toInt, voteInstance.eOutcome.toInt)

theorem obsolete_iff {voteInstance : vote_instance_t} {vote : CGovernanceVote} :
    CGovernanceObject.obsolete voteInstance vote = true ↔
      voteRank vote < instanceRank voteInstance := by
  simp only [CGovernanceObject.obsolete, voteRank, instanceRank, Prod.Lex.toLex_lt_toLex,
    Bool.or_eq_true, Bool.and_eq_true, decide_eq_true_eq, beq_iff_eq, Int64.lt_iff_toInt_lt,
    Int32.lt_iff_toInt_lt, ← Int64.toInt_inj]

theorem eOutcome_of_rank {a b : vote_instance_t} (h : instanceRank a = instanceRank b) :
    a.eOutcome = b.eOutcome :=
  Int32.toInt_inj.mp (Prod.mk.inj (toLex_inj.mp h)).2

variable {G : Type*} {env : VoteChecks G}

/-! ### Records -/

namespace CGovernanceObject

variable {govobj govobj' : CGovernanceObject}

theorem instanceOf_setInstance (outpoint outpoint' : COutPoint) (eSignal eSignal' : Int32)
    (voteInstance : vote_instance_t) :
    (govobj.setInstance outpoint eSignal voteInstance).instanceOf outpoint' eSignal' =
      if outpoint = outpoint' ∧ eSignal = eSignal' then voteInstance
      else govobj.instanceOf outpoint' eSignal' := by
  unfold instanceOf setInstance
  simp only [OrdMap.getElem?_insert]
  by_cases hout : outpoint = outpoint'
  · subst hout
    rw [if_pos rfl, Option.getD_some, OrdMap.getElem?_insert]
    by_cases hsig : eSignal = eSignal'
    · rw [if_pos hsig, if_pos ⟨rfl, hsig⟩]
      rfl
    · rw [if_neg hsig, if_neg fun h => hsig h.2]
  · rw [if_neg hout, if_neg fun h => hout h.1]

theorem instanceOf_emplaceRecord (outpoint outpoint' : COutPoint) (eSignal : Int32) :
    (govobj.emplaceRecord outpoint).instanceOf outpoint' eSignal =
      govobj.instanceOf outpoint' eSignal := by
  unfold instanceOf emplaceRecord
  simp only [OrdMap.getElem?_insert]
  by_cases hout : outpoint = outpoint'
  · subst hout
    rw [if_pos rfl, Option.getD_some]
  · rw [if_neg hout]

/-- Only default records may have come in. -/
structure Untouched (govobj govobj' : CGovernanceObject) : Prop where
  instanceOf_eq : ∀ outpoint eSignal,
    govobj'.instanceOf outpoint eSignal = govobj.instanceOf outpoint eSignal
  fileVotes_eq : govobj'.fileVotes = govobj.fileVotes
  type_eq : govobj'.type = govobj.type
  fCachedDelete_eq : govobj'.fCachedDelete = govobj.fCachedDelete
  fExpired_eq : govobj'.fExpired = govobj.fExpired

theorem Untouched.refl (govobj : CGovernanceObject) : Untouched govobj govobj :=
  ⟨fun _ _ => rfl, rfl, rfl, rfl, rfl⟩

theorem untouched_emplaceRecord (govobj : CGovernanceObject) (outpoint : COutPoint) :
    Untouched govobj (govobj.emplaceRecord outpoint) :=
  ⟨instanceOf_emplaceRecord outpoint, rfl, rfl, rfl, rfl⟩

theorem untouched_setInstance (govobj : CGovernanceObject) (outpoint : COutPoint)
    (eSignal : Int32) :
    Untouched govobj (govobj.setInstance outpoint eSignal (govobj.instanceOf outpoint eSignal)) := by
  refine ⟨fun outpoint' eSignal' => ?_, rfl, rfl, rfl, rfl⟩
  rw [instanceOf_setInstance]
  split_ifs with heq
  · rw [heq.1, heq.2]
  · rfl

/-- The signals that are counted. -/
def Counted (eSignal : Int32) : Prop :=
  eSignal ≠ VOTE_SIGNAL_NONE ∧ ¬(eSignal < VOTE_SIGNAL_NONE) ∧ ¬(VOTE_SIGNAL_UNKNOWN ≤ eSignal)

variable (env) in
/-- A vote that is not known, of a masternode, for a signal, and that says something new. -/
structure Checked (govobj : CGovernanceObject) (vote : CGovernanceVote) : Prop where
  unknown : govobj.hasVote env (env.getHash vote) = false
  masternode : (env.getMNByCollateral vote.masternodeOutpoint).isSome = true
  signal : Counted vote.nVoteSignal
  current : instanceRank (govobj.instanceOf vote.masternodeOutpoint vote.nVoteSignal) ≤ voteRank vote

/-- The masternode has voted too short a time ago. -/
def RateLimited (fRateChecksEnabled : Bool) (nNow : ℤ) (govobj : CGovernanceObject)
    (vote : CGovernanceVote) : Prop :=
  fRateChecksEnabled = true ∧
    nNow-(govobj.instanceOf vote.masternodeOutpoint vote.nVoteSignal).nTime < GOVERNANCE_UPDATE_MIN

variable {fRateChecksEnabled : Bool} {nNow : ℤ} {vote : CGovernanceVote}

/-- What the object is after a vote has been accepted. -/
structure Accepted (env : VoteChecks G) (vote : CGovernanceVote)
    (govobj govobj' : CGovernanceObject) : Prop where
  checked : Checked env govobj vote
  instanceRank_eq : instanceRank (govobj'.instanceOf vote.masternodeOutpoint vote.nVoteSignal) =
    voteRank vote
  instanceOf_ne : ∀ outpoint eSignal,
    ¬(vote.masternodeOutpoint = outpoint ∧ vote.nVoteSignal = eSignal) →
      govobj'.instanceOf outpoint eSignal = govobj.instanceOf outpoint eSignal
  mem_fileVotes : ∀ old ∈ govobj'.fileVotes, old = vote ∨ old ∈ govobj.fileVotes
  type_eq : govobj'.type = govobj.type
  fCachedDelete_eq : govobj'.fCachedDelete = govobj.fCachedDelete
  fExpired_eq : govobj'.fExpired = govobj.fExpired

theorem accepted_setInstance (h : Checked env govobj vote) (nTime : ℤ) :
    Accepted env vote govobj
      {govobj.setInstance vote.masternodeOutpoint vote.nVoteSignal
          ⟨vote.nVoteOutcome, nTime, vote.nTime⟩ with
        fileVotes := govobj.addVote env vote
        fDirtyCache := true} where
  checked := h
  instanceRank_eq := congrArg instanceRank
    ((instanceOf_setInstance _ _ _ _ _).trans (if_pos ⟨rfl, rfl⟩))
  instanceOf_ne outpoint eSignal hne := (instanceOf_setInstance _ _ _ _ _).trans (if_neg hne)
  mem_fileVotes old hold := by
    simp only [addVote, h.unknown, Bool.false_eq_true, if_false] at hold
    exact List.mem_cons.mp (List.mem_of_mem_filter hold)
  type_eq := rfl
  fCachedDelete_eq := rfl
  fExpired_eq := rfl

/-- A vote is accepted, or only default records come in; it is refused for good only if it cannot
be counted or is checked and found invalid. -/
theorem processVote_cases (env : VoteChecks G) (fRateChecksEnabled : Bool) (nNow : ℤ)
    (govobj : CGovernanceObject) (vote : CGovernanceVote) :
    (Accepted env vote govobj (govobj.processVote env fRateChecksEnabled nNow vote).2 ∧
        vote.isValid env nNow (govobj.onlyVotingKeyAllowed vote) = true ∧
        (govobj.processVote env fRateChecksEnabled nNow vote).1 = (true, {})) ∨
      (Untouched govobj (govobj.processVote env fRateChecksEnabled nNow vote).2 ∧
        (govobj.processVote env fRateChecksEnabled nNow vote).1.1 = false ∧
        (¬Checked env govobj vote ∨ RateLimited fRateChecksEnabled nNow govobj vote ∨
          vote.isValid env nNow (govobj.onlyVotingKeyAllowed vote) = false) ∧
        ((govobj.processVote env fRateChecksEnabled nNow vote).1.2.nNodePenalty ≠ 0 →
          env.getMNByCollateral vote.masternodeOutpoint = none ∨ ¬Counted vote.nVoteSignal ∨
            Checked env govobj vote ∧
              vote.isValid env nNow (govobj.onlyVotingKeyAllowed vote) = false)) := by
  unfold processVote
  by_cases hknown : govobj.hasVote env (env.getHash vote) = true
  · rw [if_pos hknown]
    refine .inr ⟨.refl govobj, rfl, .inl fun h => ?_, fun h => absurd rfl h⟩
    rw [h.unknown] at hknown
    cases hknown
  · rw [if_neg hknown]
    rcases hdmn : env.getMNByCollateral vote.masternodeOutpoint with _ | dmn
    · refine .inr ⟨.refl govobj, rfl, .inl fun h => ?_, fun _ => .inl rfl⟩
      have hsome := h.masternode
      rw [hdmn] at hsome
      cases hsome
    · dsimp only
      by_cases hnone : vote.nVoteSignal = VOTE_SIGNAL_NONE
      · rw [if_pos hnone]
        exact .inr ⟨untouched_emplaceRecord govobj _, rfl, .inl fun h => h.signal.1 hnone,
          fun h => absurd rfl h⟩
      · rw [if_neg hnone]
        by_cases hsignal : (decide (vote.nVoteSignal < VOTE_SIGNAL_NONE) ||
            decide (VOTE_SIGNAL_UNKNOWN ≤ vote.nVoteSignal)) = true
        · have hnot : ¬Counted vote.nVoteSignal := by
            rintro ⟨-, hlow, hhigh⟩
            simp [hlow, hhigh] at hsignal
          rw [if_pos hsignal]
          exact .inr ⟨untouched_emplaceRecord govobj _, rfl, .inl fun h => hnot h.signal,
            fun _ => .inr (.inl hnot)⟩
        · rw [if_neg hsignal]
          have hcounted : Counted vote.nVoteSignal := by
            simp only [Bool.or_eq_true, decide_eq_true_eq, not_or] at hsignal
            exact ⟨hnone, hsignal⟩
          by_cases hold : obsolete (govobj.instanceOf vote.masternodeOutpoint vote.nVoteSignal)
              vote = true
          · rw [if_pos hold]
            exact .inr ⟨untouched_setInstance govobj _ _, rfl,
              .inl fun h => absurd (obsolete_iff.mp hold) (not_lt.mpr h.current),
              fun h => absurd rfl h⟩
          · rw [if_neg hold]
            have hchecked : Checked env govobj vote :=
              ⟨Bool.not_eq_true _ ▸ hknown, by rw [hdmn]; rfl, hcounted,
                not_lt.mp fun h => hold (obsolete_iff.mpr h)⟩
            by_cases hrate : (fRateChecksEnabled &&
                decide (nNow-(govobj.instanceOf vote.masternodeOutpoint vote.nVoteSignal).nTime <
                  GOVERNANCE_UPDATE_MIN)) = true
            · rw [if_pos hrate]
              have hlimited : RateLimited fRateChecksEnabled nNow govobj vote := by
                simpa [RateLimited] using hrate
              exact .inr ⟨untouched_setInstance govobj _ _, rfl, .inr (.inl hlimited),
                fun h => absurd rfl h⟩
            · rw [if_neg hrate]
              rcases hvalid : vote.isValid env nNow (govobj.onlyVotingKeyAllowed vote) with _ | _
              · exact .inr ⟨untouched_setInstance govobj _ _, rfl, .inr (.inr rfl),
                  fun _ => .inr (.inr ⟨hchecked, rfl⟩)⟩
              · exact .inl ⟨accepted_setInstance hchecked _, rfl, rfl⟩

end CGovernanceObject

/-! ### Valid votes -/

namespace CGovernanceVote

variable {vote : CGovernanceVote} {nNow : ℤ} {useVotingKey : Bool}

/-- Time makes no vote invalid. -/
theorem isValid_mono {nLater : ℤ} (hle : nNow ≤ nLater)
    (h : vote.isValid env nNow useVotingKey = true) :
    vote.isValid env nLater useVotingKey = true := by
  unfold isValid at h ⊢
  split at h
  · cases h
  · rename_i htime
    rw [if_neg (by omega)]
    exact h

theorem masternode_of_isValid (h : vote.isValid env nNow useVotingKey = true) :
    (env.getMNByCollateral vote.masternodeOutpoint).isSome = true := by
  rcases hdmn : env.getMNByCollateral vote.masternodeOutpoint with _ | dmn
  · simp only [isValid, hdmn, ite_self, Bool.false_eq_true] at h
  · rfl

theorem signal_of_isValid (h : vote.isValid env nNow useVotingKey = true) :
    ¬(vote.nVoteSignal < VOTE_SIGNAL_NONE) ∧ ¬(VOTE_SIGNAL_UNKNOWN ≤ vote.nVoteSignal) := by
  by_cases hsignal : (decide (vote.nVoteSignal < VOTE_SIGNAL_NONE) ||
      decide (VOTE_SIGNAL_UNKNOWN ≤ vote.nVoteSignal)) = true
  · simp only [isValid, hsignal, if_true, ite_self, Bool.false_eq_true] at h
  · simpa using hsignal

end CGovernanceVote

/-- The objects of the network, before any vote on them; and for a trigger whether it can be
added. -/
structure GovernanceObjects where
  govobj : uint256 → CGovernanceObject
  fAddNewTrigger : uint256 → Bool
  fresh : ∀ nHash, (govobj nHash).mapCurrentMNVotes = ∅ ∧ (govobj nHash).fileVotes = [] ∧
    (govobj nHash).fCachedDelete = false ∧ (govobj nHash).fExpired = false

namespace GovernanceObjects

variable (objects : GovernanceObjects)

/-- The object is added to count votes, not to be deleted. -/
def kept (nHash : uint256) : Bool :=
  !(decide ((objects.govobj nHash).type = .TRIGGER) && !objects.fAddNewTrigger nHash)

end GovernanceObjects

/-! ### Counts -/

section Counts

open CGovernanceObject

variable (govobj : CGovernanceObject) (eSignal eVoteOutcome : Int32)

/-- The masternodes whose vote for a signal is an outcome. -/
def matching : List COutPoint :=
  (govobj.mapCurrentMNVotes.toList.filter fun record =>
    decide (record.2[eSignal]?.map vote_instance_t.eOutcome = some eVoteOutcome)).map Prod.fst

theorem matching_nodup : (matching govobj eSignal eVoteOutcome).Nodup := by
  have hkeys : (govobj.mapCurrentMNVotes.toList.map Prod.fst).Nodup := by
    rw [ExtTreeMap.map_fst_toList_eq_keys]
    exact ExtTreeMap.nodup_keys
  exact (List.filter_sublist.map Prod.fst).nodup hkeys

/-- An outcome that is not the default one is there only if it has been voted for. -/
theorem mem_matching (hne : eVoteOutcome ≠ VOTE_OUTCOME_NONE) (outpoint : COutPoint) :
    outpoint ∈ matching govobj eSignal eVoteOutcome ↔
      (govobj.instanceOf outpoint eSignal).eOutcome = eVoteOutcome := by
  have hnone : ∀ recVote : Option vote_rec_t, recVote = none →
      ((recVote.getD ∅)[eSignal]?.getD {}).eOutcome ≠ eVoteOutcome := by
    rintro _ rfl heq
    exact hne heq.symm
  simp only [matching, List.mem_map, List.mem_filter, decide_eq_true_eq]
  constructor
  · rintro ⟨⟨outpoint, recVote⟩, ⟨hmem, hout⟩, rfl⟩
    obtain ⟨voteInstance, hget, rfl⟩ := Option.map_eq_some_iff.mp hout
    rw [instanceOf, OrdMap.mem_toList hmem, Option.getD_some, hget, Option.getD_some]
  · intro hout
    rw [instanceOf] at hout
    rcases hrec : govobj.mapCurrentMNVotes[outpoint]? with _ | recVote
    · exact absurd hout (hnone _ hrec)
    · rw [hrec, Option.getD_some] at hout
      rcases hget : recVote[eSignal]? with _ | voteInstance
      · rw [hget] at hout
        exact absurd hout.symm hne
      · rw [hget, Option.getD_some] at hout
        refine ⟨(outpoint, recVote), ⟨ExtTreeMap.mem_toList_iff_getElem?_eq_some.mpr hrec, ?_⟩, rfl⟩
        rw [hget, Option.map_some, hout]

theorem countMatchingVotes_eq : govobj.countMatchingVotes env eSignal eVoteOutcome =
    ((matching govobj eSignal eVoteOutcome).map fun outpoint =>
      ((env.getMNByCollateral outpoint).map fun dmn => (dmn.nType.voting_weight : ℤ)).getD 0).sum := by
  unfold countMatchingVotes matching
  induction govobj.mapCurrentMNVotes.toList with
  | nil => rfl
  | cons record records ih =>
    rw [List.map_cons, List.sum_cons, ih, List.filter_cons]
    rcases hget : record.2[eSignal]? with _ | voteInstance
    · simp [hget]
    · by_cases hout : voteInstance.eOutcome = eVoteOutcome
      · simp [hget, hout]
      · simp [hget, hout]

/-- Objects with the same outcomes have the same counts, though default records may differ. -/
theorem countMatchingVotes_congr {govobj govobj' : CGovernanceObject} {eSignal : Int32}
    (h : ∀ outpoint, (govobj.instanceOf outpoint eSignal).eOutcome =
      (govobj'.instanceOf outpoint eSignal).eOutcome)
    {eVoteOutcome : Int32} (hne : eVoteOutcome ≠ VOTE_OUTCOME_NONE) :
    govobj.countMatchingVotes env eSignal eVoteOutcome =
      govobj'.countMatchingVotes env eSignal eVoteOutcome := by
  rw [countMatchingVotes_eq, countMatchingVotes_eq]
  apply List.Perm.sum_eq
  apply List.Perm.map
  rw [List.perm_ext_iff_of_nodup (matching_nodup ..) (matching_nodup ..)]
  intro outpoint
  rw [mem_matching _ _ _ hne, mem_matching _ _ _ hne, h outpoint]

end Counts

/-! ### Runs -/

/-- What a node gets from its peers: votes, and objects. -/
inductive Message where
  | vote (vote : CGovernanceVote)
  | object (nHash : uint256)

section Runs

variable (env) (objects : GovernanceObjects)

/-- A message is processed, at the time of a clock. -/
def process (man : CGovernanceManager) (event : Message × Clock) :
    (Bool × CGovernanceException) × CGovernanceManager :=
  match event.1 with
  | .vote vote => man.processVote env event.2 vote
  | .object nHash => ((true, {}), man.addGovernanceObject env event.2 nHash
      (objects.govobj nHash) (objects.fAddNewTrigger nHash))

/-- An object, a masternode and a signal. -/
abbrev Slot := uint256 × COutPoint × Int32

def CGovernanceVote.slot (vote : CGovernanceVote) : Slot :=
  (vote.nParentHash, vote.masternodeOutpoint, vote.nVoteSignal)

/-- The instance that a node has for an object, a masternode and a signal. -/
def CGovernanceManager.instanceOf (man : CGovernanceManager) (slot : Slot) : vote_instance_t :=
  ((man.mapObjects[slot.1]?).map fun govobj => govobj.instanceOf slot.2.1 slot.2.2).getD {}

def CGovernanceManager.view (man : CGovernanceManager) (slot : Slot) : ℤ ×ₗ ℤ :=
  instanceRank (man.instanceOf slot)

variable (messages : Set CGovernanceVote) (nEnd : ℤ)

/-- A vote among the messages that is valid, at the end at least, and for a signal that counts. -/
structure ValidVote (vote : CGovernanceVote) : Prop where
  mem : vote ∈ messages
  signal : vote.nVoteSignal ≠ VOTE_SIGNAL_NONE
  valid : vote.isValid env nEnd
    ((objects.govobj vote.nParentHash).onlyVotingKeyAllowed vote) = true

/-- What the valid votes of the objects that count votes say. -/
def validValues : Set (Slot × (ℤ ×ₗ ℤ)) :=
  {value | ∃ vote, ValidVote env objects messages nEnd vote ∧ objects.kept vote.nParentHash = true ∧
    value = (vote.slot, voteRank vote)}

/-- A vote for an object that is there is handed over. -/
def delivers (man : CGovernanceManager) (event : Message × Clock) (slot : Slot)
    (rank : ℤ ×ₗ ℤ) : Prop :=
  ∃ vote, event.1 = .vote vote ∧ ValidVote env objects messages nEnd vote ∧
    objects.kept vote.nParentHash = true ∧ vote.nParentHash ∈ man.mapObjects ∧
      vote.slot = slot ∧ voteRank vote = rank

/-- The signature of a vote is going to be checked: neither its hash nor anything greater is
known, and its object counts votes. -/
structure Reaches (man : CGovernanceManager) (vote : CGovernanceVote) (govobj : CGovernanceObject) :
    Prop where
  unknown : man.cmapVoteToObject.hasKey (env.getHash vote) = false
  not_invalid : man.cmapInvalidVotes.hasKey (env.getHash vote) = false
  object : man.mapObjects[vote.nParentHash]? = some govobj
  counts : (govobj.fCachedDelete || govobj.fExpired) = false
  checked : govobj.Checked env vote

/-- No rate check triggers, and no vote is found invalid that says what a valid vote says. -/
structure Careful (man : CGovernanceManager) (event : Message × Clock) : Prop where
  clock : event.2.adjusted ≤ nEnd
  mem : ∀ vote, event.1 = .vote vote → vote ∈ messages
  unlimited : ∀ vote govobj, event.1 = .vote vote →
    man.mapObjects[vote.nParentHash]? = some govobj →
      ¬govobj.RateLimited man.fRateChecksEnabled event.2.adjusted vote
  no_twin : ∀ vote govobj, event.1 = .vote vote → Reaches env man vote govobj →
    vote.isValid env event.2.adjusted (govobj.onlyVotingKeyAllowed vote) = false →
      ∀ twin, ValidVote env objects messages nEnd twin → twin.content ≠ vote.content

/-- Votes of the messages that have one hash differ in their signatures only. -/
def CollisionFree : Prop :=
  ∀ a ∈ messages, ∀ b ∈ messages, env.getHash a = env.getHash b → a.content = b.content

/-- What an object has is what valid votes for it say. -/
structure ObjectInv (nHash : uint256) (govobj : CGovernanceObject) : Prop where
  type_eq : govobj.type = (objects.govobj nHash).type
  flags_eq : (govobj.fCachedDelete || govobj.fExpired) = !objects.kept nHash
  instances : ∀ outpoint eSignal,
    instanceRank (govobj.instanceOf outpoint eSignal) = instanceRank {} ∨
      ((nHash, outpoint, eSignal), instanceRank (govobj.instanceOf outpoint eSignal)) ∈
        validValues env objects messages nEnd
  files : ∀ vote ∈ govobj.fileVotes, ValidVote env objects messages nEnd vote ∧
    voteRank vote ≤ instanceRank (govobj.instanceOf vote.masternodeOutpoint vote.nVoteSignal)

structure ManagerInv (man : CGovernanceManager) : Prop where
  object : ∀ nHash govobj, man.mapObjects[nHash]? = some govobj →
    ObjectInv env objects messages nEnd nHash govobj
  known : ∀ item ∈ man.cmapVoteToObject.listItems, ∃ vote,
    ValidVote env objects messages nEnd vote ∧ env.getHash vote = item.1 ∧
      voteRank vote ≤ man.view vote.slot
  invalid : ∀ item ∈ man.cmapInvalidVotes.listItems, ∀ vote,
    ValidVote env objects messages nEnd vote → env.getHash vote ≠ item.1
  orphans : ∀ item ∈ man.cmmapOrphanVotes.listItems,
    item.2.1 ∈ messages ∧ item.2.1.nParentHash = item.1

variable {env objects messages nEnd}

theorem instanceOf_fresh (nHash : uint256) (outpoint : COutPoint) (eSignal : Int32) :
    (objects.govobj nHash).instanceOf outpoint eSignal = {} := by
  rw [CGovernanceObject.instanceOf, (objects.fresh nHash).1]
  rfl

/-- Votes with one content agree in everything but the signature. -/
theorem fields_of_content {a b : CGovernanceVote} (h : a.content = b.content) :
    a.slot = b.slot ∧ voteRank a = voteRank b := by
  cases a
  cases b
  simp only [CGovernanceVote.content, CGovernanceVote.mk.injEq, and_true] at h
  obtain ⟨rfl, rfl, rfl, rfl, rfl⟩ := h
  exact ⟨rfl, rfl⟩

theorem ValidVote.counted {vote : CGovernanceVote}
    (h : ValidVote env objects messages nEnd vote) : CGovernanceObject.Counted vote.nVoteSignal :=
  ⟨h.signal, CGovernanceVote.signal_of_isValid h.valid⟩

/-- A vote that goes with a valid one in its content is of a masternode and for a signal that
counts. -/
theorem ValidVote.twin_counted {twin vote : CGovernanceVote}
    (h : ValidVote env objects messages nEnd twin) (hcontent : twin.content = vote.content) :
    env.getMNByCollateral vote.masternodeOutpoint ≠ none ∧
      CGovernanceObject.Counted vote.nVoteSignal := by
  obtain ⟨hslot, -⟩ := fields_of_content hcontent
  obtain ⟨-, hout, hsignal⟩ := Prod.mk.inj hslot |>.imp_right Prod.mk.inj
  rw [← hout, ← hsignal]
  refine ⟨fun hnone => ?_, h.counted⟩
  have hsome := CGovernanceVote.masternode_of_isValid h.valid
  rw [hnone] at hsome
  cases hsome

theorem onlyVotingKeyAllowed_congr {a b : CGovernanceObject} (h : a.type = b.type)
    (vote : CGovernanceVote) : a.onlyVotingKeyAllowed vote = b.onlyVotingKeyAllowed vote := by
  rw [CGovernanceObject.onlyVotingKeyAllowed, h]
  rfl

/-! ### One object -/

section Objects

open CGovernanceObject

variable {nHash : uint256} {govobj govobj' : CGovernanceObject} {vote : CGovernanceVote}

theorem ObjectInv.untouched (h : ObjectInv env objects messages nEnd nHash govobj)
    (hunt : Untouched govobj govobj') : ObjectInv env objects messages nEnd nHash govobj' where
  type_eq := hunt.type_eq.trans h.type_eq
  flags_eq := by
    rw [hunt.fCachedDelete_eq, hunt.fExpired_eq]
    exact h.flags_eq
  instances outpoint eSignal := by
    rw [hunt.instanceOf_eq]
    exact h.instances outpoint eSignal
  files old hold := by
    rw [hunt.instanceOf_eq]
    exact h.files old (hunt.fileVotes_eq ▸ hold)

/-- What an accepted vote says is no less than what was known. -/
theorem instanceRank_le_accepted (hacc : Accepted env vote govobj govobj') (outpoint : COutPoint)
    (eSignal : Int32) : instanceRank (govobj.instanceOf outpoint eSignal) ≤
      instanceRank (govobj'.instanceOf outpoint eSignal) := by
  by_cases heq : vote.masternodeOutpoint = outpoint ∧ vote.nVoteSignal = eSignal
  · obtain ⟨rfl, rfl⟩ := heq
    rw [hacc.instanceRank_eq]
    exact hacc.checked.current
  · rw [hacc.instanceOf_ne outpoint eSignal heq]

theorem ObjectInv.accepted (h : ObjectInv env objects messages nEnd nHash govobj)
    (hacc : Accepted env vote govobj govobj') (hvalid : ValidVote env objects messages nEnd vote)
    (hkept : objects.kept nHash = true) (hparent : vote.nParentHash = nHash) :
    ObjectInv env objects messages nEnd nHash govobj' where
  type_eq := hacc.type_eq.trans h.type_eq
  flags_eq := by
    rw [hacc.fCachedDelete_eq, hacc.fExpired_eq]
    exact h.flags_eq
  instances outpoint eSignal := by
    by_cases heq : vote.masternodeOutpoint = outpoint ∧ vote.nVoteSignal = eSignal
    · obtain ⟨rfl, rfl⟩ := heq
      subst hparent
      rw [hacc.instanceRank_eq]
      exact .inr ⟨vote, hvalid, hkept, rfl⟩
    · rw [hacc.instanceOf_ne outpoint eSignal heq]
      exact h.instances outpoint eSignal
  files old hold := by
    rcases hacc.mem_fileVotes old hold with rfl | hmem
    · exact ⟨hvalid, hacc.instanceRank_eq.ge⟩
    · obtain ⟨hold', hle⟩ := h.files old hmem
      exact ⟨hold', hle.trans (instanceRank_le_accepted hacc _ _)⟩

/-- A vote keeps the invariant, and nothing that is known goes down. -/
theorem ObjectInv.processVote (h : ObjectInv env objects messages nEnd nHash govobj)
    (hkept : objects.kept nHash = true) (hparent : vote.nParentHash = nHash)
    (hmem : vote ∈ messages) (fRateChecksEnabled : Bool) {nNow : ℤ} (hclock : nNow ≤ nEnd) :
    ObjectInv env objects messages nEnd nHash
        (govobj.processVote env fRateChecksEnabled nNow vote).2 ∧
      ∀ outpoint eSignal, instanceRank (govobj.instanceOf outpoint eSignal) ≤ instanceRank
        ((govobj.processVote env fRateChecksEnabled nNow vote).2.instanceOf outpoint eSignal) := by
  rcases processVote_cases env fRateChecksEnabled nNow govobj vote with
    ⟨hacc, hok, -⟩ | ⟨hunt, -⟩
  · have hvalid : ValidVote env objects messages nEnd vote := by
      refine ⟨hmem, hacc.checked.signal.1, ?_⟩
      rw [hparent, ← onlyVotingKeyAllowed_congr h.type_eq]
      exact CGovernanceVote.isValid_mono hclock hok
    exact ⟨h.accepted hacc hvalid hkept hparent, instanceRank_le_accepted hacc⟩
  · refine ⟨h.untouched hunt, fun outpoint eSignal => ?_⟩
    rw [hunt.instanceOf_eq]

/-- A valid vote that is refused says nothing new, where no rate check triggers. -/
theorem ObjectInv.voteRank_le (h : ObjectInv env objects messages nEnd nHash govobj)
    (hcoll : CollisionFree env messages) (hvalid : ValidVote env objects messages nEnd vote)
    (hnot : ¬Checked env govobj vote) : voteRank vote ≤
      instanceRank (govobj.instanceOf vote.masternodeOutpoint vote.nVoteSignal) := by
  by_contra hlt
  rcases hknown : govobj.hasVote env (env.getHash vote) with _ | _
  · exact hnot ⟨hknown, CGovernanceVote.masternode_of_isValid hvalid.valid, hvalid.counted,
      (not_le.mp hlt).le⟩
  · obtain ⟨old, hold, hhash⟩ := List.any_eq_true.mp hknown
    obtain ⟨hold', hle⟩ := h.files old hold
    obtain ⟨hslot, hrank⟩ := fields_of_content
      (hcoll old hold'.mem vote hvalid.mem (beq_iff_eq.mp hhash))
    obtain ⟨-, hout, hsignal⟩ := Prod.mk.inj hslot |>.imp_right Prod.mk.inj
    rw [hrank, hout, hsignal] at hle
    exact hlt hle

theorem objectInv_fresh (hkept : objects.kept nHash = true) :
    ObjectInv env objects messages nEnd nHash (objects.govobj nHash) where
  type_eq := rfl
  flags_eq := by
    rw [(objects.fresh nHash).2.2.1, (objects.fresh nHash).2.2.2, hkept]
    rfl
  instances outpoint eSignal := by
    rw [instanceOf_fresh]
    exact .inl rfl
  files vote hvote := by
    rw [(objects.fresh nHash).2.1] at hvote
    cases hvote

end Objects

/-! ### The manager -/

section Manager

variable {man : CGovernanceManager} {nHash : uint256} {govobj : CGovernanceObject}

theorem view_of_object (hobj : man.mapObjects[nHash]? = some govobj) (outpoint : COutPoint)
    (eSignal : Int32) :
    man.view (nHash, outpoint, eSignal) = instanceRank (govobj.instanceOf outpoint eSignal) := by
  simp only [CGovernanceManager.view, CGovernanceManager.instanceOf, hobj, Option.map_some,
    Option.getD_some]

theorem view_of_no_object (hobj : man.mapObjects[nHash]? = none) (outpoint : COutPoint)
    (eSignal : Int32) : man.view (nHash, outpoint, eSignal) = instanceRank {} := by
  simp only [CGovernanceManager.view, CGovernanceManager.instanceOf, hobj, Option.map_none,
    Option.getD_none]

/-- An object is put in the place of one that knew no more. -/
theorem view_le_insert {man' : CGovernanceManager}
    (hmap : man'.mapObjects = man.mapObjects.insert nHash govobj)
    (hle : ∀ outpoint eSignal, man.view (nHash, outpoint, eSignal) ≤
      instanceRank (govobj.instanceOf outpoint eSignal)) (slot : Slot) :
    man.view slot ≤ man'.view slot := by
  obtain ⟨nHash', outpoint, eSignal⟩ := slot
  have hget := OrdMap.getElem?_insert man.mapObjects nHash nHash' govobj
  rw [← hmap] at hget
  by_cases heq : nHash = nHash'
  · subst heq
    rw [if_pos rfl] at hget
    rw [view_of_object hget]
    exact hle outpoint eSignal
  · rw [if_neg heq] at hget
    simp only [CGovernanceManager.view, CGovernanceManager.instanceOf, hget, le_refl]

theorem mem_of_mem_pruneLast {K V : Type*} {nMaxSize : ℕ} {items : List (K × V)} {item : K × V}
    (h : item ∈ CacheMap.pruneLast nMaxSize items) : item ∈ items := by
  unfold CacheMap.pruneLast at h
  split_ifs at h
  · exact List.mem_of_mem_dropLast h
  · exact h

theorem mem_of_mem_insert {K V : Type*} [DecidableEq K] {cmap : CacheMap K V} {key : K} {value : V}
    {item : K × V} (h : item ∈ (cmap.insert key value).2.listItems) :
    item = (key, value) ∨ item ∈ cmap.listItems := by
  unfold CacheMap.insert at h
  split_ifs at h
  · exact .inr h
  · exact (List.mem_cons.mp h).imp_right mem_of_mem_pruneLast

theorem mem_of_mem_orphans {orphans : OrphanVotes} {key : uint256} {value : vote_time_pair_t}
    {item : uint256 × vote_time_pair_t} (h : item ∈ (orphans.insert key value).2.listItems) :
    item = (key, value) ∨ item ∈ orphans.listItems := by
  unfold OrphanVotes.insert at h
  split_ifs at h
  · exact .inr h
  · exact (List.mem_cons.mp h).imp_right mem_of_mem_pruneLast

/-- An object is put in the place of one that knew no more, and the caches hold what they may. -/
theorem ManagerInv.insertObject {man' : CGovernanceManager}
    (h : ManagerInv env objects messages nEnd man)
    (hmap : man'.mapObjects = man.mapObjects.insert nHash govobj)
    (hobj : ObjectInv env objects messages nEnd nHash govobj)
    (hle : ∀ outpoint eSignal, man.view (nHash, outpoint, eSignal) ≤
      instanceRank (govobj.instanceOf outpoint eSignal))
    (hknown : ∀ item ∈ man'.cmapVoteToObject.listItems, item ∈ man.cmapVoteToObject.listItems ∨
      ∃ vote, ValidVote env objects messages nEnd vote ∧ env.getHash vote = item.1 ∧
        voteRank vote ≤ man'.view vote.slot)
    (hinvalid : ∀ item ∈ man'.cmapInvalidVotes.listItems, item ∈ man.cmapInvalidVotes.listItems ∨
      ∀ vote, ValidVote env objects messages nEnd vote → env.getHash vote ≠ item.1)
    (horphans : ∀ item ∈ man'.cmmapOrphanVotes.listItems,
      item ∈ man.cmmapOrphanVotes.listItems) :
    ManagerInv env objects messages nEnd man' where
  object nHash' govobj' hget := by
    rw [hmap, OrdMap.getElem?_insert] at hget
    split_ifs at hget with heq
    · obtain rfl := heq
      obtain rfl := Option.some.inj hget
      exact hobj
    · exact h.object nHash' govobj' hget
  known item hitem := by
    rcases hknown item hitem with hold | hnew
    · obtain ⟨vote, hvalid, hhash, hrank⟩ := h.known item hold
      exact ⟨vote, hvalid, hhash, hrank.trans (view_le_insert hmap hle _)⟩
    · exact hnew
  invalid item hitem := (hinvalid item hitem).elim (h.invalid item) id
  orphans item hitem := h.orphans item (horphans item hitem)

theorem exists_of_hasKey {K V : Type*} [DecidableEq K] {cmap : CacheMap K V} {key : K}
    (h : cmap.hasKey key = true) : ∃ item ∈ cmap.listItems, item.1 = key := by
  obtain ⟨item, hitem, heq⟩ := List.any_eq_true.mp h
  exact ⟨item, hitem, beq_iff_eq.mp heq⟩

/-- What processing a vote does to what is known, and to a valid vote. -/
structure VoteStep (env : VoteChecks G) (objects : GovernanceObjects)
    (messages : Set CGovernanceVote) (nEnd : ℤ) (man man' : CGovernanceManager)
    (vote : CGovernanceVote) (exception : CGovernanceException) : Prop where
  inv : ManagerInv env objects messages nEnd man'
  view_le : ∀ slot, man.view slot ≤ man'.view slot
  penalty : ValidVote env objects messages nEnd vote → exception.nNodePenalty = 0
  absorbed : ValidVote env objects messages nEnd vote → objects.kept vote.nParentHash = true →
    vote.nParentHash ∈ man.mapObjects → voteRank vote ≤ man'.view vote.slot

/-- The vote goes to its object. -/
theorem voteStep_object {vote : CGovernanceVote} {clock : Clock}
    (hcoll : CollisionFree env messages) (h : ManagerInv env objects messages nEnd man)
    (hC : Careful env objects messages nEnd man (.vote vote, clock))
    (hunknown : man.cmapVoteToObject.hasKey (env.getHash vote) = false)
    (hinvalid : man.cmapInvalidVotes.hasKey (env.getHash vote) = false)
    (hobj : man.mapObjects[vote.nParentHash]? = some govobj)
    (hcounts : (govobj.fCachedDelete || govobj.fExpired) = false) :
    VoteStep env objects messages nEnd man (man.processVote env clock vote).2 vote
      (man.processVote env clock vote).1.2 := by
  have hinv := h.object _ _ hobj
  have hkept : objects.kept vote.nParentHash = true := by
    have hflags := hinv.flags_eq
    rw [hcounts] at hflags
    simpa using hflags.symm
  have hmem := hC.mem vote rfl
  obtain ⟨hinv', hle⟩ := hinv.processVote hkept rfl hmem man.fRateChecksEnabled hC.clock
  have hle' : ∀ outpoint eSignal, man.view (vote.nParentHash, outpoint, eSignal) ≤
      instanceRank ((govobj.processVote env man.fRateChecksEnabled clock.adjusted vote).2.instanceOf
        outpoint eSignal) := by
    intro outpoint eSignal
    rw [view_of_object hobj]
    exact hle outpoint eSignal
  have hreaches : ∀ hchecked : govobj.Checked env vote, Reaches env man vote govobj :=
    fun hchecked => ⟨hunknown, hinvalid, hobj, hcounts, hchecked⟩
  rw [CGovernanceManager.processVote]
  simp only [hunknown, hinvalid, hobj, hcounts, Bool.false_eq_true, if_false]
  rcases CGovernanceObject.processVote_cases env man.fRateChecksEnabled clock.adjusted govobj vote with
    ⟨hacc, hvalid, hok⟩ | ⟨hunt, hrefused, hwhy, hpenalty⟩
  · -- the vote is accepted, and its hash is remembered
    have hvote : ValidVote env objects messages nEnd vote := by
      refine ⟨hmem, hacc.checked.signal.1, ?_⟩
      rw [← onlyVotingKeyAllowed_congr hinv.type_eq]
      exact CGovernanceVote.isValid_mono hC.clock hvalid
    simp only [hok, if_true]
    have hview : ∀ man' : CGovernanceManager, man'.mapObjects = man.mapObjects.insert
        vote.nParentHash (govobj.processVote env man.fRateChecksEnabled clock.adjusted vote).2 →
          man'.view vote.slot = voteRank vote := by
      intro man' hmap
      have hget := OrdMap.getElem?_insert man.mapObjects vote.nParentHash vote.nParentHash
        (govobj.processVote env man.fRateChecksEnabled clock.adjusted vote).2
      rw [← hmap, if_pos rfl] at hget
      rw [CGovernanceVote.slot, view_of_object hget, hacc.instanceRank_eq]
    refine ⟨h.insertObject rfl hinv' hle' ?_ (fun _ => .inl) fun _ => id, view_le_insert rfl hle',
      fun _ => rfl, fun _ _ _ => (hview _ rfl).ge⟩
    intro item hitem
    rcases mem_of_mem_insert hitem with rfl | hold
    · exact .inr ⟨vote, hvote, rfl, (hview _ rfl).ge⟩
    · exact .inl hold
  · -- the vote is refused: a valid one says nothing new
    have hnone : ValidVote env objects messages nEnd vote → ¬govobj.Checked env vote := by
      intro hvote hchecked
      rcases hwhy with hnot | hlimited | hfalse
      · exact hnot hchecked
      · exact hC.unlimited vote govobj rfl hobj hlimited
      · exact hC.no_twin vote govobj rfl (hreaches hchecked) hfalse vote hvote rfl
    have habsorbed : ∀ man' : CGovernanceManager, man'.mapObjects = man.mapObjects.insert
        vote.nParentHash (govobj.processVote env man.fRateChecksEnabled clock.adjusted vote).2 →
          ValidVote env objects messages nEnd vote → voteRank vote ≤ man'.view vote.slot := by
      intro man' hmap hvote
      refine (hinv.voteRank_le hcoll hvote (hnone hvote)).trans ?_
      rw [← view_of_object hobj]
      exact view_le_insert hmap hle' vote.slot
    have hharmless : (govobj.processVote env man.fRateChecksEnabled clock.adjusted
        vote).1.2.nNodePenalty ≠ 0 → ∀ twin, ValidVote env objects messages nEnd twin →
          env.getHash twin ≠ env.getHash vote := by
      intro hne twin htwin hhash
      have hcontent := hcoll twin htwin.mem vote hmem hhash
      obtain ⟨hdmn, hcounted⟩ := htwin.twin_counted hcontent
      rcases hpenalty hne with hno | hno | ⟨hchecked, hfalse⟩
      · exact hdmn hno
      · exact hno hcounted
      · exact hC.no_twin vote govobj rfl (hreaches hchecked) hfalse twin htwin hcontent
    have hzero : ValidVote env objects messages nEnd vote → (govobj.processVote env
        man.fRateChecksEnabled clock.adjusted vote).1.2.nNodePenalty = 0 := by
      intro hvote
      by_contra hne
      exact hharmless hne vote hvote rfl
    simp only [hrefused, Bool.false_eq_true, if_false]
    split
    · rename_i hpermanent
      refine ⟨h.insertObject rfl hinv' hle' (fun _ => .inl) ?_ fun _ => id, view_le_insert rfl hle',
        hzero, fun hvote _ _ => habsorbed _ rfl hvote⟩
      intro item hitem
      rcases mem_of_mem_insert hitem with rfl | hold
      · exact .inr (hharmless (by rw [hpermanent]; decide))
      · exact .inl hold
    · exact ⟨h.insertObject rfl hinv' hle' (fun _ => .inl) (fun _ => .inl) fun _ => id,
        view_le_insert rfl hle', hzero, fun hvote _ _ => habsorbed _ rfl hvote⟩

theorem voteStep {vote : CGovernanceVote} {clock : Clock} (hcoll : CollisionFree env messages)
    (h : ManagerInv env objects messages nEnd man)
    (hC : Careful env objects messages nEnd man (.vote vote, clock)) :
    VoteStep env objects messages nEnd man (man.processVote env clock vote).2 vote
      (man.processVote env clock vote).1.2 := by
  have hmem := hC.mem vote rfl
  rcases hunknown : man.cmapVoteToObject.hasKey (env.getHash vote) with _ | _
  · rcases hinvalid : man.cmapInvalidVotes.hasKey (env.getHash vote) with _ | _
    · rcases hobj : man.mapObjects[vote.nParentHash]? with _ | govobj
      · -- the object is not there yet
        rw [CGovernanceManager.processVote]
        simp only [hunknown, hinvalid, hobj, Bool.false_eq_true, if_false]
        refine ⟨⟨h.object, h.known, h.invalid, ?_⟩, fun _ => le_rfl, fun _ => rfl, ?_⟩
        · intro item hitem
          rcases mem_of_mem_orphans hitem with rfl | hold
          · exact ⟨hmem, rfl⟩
          · exact h.orphans item hold
        · intro _ _ hpresent
          exact absurd hobj (by rwa [← OrdMap.notMem_iff, not_not])
      · rcases hcounts : govobj.fCachedDelete || govobj.fExpired with _ | _
        · exact voteStep_object hcoll h hC hunknown hinvalid hobj hcounts
        · rw [CGovernanceManager.processVote]
          simp only [hunknown, hinvalid, hobj, hcounts, Bool.false_eq_true, if_false, if_true]
          refine ⟨h, fun _ => le_rfl, fun _ => rfl, fun _ hkept _ => ?_⟩
          have hflags := (h.object _ _ hobj).flags_eq
          rw [hcounts, hkept] at hflags
          cases hflags
    · -- no valid vote is remembered as invalid
      have hnot : ¬ValidVote env objects messages nEnd vote := by
        intro hvote
        obtain ⟨item, hitem, hkey⟩ := exists_of_hasKey hinvalid
        exact h.invalid item hitem vote hvote hkey.symm
      rw [CGovernanceManager.processVote]
      simp only [hunknown, hinvalid, Bool.false_eq_true, if_false, if_true]
      exact ⟨h, fun _ => le_rfl, fun hvote => absurd hvote hnot, fun hvote => absurd hvote hnot⟩
  · rw [CGovernanceManager.processVote]
    simp only [hunknown, if_true]
    refine ⟨h, fun _ => le_rfl, fun _ => rfl, fun hvote _ _ => ?_⟩
    obtain ⟨item, hitem, hkey⟩ := exists_of_hasKey hunknown
    obtain ⟨known, hknown, hhash, hrank⟩ := h.known item hitem
    obtain ⟨hslot, hsame⟩ := fields_of_content
      (hcoll known hknown.mem vote hvote.mem (hhash.trans hkey))
    rw [← hsame, ← hslot]
    exact hrank

/-- Orphan votes are votes too: the object keeps its invariant, knows no less, and no orphan
comes in. -/
theorem checkOrphanVote_step {clock : Clock} (hclock : clock.adjusted ≤ nEnd)
    (hkept : objects.kept nHash = true) {pairs : List vote_time_pair_t} (orphans : OrphanVotes)
    (hinv : ObjectInv env objects messages nEnd nHash govobj)
    (hpairs : ∀ pair ∈ pairs, pair.1 ∈ messages ∧ pair.1.nParentHash = nHash) :
    let state := pairs.foldl (CGovernanceManager.checkOrphanVote env clock nHash) (govobj, orphans)
    ObjectInv env objects messages nEnd nHash state.1 ∧
      (∀ outpoint eSignal, instanceRank (govobj.instanceOf outpoint eSignal) ≤
        instanceRank (state.1.instanceOf outpoint eSignal)) ∧
      ∀ item ∈ state.2.listItems, item ∈ orphans.listItems := by
  induction pairs generalizing govobj orphans with
  | nil => exact ⟨hinv, fun _ _ => le_rfl, fun _ => id⟩
  | cons pair pairs ih =>
    obtain ⟨⟨hmem, hparent⟩, hrest⟩ := List.forall_mem_cons.mp hpairs
    have herase : ∀ item ∈ (orphans.erase nHash pair).listItems, item ∈ orphans.listItems :=
      fun item hitem => List.mem_of_mem_filter hitem
    rw [List.foldl_cons, CGovernanceManager.checkOrphanVote]
    dsimp only
    split
    · obtain ⟨hobj, hle, horphans⟩ := ih (orphans.erase nHash pair) hinv hrest
      exact ⟨hobj, hle, fun item hitem => herase item (horphans item hitem)⟩
    · obtain ⟨hinv', hle'⟩ := hinv.processVote hkept hparent hmem false hclock
      obtain ⟨hobj, hle, horphans⟩ := ih (if (govobj.processVote env false clock.adjusted
        pair.1).1.1 = true then orphans.erase nHash pair else orphans) hinv' hrest
      refine ⟨hobj, fun outpoint eSignal => (hle' outpoint eSignal).trans (hle outpoint eSignal),
        fun item hitem => ?_⟩
      have hitem := horphans item hitem
      split at hitem
      · exact herase item hitem
      · exact hitem

/-- An object comes in. -/
theorem addGovernanceObject_step {clock : Clock} (hclock : clock.adjusted ≤ nEnd)
    (h : ManagerInv env objects messages nEnd man) (nHash : uint256) :
    ManagerInv env objects messages nEnd (man.addGovernanceObject env clock nHash
        (objects.govobj nHash) (objects.fAddNewTrigger nHash)) ∧
      ∀ slot, man.view slot ≤ (man.addGovernanceObject env clock nHash
        (objects.govobj nHash) (objects.fAddNewTrigger nHash)).view slot := by
  unfold CGovernanceManager.addGovernanceObject
  split_ifs with hpresent hbad
  · exact ⟨h, fun _ => le_rfl⟩
  · -- a trigger that is going to be deleted counts no votes
    have hfresh : ∀ outpoint eSignal, man.view (nHash, outpoint, eSignal) ≤
        instanceRank (CGovernanceObject.instanceOf {objects.govobj nHash with
          fCachedDelete := true, nDeletionTime := clock.time} outpoint eSignal) := by
      intro outpoint eSignal
      rw [view_of_no_object (OrdMap.notMem_iff.mp hpresent)]
      exact (congrArg instanceRank (instanceOf_fresh nHash outpoint eSignal)).ge
    refine ⟨h.insertObject rfl ⟨rfl, ?_, fun outpoint eSignal => .inl ?_, ?_⟩ hfresh (fun _ => .inl)
      (fun _ => .inl) fun _ => id, view_le_insert rfl hfresh⟩
    · simp [GovernanceObjects.kept, hbad.1, hbad.2]
    · exact congrArg instanceRank (instanceOf_fresh nHash outpoint eSignal)
    · intro vote hvote
      dsimp only at hvote
      rw [(objects.fresh nHash).2.1] at hvote
      cases hvote
  · have hkept : objects.kept nHash = true := by
      rcases hadd : objects.fAddNewTrigger nHash with _ | _
      · simpa [GovernanceObjects.kept, hadd] using hbad
      · simp [GovernanceObjects.kept, hadd]
    have hpairs : ∀ pair ∈ man.cmmapOrphanVotes.getAll nHash,
        pair.1 ∈ messages ∧ pair.1.nParentHash = nHash := by
      intro pair hpair
      obtain ⟨item, hitem, rfl⟩ := List.mem_map.mp hpair
      obtain ⟨hitem, hkey⟩ := List.mem_filter.mp hitem
      obtain ⟨hmem, hparent⟩ := h.orphans item hitem
      exact ⟨hmem, hparent.trans (beq_iff_eq.mp hkey)⟩
    obtain ⟨hobj, hle, horphans⟩ := checkOrphanVote_step hclock hkept
      man.cmmapOrphanVotes (objectInv_fresh hkept) hpairs
    have hfresh : ∀ outpoint eSignal, man.view (nHash, outpoint, eSignal) ≤
        instanceRank (CGovernanceObject.instanceOf ((man.cmmapOrphanVotes.getAll nHash).foldl
          (CGovernanceManager.checkOrphanVote env clock nHash)
            (objects.govobj nHash, man.cmmapOrphanVotes)).1 outpoint eSignal) := by
      intro outpoint eSignal
      rw [view_of_no_object (OrdMap.notMem_iff.mp hpresent)]
      refine le_trans (le_of_eq ?_) (hle outpoint eSignal)
      rw [instanceOf_fresh]
    exact ⟨h.insertObject rfl hobj hfresh (fun _ => .inl) (fun _ => .inl) horphans,
      view_le_insert rfl hfresh⟩

end Manager

/-! ### Tallies -/

/-- Valid votes are absorbed in the order of their ranks, whatever else is processed. -/
theorem process_absorbs (hcoll : CollisionFree env messages) :
    Absorbs (process env objects) CGovernanceManager.view (delivers env objects messages nEnd)
      (validValues env objects messages nEnd) (fun _ => instanceRank {})
      (ManagerInv env objects messages nEnd) (Careful env objects messages nEnd) where
  inv man event h hC := by
    obtain ⟨message, clock⟩ := event
    cases message with
    | vote vote => exact (voteStep hcoll h hC).inv
    | object nHash => exact (addGovernanceObject_step hC.clock h nHash).1
  sound man h slot := by
    obtain ⟨nHash, outpoint, eSignal⟩ := slot
    rcases hobj : man.mapObjects[nHash]? with _ | govobj
    · exact .inl (view_of_no_object hobj outpoint eSignal)
    · rw [view_of_object hobj]
      exact (h.object nHash govobj hobj).instances outpoint eSignal
  grows man event h hC slot := by
    obtain ⟨message, clock⟩ := event
    cases message with
    | vote vote => exact (voteStep hcoll h hC).view_le slot
    | object nHash => exact (addGovernanceObject_step hC.clock h nHash).2 slot
  absorbs man event h hC slot rank hdelivers := by
    obtain ⟨vote, hmessage, hvote, hkept, hpresent, rfl, rfl⟩ := hdelivers
    obtain ⟨message, clock⟩ := event
    obtain rfl : message = .vote vote := hmessage
    exact (voteStep hcoll h hC).absorbed hvote hkept hpresent

/-- A node that has no objects and no votes. -/
structure NewManager (man : CGovernanceManager) : Prop where
  mapObjects : man.mapObjects = ∅
  cmapVoteToObject : man.cmapVoteToObject.listItems = []
  cmapInvalidVotes : man.cmapInvalidVotes.listItems = []
  cmmapOrphanVotes : man.cmmapOrphanVotes.listItems = []

theorem NewManager.inv {man : CGovernanceManager} (h : NewManager man) :
    ManagerInv env objects messages nEnd man where
  object nHash govobj hobj := by
    rw [h.mapObjects] at hobj
    simp at hobj
  known item hitem := by
    rw [h.cmapVoteToObject] at hitem
    cases hitem
  invalid item hitem := by
    rw [h.cmapInvalidVotes] at hitem
    cases hitem
  orphans item hitem := by
    rw [h.cmmapOrphanVotes] at hitem
    cases hitem

theorem NewManager.view_eq {man : CGovernanceManager} (h : NewManager man) (slot : Slot) :
    man.view slot = instanceRank {} := by
  obtain ⟨nHash, outpoint, eSignal⟩ := slot
  apply view_of_no_object
  rw [h.mapObjects]
  rfl

/-- No valid vote is answered with a penalty, or kept as an invalid one. -/
def Respected (env : VoteChecks G) (objects : GovernanceObjects) (messages : Set CGovernanceVote)
    (nEnd : ℤ) (man : CGovernanceManager) (event : Message × Clock) : Prop :=
  ∀ vote, event.1 = .vote vote → ValidVote env objects messages nEnd vote →
    (process env objects man event).1.2.nNodePenalty = 0 ∧
      (process env objects man event).2.cmapInvalidVotes.hasKey (env.getHash vote) = false

theorem respected_of_careful (hcoll : CollisionFree env messages) {man : CGovernanceManager}
    {event : Message × Clock} (h : ManagerInv env objects messages nEnd man)
    (hC : Careful env objects messages nEnd man event) :
    Respected env objects messages nEnd man event := by
  obtain ⟨message, clock⟩ := event
  rintro vote rfl hvote
  have hstep := voteStep hcoll h hC
  refine ⟨hstep.penalty hvote, ?_⟩
  rcases hkey : (man.processVote env clock vote).2.cmapInvalidVotes.hasKey (env.getHash vote)
    with _ | _
  · exact hkey
  · obtain ⟨item, hitem, heq⟩ := exists_of_hasKey hkey
    exact absurd heq.symm (hstep.inv.invalid item hitem vote hvote)

variable (env objects messages nEnd) in
/-- Each valid vote for an object is handed over at least once after the object has come. -/
def AllDelivered (man : CGovernanceManager) (events : List (Message × Clock)) (nHash : uint256) :
    Prop :=
  ∀ vote, ValidVote env objects messages nEnd vote → objects.kept nHash = true →
    vote.nParentHash = nHash →
      Delivered (process env objects) (delivers env objects messages nEnd) man events vote.slot
        (voteRank vote)

/-- The instance of each masternode and signal is the greatest of the valid votes. -/
theorem final_isGreatest (hcoll : CollisionFree env messages) {man : CGovernanceManager}
    (hman : NewManager man) {events : List (Message × Clock)}
    (hrun : EveryStep (process env objects) (Careful env objects messages nEnd) man events)
    {nHash : uint256} (hall : AllDelivered env objects messages nEnd man events nHash)
    (outpoint : COutPoint) (eSignal : Int32) :
    IsGreatest (insert (instanceRank {}) {rank | ((nHash, outpoint, eSignal), rank) ∈
        validValues env objects messages nEnd})
      ((final (process env objects) man events).view (nHash, outpoint, eSignal)) := by
  refine (process_absorbs hcoll).final_isGreatest hman.inv hrun (hman.view_eq _) ?_
  rintro rank ⟨vote, hvote, hkept, heq⟩
  obtain ⟨hslot, rfl⟩ := Prod.mk.inj heq
  rw [hslot]
  obtain ⟨rfl, -⟩ := Prod.mk.inj hslot
  exact hall vote hvote hkept rfl

/-- In runs in which no vote with the content of a valid one is found invalid, no valid vote is
refused for good or punished; and two such runs that hand over the valid votes of an object end with
the same outcomes, those of the greatest valid votes, and the same counts. -/
theorem tallies_converge (hcoll : CollisionFree env messages) {man man' : CGovernanceManager}
    (hman : NewManager man) (hman' : NewManager man') {events events' : List (Message × Clock)}
    (hrun : EveryStep (process env objects) (Careful env objects messages nEnd) man events)
    (hrun' : EveryStep (process env objects) (Careful env objects messages nEnd) man' events') :
    EveryStep (process env objects) (Respected env objects messages nEnd) man events ∧
      ∀ nHash, AllDelivered env objects messages nEnd man events nHash →
        AllDelivered env objects messages nEnd man' events' nHash →
          (∀ outpoint eSignal,
            IsGreatest (insert (instanceRank {}) {rank | ((nHash, outpoint, eSignal), rank) ∈
                validValues env objects messages nEnd})
              ((final (process env objects) man events).view (nHash, outpoint, eSignal)) ∧
            ((final (process env objects) man events).instanceOf
                (nHash, outpoint, eSignal)).eOutcome =
              ((final (process env objects) man' events').instanceOf
                (nHash, outpoint, eSignal)).eOutcome) ∧
          ∀ govobj govobj',
            (final (process env objects) man events).mapObjects[nHash]? = some govobj →
            (final (process env objects) man' events').mapObjects[nHash]? = some govobj' →
              ∀ eSignal eVoteOutcome, eVoteOutcome ≠ VOTE_OUTCOME_NONE →
                govobj.countMatchingVotes env eSignal eVoteOutcome =
                  govobj'.countMatchingVotes env eSignal eVoteOutcome := by
  constructor
  · apply everyStep_of_invariant (ManagerInv env objects messages nEnd) _ hman.inv hrun
    intro man event h hC
    exact ⟨respected_of_careful hcoll h hC, (process_absorbs hcoll).inv man event h hC⟩
  · intro nHash hall hall'
    have hsame : ∀ outpoint eSignal,
        ((final (process env objects) man events).instanceOf (nHash, outpoint, eSignal)).eOutcome =
          ((final (process env objects) man' events').instanceOf
            (nHash, outpoint, eSignal)).eOutcome := by
      intro outpoint eSignal
      exact eOutcome_of_rank ((final_isGreatest hcoll hman hrun hall outpoint eSignal).unique
        (final_isGreatest hcoll hman' hrun' hall' outpoint eSignal))
    refine ⟨fun outpoint eSignal =>
      ⟨final_isGreatest hcoll hman hrun hall outpoint eSignal, hsame outpoint eSignal⟩, ?_⟩
    intro govobj govobj' hobj hobj' eSignal eVoteOutcome hne
    apply countMatchingVotes_congr _ hne
    intro outpoint
    have hout := hsame outpoint eSignal
    simp only [CGovernanceManager.instanceOf, hobj, hobj', Option.map_some, Option.getD_some]
      at hout
    exact hout

end Runs

/-! ### A forged vote -/

section Samples
open Evo.ByValue (oneCodec digest)

def sampleOutpoint : COutPoint := ⟨5, 0⟩

def sampleVoter : Evo.ByValue.CDeterministicMN Unit where
  internalId := 0
  proTxHash := 1
  collateralOutpoint := sampleOutpoint
  pdmnState := {netInfo := .mn {}}

/-- One masternode, and signatures that verify if they are the byte 1. -/
def sampleChecks : VoteChecks Unit where
  codec := oneCodec
  sha256d := digest
  tip_mn_list :=
    { mnMap := (∅ : ExtTreeMap uint256 (Evo.ByValue.CDeterministicMN Unit)).insert 1 sampleVoter
      mnUniquePropertyMap := (∅ : ExtTreeMap uint256 (uint256 × UInt32)).insert
        (Evo.ByValue.getUniquePropertyHash oneCodec digest (.outpoint sampleOutpoint)) (1, 1) }
  checkVotingKey _ vote := vote.vchSig == [1]
  checkOperatorKey _ vote := vote.vchSig == [1]

def sampleObjects : GovernanceObjects where
  govobj _ := {type := .PROPOSAL}
  fAddNewTrigger _ := true
  fresh _ := ⟨rfl, rfl, rfl, rfl⟩

def sampleManager : CGovernanceManager where
  cmapVoteToObject := ⟨1000000, []⟩
  cmapInvalidVotes := ⟨1000000, []⟩
  cmmapOrphanVotes := ⟨1000000, []⟩
  fRateChecksEnabled := false

theorem sampleManager_new : NewManager sampleManager := ⟨rfl, rfl, rfl, rfl⟩

def sampleVote (vchSig : List UInt8) : CGovernanceVote :=
  ⟨sampleOutpoint, 9, VOTE_OUTCOME_YES, VOTE_SIGNAL_FUNDING, 100, vchSig⟩

def sampleClock : Clock := ⟨200, 200⟩

/-- A run that processes an object and then some votes. -/
def sampleRun (votes : List CGovernanceVote) : List (Message × Clock) :=
  (.object 9, sampleClock) :: votes.map fun vote => (.vote vote, sampleClock)

def sampleFinal (votes : List CGovernanceVote) : CGovernanceManager :=
  final (process sampleChecks sampleObjects) sampleManager (sampleRun votes)

/-- A copy of a valid vote with a wrong signature, processed first, has the vote refused each time
and its sender punished; processed after it, it changes nothing. -/
theorem forged_vote_first :
    ((sampleFinal [sampleVote [1], sampleVote [0], sampleVote [1]]).instanceOf
        (9, sampleOutpoint, VOTE_SIGNAL_FUNDING)).eOutcome = VOTE_OUTCOME_YES ∧
      ((sampleFinal [sampleVote [0], sampleVote [1], sampleVote [1]]).instanceOf
        (9, sampleOutpoint, VOTE_SIGNAL_FUNDING)).eOutcome = VOTE_OUTCOME_NONE ∧
      (process sampleChecks sampleObjects (sampleFinal [sampleVote [0]])
        (.vote (sampleVote [1]), sampleClock)).1 = (false, ⟨.PERMANENT_ERROR, 20⟩) := by
  refine ⟨?_, ?_, ?_⟩ <;> decide +kernel

def sampleMessages : Set CGovernanceVote := {sampleVote [1], sampleVote [0]}

theorem sampleMessages_collisionFree : CollisionFree sampleChecks sampleMessages := by
  rintro a (rfl | rfl) b (rfl | rfl) - <;> rfl

theorem sampleVote_valid :
    ValidVote sampleChecks sampleObjects sampleMessages 200 (sampleVote [1]) :=
  ⟨.inl rfl, by decide, by decide +kernel⟩

theorem eq_of_valid {vote : CGovernanceVote}
    (h : ValidVote sampleChecks sampleObjects sampleMessages 200 vote) : vote = sampleVote [1] := by
  rcases h.mem with rfl | rfl
  · rfl
  · have hvalid := h.valid
    revert hvalid
    decide +kernel

theorem careful_object (man : CGovernanceManager) :
    Careful sampleChecks sampleObjects sampleMessages 200 man (.object 9, sampleClock) :=
  ⟨le_rfl, nofun, nofun, nofun⟩

theorem careful_vote {man : CGovernanceManager} (hrate : man.fRateChecksEnabled = false)
    {vchSig : List UInt8} (hmem : sampleVote vchSig ∈ sampleMessages)
    (h : vchSig = [1] ∨
      man.cmapVoteToObject.hasKey (sampleChecks.getHash (sampleVote vchSig)) = true) :
    Careful sampleChecks sampleObjects sampleMessages 200 man
      (.vote (sampleVote vchSig), sampleClock) where
  clock := le_rfl
  mem vote heq := Message.vote.inj heq ▸ hmem
  unlimited vote govobj _ _ hlimited := by
    rw [hrate] at hlimited
    cases hlimited.1
  no_twin vote govobj heq hreaches hfalse := by
    obtain rfl := Message.vote.inj heq
    rcases h with rfl | hkey
    · have hvalid : ∀ useVotingKey, (sampleVote [1]).isValid sampleChecks 200 useVotingKey = true := by
        decide +kernel
      exact absurd (hvalid _) (Bool.not_eq_true _ ▸ hfalse)
    · rw [hreaches.unknown] at hkey
      cases hkey

theorem sampleRun_delivered (votes : List CGovernanceVote) :
    AllDelivered sampleChecks sampleObjects sampleMessages 200 sampleManager
      (sampleRun (sampleVote [1] :: votes)) 9 := by
  intro vote hvote hkept _
  obtain rfl := eq_of_valid hvote
  exact ⟨[(.object 9, sampleClock)], (.vote (sampleVote [1]), sampleClock), _, rfl,
    sampleVote [1], rfl, sampleVote_valid, hkept, by decide +kernel, rfl, rfl⟩

theorem sampleRun_careful (vchSig : List UInt8) (hmem : sampleVote vchSig ∈ sampleMessages)
    (h : vchSig = [1] ∨ (sampleFinal [sampleVote [1]]).cmapVoteToObject.hasKey
      (sampleChecks.getHash (sampleVote vchSig)) = true) :
    EveryStep (process sampleChecks sampleObjects)
      (Careful sampleChecks sampleObjects sampleMessages 200) sampleManager
        (sampleRun [sampleVote [1], sampleVote vchSig]) := by
  have hrate : (sampleFinal [sampleVote [1]]).fRateChecksEnabled = false := by decide +kernel
  refine ⟨careful_object _, careful_vote ?_ (.inl rfl) (.inl rfl), ?_, trivial⟩
  · decide +kernel
  · exact careful_vote hrate hmem h

/-- A forged copy after the vote, and the vote twice. -/
theorem tallies_converge_copy :
    ((sampleFinal [sampleVote [1], sampleVote [0]]).instanceOf
        (9, sampleOutpoint, VOTE_SIGNAL_FUNDING)).eOutcome =
      ((sampleFinal [sampleVote [1], sampleVote [1]]).instanceOf
        (9, sampleOutpoint, VOTE_SIGNAL_FUNDING)).eOutcome :=
  (((tallies_converge sampleMessages_collisionFree sampleManager_new sampleManager_new
    (sampleRun_careful [0] (.inr rfl) (.inr (by decide +kernel)))
    (sampleRun_careful [1] (.inl rfl) (.inl rfl))).2 9
        (sampleRun_delivered _) (sampleRun_delivered _)).1 sampleOutpoint VOTE_SIGNAL_FUNDING).2

end Samples
end BabaChain.Governance
