import BabaChain.Lib.Runs
import BabaChain.ListBuilder

/-! Votes on governance objects: what an object keeps of them, and how a node processes them. -/
namespace BabaChain.Governance
open ByteWriter
open Evo.ByValue (CDeterministicMN CDeterministicMNList)
open Std (ExtTreeMap)

/-! ### Votes -/

def VOTE_OUTCOME_NONE : Int32 := 0
def VOTE_OUTCOME_YES : Int32 := 1
def VOTE_OUTCOME_NO : Int32 := 2
def VOTE_OUTCOME_ABSTAIN : Int32 := 3
def VOTE_OUTCOME_UNKNOWN : Int32 := 4

def VOTE_SIGNAL_NONE : Int32 := 0
def VOTE_SIGNAL_FUNDING : Int32 := 1
def VOTE_SIGNAL_VALID : Int32 := 2
def VOTE_SIGNAL_DELETE : Int32 := 3
def VOTE_SIGNAL_ENDORSED : Int32 := 4
def VOTE_SIGNAL_UNKNOWN : Int32 := 5

/-- `CGovernanceVote`. The outcome and the signal are read from the network as any `int`. -/
structure CGovernanceVote where
  masternodeOutpoint : COutPoint
  nParentHash : uint256
  nVoteOutcome : Int32
  nVoteSignal : Int32
  nTime : Int64
  vchSig : List UInt8
deriving DecidableEq

/-- What `operator==` compares and the hash covers: all but the signature. -/
def CGovernanceVote.content (vote : CGovernanceVote) : CGovernanceVote := {vote with vchSig := []}

/-- The bytes that `UpdateHash` hashes. -/
def CGovernanceVote.hashBytes (vote : CGovernanceVote) : List UInt8 :=
  writeUint256 vote.masternodeOutpoint.hash ++ writeLE 4 vote.masternodeOutpoint.n.toNat ++
    [0] ++ writeLE 4 0xffffffff ++ writeUint256 vote.nParentHash ++
      writeLE 4 vote.nVoteSignal.toBitVec.toNat ++ writeLE 4 vote.nVoteOutcome.toBitVec.toNat ++
        writeLE 8 vote.nTime.toBitVec.toNat

/-- `operator<` of votes: the next field is looked at only where the one before is both smaller and
equal. The signals are compared by `==`. -/
def CGovernanceVote.less (vote1 vote2 : CGovernanceVote) : Bool :=
  compare vote1.masternodeOutpoint vote2.masternodeOutpoint == .lt &&
    (vote1.masternodeOutpoint == vote2.masternodeOutpoint && vote1.nParentHash < vote2.nParentHash) &&
      (vote1.nParentHash == vote2.nParentHash && vote1.nVoteOutcome < vote2.nVoteOutcome) &&
        (vote1.nVoteOutcome == vote2.nVoteOutcome && vote1.nVoteSignal == vote2.nVoteSignal) &&
          (vote1.nVoteSignal == vote2.nVoteSignal && vote1.nTime < vote2.nTime)

variable {G : Type*}

/-- What votes are checked with: the masternodes at the tip, and the checks of a signature
with a voting key and with an operator key. -/
structure VoteChecks (G : Type*) where
  codec : BLS.KeyCodec G
  sha256d : List UInt8 → uint256
  tip_mn_list : CDeterministicMNList G
  checkVotingKey : uint160 → CGovernanceVote → Bool
  checkOperatorKey : BLS.CBLSLazyPublicKey G → CGovernanceVote → Bool

variable (env : VoteChecks G)

def VoteChecks.getHash (vote : CGovernanceVote) : uint256 := env.sha256d vote.hashBytes

def VoteChecks.getMNByCollateral (outpoint : COutPoint) : Option (CDeterministicMN G) :=
  env.tip_mn_list.getMNByCollateral env.codec env.sha256d outpoint

/-- `CGovernanceVote::IsValid` at the adjusted time `nNow`. -/
def CGovernanceVote.isValid (vote : CGovernanceVote) (nNow : ℤ) (useVotingKey : Bool) : Bool :=
  if nNow+60*60 < vote.nTime.toInt then false
  else if vote.nVoteSignal < VOTE_SIGNAL_NONE || VOTE_SIGNAL_UNKNOWN ≤ vote.nVoteSignal then false
  else if vote.nVoteOutcome < VOTE_OUTCOME_NONE || VOTE_OUTCOME_UNKNOWN ≤ vote.nVoteOutcome then
    false
  else
    match env.getMNByCollateral vote.masternodeOutpoint with
    | none => false
    | some dmn =>
      if useVotingKey then env.checkVotingKey dmn.pdmnState.keyIDVoting vote
      else env.checkOperatorKey dmn.pdmnState.pubKeyOperator vote

/-! ### Objects -/

inductive GovernanceObject where
  | UNKNOWN
  | PROPOSAL
  | TRIGGER
deriving DecidableEq

structure vote_instance_t where
  eOutcome : Int32 := VOTE_OUTCOME_NONE
  nTime : ℤ := 0
  nCreationTime : Int64 := 0
deriving DecidableEq

/-- `vote_rec_t`: the instances by signal. -/
abbrev vote_rec_t := ExtTreeMap Int32 vote_instance_t

/-- `CGovernanceObject`, as far as votes are concerned. -/
structure CGovernanceObject where
  type : GovernanceObject
  nDeletionTime : ℤ := 0
  fCachedFunding : Bool := false
  fCachedValid : Bool := true
  fCachedDelete : Bool := false
  fCachedEndorsed : Bool := false
  fDirtyCache : Bool := true
  fExpired : Bool := false
  mapCurrentMNVotes : ExtTreeMap COutPoint vote_rec_t := ∅
  /-- The votes of `fileVotes`, whose index has their hashes. -/
  fileVotes : List CGovernanceVote := []

inductive GovernanceException where
  | NONE
  | WARNING
  | PERMANENT_ERROR
  | TEMPORARY_ERROR
deriving DecidableEq

/-- `CGovernanceException`, less its message. -/
structure CGovernanceException where
  eType : GovernanceException := .NONE
  nNodePenalty : ℕ := 0
deriving DecidableEq

def GOVERNANCE_UPDATE_MIN : ℤ := 60*60

namespace CGovernanceObject

def hasVote (govobj : CGovernanceObject) (nHash : uint256) : Bool :=
  govobj.fileVotes.any (env.getHash · == nHash)

/-- `AddVote`: older votes of the same masternode for the same signal are dropped. -/
def addVote (govobj : CGovernanceObject) (vote : CGovernanceVote) : List CGovernanceVote :=
  if govobj.hasVote env (env.getHash vote) then
    govobj.fileVotes
  else
    (vote :: govobj.fileVotes).filter fun old =>
      !(old.masternodeOutpoint == vote.masternodeOutpoint && old.nParentHash == vote.nParentHash &&
        old.nVoteSignal == vote.nVoteSignal && old.nTime < vote.nTime)

/-- The instance of a masternode and a signal, where there is none a new one. -/
def instanceOf (govobj : CGovernanceObject) (outpoint : COutPoint) (eSignal : Int32) :
    vote_instance_t :=
  (((govobj.mapCurrentMNVotes[outpoint]?).getD ∅)[eSignal]?).getD {}

/-- The record with an instance put in. -/
def setInstance (govobj : CGovernanceObject) (outpoint : COutPoint) (eSignal : Int32)
    (voteInstance : vote_instance_t) : CGovernanceObject :=
  {govobj with
    mapCurrentMNVotes := govobj.mapCurrentMNVotes.insert outpoint
      (((govobj.mapCurrentMNVotes[outpoint]?).getD ∅).insert eSignal voteInstance)}

/-- The record of a masternode, made where there is none. -/
def emplaceRecord (govobj : CGovernanceObject) (outpoint : COutPoint) : CGovernanceObject :=
  {govobj with
    mapCurrentMNVotes := govobj.mapCurrentMNVotes.insert outpoint
      ((govobj.mapCurrentMNVotes[outpoint]?).getD ∅)}

/-- A vote that says less than what is known of its masternode and signal. -/
def obsolete (voteInstance : vote_instance_t) (vote : CGovernanceVote) : Bool :=
  decide (vote.nTime < voteInstance.nCreationTime) ||
    vote.nTime == voteInstance.nCreationTime && decide (vote.nVoteOutcome < voteInstance.eOutcome)

def onlyVotingKeyAllowed (govobj : CGovernanceObject) (vote : CGovernanceVote) : Bool :=
  decide (govobj.type = .PROPOSAL) && vote.nVoteSignal == VOTE_SIGNAL_FUNDING

variable (fRateChecksEnabled : Bool) (nNow : ℤ)

/-- `CGovernanceObject::ProcessVote`. The record and the instance are made before the vote is
checked. Counting the vote for its masternode cannot fail and is left out. -/
def processVote (govobj : CGovernanceObject) (vote : CGovernanceVote) :
    (Bool × CGovernanceException) × CGovernanceObject :=
  if govobj.hasVote env (env.getHash vote) then
    ((false, {}), govobj)
  else
    match env.getMNByCollateral vote.masternodeOutpoint with
    | none => ((false, ⟨.PERMANENT_ERROR, 20⟩), govobj)
    | some _ =>
      let withRecord := govobj.emplaceRecord vote.masternodeOutpoint
      if vote.nVoteSignal = VOTE_SIGNAL_NONE then
        ((false, ⟨.WARNING, 0⟩), withRecord)
      else if vote.nVoteSignal < VOTE_SIGNAL_NONE || VOTE_SIGNAL_UNKNOWN ≤ vote.nVoteSignal then
        ((false, ⟨.PERMANENT_ERROR, 20⟩), withRecord)
      else
        let voteInstance := govobj.instanceOf vote.masternodeOutpoint vote.nVoteSignal
        let withInstance :=
          govobj.setInstance vote.masternodeOutpoint vote.nVoteSignal voteInstance
        if obsolete voteInstance vote then
          ((false, {}), withInstance)
        else if fRateChecksEnabled && nNow-voteInstance.nTime < GOVERNANCE_UPDATE_MIN then
          ((false, ⟨.TEMPORARY_ERROR, 0⟩), withInstance)
        else if !vote.isValid env nNow (govobj.onlyVotingKeyAllowed vote) then
          ((false, ⟨.PERMANENT_ERROR, 20⟩), withInstance)
        else
          let nVoteTimeUpdate := if fRateChecksEnabled then nNow else voteInstance.nTime
          ((true, {}),
            {govobj.setInstance vote.masternodeOutpoint vote.nVoteSignal
                ⟨vote.nVoteOutcome, nVoteTimeUpdate, vote.nTime⟩ with
              fileVotes := govobj.addVote env vote
              fDirtyCache := true})

/-- `CountMatchingVotes`. -/
def countMatchingVotes (govobj : CGovernanceObject) (eVoteSignal eVoteOutcome : Int32) : ℤ :=
  (govobj.mapCurrentMNVotes.toList.map fun (outpoint, recVote) =>
    match recVote[eVoteSignal]? with
    | none => 0
    | some voteInstance =>
      if voteInstance.eOutcome = eVoteOutcome then
        ((env.getMNByCollateral outpoint).map fun dmn => (dmn.nType.voting_weight : ℤ)).getD 0
      else
        0).sum

def getYesCount (govobj : CGovernanceObject) (eVoteSignal : Int32) : ℤ :=
  govobj.countMatchingVotes env eVoteSignal VOTE_OUTCOME_YES

def getNoCount (govobj : CGovernanceObject) (eVoteSignal : Int32) : ℤ :=
  govobj.countMatchingVotes env eVoteSignal VOTE_OUTCOME_NO

def getAbsoluteYesCount (govobj : CGovernanceObject) (eVoteSignal : Int32) : ℤ :=
  govobj.getYesCount env eVoteSignal-govobj.getNoCount env eVoteSignal

def getAbsoluteNoCount (govobj : CGovernanceObject) (eVoteSignal : Int32) : ℤ :=
  govobj.getNoCount env eVoteSignal-govobj.getYesCount env eVoteSignal

end CGovernanceObject

/-! ### Caches -/

/-- `CacheMap`: the most recently added items, the newest first. -/
structure CacheMap (K V : Type*) where
  nMaxSize : ℕ
  listItems : List (K × V) := []

namespace CacheMap

variable {K V : Type*} [DecidableEq K]

def hasKey (cmap : CacheMap K V) (key : K) : Bool := cmap.listItems.any (·.1 == key)

/-- What is left where an item has to go. -/
def pruneLast (nMaxSize : ℕ) (listItems : List (K × V)) : List (K × V) :=
  if listItems.length = nMaxSize then listItems.dropLast else listItems

def insert (cmap : CacheMap K V) (key : K) (value : V) : Bool × CacheMap K V :=
  if cmap.hasKey key then
    (false, cmap)
  else
    (true, {cmap with listItems := (key, value) :: pruneLast cmap.nMaxSize cmap.listItems})

end CacheMap

/-- The values of `cmmapOrphanVotes`. The source orders them by the vote alone, with an
`operator<` that never holds, so the votes for one object all count as equal. -/
abbrev vote_time_pair_t := CGovernanceVote × ℤ

/-- `CacheMultiMap` of the orphan votes. -/
structure OrphanVotes where
  nMaxSize : ℕ
  listItems : List (uint256 × vote_time_pair_t) := []

namespace OrphanVotes

/-- Neither is less than the other. -/
def equivalent (a b : vote_time_pair_t) : Bool := !(a.1.less b.1) && !(b.1.less a.1)

def holds (key : uint256) (value : vote_time_pair_t) (item : uint256 × vote_time_pair_t) : Bool :=
  item.1 == key && equivalent item.2 value

def insert (cmmap : OrphanVotes) (key : uint256) (value : vote_time_pair_t) :
    Bool × OrphanVotes :=
  if cmmap.listItems.any (holds key value) then
    (false, cmmap)
  else
    (true, {cmmap with
      listItems := (key, value) :: CacheMap.pruneLast cmmap.nMaxSize cmmap.listItems})

def getAll (cmmap : OrphanVotes) (key : uint256) : List vote_time_pair_t :=
  (cmmap.listItems.filter fun item => item.1 == key).map Prod.snd

def erase (cmmap : OrphanVotes) (key : uint256) (value : vote_time_pair_t) : OrphanVotes :=
  {cmmap with listItems := cmmap.listItems.filter fun item => !holds key value item}

end OrphanVotes

/-! ### The manager -/

/-- `CGovernanceManager`, as far as votes are concerned. -/
structure CGovernanceManager where
  mapObjects : ExtTreeMap uint256 CGovernanceObject := ∅
  cmapVoteToObject : CacheMap uint256 uint256
  cmapInvalidVotes : CacheMap uint256 CGovernanceVote
  cmmapOrphanVotes : OrphanVotes
  fRateChecksEnabled : Bool := true

def GOVERNANCE_ORPHAN_EXPIRATION_TIME : ℤ := 10*60

/-- `GetTime` and `GetAdjustedTime` when a message is processed. -/
structure Clock where
  time : ℤ
  adjusted : ℤ

namespace CGovernanceManager

variable (clock : Clock)

/-- `CGovernanceManager::ProcessVote`. Asking the peer for an unknown object changes nothing
here. -/
def processVote (man : CGovernanceManager) (vote : CGovernanceVote) :
    (Bool × CGovernanceException) × CGovernanceManager :=
  let nHashVote := env.getHash vote
  let nHashGovobj := vote.nParentHash
  if man.cmapVoteToObject.hasKey nHashVote then
    ((false, {}), man)
  else if man.cmapInvalidVotes.hasKey nHashVote then
    ((false, ⟨.PERMANENT_ERROR, 20⟩), man)
  else
    match man.mapObjects[nHashGovobj]? with
    | none =>
      ((false, ⟨.WARNING, 0⟩), {man with
        cmmapOrphanVotes := (man.cmmapOrphanVotes.insert nHashGovobj
          (vote, clock.time+GOVERNANCE_ORPHAN_EXPIRATION_TIME)).2})
    | some govobj =>
      if govobj.fCachedDelete || govobj.fExpired then
        ((false, {}), man)
      else
        let ((fOk, exception), govobj') :=
          govobj.processVote env man.fRateChecksEnabled clock.adjusted vote
        let man' := {man with mapObjects := man.mapObjects.insert nHashGovobj govobj'}
        if fOk then
          let (inserted, cmap) := man.cmapVoteToObject.insert nHashVote nHashGovobj
          ((inserted, exception), {man' with cmapVoteToObject := cmap})
        else if exception = ⟨.PERMANENT_ERROR, 20⟩ then
          ((false, exception), {man' with
            cmapInvalidVotes := (man.cmapInvalidVotes.insert nHashVote vote).2})
        else
          ((false, exception), man')

/-- One orphan vote in `CheckOrphanVotes`, for which the rate checks are off. -/
def checkOrphanVote (nHash : uint256) (state : CGovernanceObject × OrphanVotes)
    (pairVote : vote_time_pair_t) : CGovernanceObject × OrphanVotes :=
  let (govobj, orphans) := state
  if pairVote.2 < clock.adjusted then
    (govobj, orphans.erase nHash pairVote)
  else
    let ((fOk, _), govobj') := govobj.processVote env false clock.adjusted pairVote.1
    (govobj', if fOk then orphans.erase nHash pairVote else orphans)

def checkOrphanVotes (man : CGovernanceManager) (nHash : uint256) (govobj : CGovernanceObject) :
    CGovernanceManager :=
  let (govobj', orphans) := (man.cmmapOrphanVotes.getAll nHash).foldl
    (checkOrphanVote env clock nHash) (govobj, man.cmmapOrphanVotes)
  {man with
    mapObjects := man.mapObjects.insert nHash govobj'
    cmmapOrphanVotes := orphans}

/-- `AddGovernanceObjectInternal` for an object that is locally valid; a trigger that cannot be
added is kept to be deleted. -/
def addGovernanceObject (man : CGovernanceManager) (nHash : uint256) (govobj : CGovernanceObject)
    (fAddNewTrigger : Bool) : CGovernanceManager :=
  if nHash ∈ man.mapObjects then
    man
  else if govobj.type = .TRIGGER ∧ fAddNewTrigger = false then
    let govobj' := {govobj with fCachedDelete := true, nDeletionTime := clock.time}
    {man with mapObjects := man.mapObjects.insert nHash govobj'}
  else
    man.checkOrphanVotes env clock nHash govobj

end CGovernanceManager
end BabaChain.Governance
