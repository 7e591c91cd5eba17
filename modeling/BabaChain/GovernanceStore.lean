import BabaChain.GovernanceTriggers
import BabaChain.MasternodeListDiff

/-! The store of governance objects: the vote file of each object with its index, the index of all
votes, the triggers, and what a restart keeps of them. -/
namespace BabaChain.Governance.Store
open MachineInt
open Evo.ByValue (CDeterministicMN CDeterministicMNList CDeterministicMNStateDiff Field)
open Std (ExtTreeMap)

variable {G : Type*}

/-! ### Vote files -/

/-- An iterator of the index stands as the vote that it points to. -/
structure CGovernanceObjectVoteFile where
  nMemoryVotes : ℤ := 0
  listVotes : List CGovernanceVote := []
  mapVoteIndex : ExtTreeMap uint256 CGovernanceVote := ∅

namespace CGovernanceObjectVoteFile

variable (env : VoteChecks G) (file : CGovernanceObjectVoteFile)

def hasVote (nHash : uint256) : Bool := decide (nHash ∈ file.mapVoteIndex)

def serializeVoteToStream (nHash : uint256) : Option CGovernanceVote := file.mapVoteIndex[nHash]?

/-- The loop that removes votes. -/
def removeVotes (p : CGovernanceVote → Bool) : CGovernanceObjectVoteFile where
  nMemoryVotes := file.nMemoryVotes-(file.listVotes.filter p).length
  listVotes := file.listVotes.filter fun it => !p it
  mapVoteIndex := ((file.listVotes.filter p).map env.getHash).foldl
    (fun mapVoteIndex nHash => mapVoteIndex.erase nHash) file.mapVoteIndex

def removeVotesFromMasternode (outpointMasternode : COutPoint) : CGovernanceObjectVoteFile :=
  file.removeVotes env fun it => it.masternodeOutpoint == outpointMasternode

/-- A vote of the masternode that does not hold any more. -/
def isInvalid (nNow : ℤ) (outpointMasternode : COutPoint) (fProposal : Bool)
    (it : CGovernanceVote) : Bool :=
  let useVotingKey := fProposal && it.nVoteSignal == VOTE_SIGNAL_FUNDING
  it.masternodeOutpoint == outpointMasternode && !it.isValid env nNow useVotingKey

def removeInvalidVotes (nNow : ℤ) (outpointMasternode : COutPoint) (fProposal : Bool) :
    List uint256 × CGovernanceObjectVoteFile :=
  let p := isInvalid env nNow outpointMasternode fProposal
  ((file.listVotes.filter p).map env.getHash, file.removeVotes env p)

def removeOldVotes (vote : CGovernanceVote) : CGovernanceObjectVoteFile :=
  file.removeVotes env fun it =>
    it.masternodeOutpoint == vote.masternodeOutpoint && it.nParentHash == vote.nParentHash &&
      it.nVoteSignal == vote.nVoteSignal && it.nTime < vote.nTime

def addVote (vote : CGovernanceVote) : CGovernanceObjectVoteFile :=
  let nHash := env.getHash vote
  if file.hasVote nHash then file
  else
    let added : CGovernanceObjectVoteFile :=
      { nMemoryVotes := file.nMemoryVotes+1
        listVotes := vote :: file.listVotes
        mapVoteIndex := file.mapVoteIndex.insert nHash vote }
    added.removeOldVotes env vote

/-- The loop of `RebuildIndex`: a vote that is in the index already goes. -/
def rebuildLoop : List CGovernanceVote → CGovernanceObjectVoteFile → CGovernanceObjectVoteFile
  | [], file => file
  | vote :: listVotes, file =>
    let nHash := env.getHash vote
    if nHash ∈ file.mapVoteIndex then rebuildLoop listVotes file
    else rebuildLoop listVotes
      { nMemoryVotes := file.nMemoryVotes+1
        listVotes := file.listVotes ++ [vote]
        mapVoteIndex := file.mapVoteIndex.insert nHash vote }

def rebuildIndex : CGovernanceObjectVoteFile := rebuildLoop env file.listVotes {}

end CGovernanceObjectVoteFile

/-! ### Objects -/

/-- The votes of the base are `listVotes` of the vote file. -/
structure CGovernanceObject extends Governance.CGovernanceObject where
  hash : uint256
  nMemoryVotes : ℤ := 0
  mapVoteIndex : ExtTreeMap uint256 CGovernanceVote := ∅

namespace CGovernanceObject

variable (env : VoteChecks G) (nGovernanceMinQuorum : ℤ) (govobj : CGovernanceObject)

def voteFile : CGovernanceObjectVoteFile :=
  ⟨govobj.nMemoryVotes, govobj.fileVotes, govobj.mapVoteIndex⟩

def withVoteFile (file : CGovernanceObjectVoteFile) : CGovernanceObject :=
  {govobj with
    nMemoryVotes := file.nMemoryVotes
    fileVotes := file.listVotes
    mapVoteIndex := file.mapVoteIndex}

/-- The object with the fields of the base changed. -/
def withBase (base : Governance.CGovernanceObject) : CGovernanceObject :=
  {govobj with toCGovernanceObject := base}

/-- `CGovernanceObject::ProcessVote`. -/
def processVote (fRateChecksEnabled : Bool) (nNow : ℤ) (vote : CGovernanceVote) :
    (Bool × CGovernanceException) × CGovernanceObject :=
  if govobj.voteFile.hasVote (env.getHash vote) then
    ((false, {}), govobj)
  else
    match env.getMNByCollateral vote.masternodeOutpoint with
    | none => ((false, ⟨.PERMANENT_ERROR, 20⟩), govobj)
    | some _ =>
      let withRecord := govobj.withBase (govobj.emplaceRecord vote.masternodeOutpoint)
      if vote.nVoteSignal = VOTE_SIGNAL_NONE then
        ((false, ⟨.WARNING, 0⟩), withRecord)
      else if vote.nVoteSignal < VOTE_SIGNAL_NONE || VOTE_SIGNAL_UNKNOWN ≤ vote.nVoteSignal then
        ((false, ⟨.PERMANENT_ERROR, 20⟩), withRecord)
      else
        let voteInstance := govobj.instanceOf vote.masternodeOutpoint vote.nVoteSignal
        let withInstance := govobj.withBase
          (govobj.setInstance vote.masternodeOutpoint vote.nVoteSignal voteInstance)
        if Governance.CGovernanceObject.obsolete voteInstance vote then
          ((false, {}), withInstance)
        else if fRateChecksEnabled && nNow-voteInstance.nTime < GOVERNANCE_UPDATE_MIN then
          ((false, ⟨.TEMPORARY_ERROR, 0⟩), withInstance)
        else if !vote.isValid env nNow (govobj.onlyVotingKeyAllowed vote) then
          ((false, ⟨.PERMANENT_ERROR, 20⟩), withInstance)
        else
          let nVoteTimeUpdate := if fRateChecksEnabled then nNow else voteInstance.nTime
          let voted := govobj.setInstance vote.masternodeOutpoint vote.nVoteSignal
            ⟨vote.nVoteOutcome, nVoteTimeUpdate, vote.nTime⟩
          ((true, {}), (govobj.withBase {voted with fDirtyCache := true}).withVoteFile
            (govobj.voteFile.addVote env vote))

/-- The record of a masternode that is gone. -/
def clearMasternode (outpoint : COutPoint) : CGovernanceObject :=
  (govobj.withBase {govobj.toCGovernanceObject with
      mapCurrentMNVotes := govobj.mapCurrentMNVotes.erase outpoint
      fDirtyCache := true}).withVoteFile
    (govobj.voteFile.removeVotesFromMasternode env outpoint)

def clearMasternodeVotes : CGovernanceObject :=
  (govobj.mapCurrentMNVotes.toList.filter fun record =>
    (env.getMNByCollateral record.1).isNone).foldl
      (fun govobj record => govobj.clearMasternode env record.1) govobj

/-- The vote that an instance is of, less its signature. -/
def tmpVote (outpoint : COutPoint) (eSignal : Int32) (voteInstance : vote_instance_t) :
    CGovernanceVote :=
  ⟨outpoint, govobj.hash, voteInstance.eOutcome, eSignal, voteInstance.nCreationTime, []⟩

def removeInvalidVotes (nNow : ℤ) (mnOutpoint : COutPoint) :
    List uint256 × CGovernanceObject :=
  match govobj.mapCurrentMNVotes[mnOutpoint]? with
  | none => ([], govobj)
  | some record =>
    let (removedVotes, file) := govobj.voteFile.removeInvalidVotes env nNow mnOutpoint
      (decide (govobj.type = .PROPOSAL))
    if removedVotes = [] then ([], govobj)
    else
      let mapInstances := record.filter fun eSignal voteInstance =>
        decide (env.getHash (govobj.tmpVote mnOutpoint eSignal voteInstance) ∉ removedVotes)
      let mapCurrentMNVotes :=
        if mapInstances.isEmpty then govobj.mapCurrentMNVotes.erase mnOutpoint
        else govobj.mapCurrentMNVotes.insert mnOutpoint mapInstances
      (removedVotes, (govobj.withBase {govobj.toCGovernanceObject with
        mapCurrentMNVotes := mapCurrentMNVotes
        fDirtyCache := true}).withVoteFile file)

def prepareDeletion (nDeletionTime : ℤ) : CGovernanceObject :=
  govobj.withBase {govobj.toCGovernanceObject with
    fCachedDelete := true
    nDeletionTime := if govobj.nDeletionTime = 0 then nDeletionTime else govobj.nDeletionTime}

def setExpired : CGovernanceObject :=
  govobj.withBase {govobj.toCGovernanceObject with fExpired := true}

def updateSentinelVariables (time : ℤ) : CGovernanceObject :=
  govobj.withBase (govobj.toCGovernanceObject.updateSentinelVariables env nGovernanceMinQuorum time)

/-- What is read back from the disk. -/
def reload : CGovernanceObject :=
  let stored : CGovernanceObject :=
    { type := govobj.type
      hash := govobj.hash
      nDeletionTime := govobj.nDeletionTime
      fExpired := govobj.fExpired
      mapCurrentMNVotes := govobj.mapCurrentMNVotes }
  stored.withVoteFile (govobj.voteFile.rebuildIndex env)

end CGovernanceObject

/-! ### Caches -/

section Caches
variable {K V : Type*} [DecidableEq K] (cmap : CacheMap K V)

def get (key : K) : Option V := (cmap.listItems.find? fun item => item.1 = key).map Prod.snd

def erase (key : K) : CacheMap K V :=
  {cmap with listItems := cmap.listItems.filter fun item => item.1 ≠ key}

end Caches

/-! ### The manager -/

def MAX_CACHE_SIZE : ℕ := 1000000

def GOVERNANCE_DELETION_DELAY : ℤ := 10*60

/-- An object stands in the index by its hash. -/
structure CGovernanceManager (G : Type*) where
  mapObjects : ExtTreeMap uint256 CGovernanceObject := ∅
  mapTrigger : ExtTreeMap uint256 CSuperblock := ∅
  cmapVoteToObject : CacheMap uint256 uint256 := ⟨MAX_CACHE_SIZE, []⟩
  cmapInvalidVotes : CacheMap uint256 CGovernanceVote := ⟨MAX_CACHE_SIZE, []⟩
  cmmapOrphanVotes : OrphanVotes := ⟨MAX_CACHE_SIZE, []⟩
  lastMNListForVotingKeys : CDeterministicMNList G := {}
  fRateChecksEnabled : Bool := true

/-- The network, and what its objects say. -/
structure StoreParams (G : Type*) where
  /-- The hash and the checks of votes. -/
  checks : VoteChecks G
  network : Network
  superblockParams : SuperblockParams
  nGovernanceMinQuorum : ℤ
  /-- The constructor of a superblock from the data of its trigger, where it does not throw. -/
  superblock : uint256 → Option CSuperblock
  /-- `CProposalValidator` for the data of a proposal. -/
  validate : uint256 → Bool

/-- What a node knows when it takes a step. -/
structure StoreEnv (G : Type*) where
  clock : Clock
  tip_mn_list : CDeterministicMNList G
  nCachedBlockHeight : ℤ := 0
  isSynced : Bool := true
  isBlockchainSynced : Bool := true
  /-- `GetAndClearDirtyGovernanceObjectHashes`. -/
  vecDirtyHashes : List uint256 := []

variable (p : StoreParams G) (env : StoreEnv G)

/-- The checks with the masternodes at the tip. -/
def StoreParams.at : VoteChecks G := {p.checks with tip_mn_list := env.tip_mn_list}

/-- `CSuperblock::IsExpired`. -/
def isExpired (superblock : CSuperblock) (heightToTest : ℤ) : Bool :=
  let nSuperblockCycle : ℤ := p.superblockParams.nSuperblockCycle
  let nExpirationBlocks :=
    match superblock.nStatus with
    | .Executed => nSuperblockCycle
    | .Valid => min 576 nSuperblockCycle
    | _ => min 24 nSuperblockCycle
  let nExpirationBlock := superblock.nBlockHeight+nExpirationBlocks
  decide (nExpirationBlock < heightToTest) ||
    (decide (p.network ≠ .main) &&
      decide (heightToTest+nSuperblockCycle*2 < superblock.nBlockHeight))

namespace CGovernanceManager

variable (man : CGovernanceManager G)

def haveVoteForHash (nHash : uint256) : Bool :=
  match get man.cmapVoteToObject nHash with
  | none => false
  | some nHashGovobj =>
    match man.mapObjects[nHashGovobj]? with
    | none => false
    | some govobj => govobj.voteFile.hasVote nHash

def serializeVoteForHash (nHash : uint256) : Option CGovernanceVote :=
  (get man.cmapVoteToObject nHash).bind fun nHashGovobj =>
    man.mapObjects[nHashGovobj]?.bind fun govobj => govobj.voteFile.serializeVoteToStream nHash

/-- `CGovernanceManager::ProcessVote`. -/
def processVote (vote : CGovernanceVote) :
    (Bool × CGovernanceException) × CGovernanceManager G :=
  let nHashVote := p.checks.getHash vote
  let nHashGovobj := vote.nParentHash
  if man.cmapVoteToObject.hasKey nHashVote then
    ((false, {}), man)
  else if man.cmapInvalidVotes.hasKey nHashVote then
    ((false, ⟨.PERMANENT_ERROR, 20⟩), man)
  else
    match man.mapObjects[nHashGovobj]? with
    | none =>
      ((false, ⟨.WARNING, 0⟩), {man with
        cmmapOrphanVotes := (man.cmmapOrphanVotes.insert nHashGovobj
          (vote, env.clock.time+GOVERNANCE_ORPHAN_EXPIRATION_TIME)).2})
    | some govobj =>
      if govobj.fCachedDelete || govobj.fExpired then
        ((false, {}), man)
      else
        let ((fOk, exception), govobj') :=
          govobj.processVote (p.at env) man.fRateChecksEnabled env.clock.adjusted vote
        let man' := {man with mapObjects := man.mapObjects.insert nHashGovobj govobj'}
        if fOk then
          let (inserted, cmap) := man.cmapVoteToObject.insert nHashVote nHashGovobj
          ((inserted, exception), {man' with cmapVoteToObject := cmap})
        else if exception = ⟨.PERMANENT_ERROR, 20⟩ then
          ((false, exception), {man' with
            cmapInvalidVotes := (man.cmapInvalidVotes.insert nHashVote vote).2})
        else
          ((false, exception), man')

/-! #### Objects that come -/

/-- One orphan vote in `CheckOrphanVotes`, for which the rate checks are off. -/
def checkOrphanVote (nHash : uint256) (state : CGovernanceObject × OrphanVotes)
    (pairVote : vote_time_pair_t) : CGovernanceObject × OrphanVotes :=
  let (govobj, orphans) := state
  if pairVote.2 < env.clock.adjusted then
    (govobj, orphans.erase nHash pairVote)
  else
    let ((fOk, _), govobj') := govobj.processVote (p.at env) false env.clock.adjusted pairVote.1
    (govobj', if fOk then orphans.erase nHash pairVote else orphans)

def checkOrphanVotes (nHash : uint256) (govobj : CGovernanceObject) : CGovernanceManager G :=
  let (govobj', orphans) := (man.cmmapOrphanVotes.getAll nHash).foldl
    (checkOrphanVote p env nHash) (govobj, man.cmmapOrphanVotes)
  {man with
    mapObjects := man.mapObjects.insert nHash govobj'
    cmmapOrphanVotes := orphans}

/-- `AddNewTrigger`. -/
def addNewTrigger (nHash : uint256) : Bool × CGovernanceManager G :=
  if nHash ∈ man.mapTrigger then (false, man)
  else
    match p.superblock nHash with
    | none => (false, man)
    | some pSuperblock =>
      let pSuperblock := {pSuperblock with nStatus := .Valid}
      (!isExpired p pSuperblock env.nCachedBlockHeight,
        {man with mapTrigger := man.mapTrigger.insert nHash pSuperblock})

/-- An object that has not been voted on. -/
def newObject (nHash : uint256) (type : GovernanceObject) : CGovernanceObject :=
  ({type := type, hash := nHash} : CGovernanceObject).updateSentinelVariables (p.at env)
    p.nGovernanceMinQuorum env.clock.time

/-- `AddGovernanceObjectInternal`. -/
def addGovernanceObject (nHash : uint256) (type : GovernanceObject) (isValidLocally : Bool) :
    CGovernanceManager G :=
  if isValidLocally = false ∨ nHash ∈ man.mapObjects then man
  else
    let govobj := newObject p env nHash type
    if type = .TRIGGER then
      let (added, man) := man.addNewTrigger p env nHash
      if added then man.checkOrphanVotes p env nHash govobj
      else
        {man with mapObjects :=
          man.mapObjects.insert nHash (govobj.prepareDeletion env.clock.time)}
    else
      man.checkOrphanVotes p env nHash govobj

/-! #### Objects and votes that go -/

def clearMasternodeVotes (nHash : uint256) : CGovernanceManager G :=
  match man.mapObjects[nHash]? with
  | none => man
  | some govobj =>
    {man with mapObjects :=
      man.mapObjects.insert nHash (govobj.clearMasternodeVotes (p.at env))}

/-- One turn of the loop of `CleanAndRemoveTriggers`. -/
def cleanTrigger (man : CGovernanceManager G) (trigger : uint256 × CSuperblock) :
    CGovernanceManager G :=
  match man.mapObjects[trigger.1]? with
  | none => {man with mapTrigger := man.mapTrigger.erase trigger.1}
  | some pObj =>
    let invalid := decide (pObj.type ≠ .TRIGGER ∨
      trigger.2.nStatus = .ErrorInvalid ∨ trigger.2.nStatus = .Unknown)
    if invalid then
      {man with
        mapTrigger := man.mapTrigger.erase trigger.1
        mapObjects := man.mapObjects.insert trigger.1 (pObj.prepareDeletion env.clock.time)}
    else if isExpired p trigger.2 env.nCachedBlockHeight then
      {man with
        mapTrigger := man.mapTrigger.erase trigger.1
        mapObjects := man.mapObjects.insert trigger.1
          (pObj.setExpired.prepareDeletion env.clock.time)}
    else man

def cleanAndRemoveTriggers : CGovernanceManager G :=
  man.mapTrigger.toList.foldl (cleanTrigger p env) man

/-- One turn of the loop over the objects in `CheckAndRemove`. -/
def checkObject (man : CGovernanceManager G) (nHash : uint256) : CGovernanceManager G :=
  match man.mapObjects[nHash]? with
  | none => man
  | some pObj =>
    let pObj :=
      if pObj.fDirtyCache then
        pObj.updateSentinelVariables (p.at env) p.nGovernanceMinQuorum env.clock.time
      else pObj
    if (pObj.fCachedDelete || pObj.fExpired) &&
        decide (GOVERNANCE_DELETION_DELAY ≤ env.clock.time-pObj.nDeletionTime) then
      {man with
        cmapVoteToObject := {man.cmapVoteToObject with
          listItems := man.cmapVoteToObject.listItems.filter fun item => item.2 ≠ nHash}
        mapObjects := man.mapObjects.erase nHash}
    else
      let pObj :=
        if pObj.type = .PROPOSAL ∧ p.validate nHash = false then
          pObj.prepareDeletion env.clock.time
        else pObj
      {man with mapObjects := man.mapObjects.insert nHash pObj}

def checkAndRemove : CGovernanceManager G :=
  if env.isBlockchainSynced = false then man
  else
    let cleared := env.vecDirtyHashes.foldl
      (fun man nHash => man.clearMasternodeVotes p env nHash) man
    let cleaned := cleared.cleanAndRemoveTriggers p env
    cleaned.mapObjects.keys.foldl (checkObject p env) cleaned

/-- The masternodes of which the voting or the operator key changed, or that are gone. -/
def changedKeyMNs [DecidableEq G] : List COutPoint :=
  let diff := man.lastMNListForVotingKeys.buildDiff p.checks.codec env.tip_mn_list
  let changed (update : UInt64 × CDeterministicMNStateDiff G) : Option COutPoint :=
    (man.lastMNListForVotingKeys.getMNByInternalId update.1).bind fun oldDmn =>
      if (Field.keyIDVoting ∈ update.2.fields ∧
          Field.keyIDVoting.differs p.checks.codec update.2.state oldDmn.pdmnState = true) ∨
        (Field.pubKeyOperator ∈ update.2.fields ∧
          Field.pubKeyOperator.differs p.checks.codec update.2.state oldDmn.pdmnState = true) then
        some oldDmn.collateralOutpoint
      else none
  diff.updatedMNs.filterMap changed ++
    diff.removedMns.toList.filterMap fun id =>
      (man.lastMNListForVotingKeys.getMNByInternalId id).map CDeterministicMN.collateralOutpoint

/-- One turn of the inner loop of `RemoveInvalidVotes`. -/
def removeInvalidVotesOf (outpoint : COutPoint) (man : CGovernanceManager G) (nHash : uint256) :
    CGovernanceManager G :=
  match man.mapObjects[nHash]? with
  | none => man
  | some govobj =>
    let (removed, govobj) := govobj.removeInvalidVotes (p.at env) env.clock.adjusted outpoint
    {man with
      mapObjects := man.mapObjects.insert nHash govobj
      cmapVoteToObject := removed.foldl erase man.cmapVoteToObject
      cmapInvalidVotes := removed.foldl erase man.cmapInvalidVotes
      cmmapOrphanVotes := {man.cmmapOrphanVotes with
        listItems := man.cmmapOrphanVotes.listItems.filter fun item => item.1 ∉ removed}}

def removeInvalidVotes [DecidableEq G] : CGovernanceManager G :=
  if env.isSynced = false then man
  else
    let cleared := (man.changedKeyMNs p env).foldl (fun man outpoint =>
      man.mapObjects.keys.foldl (removeInvalidVotesOf p env outpoint) man) man
    {cleared with lastMNListForVotingKeys := env.tip_mn_list}

/-- `CleanOrphanObjects`. -/
def cleanOrphanObjects : CGovernanceManager G :=
  let expired := man.cmmapOrphanVotes.listItems.filter fun item =>
    decide (item.2.2 < env.clock.time)
  let orphans := expired.foldl (fun orphans item => orphans.erase item.1 item.2)
    man.cmmapOrphanVotes
  {man with cmmapOrphanVotes := orphans}

/-! #### Restarts -/

/-- The votes of all objects, each with its object. -/
def votesOfObjects (mapObjects : ExtTreeMap uint256 CGovernanceObject) :
    List (uint256 × uint256) :=
  mapObjects.toList.flatMap fun object =>
    object.2.fileVotes.map fun vote => (p.checks.getHash vote, object.1)

def rebuildIndexes : CGovernanceManager G :=
  let cleared : CacheMap uint256 uint256 := ⟨man.cmapVoteToObject.nMaxSize, []⟩
  let rebuilt := (votesOfObjects p man.mapObjects).foldl
    (fun cmap item => (cmap.insert item.1 item.2).2) cleared
  {man with cmapVoteToObject := rebuilt}

/-- One turn of the loop of `AddCachedTriggers`. -/
def addCachedTrigger (man : CGovernanceManager G) (nHash : uint256) : CGovernanceManager G :=
  match man.mapObjects[nHash]? with
  | none => man
  | some govobj =>
    if govobj.type ≠ .TRIGGER then man
    else
      let (added, man) := man.addNewTrigger p env nHash
      if added then man
      else
        {man with mapObjects :=
          man.mapObjects.insert nHash (govobj.prepareDeletion env.clock.time)}

def initOnLoad : CGovernanceManager G :=
  let rebuilt := man.rebuildIndexes p
  rebuilt.mapObjects.keys.foldl (addCachedTrigger p env) rebuilt

/-- What a new process reads of what the last one stored. -/
def stored : CGovernanceManager G :=
  { mapObjects := man.mapObjects.map fun _ govobj => govobj.reload p.checks
    cmapInvalidVotes := man.cmapInvalidVotes
    cmmapOrphanVotes := man.cmmapOrphanVotes
    lastMNListForVotingKeys := man.lastMNListForVotingKeys }

/-- `LoadCache` after the last process has stored. -/
def restart : CGovernanceManager G := ((man.stored p).checkAndRemove p env).initOnLoad p env

end CGovernanceManager

inductive Operation
  | ProcessVote (vote : CGovernanceVote)
  | AddGovernanceObject (nHash : uint256) (type : GovernanceObject) (isValidLocally : Bool)
  | RemoveInvalidVotes
  | ClearMasternodeVotes (nHash : uint256)
  | CheckAndRemove
  | CleanOrphanObjects
  | Restart

/-- A step, and whether a vote has been accepted. -/
def step [DecidableEq G] (man : CGovernanceManager G) (operation : StoreEnv G × Operation) :
    Bool × CGovernanceManager G :=
  let (env, operation) := operation
  match operation with
  | .ProcessVote vote =>
    let ((fOk, _), man) := man.processVote p env vote
    (fOk, man)
  | .AddGovernanceObject nHash type isValidLocally =>
    (false, man.addGovernanceObject p env nHash type isValidLocally)
  | .RemoveInvalidVotes => (false, man.removeInvalidVotes p env)
  | .ClearMasternodeVotes nHash => (false, man.clearMasternodeVotes p env nHash)
  | .CheckAndRemove => (false, man.checkAndRemove p env)
  | .CleanOrphanObjects => (false, man.cleanOrphanObjects env)
  | .Restart => (false, man.restart p env)

end BabaChain.Governance.Store
