import BabaChain.BatchVerifier
import BabaChain.Quorums

/-! `CInstantSendManager::ProcessPendingInstantSendLocks`: pending locks are
verified in two passes, and those not found bad are processed. -/
namespace BabaChain.InstantSend
open Std BLS LLMQ

abbrev NodeId := ℤ

/-- An InstantSend lock. A signature that does not decode is `none`. -/
structure InstantSendLock (Sig : Type*) where
  inputs : List COutPoint
  txid : uint256
  cycleHash : uint256
  sig : Option Sig
deriving DecidableEq

/-- An entry of the map of pending locks: the hash of a lock, the peer it came
from and the lock. -/
structure Pending (Sig : Type*) where
  hash : uint256
  nodeId : NodeId
  islock : InstantSendLock Sig
deriving DecidableEq

/-- The map of pending locks, in the order of its iteration. -/
structure PendingLocks (Sig : Type*) where
  locks : List (Pending Sig)
  nodup : (locks.map Pending.hash).Nodup

structure CQuorum (PK : Type*) where
  quorumHash : uint256
  quorumPublicKey : PK

/-- `InstantSendLock::GetRequestId` of the inputs, and `SignHash::Get`. -/
structure Hashes where
  getRequestId : List COutPoint → uint256
  signHash : LLMQType → uint256 → uint256 → uint256 → uint256

/-- What one pass asks the signing manager, the chain and the quorum manager. The
last question is asked again when a lock has been processed. -/
structure Env (PK : Type*) where
  hasRecoveredSig : LLMQType → uint256 → uint256 → Bool
  hasRecoveredSigForId : LLMQType → uint256 → Bool
  lookupBlockIndex : uint256 → Option ℤ
  chainHeight : ℤ
  selectQuorumForSigning : uint256 → ℤ → ℤ → Option (CQuorum PK)
  getQuorum : uint256 → Option (CQuorum PK)
  hasRecoveredSigForIdAfter : LLMQType → uint256 → Bool

structure CRecoveredSig (Sig : Type*) where
  llmqType : LLMQType
  quorumHash : uint256
  id : uint256
  msgHash : uint256
  sig : Sig

/-- What a pass does to the outside. -/
inductive Activity (Sig : Type*) where
  | misbehaving (nodeId : NodeId) (score : ℕ)
  | processInstantSendLock (p : Pending Sig)
  | pushReconstructedRecoveredSig (recSig : CRecoveredSig Sig)

variable {Sig PK : Type*}

abbrev Verifier (Sig PK : Type*) := CBLSBatchVerifier NodeId uint256 Sig PK

/-- The variables of a pass. -/
structure Checks (Sig PK : Type*) where
  batchVerifier : Verifier Sig PK := {
    secureVerification := false
    perMessageFallback := true
    subBatchSize := 8 }
  recSigs : ExtTreeMap uint256 (CRecoveredSig Sig) := ∅

/-- What one pass is given: the BLS and hash functions, the state it reads, the
parameters of the quorum type and the offset of the quorums. -/
structure Pass (Sig PK : Type*) where
  scheme : Scheme Sig PK
  hashes : Hashes
  env : Env PK
  llmq_params : LLMQParams
  signOffset : ℤ

namespace Pass

variable (c : Pass Sig PK)

def nSignHeight (blockHeight : ℤ) : ℤ :=
  if blockHeight+c.llmq_params.dkgInterval < c.env.chainHeight then
    blockHeight+c.llmq_params.dkgInterval-1
  else
    -1

def requestId (p : Pending Sig) : uint256 := c.hashes.getRequestId p.islock.inputs

/-- The quorum for a lock whose cycle starts at a block of the given height. -/
def quorumAt (p : Pending Sig) (blockHeight : ℤ) : Option (CQuorum PK) :=
  if c.llmq_params.useRotation then
    c.env.selectQuorumForSigning (c.requestId p) (c.nSignHeight blockHeight) c.signOffset
  else
    c.env.getQuorum p.islock.cycleHash

/-- The message that stands for a lock in the verifier. -/
def lockMessage (p : Pending Sig) (sig : Sig) (quorum : CQuorum PK) : Message uint256 Sig PK where
  msgId := p.hash
  msgHash := c.hashes.signHash c.llmq_params.type quorum.quorumHash (c.requestId p) p.islock.txid
  sig := sig
  pubKey := quorum.quorumPublicKey

def refuse (st : Checks Sig PK) (nodeId : NodeId) : Checks Sig PK :=
  {st with batchVerifier := {st.batchVerifier with
    badSources := st.batchVerifier.badSources.insert nodeId}}

def push (st : Checks Sig PK) (p : Pending Sig) (sig : Sig) (quorum : CQuorum PK) :
    Checks Sig PK where
  batchVerifier :=
    st.batchVerifier.pushMessage c.scheme p.nodeId (c.lockMessage p sig quorum)
  recSigs :=
    if c.env.hasRecoveredSigForId c.llmq_params.type (c.requestId p) then
      st.recSigs
    else
      st.recSigs.insertIfNew p.hash
        ⟨c.llmq_params.type, quorum.quorumHash, c.requestId p, p.islock.txid, sig⟩

def alreadyRecovered (p : Pending Sig) : Bool :=
  c.env.hasRecoveredSig c.llmq_params.type (c.requestId p) p.islock.txid

/-- One turn of the first loop; `none` leaves the function. -/
def checkLock (st : Checks Sig PK) (p : Pending Sig) : Option (Checks Sig PK) :=
  if p.nodeId ∈ st.batchVerifier.badSources then
    some st
  else
    match p.islock.sig with
    | none => some (refuse st p.nodeId)
    | some sig =>
      -- a recovered signature of this transaction stands for the check
      if c.alreadyRecovered p then
        some st
      else
        match c.env.lookupBlockIndex p.islock.cycleHash with
        | none => some (refuse st p.nodeId)
        | some blockHeight =>
          match c.quorumAt p blockHeight with
          -- `return {}`: the locks that were already taken are lost
          | none => none
          | some quorum => some (c.push st p sig quorum)

def checkLocks (st : Checks Sig PK) : List (Pending Sig) → Option (Checks Sig PK)
  | [] => some st
  | p :: pend => (c.checkLock st p).bind fun st => checkLocks st pend

/-- What follows the processing of a lock. -/
def offerRecoveredSig (st : Checks Sig PK) (p : Pending Sig) : List (Activity Sig) :=
  match st.recSigs[p.hash]? with
  | none => []
  | some recSig =>
    if c.env.hasRecoveredSigForIdAfter c.llmq_params.type recSig.id then
      []
    else
      [.pushReconstructedRecoveredSig recSig]

/-- The second loop: the locks found bad, and what is done with the others. -/
def settleLocks (st : Checks Sig PK) : List (Pending Sig) → List uint256 × List (Activity Sig)
  | [] => ([], [])
  | p :: pend =>
    let (badISLocks, activity) := settleLocks st pend
    if p.hash ∈ st.batchVerifier.badMessages then
      (p.hash :: badISLocks, activity)
    else
      (badISLocks, .processInstantSendLock p :: (c.offerRecoveredSig st p++activity))

/-- One pass over the pending locks. -/
def process (ban : Bool) (pend : List (Pending Sig)) : List uint256 × List (Activity Sig) :=
  match c.checkLocks {} pend with
  | none => ([], [])
  | some st =>
    let st := {st with batchVerifier := st.batchVerifier.verify c.scheme}
    let banned := if ban then
      st.batchVerifier.badSources.toList.map fun nodeId => Activity.misbehaving nodeId 20 else []
    let (badISLocks, activity) := c.settleLocks st pend
    (badISLocks, banned++activity)

end Pass

/-- What one call is given: the two passes read the state one after the other. -/
structure Call (Sig PK : Type*) where
  scheme : Scheme Sig PK
  hashes : Hashes
  llmq_params : LLMQParams
  env₀ : Env PK
  env₁ : Env PK

namespace Call

variable (m : Call Sig PK)

/-- The check against the current quorums. -/
def current : Pass Sig PK := ⟨m.scheme, m.hashes, m.env₀, m.llmq_params, 0⟩

/-- The check against the previous quorums. -/
def previous : Pass Sig PK :=
  ⟨m.scheme, m.hashes, m.env₁, m.llmq_params, m.llmq_params.dkgInterval⟩

/-- The activity of the two passes: the second is for the locks found bad in the
first, and bans. -/
def processBatch (pend : List (Pending Sig)) : List (Activity Sig) × List (Activity Sig) :=
  let (badISLocks, activity) := m.current.process false pend
  if badISLocks.isEmpty then
    (activity, [])
  else
    (activity, (m.previous.process true (pend.filter fun p => p.hash ∈ badISLocks)).2)

end Call

/-- The order in which a new hash map iterates over what was put into it. -/
structure IterationOrder (Sig : Type*) where
  order : List (Pending Sig) → List (Pending Sig)
  perm : ∀ pend, (order pend).Perm pend

structure PendingState (Sig : Type*) where
  pendingInstantSendLocks : List (Pending Sig)
  pending_work : Bool := false
  peer_activity : List (Activity Sig) × List (Activity Sig) := ([], [])

/-- At most 32 locks are taken from the map at a time. -/
def maxCount : ℕ := 32

def Call.processPendingInstantSendLocks (m : Call Sig PK) (enabled : Bool)
    (iteration : IterationOrder Sig) (pending : PendingLocks Sig) : PendingState Sig :=
  if enabled then
    let pend := iteration.order (pending.locks.take maxCount)
    let rest := pending.locks.drop maxCount
    if pend.isEmpty then
      {pendingInstantSendLocks := rest}
    else
      { pendingInstantSendLocks := rest
        pending_work := !rest.isEmpty
        peer_activity := m.processBatch pend }
  else
    {pendingInstantSendLocks := pending.locks}

end BabaChain.InstantSend
