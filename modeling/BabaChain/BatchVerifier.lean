import BabaChain.Primitives
import BabaChain.Lib.Grouping

/-! `CBLSBatchVerifier`: signatures checked together, and one by one on failure. -/
namespace BabaChain.BLS
open Std

/-- The BLS functions the verifier calls. A key aggregated from no keys, or whose
aggregation fails, is not valid. -/
structure Scheme (Sig PK : Type*) where
  verifyInsecure : PK → uint256 → Sig → Bool
  aggregatePublicKeys : List PK → Option PK
  verifyInsecureAggregated : List Sig → List PK → List uint256 → Bool

structure Message (MessageId Sig PK : Type*) where
  msgId : MessageId
  msgHash : uint256
  sig : Sig
  pubKey : PK

/-- An iterator into `messages` is the message itself: a message is never changed
while iterators to it exist. -/
structure CBLSBatchVerifier (SourceId MessageId Sig PK : Type*) [Ord SourceId] [Ord MessageId] where
  secureVerification : Bool
  perMessageFallback : Bool
  subBatchSize : ℕ
  messages : ExtTreeMap MessageId (Message MessageId Sig PK) := ∅
  messagesBySource : ExtTreeMap SourceId (List (Message MessageId Sig PK)) := ∅
  badSources : ExtTreeSet SourceId := ∅
  badMessages : ExtTreeSet MessageId := ∅

variable {SourceId MessageId Sig PK : Type*} (scheme : Scheme Sig PK)

section Batches
variable [DecidableEq MessageId]

/-- The messages of one hash that no earlier one has the id of. -/
def newMessages : List (Message MessageId Sig PK) → List MessageId →
    List (Message MessageId Sig PK) × List MessageId
  | [], dups => ([], dups)
  | msg :: rest, dups =>
    if msg.msgId ∈ dups then
      newMessages rest dups
    else
      let (new, dups) := newMessages rest (msg.msgId :: dups)
      (msg :: new, dups)

def newByHash : List (uint256 × List (Message MessageId Sig PK)) → List MessageId →
    List (uint256 × List (Message MessageId Sig PK))
  | [], _ => []
  | (msgHash, msgs) :: rest, dups =>
    let (new, dups) := newMessages msgs dups
    (msgHash, new) :: newByHash rest dups

/-- The keys of one hash are aggregated; a hash with duplicates only is skipped. -/
def verifyBatchInsecure (byMessageHash : List (uint256 × List (Message MessageId Sig PK))) : Bool :=
  let groups := newByHash byMessageHash []
  let sigsToAggregate := groups.flatMap fun group => group.2.map Message.sig
  let checks := groups.filterMap fun group =>
    (scheme.aggregatePublicKeys (group.2.map Message.pubKey)).map fun aggPubKey =>
      (group.1, aggPubKey)
  if checks.isEmpty then
    true
  else
    scheme.verifyInsecureAggregated sigsToAggregate (checks.map Prod.snd) (checks.map Prod.fst)

/-- The last message of every hash whose id is new in this step. -/
def lastMessages : List (uint256 × List (Message MessageId Sig PK)) → List MessageId →
    List (uint256 × Message MessageId Sig PK)
  | [], _ => []
  | (msgHash, msgs) :: rest, dups =>
    match msgs.getLast? with
    | none => lastMessages rest dups
    | some msg =>
      -- its id stands under an earlier hash too: it is popped without a check
      if msg.msgId ∈ dups then
        lastMessages rest dups
      else
        (msgHash, msg) :: lastMessages rest (msg.msgId :: dups)

def verifyBatchSecureStep (byMessageHash : List (uint256 × List (Message MessageId Sig PK))) :
    Bool :=
  let last := lastMessages byMessageHash []
  scheme.verifyInsecureAggregated (last.map fun m => m.2.sig) (last.map fun m => m.2.pubKey)
    (last.map Prod.fst)

/-- Every step takes one message from every hash, so the number of messages
bounds the number of steps. -/
def verifyBatchSecure : ℕ → List (uint256 × List (Message MessageId Sig PK)) → Bool
  | 0, _ => true
  | fuel+1, byMessageHash =>
    if byMessageHash.isEmpty then
      true
    else
      verifyBatchSecureStep scheme byMessageHash &&
        verifyBatchSecure fuel ((byMessageHash.map fun group =>
          (group.1, group.2.dropLast)).filter fun group => !group.2.isEmpty)

def verifyBatch (secureVerification : Bool) (msgs : List (Message MessageId Sig PK)) : Bool :=
  let byMessageHash := (Grouping.group Message.msgHash id msgs).toList
  if secureVerification then
    verifyBatchSecure scheme msgs.length byMessageHash
  else
    verifyBatchInsecure scheme byMessageHash

end Batches

namespace CBLSBatchVerifier

variable [Ord SourceId] [TransOrd SourceId] [Ord MessageId] [TransOrd MessageId]
  [DecidableEq MessageId]

/-- One message of a source whose batch failed. -/
def verifyMessage (bv : CBLSBatchVerifier SourceId MessageId Sig PK)
    (msg : Message MessageId Sig PK) : CBLSBatchVerifier SourceId MessageId Sig PK :=
  if msg.msgId ∈ bv.badMessages then
    bv
  else if scheme.verifyInsecure msg.pubKey msg.msgHash msg.sig then
    bv
  else
    {bv with badMessages := bv.badMessages.insert msg.msgId}

def fallback (bv : CBLSBatchVerifier SourceId MessageId Sig PK)
    (msgs : List (Message MessageId Sig PK)) : CBLSBatchVerifier SourceId MessageId Sig PK :=
  if bv.perMessageFallback then
    match msgs with
    -- no need to verify a single message again
    | [msg] => {bv with badMessages := bv.badMessages.insert msg.msgId}
    | msgs => msgs.foldl (verifyMessage scheme) bv
  else
    bv

def verifySource (bv : CBLSBatchVerifier SourceId MessageId Sig PK)
    (p : SourceId × List (Message MessageId Sig PK)) :
    CBLSBatchVerifier SourceId MessageId Sig PK :=
  -- a single source has just been verified with the full batch
  if bv.messagesBySource.size ≠ 1 ∧ verifyBatch scheme bv.secureVerification p.2 = true then
    bv
  else
    fallback scheme {bv with badSources := bv.badSources.insert p.1} p.2

def verify (bv : CBLSBatchVerifier SourceId MessageId Sig PK) :
    CBLSBatchVerifier SourceId MessageId Sig PK :=
  if verifyBatch scheme bv.secureVerification (bv.messages.toList.map Prod.snd) then
    bv
  else
    bv.messagesBySource.toList.foldl (verifySource scheme) bv

def clearMessages (bv : CBLSBatchVerifier SourceId MessageId Sig PK) :
    CBLSBatchVerifier SourceId MessageId Sig PK :=
  {bv with messages := ∅, messagesBySource := ∅}

/-- `messages.emplace` keeps the message that is there. -/
def addMessage (bv : CBLSBatchVerifier SourceId MessageId Sig PK) (sourceId : SourceId)
    (msg : Message MessageId Sig PK) : CBLSBatchVerifier SourceId MessageId Sig PK :=
  let messages := bv.messages.insertIfNew msg.msgId msg
  let it := messages.getD msg.msgId msg
  {bv with
    messages := messages
    messagesBySource := bv.messagesBySource.insert sourceId
      (bv.messagesBySource.getD sourceId []++[it])}

def pushMessage (bv : CBLSBatchVerifier SourceId MessageId Sig PK) (sourceId : SourceId)
    (msg : Message MessageId Sig PK) : CBLSBatchVerifier SourceId MessageId Sig PK :=
  let bv := addMessage bv sourceId msg
  if bv.subBatchSize ≠ 0 ∧ bv.subBatchSize ≤ bv.messages.size then
    clearMessages (verify scheme bv)
  else
    bv

end CBLSBatchVerifier

end BabaChain.BLS
