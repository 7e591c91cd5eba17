import BabaChain.Primitives
import BabaChain.Lib.LruCache
import BabaChain.Lib.MachineInt
import BabaChain.Lib.OrdMap

/-! The version bits that masternodes have signalled on a chain, gathered block by
block through a cache and a database. -/
namespace BabaChain.MNHF
open ByteReader MachineInt OrdMap
open Std (ExtTreeMap)

def VERSIONBITS_NUM_BITS : ℕ := 29

def TRANSACTION_MNHF_SIGNAL : BitVec 16 := 7

/-- The fields of `BIP9Deployment` that a signal is held against. -/
structure BIP9Deployment where
  bit : ℤ
  nStartTime : ℤ
  nTimeout : ℤ
  useEHF : Bool
deriving DecidableEq

structure Consensus where
  V20Height : ℤ
  MN_RRHeight : ℤ
  vDeployments : List BIP9Deployment
deriving DecidableEq

/-- A transaction together with its version. -/
structure CTransaction extends BabaChain.CTransaction where
  nVersion : SInt 16
deriving DecidableEq

def CTransaction.isSpecialTxVersion (tx : CTransaction) : Bool := decide (3 ≤ (tx.nVersion : ℤ))

structure CBlock where
  hash : uint256
  nTime : BitVec 32
  vtx : List CTransaction
deriving DecidableEq

/-- A `CBlockIndex` pointer: the block and its ancestors, newest first. The null
pointer is the empty list. -/
abbrev CBlockIndex := List CBlock

def nHeight (pindex : CBlockIndex) : ℤ := (pindex.length : ℤ)-1

def getAncestor (pindex : CBlockIndex) (height : ℤ) : Option CBlockIndex :=
  if nHeight pindex < height ∨ height < 0 then
    none
  else
    some (pindex.drop (nHeight pindex-height).toNat)

def nMedianTimeSpan : ℕ := 11

def getMedianTimePast (pindex : CBlockIndex) : ℤ :=
  let pmedian : List ℤ := (pindex.take nMedianTimeSpan).map fun block => block.nTime.toNat
  (pmedian.insertionSort (· ≤ ·)).getD (pmedian.length/2) 0

/-- The null pointer stands for height -1, so the next block has height 0. -/
def deploymentActiveAfter (pindexPrev : CBlockIndex) (height : ℤ) : Bool :=
  decide (height ≤ nHeight pindexPrev+1)

def deploymentActiveAt (pindex : CBlockIndex) (height : ℤ) : Bool :=
  decide (height ≤ nHeight pindex)

/-- How a call ends without returning: an assertion stops the node, an exception
goes to the caller. -/
inductive Failure where
  | assertion
  | exception (what : String)
deriving DecidableEq

/-- The deployments of one bit, up to the first that is within its time range. -/
def activationIn (nBit : UInt8) (timePast : ℤ) : List BIP9Deployment → Bool
  | [] => true
  | deployment :: rest =>
    if deployment.bit = nBit.toNat then
      if deployment.nTimeout < timePast ∨ timePast < deployment.nStartTime then
        activationIn nBit timePast rest
      else
        deployment.useEHF
    else
      activationIn nBit timePast rest

def isValidMNActivation (p : Consensus) (nBit : UInt8) (timePast : ℤ) : Except Failure Bool :=
  if nBit.toNat < VERSIONBITS_NUM_BITS then
    .ok (activationIn nBit timePast p.vDeployments)
  else
    .error .assertion

structure MNHFTx (Sig : Type) where
  versionBit : UInt8
  quorumHash : uint256
  sig : Sig
deriving DecidableEq

structure MNHFTxPayload (Sig : Type) where
  nVersion : UInt8
  signal : MNHFTx Sig
deriving DecidableEq

/-- The encodings and hashes that signals go through. The transaction hash is the
one with the given payload, without a signature, in place of its own. -/
structure Encoding (Sig : Type) where
  readSignature : Reader Sig
  getRequestId : UInt8 → uint256
  getHashUnsigned : CTransaction → MNHFTxPayload Sig → uint256
  signHash : uint256 → uint256 → uint256 → uint256

structure CQuorum (PK : Type) where
  quorumHash : uint256
  quorumPublicKey : PK

/-- What a call finds in the block index, among the quorums of the signalling
type, and on disk. -/
structure Node (Sig PK : Type) where
  lookupBlockIndex : uint256 → Option CBlockIndex
  getQuorum : uint256 → Option (CQuorum PK)
  verifyInsecure : Sig → PK → uint256 → Bool
  canReadBlock : CBlockIndex → Bool

section Transactions
variable {Sig PK : Type} (K : Encoding Sig) (p : Consensus) (node : Node Sig PK)

def readMNHFTxPayload : Reader (MNHFTxPayload Sig) := do
  let nVersion ← readUInt 1
  let versionBit ← readUInt 1
  let quorumHash ← readUint256
  let sig ← K.readSignature
  return ⟨UInt8.ofNat nVersion, UInt8.ofNat versionBit, quorumHash, sig⟩

/-- `GetTxPayload<MNHFTxPayload>`: nothing may follow the payload. -/
def getTxPayload (tx : CTransaction) : Option (MNHFTxPayload Sig) :=
  if tx.nType = TRANSACTION_MNHF_SIGNAL then
    match readMNHFTxPayload K tx.vExtraPayload with
    | some (obj, []) => some obj
    | _ => none
  else
    none

def MNHFTx.verify (signal : MNHFTx Sig) (quorumHash requestId msgHash : uint256) :
    Except String Unit :=
  if VERSIONBITS_NUM_BITS ≤ signal.versionBit.toNat then
    .error "bad-mnhf-nbit-out-of-bounds"
  else
    match node.getQuorum quorumHash with
    | none => .error "bad-mnhf-missing-quorum"
    | some quorum =>
      let signHash := K.signHash quorum.quorumHash requestId msgHash
      if node.verifyInsecure signal.sig quorum.quorumPublicKey signHash then
        .ok ()
      else
        .error "bad-mnhf-invalid"

/-- The quorum must have been mined on the chain, and have signed. -/
def checkQuorum (tx : CTransaction) (mnhfTx : MNHFTxPayload Sig) (pindexPrev : CBlockIndex) :
    Except String Unit :=
  match node.lookupBlockIndex mnhfTx.signal.quorumHash with
  | none => .error "bad-mnhf-quorum-hash"
  | some pindexQuorum =>
    if getAncestor pindexPrev (nHeight pindexQuorum) ≠ some pindexQuorum then
      .error "bad-mnhf-quorum-hash"
    else
      mnhfTx.signal.verify K node mnhfTx.signal.quorumHash
        (K.getRequestId mnhfTx.signal.versionBit) (K.getHashUnsigned tx mnhfTx)

def CTransaction.isSignal (tx : CTransaction) : Bool :=
  tx.isSpecialTxVersion && decide (tx.nType = TRANSACTION_MNHF_SIGNAL)

def checkMNHFTx (tx : CTransaction) (pindexPrev : CBlockIndex) :
    Except Failure (Except String Unit) :=
  if tx.isSignal = false then
    .ok (.error "bad-mnhf-type")
  else
    match getTxPayload K tx with
    | none => .ok (.error "bad-mnhf-payload")
    | some mnhfTx =>
      if mnhfTx.nVersion = 0 ∨ 1 < mnhfTx.nVersion then
        .ok (.error "bad-mnhf-version")
      else
        -- a bit out of range stops the node here, before `verify` could refuse it
        match isValidMNActivation p mnhfTx.signal.versionBit (getMedianTimePast pindexPrev) with
        | .error failure => .error failure
        | .ok false => .ok (.error "bad-mnhf-non-ehf")
        | .ok true => .ok (checkQuorum K node tx mnhfTx pindexPrev)

def extractEHFSignal (tx : CTransaction) : Option UInt8 :=
  if tx.isSignal = false then
    none
  else
    (getTxPayload K tx).map fun mnhfTx => mnhfTx.signal.versionBit

/-- The loop of `extractSignals` over the transactions after the coinbase. -/
def extractLoop (pindex : CBlockIndex) :
    List CTransaction → List UInt8 → Except Failure (Except String (List UInt8))
  | [], new_signals => .ok (.ok new_signals)
  | tx :: rest, new_signals =>
    if tx.isSignal = false then
      extractLoop pindex rest new_signals
    else
      match checkMNHFTx K p node tx pindex with
      | .error failure => .error failure
      | .ok (.error reason) => .ok (.error reason)
      | .ok (.ok ()) =>
        -- the check has decoded the payload, and it is decoded again here
        match getTxPayload K tx with
        | none => .ok (.error "bad-mnhf-tx-payload")
        | some mnhfTx =>
          if mnhfTx.signal.versionBit ∈ new_signals then
            .ok (.error "bad-mnhf-duplicates-in-block")
          else
            extractLoop pindex rest (new_signals++[mnhfTx.signal.versionBit])

def extractSignals (block : CBlock) (pindex : CBlockIndex) :
    Except Failure (Except String (List UInt8)) :=
  extractLoop K p node pindex block.vtx.tail []

end Transactions

/-- A version bit and the height of the block that signalled it. -/
abbrev Signals := ExtTreeMap UInt8 ℤ

def MNHFCacheSize : ℕ := 1000

/-- The cache, and the two tables of the database. Nothing writes to the older
table any more. -/
structure CMNHFManager where
  mnhfCache : LruCache.Cache uint256 Signals := LruCache.create MNHFCacheSize
  dbSignals_v2 : uint256 → Option Signals := fun _ => none
  dbSignals : uint256 → Option Signals := fun _ => none

variable {Sig PK : Type} (K : Encoding Sig) (p : Consensus) (node : Node Sig PK)

/-- `GetFromCache`, for a block index whose hash is set. -/
def getFromCache (pindex : CBlockIndex) (man : CMNHFManager) : Option Signals × CMNHFManager :=
  match pindex with
  | [] => (some ∅, man)
  | block :: _ =>
    match LruCache.get man.mnhfCache block.hash with
    | (some signals, mnhfCache) => (some signals, {man with mnhfCache := mnhfCache})
    | (none, mnhfCache) =>
      let found := fun signals =>
        (some signals, {man with mnhfCache := LruCache.insert mnhfCache block.hash signals})
      if deploymentActiveAt pindex p.V20Height = false then
        found ∅
      else
        match man.dbSignals_v2 block.hash with
        | some signals => found signals
        | none =>
          -- the table from before the second fork is read up to that fork
          if deploymentActiveAt pindex p.MN_RRHeight = false then
            match man.dbSignals block.hash with
            | some signals => found signals
            | none => (none, {man with mnhfCache := mnhfCache})
          else
            (none, {man with mnhfCache := mnhfCache})

def addToCache (signals : Signals) (block : CBlock) (pprev : CBlockIndex) (man : CMNHFManager) :
    CMNHFManager :=
  let man := {man with mnhfCache := LruCache.insert man.mnhfCache block.hash signals}
  if deploymentActiveAt (block :: pprev) p.V20Height = false then
    man
  else
    {man with dbSignals_v2 := Function.update man.dbSignals_v2 block.hash (some signals)}

/-- A deployment that started after the block which signalled its bit is a new one. -/
def expired (signal_pindex : CBlockIndex) (bit : UInt8) : Bool :=
  p.vDeployments.any fun deployment =>
    decide (deployment.bit = bit.toNat ∧ getMedianTimePast signal_pindex < deployment.nStartTime)

/-- The loop of `GetSignalsStage` that leaves the expired signals out. -/
def dropExpired (pindexPrev : CBlockIndex) (signals_tmp : Signals) : Except Failure Signals :=
  if signals_tmp.toList.all fun signal => (getAncestor pindexPrev signal.2).isSome then
    .ok (signals_tmp.filter fun bit height =>
      match getAncestor pindexPrev height with
      | none => false
      | some signal_pindex => !expired p signal_pindex bit)
  else
    .error .assertion

/-- `GetSignalsStage`, given `GetForBlock` at the same block. -/
def signalsStage (forBlock : CMNHFManager → Except Failure Signals × CMNHFManager)
    (pindexPrev : CBlockIndex) (man : CMNHFManager) : Except Failure Signals × CMNHFManager :=
  if deploymentActiveAfter pindexPrev p.V20Height = false then
    (.ok ∅, man)
  else
    match forBlock man with
    | (.error failure, man) => (.error failure, man)
    | (.ok signals_tmp, man) =>
      if pindexPrev = [] then (.ok ∅, man) else (dropExpired p pindexPrev signals_tmp, man)

/-- The validation of the new signals in `ProcessBlock`. -/
def checkNewSignals (signals : Signals) (timePast : ℤ) :
    List UInt8 → Except Failure (Except String Unit)
  | [] => .ok (.ok ())
  | versionBit :: rest =>
    if versionBit ∈ signals then
      .ok (.error "bad-mnhf-duplicate")
    else
      match isValidMNActivation p versionBit timePast with
      | .error failure => .error failure
      | .ok false => .ok (.error "bad-mnhf-non-mn-fork")
      | .ok true => checkNewSignals signals timePast rest

/-- The handler of `ProcessBlock`: an exception refuses the block. -/
def caught : Failure → Except Failure (Except String Signals)
  | .assertion => .error .assertion
  | .exception _ => .ok (.error "failed-proc-mnhf-inblock")

def insertSignals (signals : Signals) (mined_height : ℤ) (new_signals : List UInt8) : Signals :=
  new_signals.foldl (fun signals versionBit => signals.insertIfNew versionBit mined_height) signals

/-- `ProcessBlock`, given `GetForBlock` at the previous block. A block that is
not accepted leaves its reject reason. -/
def processWith (forBlock : CMNHFManager → Except Failure Signals × CMNHFManager)
    (block : CBlock) (pprev : CBlockIndex) (fJustCheck : Bool) (man : CMNHFManager) :
    Except Failure (Except String Signals) × CMNHFManager :=
  match extractSignals K p node block (block :: pprev) with
  | .error failure => (caught failure, man)
  | .ok (.error reason) => (.ok (.error reason), man)
  | .ok (.ok new_signals) =>
    match signalsStage p forBlock pprev man with
    | (.error failure, man) => (caught failure, man)
    | (.ok signals, man) =>
      -- a block without signals hands on those of its parent
      if new_signals = [] then
        (.ok (.ok signals), if fJustCheck then man else addToCache p signals block pprev man)
      else
        match checkNewSignals p signals (getMedianTimePast (block :: pprev)) new_signals with
        | .error failure => (caught failure, man)
        | .ok (.error reason) => (.ok (.error reason), man)
        | .ok (.ok ()) =>
          -- a check returns the signals without those of the block
          if fJustCheck then
            (.ok (.ok signals), man)
          else
            let signals := insertSignals signals (nHeight (block :: pprev)) new_signals
            (.ok (.ok signals), addToCache p signals block pprev man)

/-- `GetForBlock`. Its two loops, down to the last block whose signals are known
and up again, are the way into the recursion and out of it. -/
def getForBlock : CBlockIndex → CMNHFManager → Except Failure Signals × CMNHFManager
  | [], man => (.ok ∅, man)
  | block :: pprev, man =>
    match getFromCache p (block :: pprev) man with
    | (some signals, man) => (.ok signals, man)
    | (none, man) =>
      match getForBlock pprev man with
      | (.error failure, man) => (.error failure, man)
      -- the parent's signals are in the cache now, and are looked up again
      | (.ok _, man) =>
        if node.canReadBlock (block :: pprev) = false then
          (.error (.exception "failed-getehfforblock-read"), man)
        else
          match processWith K p node (getForBlock pprev) block pprev false man with
          | (.error failure, man) => (.error failure, man)
          | (.ok (.error _), man) => (.error (.exception "failed-getehfforblock-construct"), man)
          | (.ok (.ok signals), man) => (.ok signals, man)

def getSignalsStage (pindexPrev : CBlockIndex) (man : CMNHFManager) :
    Except Failure Signals × CMNHFManager :=
  signalsStage p (getForBlock K p node pindexPrev) pindexPrev man

def processBlock (block : CBlock) (pprev : CBlockIndex) (fJustCheck : Bool) (man : CMNHFManager) :
    Except Failure (Except String Signals) × CMNHFManager :=
  processWith K p node (getForBlock K p node pprev) block pprev fJustCheck man

/-- The assertions of `UndoBlock`. -/
def checkExcluded (signals : Signals) (timePast : ℤ) : List UInt8 → Except Failure Bool
  | [] => .ok true
  | versionBit :: rest =>
    if versionBit ∈ signals then
      match isValidMNActivation p versionBit timePast with
      | .error failure => .error failure
      | .ok false => .error .assertion
      | .ok true => checkExcluded signals timePast rest
    else
      .error .assertion

def undoBlock (block : CBlock) (pprev : CBlockIndex) (man : CMNHFManager) :
    Except Failure Bool × CMNHFManager :=
  match extractSignals K p node block (block :: pprev) with
  | .error failure => (.error failure, man)
  | .ok (.error _) => (.ok false, man)
  | .ok (.ok excluded_signals) =>
    if excluded_signals = [] then
      (.ok true, man)
    else
      match getForBlock K p node (block :: pprev) man with
      | (.error failure, man) => (.error failure, man)
      | (.ok signals, man) =>
        (checkExcluded p signals (getMedianTimePast (block :: pprev)) excluded_signals, man)

end BabaChain.MNHF
