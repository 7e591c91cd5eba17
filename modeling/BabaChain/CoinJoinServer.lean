import BabaChain.ScriptInterpreter
import BabaChain.Lib.Runs

/-! A masternode that mixes: the session, the entries of its users, the final transaction and the
signatures for it. Fees that are charged, and messages other than the reply to a sender, change
nothing here and are left out. -/
namespace BabaChain.CoinJoin
open Script Guards

def COINJOIN_QUEUE_TIMEOUT : ℤ := 30
def COINJOIN_SIGNING_TIMEOUT : ℤ := 15

/-- The numbers of participants of a network. -/
structure PoolParams where
  nPoolMinParticipants : ℕ
  nPoolMaxParticipants : ℕ
  min_pos : 0 < nPoolMinParticipants
  min_le_max : nPoolMinParticipants ≤ nPoolMaxParticipants
  /-- They are of the type `int`. -/
  max_lt : nPoolMaxParticipants < 2^31

/-- Of the test networks and the regression test. -/
def testPoolParams : PoolParams := ⟨2, 20, by decide, by decide, by decide⟩

structure CCoinJoinServer where
  nState : PoolState := .IDLE
  nSessionID : ℤ := 0
  nSessionDenom : ℤ := 0
  vecEntries : List CCoinJoinEntry := []
  finalMutableTransaction : CMutableTransaction := {}
  vecSessionCollaterals : List CMutableTransaction := []
  nTimeLastSuccessfulStep : ℤ := 0

structure CCoinJoinAccept where
  nDenom : ℤ
  txCollateral : CMutableTransaction

structure CCoinJoinBroadcastTx where
  tx : CMutableTransaction
  masternodeOutpoint : COutPoint
  m_protxHash : uint256

/-- What a node knows when it takes a step. -/
structure ServerEnv where
  time : ℤ := 0
  isBlockchainSynced : Bool := true
  shutdownRequested : Bool := false
  /-- The peers that are connected. -/
  connected : CService → Bool := fun _ => true
  /-- The heights of the unspent coins, and the locked transactions. -/
  coinHeight : COutPoint → Option ℤ
  isLocked : uint256 → Bool := fun _ => true
  isCollateralValid : CMutableTransaction → Bool := fun _ => true
  /-- The masternode is in the list of valid ones. -/
  isValidMN : Bool := true
  lockQueue : Bool := true
  /-- The queue still has an entry of this masternode. -/
  isQueued : Bool := false
  nLastDsq : ℤ := 0
  nDsqThreshold : ℤ := 0
  nDsqCount : ℤ := 0
  /-- `GetRand`. -/
  rand : ℕ := 0
  lockMain : Bool := true
  aTMPIfSaneFee : CMutableTransaction → Bool := fun _ => true
  hasDSTX : CMutableTransaction → Bool := fun _ => false
  outpoint : COutPoint
  proTxHash : uint256

inductive ServerMessage
  | DSACCEPT (peer : CService) (dsa : CCoinJoinAccept)
  | DSVIN (peer : CService) (vecTxDSIn : List CTxIn) (txCollateral : CMutableTransaction)
      (vecTxOut : List CTxOut)
  | DSSIGNFINALTX (vecTxIn : List CTxIn)
  | doMaintenance

/-- The status that is pushed to the sender, and a transaction that is committed. -/
structure ServerOutput where
  status : Option (Bool × PoolMessage) := none
  dstx : Option CCoinJoinBroadcastTx := none

/-- `CCoinJoinBroadcastTx::IsValidStructure`. -/
def CCoinJoinBroadcastTx.isValidStructure (params : PoolParams) (dstx : CCoinJoinBroadcastTx) :
    Bool :=
  if isNullOutPoint dstx.masternodeOutpoint && decide (dstx.m_protxHash = 0) then false
  else if dstx.tx.vin.length ≠ dstx.tx.vout.length then false
  else if dstx.tx.vin.length < params.nPoolMinParticipants then false
  else if params.nPoolMaxParticipants*COINJOIN_ENTRY_MAX_SIZE < dstx.tx.vin.length then false
  else dstx.tx.vout.all fun txOut =>
    isDenominatedAmount txOut.nValue && isPayToPublicKeyHash txOut.scriptPubKey

/-- `CCoinJoinEntry::AddScriptSig`, for the inputs of an entry. -/
def addEntryScriptSig (txin : CTxIn) : List CTxDSIn → Option (List CTxDSIn)
  | [] => none
  | txdsin :: vecTxDSIn =>
    if txdsin.prevout = txin.prevout ∧ txdsin.nSequence = txin.nSequence then
      if txdsin.fHasSig then none
      else some ({txdsin with scriptSig := txin.scriptSig, fHasSig := true} :: vecTxDSIn)
    else
      (addEntryScriptSig txin vecTxDSIn).map fun vecTxDSIn => txdsin :: vecTxDSIn

/-- The first entry that takes a script. -/
def addEntriesScriptSig (txin : CTxIn) : List CCoinJoinEntry → Option (List CCoinJoinEntry)
  | [] => none
  | entry :: vecEntries =>
    match addEntryScriptSig txin entry.vecTxDSIn with
    | some vecTxDSIn => some ({entry with vecTxDSIn := vecTxDSIn} :: vecEntries)
    | none => (addEntriesScriptSig txin vecEntries).map fun vecEntries => entry :: vecEntries

namespace CCoinJoinServer

variable (m : Machine) (params : PoolParams) (ledger : COutPoint → CTxOut) (env : ServerEnv)
  (s : CCoinJoinServer)

def inputs : List CTxDSIn := s.vecEntries.flatMap CCoinJoinEntry.vecTxDSIn

def outputs : List CTxOut := s.vecEntries.flatMap CCoinJoinEntry.vecTxOut

/-- `SetNull`. -/
def setNull : CCoinJoinServer :=
  { nState := .IDLE
    nSessionID := 0
    nSessionDenom := 0
    vecEntries := []
    finalMutableTransaction := {s.finalMutableTransaction with vin := [], vout := []}
    vecSessionCollaterals := []
    nTimeLastSuccessfulStep := env.time }

def setState (nState : PoolState) : CCoinJoinServer :=
  {s with nState := nState, nTimeLastSuccessfulStep := env.time}

def hasTimedOut : Bool :=
  if s.nState = .IDLE then false
  else
    let nTimeout :=
      if s.nState = .SIGNING then COINJOIN_SIGNING_TIMEOUT else COINJOIN_QUEUE_TIMEOUT
    decide (nTimeout ≤ env.time-s.nTimeLastSuccessfulStep)

def isSessionReady : Bool :=
  match s.nState with
  | .QUEUE =>
    decide (params.nPoolMaxParticipants ≤ s.vecSessionCollaterals.length) ||
      (s.hasTimedOut env && decide (params.nPoolMinParticipants ≤ s.vecSessionCollaterals.length))
  | .ACCEPTING_ENTRIES => true
  | _ => false

/-! ### Users -/

def isAcceptableDSA (dsa : CCoinJoinAccept) : Except PoolMessage Unit := do
  refuse (isValidDenomination dsa.nDenom = false) .ERR_DENOM
  refuse (env.isCollateralValid dsa.txCollateral = false) .ERR_INVALID_COLLATERAL

def createNewSession (dsa : CCoinJoinAccept) : Except PoolMessage CCoinJoinServer := do
  refuse (s.nSessionID ≠ 0) .MSG_NOERR
  refuse (s.nState ≠ .IDLE) .ERR_MODE
  isAcceptableDSA env dsa
  return { s with
    nSessionID := env.rand % 999999 + 1
    nSessionDenom := dsa.nDenom
    nState := .QUEUE
    nTimeLastSuccessfulStep := env.time
    vecSessionCollaterals := s.vecSessionCollaterals ++ [dsa.txCollateral] }

def addUserToExistingSession (dsa : CCoinJoinAccept) : Except PoolMessage CCoinJoinServer := do
  refuse (s.nSessionID = 0 ∨ s.isSessionReady params env = true) .MSG_NOERR
  isAcceptableDSA env dsa
  refuse (s.nState ≠ .QUEUE) .ERR_MODE
  refuse (dsa.nDenom ≠ s.nSessionDenom) .ERR_DENOM
  return {s with vecSessionCollaterals := s.vecSessionCollaterals ++ [dsa.txCollateral]}

/-- The first user of a session, unless this masternode mixed too recently. -/
def isTooRecent : Bool :=
  env.isQueued || (decide (env.nLastDsq ≠ 0) && decide (env.nDsqCount < env.nDsqThreshold))

def processDSACCEPT (dsa : CCoinJoinAccept) : ServerOutput × CCoinJoinServer :=
  if s.isSessionReady params env then ({status := some (false, .ERR_QUEUE_FULL)}, s)
  else if env.isValidMN = false then ({status := some (false, .ERR_MN_LIST)}, s)
  else if s.vecSessionCollaterals = [] ∧ env.lockQueue = false then ({}, s)
  else if s.vecSessionCollaterals = [] ∧ isTooRecent env then
    ({status := some (false, .ERR_RECENT)}, s)
  else
    match if s.nSessionID = 0 then s.createNewSession env dsa
      else s.addUserToExistingSession params env dsa with
    | .ok s => ({status := some (true, .MSG_NOERR)}, s)
    | .error nMessageID => ({status := some (false, nMessageID)}, s)

/-! ### The final transaction -/

/-- `RelayStatus`: the session ends when all its clients are gone. -/
def relayStatus : CCoinJoinServer :=
  let nDisconnected := s.vecEntries.countP fun entry => !env.connected entry.addr
  if nDisconnected = 0 then s
  else if nDisconnected = s.vecEntries.length then s.setNull env
  else s

/-- `RelayFinalTransaction` and `RelayCompletedTransaction`, up to a client that is gone. -/
def relayToEntries : CCoinJoinServer :=
  if s.vecEntries.all fun entry => env.connected entry.addr then s else s.relayStatus env

def createFinalTransaction : CCoinJoinServer :=
  let txNew : CMutableTransaction :=
    { vin := sortInputs (s.inputs.map CTxDSIn.toCTxIn), vout := sortOutputs s.outputs }
  ({s with finalMutableTransaction := txNew}.setState env .SIGNING).relayToEntries env

def commitFinalTransaction : Option CCoinJoinBroadcastTx × CCoinJoinServer :=
  let finalTransaction := s.finalMutableTransaction
  if env.lockMain = false ∨ env.aTMPIfSaneFee finalTransaction = false then
    (none, (s.setNull env).relayToEntries env)
  else
    let dstx :=
      if env.hasDSTX finalTransaction then none
      else some ⟨finalTransaction, env.outpoint, env.proTxHash⟩
    (dstx, (s.relayToEntries env).setNull env)

def isSignaturesComplete : Bool :=
  s.vecEntries.all fun entry => entry.vecTxDSIn.all CTxDSIn.fHasSig

def checkPool : Option CCoinJoinBroadcastTx × CCoinJoinServer :=
  if s.nState = .ACCEPTING_ENTRIES ∧ s.vecEntries.length = s.vecSessionCollaterals.length then
    (none, s.createFinalTransaction env)
  else if s.nState = .ACCEPTING_ENTRIES ∧ s.hasTimedOut env ∧
      params.nPoolMinParticipants ≤ s.vecEntries.length then
    (none, s.createFinalTransaction env)
  else if s.nState = .SIGNING ∧ s.isSignaturesComplete then
    s.commitFinalTransaction env
  else
    (none, s)

/-! ### Entries -/

/-- The coins that a masternode sees: an outpoint names one output of all the transactions. -/
def view : View where
  getCoin prevout := (env.coinHeight prevout).map fun nHeight => ⟨ledger prevout, nHeight⟩
  isLocked := env.isLocked

def addEntry (entry : CCoinJoinEntry) : Except PoolMessage CCoinJoinServer := do
  refuse (s.vecSessionCollaterals.length ≤ s.vecEntries.length) .ERR_ENTRIES_FULL
  refuse (env.isCollateralValid entry.txCollateral = false) .ERR_INVALID_COLLATERAL
  refuse (COINJOIN_ENTRY_MAX_SIZE < entry.vecTxDSIn.length) .ERR_MAXIMUM
  refuse (∃ txin ∈ entry.vecTxDSIn, ∃ txdsin ∈ s.inputs, txdsin.prevout = txin.prevout)
    .ERR_ALREADY_HAVE
  (isValidInOuts (view ledger env) s.nSessionDenom (entry.vecTxDSIn.map CTxDSIn.toCTxIn)
    entry.vecTxOut).mapError Rejection.nMessageID
  return {s with vecEntries := s.vecEntries ++ [entry]}

/-- An input of an entry as it is read, without what is memory only. -/
def readTxDSIn (txin : CTxIn) : CTxDSIn := {toCTxIn := txin}

def processDSVIN (peer : CService) (vecTxDSIn : List CTxIn) (txCollateral : CMutableTransaction)
    (vecTxOut : List CTxOut) : ServerOutput × CCoinJoinServer :=
  if s.isSessionReady params env = false then ({status := some (false, .ERR_SESSION)}, s)
  else
    match s.addEntry ledger env ⟨vecTxDSIn.map readTxDSIn, vecTxOut, txCollateral, peer⟩ with
    | .error nMessageID => ({status := some (false, nMessageID)}, s)
    | .ok s =>
      let (dstx, s) := s.checkPool params env
      ({status := some (true, .MSG_ENTRIES_ADDED), dstx := dstx}, s.relayStatus env)

/-! ### Signatures -/

/-- The last input of the entries that spends an outpoint, and its index. -/
def findInput (prevout : COutPoint) : Option (CTxDSIn × ℕ) :=
  (s.inputs.zipIdx.filter fun p => p.1.prevout = prevout).getLast?

/-- A script is checked in a transaction of all entries, in their order. -/
def isInputScriptSigValid (txin : CTxIn) : Bool :=
  match s.findInput txin.prevout with
  | none => false
  | some (txdsin, nTxInIndex) =>
    let txNew : CMutableTransaction :=
      { vin := (s.inputs.map CTxDSIn.toCTxIn).set nTxInIndex
          {txdsin.toCTxIn with scriptSig := txin.scriptSig}
        vout := s.outputs }
    m.verifyScript txNew nTxInIndex txin.scriptSig txdsin.prevPubKey

/-- The inputs of a transaction, the one that is signed with its script. -/
def setScriptSig (txinNew : CTxIn) (vin : List CTxIn) : List CTxIn :=
  vin.map fun txin =>
    if txin.prevout = txinNew.prevout ∧ txin.nSequence = txinNew.nSequence then
      {txin with scriptSig := txinNew.scriptSig}
    else txin

def addScriptSig (txinNew : CTxIn) : Bool × CCoinJoinServer :=
  if s.inputs.any fun txdsin => txdsin.scriptSig = txinNew.scriptSig then (false, s)
  else if s.isInputScriptSigValid m txinNew = false then (false, s)
  else
    let tx := s.finalMutableTransaction
    let s := {s with finalMutableTransaction := {tx with vin := setScriptSig txinNew tx.vin}}
    match addEntriesScriptSig txinNew s.vecEntries with
    | some vecEntries => (true, {s with vecEntries := vecEntries})
    | none => (false, s)

/-- The scripts of a message, up to the first that is refused. -/
def addScriptSigs : List CTxIn → CCoinJoinServer → Bool × CCoinJoinServer
  | [], s => (true, s)
  | txin :: vecTxIn, s =>
    match s.addScriptSig m txin with
    | (false, s) => (false, s)
    | (true, s) => addScriptSigs vecTxIn s

def processDSSIGNFINALTX (vecTxIn : List CTxIn) : ServerOutput × CCoinJoinServer :=
  match addScriptSigs m vecTxIn s with
  | (false, s) => ({}, s.relayStatus env)
  | (true, s) =>
    let (dstx, s) := s.checkPool params env
    ({dstx := dstx}, s)

/-! ### Maintenance -/

def checkForCompleteQueue : CCoinJoinServer :=
  if s.nState = .QUEUE ∧ s.isSessionReady params env = true then s.setState env .ACCEPTING_ENTRIES
  else s

def checkTimeout : CCoinJoinServer :=
  if s.hasTimedOut env then s.setNull env else s

def doMaintenance : ServerOutput × CCoinJoinServer :=
  if env.isBlockchainSynced = false ∨ env.shutdownRequested then ({}, s)
  else
    let (dstx, s) := (s.checkForCompleteQueue params env).checkPool params env
    ({dstx := dstx}, s.checkTimeout env)

/-- A message or a tick, with what the node knows then. -/
def step (message : ServerEnv × ServerMessage) : ServerOutput × CCoinJoinServer :=
  let (env, message) := message
  match message with
  | .doMaintenance => s.doMaintenance params env
  | .DSACCEPT _ dsa =>
    if env.isBlockchainSynced then s.processDSACCEPT params env dsa else ({}, s)
  | .DSVIN peer vecTxDSIn txCollateral vecTxOut =>
    if env.isBlockchainSynced then
      s.processDSVIN params ledger env peer vecTxDSIn txCollateral vecTxOut
    else ({}, s)
  | .DSSIGNFINALTX vecTxIn =>
    if env.isBlockchainSynced then s.processDSSIGNFINALTX m params env vecTxIn else ({}, s)

end CCoinJoinServer

end BabaChain.CoinJoin
