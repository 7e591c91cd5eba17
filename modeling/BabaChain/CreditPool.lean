import BabaChain.Consensus
import BabaChain.EhfSignals
import BabaChain.RangesSet

/-! The credit pool: what asset locks and platform rewards put into it, what asset
unlocks may take out of it, and how a node keeps it from block to block. -/
namespace BabaChain.CreditPool
open ByteReader
open MNHF (CBlock CBlockIndex Failure nHeight getAncestor deploymentActiveAt
  deploymentActiveAfter)

abbrev Tx := MNHF.CTransaction

def TRANSACTION_COINBASE : BitVec 16 := 5
def TRANSACTION_ASSET_LOCK : BitVec 16 := 8
def TRANSACTION_ASSET_UNLOCK : BitVec 16 := 9

/-- The special types that are open to transactions since DIP3. -/
def contextualTypes : List (BitVec 16) := [0, 1, 2, 3, 4, 5, 6, 7, 8, 9]

def OP_RETURN : UInt8 := 0x6a

def MAX_MONEY : ℤ := 1000000000*COIN

def moneyRange (nValue : ℤ) : Bool := decide (0 ≤ nValue ∧ nValue ≤ MAX_MONEY)

def LimitAmountLow : ℤ := 100*COIN
def LimitAmountHigh : ℤ := 1000*COIN
def LimitAmountV22 : ℤ := 2000*COIN
def LimitAmountV24 : ℤ := 4000*COIN

/-- The consensus parameters that the credit pool reads. A deployment that is
signalled stays active, and v24 is signalled by masternodes, so since v20 only;
the heights are in the order that they have on every network. -/
structure ChainParams where
  DIP0003Height : ℤ
  DIP0008Height : ℤ
  V20Height : ℤ
  MN_RRHeight : ℤ
  WithdrawalsHeight : ℤ
  v24ActiveAfter : CBlockIndex → Bool
  nMasternodePaymentsIncreaseBlock : ℤ
  nMasternodePaymentsIncreasePeriod : ℤ
  BRRHeight : ℤ
  nSuperblockCycle : ℤ
  nCreditPoolPeriodBlocks : ℕ
  dip3_le_v20 : DIP0003Height ≤ V20Height
  dip8_le_v20 : DIP0008Height ≤ V20Height
  v20_le_v24 : ∀ pindex, v24ActiveAfter pindex = true → V20Height ≤ nHeight pindex+1
  v24_stays : ∀ block pprev, v24ActiveAfter pprev = true → v24ActiveAfter (block :: pprev) = true

def ChainParams.v24ActiveAt (p : ChainParams) (pindex : CBlockIndex) : Bool :=
  p.v24ActiveAfter pindex.tail

structure CAssetLockPayload where
  nVersion : UInt8
  creditOutputs : List CTxOut
deriving DecidableEq

structure CAssetUnlockPayload where
  nVersion : UInt8
  index : UInt64
  fee : UInt32
  requestedHeight : UInt32
  quorumHash : uint256
  quorumSig : List UInt8
deriving DecidableEq

/-- The field of the coinbase payload that commits to the pool. -/
structure CCbTx where
  creditPoolBalance : ℤ
deriving DecidableEq

inductive TxValidationResult where
  | TX_CONSENSUS
  | TX_BAD_SPECIAL
deriving DecidableEq

/-- Why a transaction is refused. -/
structure TxInvalid where
  result : TxValidationResult
  reason : String
deriving DecidableEq

/-- What the credit pool reads besides the chain: the signatures that can be decoded
and verified, the block index, the block subsidy, and the order in which an
`unordered_set` is walked through. -/
structure Environment where
  readSignature : Reader (List UInt8)
  lookupBlockIndex : uint256 → Bool
  verifySig : Tx → CAssetUnlockPayload → CBlockIndex → Except TxInvalid Unit
  getBlockSubsidy : CBlockIndex → ℤ
  hashOrder : List UInt64 → List UInt64
  hashOrder_perm : ∀ l, (hashOrder l).Perm l

section Payloads

def readTxOut : Reader CTxOut := do
  let nValue ← readInt 8
  let scriptPubKey ← readVarBytes
  return ⟨nValue, scriptPubKey⟩

def readTxOuts : ℕ → Reader (List CTxOut)
  | 0 => pure []
  | n+1 => do
    let txout ← readTxOut
    let vout ← readTxOuts n
    return txout :: vout

def readAssetLockPayload : Reader CAssetLockPayload := do
  let nVersion ← readUInt 1
  let creditOutputs ← readTxOuts (← readCompactSize)
  return ⟨UInt8.ofNat nVersion, creditOutputs⟩

variable (env : Environment)

def readAssetUnlockPayload : Reader CAssetUnlockPayload := do
  let nVersion ← readUInt 1
  let index ← readUInt 8
  let fee ← readUInt 4
  let requestedHeight ← readUInt 4
  let quorumHash ← readUint256
  let quorumSig ← env.readSignature
  return ⟨UInt8.ofNat nVersion, UInt64.ofNat index, UInt32.ofNat fee, UInt32.ofNat requestedHeight,
    quorumHash, quorumSig⟩

/-- The balance comes with the third version of the coinbase payload. -/
def readCbTxPayload : Reader CCbTx := do
  let nVersion ← readUInt 2
  let _nHeight ← readInt 4
  let _merkleRootMNList ← readUint256
  if nVersion < 2 then return ⟨0⟩
  let _merkleRootQuorums ← readUint256
  if nVersion < 3 then return ⟨0⟩
  let _bestCLHeightDiff ← readCompactSize
  let _bestCLSignature ← env.readSignature
  let creditPoolBalance ← readInt 8
  return ⟨creditPoolBalance⟩

/-- `GetTxPayload` of some bytes: nothing may follow the payload. -/
def readPayload {α : Type} (r : Reader α) (payload : List UInt8) : Option α :=
  match r payload with
  | some (obj, []) => some obj
  | _ => none

def Environment.readAssetLock (_env : Environment) : List UInt8 → Option CAssetLockPayload :=
  readPayload readAssetLockPayload

def Environment.readAssetUnlock : List UInt8 → Option CAssetUnlockPayload :=
  readPayload (readAssetUnlockPayload env)

def Environment.readCbTx : List UInt8 → Option CCbTx := readPayload (readCbTxPayload env)

theorem Environment.readCbTx_nil : env.readCbTx [] = none := rfl

end Payloads

structure CCreditPool where
  locked : ℤ := 0
  currentLimit : ℤ := 0
  latelyUnlocked : ℤ := 0
  indexes : CRangesSet := {}
deriving DecidableEq

variable (env : Environment) (p : ChainParams)

/-- `GetTxPayload` of a transaction: the type has to be the payload's. -/
def getAssetLock (tx : Tx) : Option CAssetLockPayload :=
  if tx.nType = TRANSACTION_ASSET_LOCK then env.readAssetLock tx.vExtraPayload else none

def getAssetUnlock (tx : Tx) : Option CAssetUnlockPayload :=
  if tx.nType = TRANSACTION_ASSET_UNLOCK then env.readAssetUnlock tx.vExtraPayload else none

def getCbTx (tx : Tx) : Option CCbTx :=
  if tx.nType = TRANSACTION_COINBASE then env.readCbTx tx.vExtraPayload else none

/-- The sum of the outputs on top of the fee, unless one is out of range. -/
def addOutputs : ℤ → List CTxOut → Except TxInvalid ℤ
  | toUnlock, [] => .ok toUnlock
  | toUnlock, txout :: vout =>
    if moneyRange txout.nValue = false then
      .error ⟨.TX_CONSENSUS, "failed-creditpool-unlock-txout-outofrange"⟩
    else
      addOutputs (toUnlock+txout.nValue) vout

/-- `GetDataFromUnlockTx`. -/
def getDataFromUnlockTx (tx : Tx) : Except TxInvalid (ℤ × UInt64) :=
  match getAssetUnlock env tx with
  | none => .error ⟨.TX_CONSENSUS, "failed-creditpool-unlock-payload"⟩
  | some assetUnlockTx =>
    (addOutputs assetUnlockTx.fee.toNat tx.vout).map fun toUnlock => (toUnlock, assetUnlockTx.index)

structure CreditPoolDataPerBlock where
  credit_pool : ℤ := 0
  unlocked : ℤ := 0
  indexes : List UInt64 := []
deriving DecidableEq

def isUnlock (tx : Tx) : Bool := tx.isSpecialTxVersion && decide (tx.nType = TRANSACTION_ASSET_UNLOCK)

def isLock (tx : Tx) : Bool := tx.isSpecialTxVersion && decide (tx.nType = TRANSACTION_ASSET_LOCK)

/-- The loop of `GetCreditDataFromBlock` over the transactions of the block. -/
def collectUnlocks : CreditPoolDataPerBlock → List Tx → Except Failure CreditPoolDataPerBlock
  | blockData, [] => .ok blockData
  | blockData, tx :: vtx =>
    if isUnlock tx = false then
      collectUnlocks blockData vtx
    else
      match getDataFromUnlockTx env tx with
      | .error invalid => .error (.exception ("GetDataFromUnlockTx failed: "++invalid.reason))
      | .ok (unlocked, index) =>
        collectUnlocks {blockData with
          unlocked := blockData.unlocked+unlocked
          indexes := blockData.indexes.insert index} vtx

/-- `GetCreditDataFromBlock`, for a block that is on disk. -/
def getCreditDataFromBlock (block : CBlock) (pprev : CBlockIndex) :
    Except Failure (Option CreditPoolDataPerBlock) :=
  if deploymentActiveAt (block :: pprev) p.DIP0003Height = false then
    .ok none
  else
    match block.vtx with
    | [] => .ok none
    | cb :: _ =>
      if cb.vExtraPayload = [] ∨ cb.isSpecialTxVersion = false then
        .ok none
      else
        match env.readCbTx cb.vExtraPayload with
        | none => .ok none
        | some cbTx =>
          (collectUnlocks env {credit_pool := cbTx.creditPoolBalance} block.vtx).map some

/-- The unlocks of the block that has just left the window. -/
def getDistantUnlocked (pindex : CBlockIndex) : Except Failure ℤ :=
  match getAncestor pindex (nHeight pindex-p.nCreditPoolPeriodBlocks) with
  | none => .ok 0
  | some [] => .ok 0
  | some (block :: pprev) =>
    (getCreditDataFromBlock env p block pprev).map fun distant_block =>
      (distant_block.map CreditPoolDataPerBlock.unlocked).getD 0

/-- Every index is added, and none is there already. -/
def addIndexes : CRangesSet → List UInt64 → Except Failure CRangesSet
  | indexes, [] => .ok indexes
  | indexes, index :: rest =>
    match indexes.add index with
    | none => .error .assertion
    | some (false, _) => .error (.exception "failed-getcreditpool-index-duplicated")
    | some (true, indexes) => addIndexes indexes rest

/-- The limit for the next block, before it is checked not to be negative. -/
def limitFor (pindex : CBlockIndex) (credit_pool latelyUnlocked : ℤ) : ℤ :=
  if p.v24ActiveAt pindex = true then
    max 0 (min credit_pool (LimitAmountV24-latelyUnlocked))
  else if deploymentActiveAt pindex p.WithdrawalsHeight = true then
    min credit_pool LimitAmountV22
  else
    let currentLimit :=
      if credit_pool+latelyUnlocked > LimitAmountLow then
        max 0 (max LimitAmountLow (credit_pool.tdiv 10)-latelyUnlocked)
      else
        credit_pool
    min currentLimit (LimitAmountHigh-latelyUnlocked)

/-- `ConstructCreditPool`, whose result goes into the cache. -/
def constructCreditPool (block : CBlock) (pprev : CBlockIndex) (prev : CCreditPool) :
    Except Failure CCreditPool := do
  match ← getCreditDataFromBlock env p block pprev with
  | none =>
    if prev.locked ≠ 0 then
      .error (.exception "Failed to create CreditPool but previous block has value")
    else if prev.indexes.isEmpty = false then
      .error (.exception
        "Failed to create CreditPool but asset unlock transactions already mined")
    else
      .ok {}
  | some blockData =>
    let indexes ← addIndexes prev.indexes (env.hashOrder blockData.indexes)
    let distantUnlocked ← getDistantUnlocked env p (block :: pprev)
    let latelyUnlocked := prev.latelyUnlocked+blockData.unlocked-distantUnlocked
    let currentLimit := limitFor p (block :: pprev) blockData.credit_pool latelyUnlocked
    if currentLimit < 0 then
      .error (.exception "Negative limit for CreditPool")
    else
      .ok ⟨blockData.credit_pool, currentLimit, latelyUnlocked, indexes⟩

def CreditPoolCacheSize : ℕ := 1000

def DISK_SNAPSHOT_PERIOD : ℤ := 576

/-- The cache, and the snapshots of the database. -/
structure CCreditPoolManager where
  creditPoolCache : LruCache.Cache uint256 CCreditPool := LruCache.create CreditPoolCacheSize
  snapshots : uint256 → Option CCreditPool := fun _ => none

def getFromCache (block : CBlock) (pprev : CBlockIndex) (man : CCreditPoolManager) :
    Option CCreditPool × CCreditPoolManager :=
  if deploymentActiveAt (block :: pprev) p.V20Height = false then
    (some {}, man)
  else
    match LruCache.get man.creditPoolCache block.hash with
    | (some pool, cache) => (some pool, {man with creditPoolCache := cache})
    | (none, cache) =>
      let snapshot :=
        if nHeight (block :: pprev)%DISK_SNAPSHOT_PERIOD = 0 then man.snapshots block.hash
        else none
      match snapshot with
      | some pool =>
        (some pool, {man with creditPoolCache := LruCache.insert cache block.hash pool})
      | none => (none, {man with creditPoolCache := cache})

def addToCache (block : CBlock) (pprev : CBlockIndex) (pool : CCreditPool)
    (man : CCreditPoolManager) : CCreditPoolManager :=
  let man := {man with creditPoolCache := LruCache.insert man.creditPoolCache block.hash pool}
  if nHeight (block :: pprev)%DISK_SNAPSHOT_PERIOD = 0 then
    {man with snapshots := Function.update man.snapshots block.hash (some pool)}
  else
    man

/-- `GetCreditPool`: back to a block whose pool is known, then forward again. -/
def getCreditPool : CBlockIndex → CCreditPoolManager →
    Except Failure CCreditPool × CCreditPoolManager
  | [], man => (.ok {}, man)
  | block :: pprev, man =>
    match getFromCache p block pprev man with
    | (some pool, man) => (.ok pool, man)
    | (none, man) =>
      match getCreditPool pprev man with
      | (.error failure, man) => (.error failure, man)
      | (.ok prev, man) =>
        match constructCreditPool env p block pprev prev with
        | .error failure => (.error failure, man)
        | .ok pool => (.ok pool, addToCache block pprev pool man)

/-- The periods of the reallocation of the block reward, in parts of a thousand. -/
def vecPeriods : List ℤ :=
  [513, 526, 533, 540, 546, 552, 557, 562, 567, 572, 577, 582, 585, 588, 591, 594, 597, 599, 600]

/-- `GetMasternodePayment`. -/
def getMasternodePayment (nHeight blockValue : ℤ) (fV20Active : Bool) : ℤ :=
  let step := fun (periods part ret : ℤ) =>
    if nHeight > p.nMasternodePaymentsIncreaseBlock+p.nMasternodePaymentsIncreasePeriod*periods then
      ret+blockValue.tdiv part
    else ret
  let ret := (((blockValue.tdiv 5 |> step 0 20) |> step 1 20) |> step 2 20)
  let ret := ((((((ret |> step 3 40) |> step 4 40) |> step 5 40) |> step 6 40) |> step 7 40) |>
    step 9 40)
  -- the actual reallocation starts in the cycle after the one of the activation
  let nReallocStart := p.BRRHeight-p.BRRHeight.tmod p.nSuperblockCycle+p.nSuperblockCycle
  if nHeight < p.BRRHeight then ret
  else if nHeight < nReallocStart then ret
  else if fV20Active = true then (blockValue*3).tdiv 4
  else
    let nCurrentPeriod := min ((nHeight-nReallocStart).tdiv (p.nSuperblockCycle*3))
      (vecPeriods.length-1)
    (blockValue*vecPeriods.getD nCurrentPeriod.toNat 0).tdiv 1000

/-- `PlatformShare`, which asserts that its result is an amount. -/
def platformShare (reward : ℤ) : Except Failure ℤ :=
  let platformReward := (reward*375).tdiv 1000
  if moneyRange platformReward = true then .ok platformReward else .error .assertion

structure CCreditPoolDiff where
  pool : CCreditPool
  pindexPrev : CBlockIndex
  newIndexes : List UInt64 := []
  sessionLocked : ℤ := 0
  sessionUnlocked : ℤ := 0
  platformReward : ℤ := 0

def CCreditPoolDiff.getTotalLocked (d : CCreditPoolDiff) : ℤ :=
  d.pool.locked+d.sessionLocked-d.sessionUnlocked+d.platformReward

/-- The constructor of `CCreditPoolDiff`. -/
def CCreditPoolDiff.create (starter : CCreditPool) (pindexPrev : CBlockIndex)
    (blockSubsidy : ℤ) : Except Failure CCreditPoolDiff :=
  if pindexPrev = [] then
    .error .assertion
  else if deploymentActiveAfter pindexPrev p.MN_RRHeight = true then
    (platformShare (getMasternodePayment p (nHeight pindexPrev+1) blockSubsidy true)).map
      fun platformReward =>
        {pool := starter, pindexPrev := pindexPrev, platformReward := platformReward}
  else
    .ok {pool := starter, pindexPrev := pindexPrev}

def isOpReturn (script : List UInt8) : Bool := script.head? == some OP_RETURN

/-- The loop of `CheckAssetLockTx` over the outputs. -/
def assetLockReturn : ℤ → List CTxOut → Except TxInvalid ℤ
  | returnAmount, [] => .ok returnAmount
  | returnAmount, txout :: vout =>
    if isOpReturn txout.scriptPubKey = false then
      assetLockReturn returnAmount vout
    else if txout.scriptPubKey ≠ [OP_RETURN, 0] then
      .error ⟨.TX_BAD_SPECIAL, "bad-assetlocktx-non-empty-return"⟩
    else if txout.nValue = 0 ∨ moneyRange txout.nValue = false then
      .error ⟨.TX_BAD_SPECIAL, "bad-assetlocktx-opreturn-outofrange"⟩
    else if returnAmount > 0 then
      .error ⟨.TX_BAD_SPECIAL, "bad-assetlocktx-multiple-return"⟩
    else
      assetLockReturn txout.nValue vout

/-- `CScript::IsPayToPublicKeyHash`. -/
def isPayToPublicKeyHash (script : List UInt8) : Bool :=
  decide (script.length = 25 ∧ script.take 3 = [0x76, 0xa9, 0x14] ∧
    script.drop 23 = [0x88, 0xac])

/-- The loop of `CheckAssetLockTx` over the credit outputs. -/
def creditOutputsAmount : ℤ → List CTxOut → Except TxInvalid ℤ
  | amount, [] => .ok amount
  | amount, out :: outputs =>
    if out.nValue = 0 ∨ moneyRange out.nValue = false ∨ moneyRange (amount+out.nValue) = false then
      .error ⟨.TX_BAD_SPECIAL, "bad-assetlocktx-credit-outofrange"⟩
    else if isPayToPublicKeyHash out.scriptPubKey = false then
      .error ⟨.TX_BAD_SPECIAL, "bad-assetlocktx-pubKeyHash"⟩
    else
      creditOutputsAmount (amount+out.nValue) outputs

def checkAssetLockTx (tx : Tx) : Except TxInvalid Unit := do
  if tx.nType ≠ TRANSACTION_ASSET_LOCK then
    .error ⟨.TX_BAD_SPECIAL, "bad-assetlocktx-type"⟩
  else
    let returnAmount ← assetLockReturn 0 tx.vout
    if returnAmount = 0 then
      .error ⟨.TX_BAD_SPECIAL, "bad-assetlocktx-no-return"⟩
    else
      match getAssetLock env tx with
      | none => .error ⟨.TX_BAD_SPECIAL, "bad-assetlocktx-payload"⟩
      | some assetLockTx =>
        if assetLockTx.nVersion = 0 ∨ assetLockTx.nVersion > 1 then
          .error ⟨.TX_BAD_SPECIAL, "bad-assetlocktx-version"⟩
        else if assetLockTx.creditOutputs = [] then
          .error ⟨.TX_BAD_SPECIAL, "bad-assetlocktx-emptycreditoutputs"⟩
        else
          let amount ← creditOutputsAmount 0 assetLockTx.creditOutputs
          if amount ≠ returnAmount then
            .error ⟨.TX_BAD_SPECIAL, "bad-assetlocktx-creditamount"⟩
          else
            .ok ()

def MAXIMUM_WITHDRAWALS : ℕ := 32

def checkAssetUnlockTx (tx : Tx) (pindexPrev : CBlockIndex) (indexes : CRangesSet) :
    Except TxInvalid Unit :=
  if tx.nType ≠ TRANSACTION_ASSET_UNLOCK then
    .error ⟨.TX_BAD_SPECIAL, "bad-assetunlocktx-type"⟩
  else if tx.vin ≠ [] then
    .error ⟨.TX_BAD_SPECIAL, "bad-assetunlocktx-have-input"⟩
  else if tx.vout.length > MAXIMUM_WITHDRAWALS then
    .error ⟨.TX_BAD_SPECIAL, "bad-assetunlocktx-too-many-outs"⟩
  else
    match getAssetUnlock env tx with
    | none => .error ⟨.TX_BAD_SPECIAL, "bad-assetunlocktx-payload"⟩
    | some assetUnlockTx =>
      if assetUnlockTx.nVersion = 0 ∨ assetUnlockTx.nVersion > 1 then
        .error ⟨.TX_BAD_SPECIAL, "bad-assetunlocktx-version"⟩
      else if indexes.contains assetUnlockTx.index = true then
        .error ⟨.TX_CONSENSUS, "bad-assetunlock-duplicated-index"⟩
      else if env.lookupBlockIndex assetUnlockTx.quorumHash = false then
        .error ⟨.TX_CONSENSUS, "bad-assetunlock-quorum-hash"⟩
      else
        env.verifySig tx assetUnlockTx pindexPrev

/-- `CheckAssetLockUnlockTx`. -/
def checkAssetLockUnlockTx (tx : Tx) (pindexPrev : CBlockIndex) (indexes : CRangesSet) :
    Except TxInvalid Unit :=
  if tx.nType = TRANSACTION_ASSET_LOCK then checkAssetLockTx env tx
  else if tx.nType = TRANSACTION_ASSET_UNLOCK then checkAssetUnlockTx env tx pindexPrev indexes
  else .error ⟨.TX_BAD_SPECIAL, "bad-not-asset-locks-at-all"⟩

/-- `CCreditPoolDiff::Lock`. -/
def CCreditPoolDiff.lock (d : CCreditPoolDiff) (tx : Tx) : Except TxInvalid CCreditPoolDiff :=
  match getAssetLock env tx with
  | none => .error ⟨.TX_CONSENSUS, "failed-creditpool-lock-payload"⟩
  | some _ =>
    match tx.vout.find? fun txout => isOpReturn txout.scriptPubKey with
    | none => .error ⟨.TX_CONSENSUS, "failed-creditpool-lock-invalid"⟩
    | some txout => .ok {d with sessionLocked := d.sessionLocked+txout.nValue}

/-- `CCreditPoolDiff::Unlock`. -/
def CCreditPoolDiff.unlock (d : CCreditPoolDiff) (tx : Tx) : Except TxInvalid CCreditPoolDiff :=
  match getDataFromUnlockTx env tx with
  | .error invalid => .error invalid
  | .ok (toUnlock, index) =>
    if d.sessionUnlocked+toUnlock > d.pool.currentLimit then
      .error ⟨.TX_CONSENSUS, "failed-creditpool-unlock-too-much"⟩
    else if d.pool.indexes.contains index = true ∨ index ∈ d.newIndexes then
      .error ⟨.TX_CONSENSUS, "failed-creditpool-unlock-duplicated-index"⟩
    else
      .ok {d with
        newIndexes := index :: d.newIndexes
        sessionUnlocked := d.sessionUnlocked+toUnlock}

/-- `ProcessLockUnlockTransaction`. -/
def CCreditPoolDiff.processLockUnlockTransaction (d : CCreditPoolDiff) (tx : Tx) :
    Except TxInvalid CCreditPoolDiff :=
  if isLock tx = true then
    (checkAssetLockUnlockTx env tx d.pindexPrev d.pool.indexes).bind fun _ => d.lock env tx
  else if isUnlock tx = true then
    (checkAssetLockUnlockTx env tx d.pindexPrev d.pool.indexes).bind fun _ => d.unlock env tx
  else
    .ok d

/-- The loop of `GetCreditPoolDiffForBlock`, which asserts that a transaction can
only fail by consensus. -/
def processTransactions : CCreditPoolDiff → List Tx → Except Failure (Except String CCreditPoolDiff)
  | d, [] => .ok (.ok d)
  | d, tx :: vtx =>
    match d.processLockUnlockTransaction env tx with
    | .ok d => processTransactions d vtx
    | .error invalid =>
      if invalid.result = .TX_CONSENSUS then .ok (.error invalid.reason) else .error .assertion

/-- `CheckCreditPoolDiffForBlock`, once the pool of the previous block is there. -/
def checkDiff (block : CBlock) (pprev : CBlockIndex) (cbTx : CCbTx) (pool : CCreditPool) :
    Except Failure (Except String Unit) := do
  let d ← CCreditPoolDiff.create p pool pprev (env.getBlockSubsidy (block :: pprev))
  match ← processTransactions env d block.vtx.tail with
  | .error reason => .ok (.error reason)
  | .ok d =>
    if cbTx.creditPoolBalance ≠ d.getTotalLocked then
      .ok (.error "bad-cbtx-assetlocked-amount")
    else
      .ok (.ok ())

/-- The handlers of exceptions: the block is refused. -/
def caught (reason : String) : Failure → Except Failure (Except String Unit)
  | .assertion => .error .assertion
  | .exception _ => .ok (.error reason)

/-- `CheckCreditPoolDiffForBlock`. -/
def checkCreditPoolDiffForBlock (block : CBlock) (pprev : CBlockIndex) (cbTx : CCbTx)
    (man : CCreditPoolManager) : Except Failure (Except String Unit) × CCreditPoolManager :=
  if deploymentActiveAt (block :: pprev) p.DIP0008Height = false then
    (.ok (.ok ()), man)
  else if deploymentActiveAt (block :: pprev) p.V20Height = false then
    (.ok (.ok ()), man)
  else
    match getCreditPool env p pprev man with
    | (.error failure, man) => (caught "failed-getcreditpooldiff" failure, man)
    | (.ok pool, man) => (checkDiff env p block pprev cbTx pool, man)

/-- `COutPoint::IsNull` of the only input. -/
def isCoinBase (tx : Tx) : Bool := tx.vin == [⟨0, 0xffffffff⟩]

/-- The types that `CheckTransaction` lets have no inputs. -/
def allowEmptyTxIn (tx : Tx) : Bool := decide (tx.nType = 6 ∨ tx.nType = 7 ∨ tx.nType = 9)

def allowEmptyTxOut (tx : Tx) : Bool := decide (tx.nType = 6 ∨ tx.nType = 7)

/-- The values of the outputs are in range, and so is their sum. -/
def checkOutputs : ℤ → List CTxOut → Except String Unit
  | _, [] => .ok ()
  | nValueOut, txout :: vout =>
    if txout.nValue < 0 then .error "bad-txns-vout-negative"
    else if txout.nValue > MAX_MONEY then .error "bad-txns-vout-toolarge"
    else if moneyRange (nValueOut+txout.nValue) = false then
      .error "bad-txns-txouttotal-toolarge"
    else checkOutputs (nValueOut+txout.nValue) vout

/-- The part of `CheckTransaction` that is about amounts. -/
def checkTransaction (tx : Tx) : Except String Unit :=
  if allowEmptyTxIn tx = false ∧ tx.vin = [] then .error "bad-txns-vin-empty"
  else if allowEmptyTxOut tx = false ∧ tx.vout = [] then .error "bad-txns-vout-empty"
  else checkOutputs 0 tx.vout

/-- The part of `ContextualCheckTransaction` that is about types. -/
def contextualCheckTransaction (pindexPrev : CBlockIndex) (tx : Tx) : Except String Unit :=
  if nHeight pindexPrev+1 < p.DIP0003Height then .ok ()
  else if tx.isSpecialTxVersion = true then
    if tx.nType ∉ contextualTypes then .error "bad-txns-type"
    else if isCoinBase tx = true ∧ tx.nType ≠ TRANSACTION_COINBASE then
      .error "bad-txns-cb-type"
    else .ok ()
  else if tx.nType ≠ 0 then .error "bad-txns-type"
  else .ok ()

/-- The coinbase payload that `ProcessSpecialTxsInBlock` starts with. -/
def blockCbTx (block : CBlock) (pprev : CBlockIndex) : Except String (Option CCbTx) :=
  match block.vtx.head?.filter fun tx => tx.nType = TRANSACTION_COINBASE with
  | none =>
    if deploymentActiveAt (block :: pprev) p.DIP0003Height = true then .error "bad-cbtx-version"
    else .ok none
  | some tx =>
    if isCoinBase tx = false then .error "bad-cbtx-invalid"
    else
      match getCbTx env tx with
      | none => .error "bad-cbtx-payload"
      | some cbTx => .ok (some cbTx)

/-- `CheckSpecialTxInner`, for the types of the credit pool. -/
def checkSpecialTx (pindexPrev : CBlockIndex) (indexes : CRangesSet) (tx : Tx) :
    Except String Unit :=
  if isLock tx = false ∧ isUnlock tx = false then
    .ok ()
  else if deploymentActiveAfter pindexPrev p.DIP0003Height = false then
    .error "bad-tx-type"
  else
    (checkAssetLockUnlockTx env tx pindexPrev indexes).mapError TxInvalid.reason

/-- The transactions after a coinbase transaction of the special type. -/
def uncheckedTxs (block : CBlock) : List Tx :=
  match block.vtx with
  | [] => []
  | tx :: vtx => if tx.nType = TRANSACTION_COINBASE then vtx else tx :: vtx

/-- The indexes that `ProcessSpecialTxsInBlock` holds the unlocks against. -/
def spentIndexes (block : CBlock) (pprev : CBlockIndex) (man : CCreditPoolManager) :
    Except Failure CRangesSet × CCreditPoolManager :=
  if deploymentActiveAt (block :: pprev) p.V20Height = true then
    let (pool, man) := getCreditPool env p pprev man
    (pool.map CCreditPool.indexes, man)
  else
    (.ok {}, man)

/-- The part of `ProcessSpecialTxsInBlock` that is about the credit pool. -/
def processSpecialTxsInBlock (block : CBlock) (pprev : CBlockIndex) (man : CCreditPoolManager) :
    Except Failure (Except String Unit) × CCreditPoolManager :=
  match blockCbTx env p block pprev with
  | .error reason => (.ok (.error reason), man)
  | .ok opt_cbTx =>
    match spentIndexes env p block pprev man with
    | (.error failure, man) => (caught "failed-procspectxsinblock" failure, man)
    | (.ok indexes, man) =>
      match (uncheckedTxs block).forM (checkSpecialTx env p pprev indexes) with
      | .error reason => (.ok (.error reason), man)
      | .ok () =>
        match opt_cbTx with
        | none => (.ok (.ok ()), man)
        | some cbTx => checkCreditPoolDiffForBlock env p block pprev cbTx man

/-- `GetAssetUnlockFee`, all that `CheckTxInputs` asks of an unlock. -/
def checkUnlockFee (tx : Tx) : Except String Unit :=
  if isUnlock tx = false then .ok ()
  else
    match getAssetUnlock env tx with
    | none => .error "bad-assetunlocktx-payload"
    | some assetUnlockTx =>
      if assetUnlockTx.fee = 0 ∨ moneyRange assetUnlockTx.fee.toNat = false then
        .error "bad-txns-assetunlock-fee-outofrange"
      else .ok ()

/-- What the checks of a block and its connection ask of the credit pool. -/
def connectBlock (block : CBlock) (pprev : CBlockIndex) (man : CCreditPoolManager) :
    Except Failure (Except String Unit) × CCreditPoolManager :=
  match block.vtx.forM checkTransaction with
  | .error reason => (.ok (.error reason), man)
  | .ok () =>
    match block.vtx.forM (contextualCheckTransaction p pprev) with
    | .error reason => (.ok (.error reason), man)
    | .ok () =>
      match processSpecialTxsInBlock env p block pprev man with
      | (.ok (.ok ()), man) => (.ok (block.vtx.tail.forM (checkUnlockFee env)), man)
      | refused => refused

end BabaChain.CreditPool
