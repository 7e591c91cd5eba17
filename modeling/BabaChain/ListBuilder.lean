import BabaChain.ProviderTx

/-! The masternode list of a block, built from the list of the block before. -/
namespace BabaChain.Evo.ByValue
open BLS ByteWriter Guards
open Std (ExtTreeMap)

variable {G : Type*}

namespace CDeterministicMNState

def ofProRegTx (proTx : CProRegTx G) : CDeterministicMNState G where
  nVersion := proTx.nVersion.toNat
  keyIDOwner := proTx.keyIDOwner
  pubKeyOperator := proTx.pubKeyOperator
  keyIDVoting := proTx.keyIDVoting
  netInfo := proTx.netInfo
  scriptPayout := proTx.scriptPayout
  platformNodeID := proTx.platformNodeID
  platformP2PPort := proTx.platformP2PPort
  platformHTTPPort := proTx.platformHTTPPort

/-- The ports of the platform stay. -/
def resetOperatorFields (state : CDeterministicMNState G) : CDeterministicMNState G :=
  {state with
    nVersion := ProTxVersion.LegacyBLS.toNat
    pubKeyOperator := {}
    netInfo := .makeNetInfo ProTxVersion.LegacyBLS
    scriptOperatorPayout := []
    nRevocationReason := 0
    platformNodeID := 0}

def updateConfirmedHash (sha256 : List UInt8 → uint256) (proTxHash confirmedHash : uint256)
    (state : CDeterministicMNState G) : CDeterministicMNState G :=
  {state with
    confirmedHash
    confirmedHashWithProRegTxHash := sha256 (writeUint256 proTxHash++writeUint256 confirmedHash)}

end CDeterministicMNState

section Payee

def compareByLastPaid_getHeight (dmn : CDeterministicMN G) : ℤ :=
  if dmn.pdmnState.nPoSeRevivedHeight ≠ -1 ∧
      dmn.pdmnState.nLastPaidHeight < dmn.pdmnState.nPoSeRevivedHeight then
    dmn.pdmnState.nPoSeRevivedHeight
  else if dmn.pdmnState.nLastPaidHeight = 0 then dmn.pdmnState.nRegisteredHeight
  else dmn.pdmnState.nLastPaidHeight

def compareByLastPaid (a b : CDeterministicMN G) : Bool :=
  if compareByLastPaid_getHeight a = compareByLastPaid_getHeight b then decide (a.proTxHash < b.proTxHash)
  else decide (compareByLastPaid_getHeight a < compareByLastPaid_getHeight b)

/-- The payee of the last block, where it is an EvoNode that is not through with its
payments. -/
def inPayments (nHeight : ℤ) (dmn : CDeterministicMN G) : Bool :=
  dmn.pdmnState.nLastPaidHeight == nHeight && decide (dmn.nType = .Evo) &&
    decide (dmn.pdmnState.nConsecutivePayments < MnType.voting_weight .Evo)

def firstToPay (best : Option (CDeterministicMN G)) (dmn : CDeterministicMN G) :
    Option (CDeterministicMN G) :=
  match best with
  | none => some dmn
  | some best => if compareByLastPaid dmn best then some dmn else some best

def CDeterministicMNList.getMNPayee (pindexPrev : CBlockIndex) (list : CDeterministicMNList G) :
    Option (CDeterministicMN G) :=
  let best :=
    if pindexPrev.isV19Active && !pindexPrev.isMNRewardReallocation then
      list.validMNs.foldl (fun best dmn => if inPayments list.nHeight dmn then some dmn else best) none
    else none
  match best with
  | some dmn => some dmn
  | none => list.validMNs.foldl firstToPay none

end Payee

/-- A block is invalid, or an operation of the list throws. -/
inductive BuildFailure
  | invalid (reason : String)
  | thrown (what : String)
deriving DecidableEq, Repr

abbrev Built := Except BuildFailure

def orThrow {α : Type*} (r : Except String α) : Built α := r.mapError .thrown

variable [DecidableEq G] (codec : KeyCodec G) (sha256d : List UInt8 → uint256) (env : Environment G)

namespace CDeterministicMNList

/-- One masternode of the old list in the loop over it. -/
def confirm (pindexPrev : CBlockIndex) (newList : CDeterministicMNList G) (dmn : CDeterministicMN G) :
    Built (CDeterministicMNList G) :=
  if dmn.pdmnState.confirmedHash ≠ 0 then .ok newList
  else if env.nMasternodeMinimumConfirmations ≤ pindexPrev.nHeight-dmn.pdmnState.nRegisteredHeight then
    orThrow (newList.updateMNByHash codec sha256d dmn.proTxHash
      (dmn.pdmnState.updateConfirmedHash env.sha256 dmn.proTxHash pindexPrev.blockHash))
  else .ok newList

/-- The outpoint of a registration's collateral: its own output or an external one. -/
def collateralOf (tx : CTransaction G) (proTx : CProRegTx G) : COutPoint :=
  if proTx.collateralOutpoint.hash = 0 then ⟨tx.hash, proTx.collateralOutpoint.n⟩
  else proTx.collateralOutpoint

/-- Whether an external collateral is not there or not of the right amount. -/
def badCollateral (getCoin : COutPoint → Option CTxOut) (proTx : CProRegTx G) : Bool :=
  decide (proTx.collateralOutpoint.hash ≠ 0) &&
    !((getCoin proTx.collateralOutpoint).any fun out => out.nValue == proTx.nType.collat_amount)

/-- The masternode that a registration makes. -/
def registeredBy (nHeight : ℤ) (tx : CTransaction G) (proTx : CProRegTx G)
    (newList : CDeterministicMNList G) : CDeterministicMN G where
  internalId := newList.nTotalRegisteredCount.toUInt64
  proTxHash := tx.hash
  collateralOutpoint := collateralOf tx proTx
  nOperatorReward := proTx.nOperatorReward
  nType := proTx.nType
  pdmnState :=
    let state := {CDeterministicMNState.ofProRegTx proTx with nRegisteredHeight := nHeight}
    -- without an address it waits for a service update
    if proTx.netInfo.isEmpty then state.banIfNotBanned nHeight else state

/-- Removes the masternode whose collateral is registered anew. -/
def replaceByCollateral (outpoint : COutPoint) (newList : CDeterministicMNList G) : Built (CDeterministicMNList G) :=
  match newList.getMNByCollateral codec sha256d outpoint with
  | some replacedDmn => orThrow (newList.removeMN codec sha256d replacedDmn.proTxHash)
  | none => .ok newList

/-- An entry of a registration must be new to the list. -/
def checkNewEntry (newList : CDeterministicMNList G) (entry : NetInfoEntry) : Built PUnit :=
  match (netInfoProperty entry : NamedProperty G).2 with
  | some v => refuse (newList.hasUniqueProperty codec sha256d v) (.invalid "bad-protx-dup-netinfo-entry")
  | none => .error (.invalid "bad-protx-netinfo-entry")

def applyProRegTx (nHeight : ℤ) (getCoin : COutPoint → Option CTxOut) (tx : CTransaction G)
    (proTx : CProRegTx G) (newList : CDeterministicMNList G) : Built (CDeterministicMNList G) := do
  -- the id is taken before a masternode is replaced, which does not change the count
  let dmn := registeredBy nHeight tx proTx newList
  refuse (badCollateral getCoin proTx) (.invalid "bad-protx-collateral")
  let newList ← newList.replaceByCollateral codec sha256d dmn.collateralOutpoint
  proTx.netInfo.getEntries.forM (newList.checkNewEntry codec sha256d)
  refuse (newList.hasUniqueProperty codec sha256d (.keyID proTx.keyIDOwner) ∨
    newList.hasUniqueProperty codec sha256d (.operatorKey proTx.pubKeyOperator))
    (.invalid "bad-protx-dup-key")
  orThrow (newList.addMN codec sha256d dmn true)

/-- An entry of a service update must be new to the list or the masternode's own. -/
def checkOwnEntry (proTxHash : uint256) (newList : CDeterministicMNList G) (entry : NetInfoEntry) :
    Built PUnit :=
  match (netInfoProperty entry : NamedProperty G).2 with
  | some v =>
    refuse (newList.hasUniqueProperty codec sha256d v ∧
      (newList.getUniquePropertyMN codec sha256d v).map CDeterministicMN.proTxHash ≠ some proTxHash)
      (.invalid "bad-protx-dup-netinfo-entry")
  | none => .error (.invalid "bad-protx-netinfo-entry")

def serviceState (nHeight : ℤ) (is_v24_deployed : Bool) (proTx : CProUpServTx)
    (state : CDeterministicMNState G) : CDeterministicMNState G :=
  let state := if is_v24_deployed then {state with nVersion := proTx.nVersion.toNat} else state
  let state := {state with
    netInfo := proTx.netInfo
    scriptOperatorPayout := proTx.scriptOperatorPayout}
  let state :=
    if proTx.nType = .Evo then {state with platformNodeID := proTx.platformNodeID} else state
  let state :=
    if proTx.nType = .Evo ∧ proTx.nVersion < ProTxVersion.ExtAddr then {state with
      platformP2PPort := proTx.platformP2PPort
      platformHTTPPort := proTx.platformHTTPPort}
    else state
  -- only revive when all keys are set
  if state.isBanned ∧ state.pubKeyOperator.isDefault = false ∧ state.keyIDVoting ≠ 0 ∧
      state.keyIDOwner ≠ 0 then
    state.revive nHeight
  else state

def applyProUpServTx (nHeight : ℤ) (is_v24_deployed : Bool) (proTx : CProUpServTx)
    (newList : CDeterministicMNList G) : Built (CDeterministicMNList G) := do
  proTx.netInfo.getEntries.forM (newList.checkOwnEntry codec sha256d proTx.proTxHash)
  match newList.getMN proTx.proTxHash with
  | none => .error (.invalid "bad-protx-hash")
  | some dmn =>
    refuse (proTx.nType ≠ dmn.nType) (.invalid "bad-protx-type-mismatch")
    refuse (!isValidMnType proTx.nType) (.invalid "bad-protx-type")
    orThrow (newList.updateMNByHash codec sha256d proTx.proTxHash
      (serviceState nHeight is_v24_deployed proTx dmn.pdmnState))

/-- What a new operator key resets. -/
def rekeyedState (nHeight : ℤ) (proTx : CProUpRegTx G) (state : CDeterministicMNState G) :
    CDeterministicMNState G :=
  let state := state.resetOperatorFields.banIfNotBanned nHeight
  let nVersion :=
    if (ProTxVersion.BasicBLS.toNat : ℤ) < state.nVersion then state.nVersion else proTx.nVersion.toNat
  {state with
    nVersion
    netInfo := .makeNetInfo (UInt16.ofInt nVersion)
    pubKeyOperator := proTx.pubKeyOperator}

def registrarState (nHeight : ℤ) (proTx : CProUpRegTx G) (state : CDeterministicMNState G) :
    CDeterministicMNState G :=
  let state :=
    if keyEqual codec state.pubKeyOperator proTx.pubKeyOperator then state
    else rekeyedState nHeight proTx state
  {state with keyIDVoting := proTx.keyIDVoting, scriptPayout := proTx.scriptPayout}

def applyProUpRegTx (nHeight : ℤ) (proTx : CProUpRegTx G) (newList : CDeterministicMNList G) : Built (CDeterministicMNList G) :=
  match newList.getMN proTx.proTxHash with
  | none => .error (.invalid "bad-protx-hash")
  | some dmn => orThrow (newList.updateMNByHash codec sha256d proTx.proTxHash
      (registrarState codec nHeight proTx dmn.pdmnState))

def revokedState (nHeight : ℤ) (proTx : CProUpRevTx) (state : CDeterministicMNState G) :
    CDeterministicMNState G :=
  {state.resetOperatorFields.banIfNotBanned nHeight with nRevocationReason := proTx.nReason}

def applyProUpRevTx (nHeight : ℤ) (proTx : CProUpRevTx) (newList : CDeterministicMNList G) : Built (CDeterministicMNList G) :=
  match newList.getMN proTx.proTxHash with
  | none => .error (.invalid "bad-protx-hash")
  | some dmn => orThrow (newList.updateMNByHash codec sha256d proTx.proTxHash
      (revokedState nHeight proTx dmn.pdmnState))

/-- One member of a quorum whose commitment is in the block. -/
def punishMember (newList : CDeterministicMNList G) (member : uint256 × Bool) : Built (CDeterministicMNList G) :=
  if !newList.hasMN member.1 then .ok newList
  else if !member.2 then
    orThrow (newList.poSePunish codec sha256d member.1 (newList.calcPenalty 66))
  else .ok newList

/-- `HandleQuorumCommitment`. -/
def handleQuorumCommitment (qc : CFinalCommitmentTxPayload) (members : List uint256)
    (newList : CDeterministicMNList G) : Built (CDeterministicMNList G) :=
  (members.zip qc.validMembers).foldlM (punishMember codec sha256d) newList

def applyCommitment (pindexPrev : CBlockIndex) (qc : CFinalCommitmentTxPayload)
    (newList : CDeterministicMNList G) : Built (CDeterministicMNList G) :=
  if qc.isNull then .ok newList
  else
    match env.dkgInterval qc.llmqType with
    | none => .error (.invalid "bad-qc-commitment-type")
    | some dkgInterval =>
      let qcnHeight := qc.nHeight.toInt
      let quorumHeight := qcnHeight-qcnHeight.tmod dkgInterval+qc.quorumIndex
      if env.getAncestor pindexPrev quorumHeight ≠ some qc.quorumHash then
        .error (.invalid "bad-qc-quorum-hash")
      else newList.handleQuorumCommitment codec sha256d qc
        (env.getAllQuorumMembers qc.llmqType qc.quorumHash)

/-- One transaction of the first loop over the block. -/
def applySpecialTx (pindexPrev : CBlockIndex) (getCoin : COutPoint → Option CTxOut)
    (newList : CDeterministicMNList G) (tx : CTransaction G) : Built (CDeterministicMNList G) :=
  match tx.payload with
  | .providerRegister (some proTx) =>
    newList.applyProRegTx codec sha256d (pindexPrev.nHeight+1) getCoin tx proTx
  | .providerUpdateService (some proTx) =>
    newList.applyProUpServTx codec sha256d (pindexPrev.nHeight+1) pindexPrev.isV24Active proTx
  | .providerUpdateRegistrar (some proTx) =>
    newList.applyProUpRegTx codec sha256d (pindexPrev.nHeight+1) proTx
  | .providerUpdateRevoke (some proTx) =>
    newList.applyProUpRevTx codec sha256d (pindexPrev.nHeight+1) proTx
  | .quorumCommitment (some qc) => newList.applyCommitment codec sha256d env pindexPrev qc
  | .providerRegister none | .providerUpdateService none | .providerUpdateRegistrar none
  | .providerUpdateRevoke none => .error (.invalid "bad-protx-payload")
  | .quorumCommitment none => .error (.invalid "bad-qc-payload")
  | .other => .ok newList

/-- One input of the second loop: whoever's collateral it spends is removed. -/
def spendCollateral (newList : CDeterministicMNList G) (prevout : COutPoint) : Built (CDeterministicMNList G) :=
  match newList.getMNByCollateral codec sha256d prevout with
  | none => .ok newList
  | some dmn =>
    if dmn.collateralOutpoint = prevout then orThrow (newList.removeMN codec sha256d dmn.proTxHash)
    else .ok newList

def paidState (nHeight : ℤ) (isMNRewardReallocation : Bool) (dmn : CDeterministicMN G) :
    CDeterministicMNState G :=
  {dmn.pdmnState with
    nLastPaidHeight := nHeight
    nConsecutivePayments :=
      if dmn.nType = .Evo ∧ !isMNRewardReallocation then dmn.pdmnState.nConsecutivePayments+1
      else dmn.pdmnState.nConsecutivePayments}

/-- The payee of the old list is paid, if it is still there. -/
def payPayee (pindexPrev : CBlockIndex) (payee : Option (CDeterministicMN G))
    (newList : CDeterministicMNList G) : Built (CDeterministicMNList G) :=
  match payee.bind fun payee => newList.getMN payee.proTxHash with
  | none => .ok newList
  | some dmn => orThrow (newList.updateMNByHash codec sha256d dmn.proTxHash
      (paidState (pindexPrev.nHeight+1) pindexPrev.isMNRewardReallocation dmn))

/-- One masternode in the loop that resets what was paid in a row. -/
def resetPayments (pindexPrev : CBlockIndex) (payee : Option (CDeterministicMN G))
    (newList : CDeterministicMNList G) (dmn : CDeterministicMN G) : Built (CDeterministicMNList G) :=
  if dmn.nType ≠ .Evo then .ok newList
  else if payee.map CDeterministicMN.proTxHash = some dmn.proTxHash ∧
      !pindexPrev.isMNRewardReallocation then .ok newList
  else if dmn.pdmnState.nConsecutivePayments = 0 then .ok newList
  else orThrow (newList.updateMNByHash codec sha256d dmn.proTxHash
    {dmn.pdmnState with nConsecutivePayments := 0})

/-- `BuildNewListFromBlock`, for the transactions after the coinbase. -/
def buildNewListFromBlock (pindexPrev : CBlockIndex) (getCoin : COutPoint → Option CTxOut)
    (txs : List (CTransaction G)) (oldList : CDeterministicMNList G) : Built (CDeterministicMNList G) := do
  let newList := {oldList with blockHash := 0, nHeight := pindexPrev.nHeight+1}
  let payee := oldList.getMNPayee pindexPrev
  let newList ← oldList.mns.foldlM (confirm codec sha256d env pindexPrev) newList
  let newList ← orThrow (newList.decreaseScores codec sha256d)
  let newList ← txs.foldlM (applySpecialTx codec sha256d env pindexPrev getCoin) newList
  let newList ← (txs.flatMap CTransaction.vin).foldlM (spendCollateral codec sha256d) newList
  let newList ← newList.payPayee codec sha256d pindexPrev payee
  newList.mns.foldlM (resetPayments codec sha256d pindexPrev payee) newList

end CDeterministicMNList

end BabaChain.Evo.ByValue
