import BabaChain.ListBuilder

/-! The checks of provider transactions against a masternode list. -/
namespace BabaChain.Evo.ByValue
open BLS ByteWriter Guards

variable {G : Type*} [DecidableEq G] (codec : KeyCodec G) (sha256d : List UInt8 → uint256)
  (env : Environment G)

def calcTxInputsHash (tx : CTransaction G) : uint256 :=
  sha256d (tx.vin.flatMap fun prevout => writeUint256 prevout.hash++writeLE 4 prevout.n.toNat)

def checkInputsHash (tx : CTransaction G) (inputsHash : uint256) : Except Refusal PUnit :=
  refuse (calcTxInputsHash sha256d tx ≠ inputsHash) (consensus "bad-protx-inputs-hash")

def isVersionChangeValid (pindexPrev : CBlockIndex) (isUpdateService : Bool) (state_version : ℤ)
    (tx_version : UInt16) : Except Refusal PUnit :=
  -- the restrictions apply since v24
  if !pindexPrev.isV24Active then .ok ⟨⟩
  else do
    refuse (ProTxVersion.BasicBLS.toNat ≤ state_version ∧ tx_version = ProTxVersion.LegacyBLS)
      (consensus "bad-protx-version-downgrade")
    refuse (state_version = ProTxVersion.LegacyBLS.toNat ∧ ProTxVersion.BasicBLS < tx_version)
      (consensus "bad-protx-version-upgrade")
    refuse (!isUpdateService ∧ tx_version = ProTxVersion.ExtAddr)
      (consensus "bad-protx-version-tx-type")

/-- Where the collateral of a registration goes to, and the key that has to sign
for an external one. -/
def collateralDestination (getCoin : COutPoint → Option CTxOut) (tx : CTransaction G)
    (proTx : CProRegTx G) : Except Refusal (CTxDestination × Option uint160) :=
  if proTx.collateralOutpoint.hash ≠ 0 then
    if CDeterministicMNList.badCollateral getCoin proTx then .error (badSpecial "bad-protx-collateral")
    else
      match (getCoin proTx.collateralOutpoint).bind fun out => env.extractDestination out.scriptPubKey with
      | none => .error (badSpecial "bad-protx-collateral-dest")
      | some (.PKHash key) => .ok (.PKHash key, some key)
      | some (.Other _) => .error (badSpecial "bad-protx-collateral-pkh")
  else
    match tx.vout[proTx.collateralOutpoint.n.toNat]? with
    | none => .error (badSpecial "bad-protx-collateral-index")
    | some out =>
      if out.nValue ≠ proTx.nType.collat_amount then .error (badSpecial "bad-protx-collateral")
      else
        match env.extractDestination out.scriptPubKey with
        | none => .error (badSpecial "bad-protx-collateral-dest")
        | some dest => .ok (dest, none)

namespace CDeterministicMNList

/-- An entry of a registration must be new to the list, or belong to the masternode
with the same collateral. -/
def checkEntryForCollateral (collateralOutpoint : COutPoint) (mnList : CDeterministicMNList G)
    (entry : NetInfoEntry) : Except Refusal PUnit :=
  match (netInfoProperty entry : NamedProperty G).2 with
  | some v =>
    refuse (mnList.hasUniqueProperty codec sha256d v ∧
      (mnList.getUniquePropertyMN codec sha256d v).map CDeterministicMN.collateralOutpoint ≠
        some collateralOutpoint)
      (badSpecial "bad-protx-dup-netinfo-entry")
  | none => .error (badSpecial "bad-protx-netinfo-entry")

def checkEntryForMN (proTxHash : uint256) (mnList : CDeterministicMNList G) (entry : NetInfoEntry) :
    Except Refusal PUnit :=
  match (netInfoProperty entry : NamedProperty G).2 with
  | some v =>
    refuse (mnList.hasUniqueProperty codec sha256d v ∧
      (mnList.getUniquePropertyMN codec sha256d v).map CDeterministicMN.proTxHash ≠ some proTxHash)
      (badSpecial "bad-protx-dup-netinfo-entry")
  | none => .error (badSpecial "bad-protx-netinfo-entry")

def checkProRegTx (pindexPrev : CBlockIndex) (getCoin : COutPoint → Option CTxOut) (check_sigs : Bool)
    (mnList : CDeterministicMNList G) (tx : CTransaction G) (proTx : CProRegTx G) :
    Except Refusal PUnit := do
  proTx.isTriviallyValid codec env pindexPrev
  refuse (pindexPrev.isV24Active ∧ proTx.nVersion < ProTxVersion.BasicBLS)
    (consensus "bad-protx-version-disallowed")
  onlyIf (!proTx.netInfo.isEmpty) (checkService env.net proTx.netInfo)
  onlyIf (proTx.nType = .Evo)
    (checkPlatformFields env.net proTx.platformNodeID proTx.platformP2PPort proTx.platformHTTPPort
      proTx.netInfo (ProTxVersion.ExtAddr ≤ proTx.nVersion))
  match collateralDestination env getCoin tx proTx with
  | .error refusal => .error refusal
  | .ok (collateralTxDest, keyForPayloadSig) =>
    refuse (collateralTxDest = .PKHash proTx.keyIDOwner ∨ collateralTxDest = .PKHash proTx.keyIDVoting)
      (badSpecial "bad-protx-collateral-reuse")
    proTx.netInfo.getEntries.forM
      (mnList.checkEntryForCollateral codec sha256d (collateralOf tx proTx))
    refuse (mnList.hasUniqueProperty codec sha256d (.keyID proTx.keyIDOwner) ∨
      mnList.hasUniqueProperty codec sha256d (.operatorKey proTx.pubKeyOperator))
      (badSpecial "bad-protx-dup-key")
    refuse (proTx.nType = .Evo ∧ mnList.hasUniqueProperty codec sha256d (.nodeID proTx.platformNodeID))
      (badSpecial "bad-protx-dup-platformnodeid")
    refuse (!pindexPrev.isDIP0003Enforced ∧ proTx.keyIDOwner ≠ proTx.keyIDVoting)
      (badSpecial "bad-protx-key-not-same")
    checkInputsHash sha256d tx proTx.inputsHash
    match keyForPayloadSig with
    | some key => refuse (check_sigs ∧ !env.checkStringSig proTx key) (consensus "bad-protx-sig")
    | none => refuse (proTx.vchSig ≠ []) (consensus "bad-protx-sig")

def checkProUpServTx (pindexPrev : CBlockIndex) (check_sigs : Bool) (mnList : CDeterministicMNList G)
    (tx : CTransaction G) (proTx : CProUpServTx) : Except Refusal PUnit := do
  proTx.isTriviallyValid pindexPrev
  checkService env.net proTx.netInfo
  onlyIf (proTx.nType = .Evo)
    (checkPlatformFields env.net proTx.platformNodeID proTx.platformP2PPort proTx.platformHTTPPort
      proTx.netInfo (ProTxVersion.ExtAddr ≤ proTx.nVersion))
  match mnList.getMN proTx.proTxHash with
  | none => .error (consensus "bad-protx-hash")
  | some dmn =>
    isVersionChangeValid pindexPrev true dmn.pdmnState.nVersion proTx.nVersion
    proTx.netInfo.getEntries.forM (mnList.checkEntryForMN codec sha256d proTx.proTxHash)
    refuse (proTx.nType = .Evo ∧ mnList.hasUniqueProperty codec sha256d (.nodeID proTx.platformNodeID) ∧
      (mnList.getUniquePropertyMN codec sha256d (.nodeID proTx.platformNodeID)).map
        CDeterministicMN.proTxHash ≠ some proTx.proTxHash)
      (badSpecial "bad-protx-dup-platformnodeid")
    refuse (proTx.scriptOperatorPayout ≠ [] ∧ dmn.nOperatorReward = 0)
      (badSpecial "bad-protx-operator-payee")
    refuse (proTx.scriptOperatorPayout ≠ [] ∧ !isPayToPublicKeyHash proTx.scriptOperatorPayout ∧
      !isPayToScriptHash proTx.scriptOperatorPayout) (badSpecial "bad-protx-operator-payee")
    checkInputsHash sha256d tx proTx.inputsHash
    refuse (check_sigs ∧ !env.checkServiceSig proTx (dmn.pdmnState.pubKeyOperator.get codec).1)
      (consensus "bad-protx-sig")

def checkProUpRegTx (pindexPrev : CBlockIndex) (getCoin : COutPoint → Option CTxOut)
    (check_sigs : Bool) (mnList : CDeterministicMNList G) (tx : CTransaction G) (proTx : CProUpRegTx G) :
    Except Refusal PUnit := do
  proTx.isTriviallyValid codec pindexPrev
  match env.extractDestination proTx.scriptPayout with
  | none => .error (badSpecial "bad-protx-payee-dest")
  | some payoutDest =>
    match mnList.getMN proTx.proTxHash with
    | none => .error (consensus "bad-protx-hash")
    | some dmn =>
      isVersionChangeValid pindexPrev false dmn.pdmnState.nVersion proTx.nVersion
      refuse (payoutDest = .PKHash dmn.pdmnState.keyIDOwner ∨ payoutDest = .PKHash proTx.keyIDVoting)
        (badSpecial "bad-protx-payee-reuse")
      match (getCoin dmn.collateralOutpoint).filter fun out => out.nValue ≠ -1 with
      | none => .error (consensus "bad-protx-collateral")
      | some out =>
        match env.extractDestination out.scriptPubKey with
        | none => .error (consensus "bad-protx-collateral-dest")
        | some collateralTxDest =>
          refuse (collateralTxDest = .PKHash dmn.pdmnState.keyIDOwner ∨
            collateralTxDest = .PKHash proTx.keyIDVoting) (badSpecial "bad-protx-collateral-reuse")
          refuse (mnList.hasUniqueProperty codec sha256d (.operatorKey proTx.pubKeyOperator) ∧
            (mnList.getUniquePropertyMN codec sha256d (.operatorKey proTx.pubKeyOperator)).map
              CDeterministicMN.proTxHash ≠ some proTx.proTxHash)
            (badSpecial "bad-protx-dup-key")
          refuse (!pindexPrev.isDIP0003Enforced ∧ dmn.pdmnState.keyIDOwner ≠ proTx.keyIDVoting)
            (badSpecial "bad-protx-key-not-same")
          checkInputsHash sha256d tx proTx.inputsHash
          refuse (check_sigs ∧ !env.checkRegistrarSig proTx dmn.pdmnState.keyIDOwner)
            (consensus "bad-protx-sig")

def checkProUpRevTx (pindexPrev : CBlockIndex) (check_sigs : Bool) (mnList : CDeterministicMNList G)
    (tx : CTransaction G) (proTx : CProUpRevTx) : Except Refusal PUnit := do
  proTx.isTriviallyValid pindexPrev
  match mnList.getMN proTx.proTxHash with
  | none => .error (consensus "bad-protx-hash")
  | some dmn =>
    isVersionChangeValid pindexPrev false dmn.pdmnState.nVersion proTx.nVersion
    checkInputsHash sha256d tx proTx.inputsHash
    refuse (check_sigs ∧ !env.checkRevokeSig proTx (dmn.pdmnState.pubKeyOperator.get codec).1)
      (consensus "bad-protx-sig")

def checkSpecialTx (pindexPrev : CBlockIndex) (getCoin : COutPoint → Option CTxOut) (check_sigs : Bool)
    (mnList : CDeterministicMNList G) (tx : CTransaction G) : Except Refusal PUnit :=
  match tx.payload with
  | .providerRegister (some proTx) =>
    mnList.checkProRegTx codec sha256d env pindexPrev getCoin check_sigs tx proTx
  | .providerUpdateService (some proTx) =>
    mnList.checkProUpServTx codec sha256d env pindexPrev check_sigs tx proTx
  | .providerUpdateRegistrar (some proTx) =>
    mnList.checkProUpRegTx codec sha256d env pindexPrev getCoin check_sigs tx proTx
  | .providerUpdateRevoke (some proTx) =>
    mnList.checkProUpRevTx codec sha256d env pindexPrev check_sigs tx proTx
  | .providerRegister none | .providerUpdateService none | .providerUpdateRegistrar none
  | .providerUpdateRevoke none => .error (consensus "bad-protx-payload")
  | .quorumCommitment _ | .other =>
    refuse (!env.checkOther pindexPrev tx) (badSpecial "bad-tx-type-check")

end CDeterministicMNList

end BabaChain.Evo.ByValue
