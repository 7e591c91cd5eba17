import BabaChain.Consensus
import BabaChain.Lib.Guards
import BabaChain.ValueListInvariant

/-! Provider transactions, and what of them is checked without a masternode list. -/
namespace BabaChain

def isValidMnType (nType : MnType) : Bool := decide (nType.toNat < MnType.COUNT.toNat)

def MnType.collat_amount : MnType → ℤ
  | .Regular => 1000*COIN
  | .Evo => 4000*COIN
  | _ => 1000000000*COIN

def MnType.voting_weight : MnType → ℕ
  | .Regular => 1
  | .Evo => 4
  | _ => 0

namespace Evo
open ByteWriter
open Std (ExtTreeMap)

inductive NetInfoStatus
  | BadInput | Duplicate | MaxLimit
  | BadAddress | BadPort | BadType | NotRoutable | Malformed
  | Success
deriving DecidableEq, Repr

namespace NetInfoPurpose

def CORE_P2P : UInt8 := 0
def PLATFORM_P2P : UInt8 := 1
def PLATFORM_HTTPS : UInt8 := 2

end NetInfoPurpose

def isValidPurpose (purpose : UInt8) : Bool := purpose ≤ NetInfoPurpose.PLATFORM_HTTPS

/-- What the rules for addresses and ports ask of the network and its parameters. -/
structure NetRules where
  isNodeOnMainnet : Bool
  mainDefaultPort : UInt16
  mainDefaultPlatformP2PPort : UInt16
  mainDefaultPlatformHTTPPort : UInt16
  requireRoutableExternalIP : Bool
  isRoutable : CService → Bool
  isBadPort : UInt16 → Bool
  toStringAddr : NetInfoEntry → List UInt8

def I2P_SAM31_PORT : UInt16 := 0

def asciiBytes (s : String) : List UInt8 := s.toList.map fun c => UInt8.ofNat c.toNat

def TLDS_BAD : List (List UInt8) :=
  [".mail", ".arpa", ".example", ".invalid", ".localhost", ".test", ".local", ".corp", ".home",
    ".internal", ".intranet", ".lan", ".private"].map asciiBytes

def TLDS_PRIVACY : List (List UInt8) := [".i2p", ".onion"].map asciiBytes

def matchSuffix (str : List UInt8) (list : List (List UInt8)) : Bool :=
  list.any fun suffix => suffix.isSuffixOf str

def isAlpha (c : UInt8) : Bool := DomainPort.isUpper c || (97 ≤ c && c ≤ 122)

def isAllowedPlatformHTTPPort (port : UInt16) : Bool := port == 443

def MnNetInfo.validateService (rules : NetRules) (service : CService) : NetInfoStatus :=
  if !service.addr.isValid then .BadAddress
  else if service.addr.m_net ≠ .IPV4 then .BadType
  else if rules.requireRoutableExternalIP && !rules.isRoutable service then .NotRoutable
  else if rules.isNodeOnMainnet ≠ decide (service.port = rules.mainDefaultPort) then .BadPort
  else .Success

namespace ExtNetInfo

def validateService (rules : NetRules) (service : CService) : NetInfoStatus :=
  if !service.addr.isValid then .BadAddress
  else if service.addr.m_net = .INTERNAL then .BadType
  else if rules.requireRoutableExternalIP && !rules.isRoutable service then .NotRoutable
  else if service.addr.m_net = .I2P then
    if service.port ≠ I2P_SAM31_PORT then .BadPort else .Success
  else if service.port = 0 ∨ rules.isBadPort service.port then .BadPort
  else .Success

def validateDomainPort (rules : NetRules) (domain : DomainPort) : NetInfoStatus :=
  if !domain.isValid then .BadInput
  else if domain.m_port = 0 ∨
      rules.isBadPort domain.m_port ∧ !isAllowedPlatformHTTPPort domain.m_port then .BadPort
  else if matchSuffix domain.m_addr TLDS_BAD || matchSuffix domain.m_addr TLDS_PRIVACY then .BadInput
  else if !(((domain.m_addr.splitOn 46).getLast?.getD []).all isAlpha) then .BadInput
  else .Success

def validateEntry (rules : NetRules) (purpose : UInt8) : NetInfoEntry → NetInfoStatus
  | .Invalid => .Malformed
  | .Service s => validateService rules s.val
  | .Domain d =>
    if purpose ≠ NetInfoPurpose.PLATFORM_HTTPS then .BadInput else validateDomainPort rules d.val

def firstFailure (statuses : List NetInfoStatus) : NetInfoStatus :=
  (statuses.find? (· ≠ .Success)).getD .Success

def validateEntries (rules : NetRules) (p : UInt8 × NetInfoList) : NetInfoStatus :=
  if !isValidPurpose p.1 then .Malformed
  else if p.2 = [] then .Malformed
  -- HasAddrDuplicates
  else if ¬(p.2.map rules.toStringAddr).Nodup then .Duplicate
  else firstFailure (p.2.map (validateEntry rules p.1))

def validate (rules : NetRules) (info : ExtNetInfo) : NetInfoStatus :=
  if info.m_version = 0 ∨ CURRENT_VERSION < info.m_version ∨ info.m_data.isEmpty then .Malformed
  -- HasAddrPortDuplicates
  else if ¬info.m_all_entries.Nodup then .Duplicate
  else firstFailure (info.m_data.toList.map (validateEntries rules))

end ExtNetInfo

namespace NetInfo

def isEmpty : NetInfo → Bool
  | mn info => info.m_addr.isEmpty
  | ext info => decide (info.m_version = ExtNetInfo.CURRENT_VERSION) && info.m_data.isEmpty

def canStorePlatform : NetInfo → Bool
  | mn _ => false
  | ext _ => true

def hasEntries (purpose : UInt8) : NetInfo → Bool
  | mn info => decide (purpose = NetInfoPurpose.CORE_P2P) && !info.m_addr.isEmpty
  | ext info => isValidPurpose purpose && !(info.m_data[purpose]?.getD []).isEmpty

def getPrimary : NetInfo → CService
  | mn info => info.m_addr.getAddrPort.getD .default
  | ext info =>
    ((info.m_data[NetInfoPurpose.CORE_P2P]?.getD []).head?.bind NetInfoEntry.getAddrPort).getD .default

def validate (rules : NetRules) : NetInfo → NetInfoStatus
  | mn info =>
    if info.m_addr.isEmpty then .Malformed
    else MnNetInfo.validateService rules (info.m_addr.getAddrPort.getD .default)
  | ext info => info.validate rules

end NetInfo

namespace ProTxVersion

def LegacyBLS : UInt16 := 1
def BasicBLS : UInt16 := 2
def ExtAddr : UInt16 := 3

def getMax (is_basic_scheme_active is_extended_addr : Bool) : UInt16 :=
  if is_basic_scheme_active then if is_extended_addr then ExtAddr else BasicBLS else LegacyBLS

end ProTxVersion

def NetInfo.makeNetInfo (nVersion : UInt16) : NetInfo :=
  if ProTxVersion.ExtAddr ≤ nVersion then .ext {} else .mn {}

namespace ByValue
open BLS Guards

structure CProRegTx (G : Type*) where
  nVersion : UInt16 := ProTxVersion.LegacyBLS
  nType : MnType := .Regular
  nMode : UInt16 := 0
  collateralOutpoint : COutPoint := ⟨0, BitVec.allOnes 32⟩
  netInfo : NetInfo
  platformNodeID : uint160 := 0
  platformP2PPort : UInt16 := 0
  platformHTTPPort : UInt16 := 0
  keyIDOwner : uint160 := 0
  pubKeyOperator : CBLSLazyPublicKey G := {}
  keyIDVoting : uint160 := 0
  nOperatorReward : UInt16 := 0
  scriptPayout : List UInt8 := []
  inputsHash : uint256 := 0
  vchSig : List UInt8 := []
  given : GivenAddresses netInfo

structure CProUpServTx where
  nVersion : UInt16 := ProTxVersion.LegacyBLS
  nType : MnType := .Regular
  proTxHash : uint256
  netInfo : NetInfo
  platformNodeID : uint160 := 0
  platformP2PPort : UInt16 := 0
  platformHTTPPort : UInt16 := 0
  scriptOperatorPayout : List UInt8 := []
  inputsHash : uint256 := 0
  sig : List UInt8 := []
  given : GivenAddresses netInfo

structure CProUpRegTx (G : Type*) where
  nVersion : UInt16 := ProTxVersion.LegacyBLS
  proTxHash : uint256
  nMode : UInt16 := 0
  pubKeyOperator : CBLSLazyPublicKey G := {}
  keyIDVoting : uint160 := 0
  scriptPayout : List UInt8 := []
  inputsHash : uint256 := 0
  vchSig : List UInt8 := []

structure CProUpRevTx where
  nVersion : UInt16 := ProTxVersion.LegacyBLS
  proTxHash : uint256
  nReason : UInt16 := 0
  inputsHash : uint256 := 0
  sig : List UInt8 := []

def CProUpRevTx.REASON_LAST : UInt16 := 3

/-- `CFinalCommitmentTxPayload`, with what is read of its commitment. -/
structure CFinalCommitmentTxPayload where
  nHeight : BitVec 32
  isNull : Bool
  llmqType : UInt8
  quorumIndex : ℤ
  quorumHash : uint256
  validMembers : List Bool

/-- What the type and the payload of a transaction are. A payload is missing where
its bytes do not decode. -/
inductive SpecialPayload (G : Type*)
  | providerRegister (proTx : Option (CProRegTx G))
  | providerUpdateService (proTx : Option CProUpServTx)
  | providerUpdateRegistrar (proTx : Option (CProUpRegTx G))
  | providerUpdateRevoke (proTx : Option CProUpRevTx)
  | quorumCommitment (qc : Option CFinalCommitmentTxPayload)
  | other

structure CTransaction (G : Type*) where
  hash : uint256
  vin : List COutPoint := []
  vout : List CTxOut := []
  payload : SpecialPayload G := .other

/-- A block index, with the deployments that are active after it. -/
structure CBlockIndex where
  blockHash : uint256
  nHeight : ℤ
  isV19Active : Bool := true
  isV24Active : Bool := true
  isMNRewardReallocation : Bool := true
  isDIP0003Enforced : Bool := true

inductive CTxDestination
  | PKHash (hash : uint160)
  | Other (script : List UInt8)
deriving DecidableEq

inductive TxValidationResult
  | TX_CONSENSUS | TX_BAD_SPECIAL
deriving DecidableEq, Repr

/-- A check rejects, or it runs into an `assert(false)`. -/
inductive Refusal
  | invalid (result : TxValidationResult) (reason : String)
  | aborted
deriving DecidableEq, Repr

def consensus (reason : String) : Refusal := .invalid .TX_CONSENSUS reason
def badSpecial (reason : String) : Refusal := .invalid .TX_BAD_SPECIAL reason

/-- What the checks ask of the rest of the node. -/
structure Environment (G : Type*) where
  net : NetRules
  nMasternodeMinimumConfirmations : ℤ
  sha256 : List UInt8 → uint256
  extractDestination : List UInt8 → Option CTxDestination
  checkStringSig : CProRegTx G → uint160 → Bool
  checkServiceSig : CProUpServTx → Option G → Bool
  checkRegistrarSig : CProUpRegTx G → uint160 → Bool
  checkRevokeSig : CProUpRevTx → Option G → Bool
  dkgInterval : UInt8 → Option ℤ
  getAncestor : CBlockIndex → ℤ → Option uint256
  getAllQuorumMembers : UInt8 → uint256 → List uint256
  /-- The checks of transactions of other types. -/
  checkOther : CBlockIndex → CTransaction G → Bool

def isPayToPublicKeyHash (script : List UInt8) : Bool :=
  script.length == 25 && script.take 3 == [0x76, 0xa9, 0x14] && script.drop 23 == [0x88, 0xac]

def isPayToScriptHash (script : List UInt8) : Bool :=
  script.length == 23 && script.take 2 == [0xa9, 0x14] && script.drop 22 == [0x87]

section Trivial
variable {G : Type*} [DecidableEq G] (codec : KeyCodec G)

def getMaxFromDeployment (is_extaddr_eligible : Bool) (pindexPrev : CBlockIndex) : UInt16 :=
  ProTxVersion.getMax pindexPrev.isV19Active (is_extaddr_eligible && pindexPrev.isV24Active)

def isNetInfoTriviallyValid (nType : MnType) (netInfo : NetInfo) : Except Refusal PUnit := do
  refuse (!netInfo.hasEntries NetInfoPurpose.CORE_P2P) (badSpecial "bad-protx-netinfo-empty")
  refuse (nType = .Regular ∧ (netInfo.hasEntries NetInfoPurpose.PLATFORM_HTTPS ∨
    netInfo.hasEntries NetInfoPurpose.PLATFORM_P2P)) (badSpecial "bad-protx-netinfo-bad")
  refuse (netInfo.canStorePlatform ∧ nType = .Evo ∧ (!netInfo.hasEntries NetInfoPurpose.PLATFORM_HTTPS ∨
    !netInfo.hasEntries NetInfoPurpose.PLATFORM_P2P)) (badSpecial "bad-protx-netinfo-empty")

/-- `Get().IsValid()`. -/
def keyIsValid (k : CBLSLazyPublicKey G) : Bool := (k.get codec).1.isSome

def CProRegTx.isTriviallyValid (env : Environment G) (pindexPrev : CBlockIndex) (proTx : CProRegTx G) :
    Except Refusal PUnit := do
  refuse (proTx.nVersion = 0 ∨ getMaxFromDeployment true pindexPrev < proTx.nVersion)
    (consensus "bad-protx-version")
  refuse (proTx.nVersion < ProTxVersion.BasicBLS ∧ proTx.nType = .Evo)
    (consensus "bad-protx-evo-version")
  refuse (!isValidMnType proTx.nType) (consensus "bad-protx-type")
  refuse (proTx.nMode ≠ 0) (consensus "bad-protx-mode")
  refuse (proTx.keyIDOwner = 0 ∨ !keyIsValid codec proTx.pubKeyOperator ∨ proTx.keyIDVoting = 0)
    (badSpecial "bad-protx-key-null")
  refuse (proTx.pubKeyOperator.bufLegacyScheme ≠ decide (proTx.nVersion = ProTxVersion.LegacyBLS))
    (badSpecial "bad-protx-operator-pubkey")
  refuse (!isPayToPublicKeyHash proTx.scriptPayout ∧ !isPayToScriptHash proTx.scriptPayout)
    (badSpecial "bad-protx-payee")
  refuse (proTx.netInfo.canStorePlatform ≠ decide (proTx.nVersion = ProTxVersion.ExtAddr))
    (consensus "bad-protx-netinfo-version")
  onlyIf (!proTx.netInfo.isEmpty) (isNetInfoTriviallyValid proTx.nType proTx.netInfo)
  refuse (proTx.netInfo.getEntries.any NetInfoEntry.isEmpty) (badSpecial "bad-protx-netinfo-bad")
  refuse (env.extractDestination proTx.scriptPayout = none) (badSpecial "bad-protx-payee-dest")
  refuse (env.extractDestination proTx.scriptPayout = some (.PKHash proTx.keyIDOwner) ∨
    env.extractDestination proTx.scriptPayout = some (.PKHash proTx.keyIDVoting))
    (badSpecial "bad-protx-payee-reuse")
  refuse (10000 < proTx.nOperatorReward) (badSpecial "bad-protx-operator-reward")

def CProUpServTx.isTriviallyValid (pindexPrev : CBlockIndex) (proTx : CProUpServTx) :
    Except Refusal PUnit := do
  refuse (proTx.nVersion = 0 ∨ getMaxFromDeployment true pindexPrev < proTx.nVersion)
    (consensus "bad-protx-version")
  refuse (proTx.nVersion < ProTxVersion.BasicBLS ∧ proTx.nType = .Evo)
    (consensus "bad-protx-evo-version")
  refuse (proTx.netInfo.canStorePlatform ≠ decide (proTx.nVersion = ProTxVersion.ExtAddr))
    (consensus "bad-protx-netinfo-version")
  refuse (proTx.netInfo.isEmpty) (badSpecial "bad-protx-netinfo-empty")
  isNetInfoTriviallyValid proTx.nType proTx.netInfo
  refuse (proTx.netInfo.getEntries.any NetInfoEntry.isEmpty) (badSpecial "bad-protx-netinfo-bad")

def CProUpRegTx.isTriviallyValid (pindexPrev : CBlockIndex) (proTx : CProUpRegTx G) :
    Except Refusal PUnit := do
  refuse (proTx.nVersion = 0 ∨ getMaxFromDeployment false pindexPrev < proTx.nVersion)
    (consensus "bad-protx-version")
  refuse (proTx.nMode ≠ 0) (consensus "bad-protx-mode")
  refuse (!keyIsValid codec proTx.pubKeyOperator ∨ proTx.keyIDVoting = 0)
    (badSpecial "bad-protx-key-null")
  refuse (proTx.pubKeyOperator.bufLegacyScheme ≠ decide (proTx.nVersion = ProTxVersion.LegacyBLS))
    (badSpecial "bad-protx-operator-pubkey")
  refuse (!isPayToPublicKeyHash proTx.scriptPayout ∧ !isPayToScriptHash proTx.scriptPayout)
    (badSpecial "bad-protx-payee")

def CProUpRevTx.isTriviallyValid (pindexPrev : CBlockIndex) (proTx : CProUpRevTx) :
    Except Refusal PUnit := do
  refuse (proTx.nVersion = 0 ∨ getMaxFromDeployment false pindexPrev < proTx.nVersion)
    (consensus "bad-protx-version")
  refuse (CProUpRevTx.REASON_LAST < proTx.nReason) (consensus "bad-protx-reason")

/-- `CheckService`. Three statuses are taken for impossible. -/
def checkService (rules : NetRules) (netInfo : NetInfo) : Except Refusal PUnit :=
  match netInfo.validate rules with
  | .BadAddress => .error (badSpecial "bad-protx-netinfo-addr")
  | .BadPort => .error (badSpecial "bad-protx-netinfo-port")
  | .BadType => .error (badSpecial "bad-protx-netinfo-addr-type")
  | .NotRoutable => .error (badSpecial "bad-protx-netinfo-addr-unroutable")
  | .Malformed => .error (badSpecial "bad-protx-netinfo-bad")
  | .Success => .ok ⟨⟩
  | .BadInput | .Duplicate | .MaxLimit => .error .aborted

def checkPlatformFields (rules : NetRules) (platformNodeID : uint160)
    (platformP2PPort platformHTTPPort : UInt16) (netInfo : NetInfo) (is_extended_addr : Bool) :
    Except Refusal PUnit := do
  refuse (platformNodeID = 0) (badSpecial "bad-protx-platform-nodeid")
  if is_extended_addr then
    refuse (platformP2PPort ≠ 0) (badSpecial "bad-protx-platform-p2p-port")
    refuse (platformHTTPPort ≠ 0) (badSpecial "bad-protx-platform-http-port")
  else
    refuse (rules.isNodeOnMainnet ∧ platformP2PPort ≠ rules.mainDefaultPlatformP2PPort)
      (badSpecial "bad-protx-platform-p2p-port")
    refuse (rules.isNodeOnMainnet ∧ platformHTTPPort ≠ rules.mainDefaultPlatformHTTPPort)
      (badSpecial "bad-protx-platform-http-port")
    refuse (platformP2PPort = rules.mainDefaultPort) (badSpecial "bad-protx-platform-p2p-port")
    refuse (platformHTTPPort = rules.mainDefaultPort) (badSpecial "bad-protx-platform-http-port")
    refuse (platformP2PPort = platformHTTPPort ∨ platformP2PPort = netInfo.getPrimary.port ∨
      platformHTTPPort = netInfo.getPrimary.port) (badSpecial "bad-protx-platform-dup-ports")

end Trivial

end ByValue

end Evo

end BabaChain
