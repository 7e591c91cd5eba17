import BabaChain.UniqueProperties

/-! The masternode list with every operator key held by value. Decoding a key in
place fills its caches and changes nothing that the list's operations ask it. -/
namespace BabaChain.Evo.ByValue
open BLS ByteWriter
open Std (ExtTreeMap)

structure CDeterministicMNState (G : Type*) where
  nPoSeBanHeight : ℤ := -1
  nVersion : ℤ := 1
  nRegisteredHeight : ℤ := -1
  nLastPaidHeight : ℤ := 0
  nConsecutivePayments : ℤ := 0
  nPoSePenalty : ℤ := 0
  nPoSeRevivedHeight : ℤ := -1
  nRevocationReason : UInt16 := 0
  confirmedHash : uint256 := 0
  confirmedHashWithProRegTxHash : uint256 := 0
  keyIDOwner : uint160 := 0
  pubKeyOperator : CBLSLazyPublicKey G := {}
  keyIDVoting : uint160 := 0
  netInfo : NetInfo
  scriptPayout : List UInt8 := []
  scriptOperatorPayout : List UInt8 := []
  platformNodeID : uint160 := 0
  platformP2PPort : UInt16 := 0
  platformHTTPPort : UInt16 := 0
deriving DecidableEq

namespace CDeterministicMNState
variable {G : Type*}

def isBanned (state : CDeterministicMNState G) : Bool := decide (state.nPoSeBanHeight ≠ -1)

def banIfNotBanned (height : ℤ) (state : CDeterministicMNState G) : CDeterministicMNState G :=
  if state.isBanned then state else {state with nPoSeBanHeight := height}

def revive (nRevivedHeight : ℤ) (state : CDeterministicMNState G) : CDeterministicMNState G :=
  {state with nPoSePenalty := 0, nPoSeBanHeight := -1, nPoSeRevivedHeight := nRevivedHeight}

end CDeterministicMNState

structure CDeterministicMN (G : Type*) where
  internalId : UInt64
  proTxHash : uint256
  collateralOutpoint : COutPoint
  nOperatorReward : UInt16 := 0
  nType : MnType := .Regular
  pdmnState : CDeterministicMNState G
deriving DecidableEq

inductive UniqueProperty (G : Type*)
  | outpoint (v : COutPoint)
  | service (v : CService)
  | domain (v : DomainPort)
  | keyID (v : uint160)
  | operatorKey (v : CBLSLazyPublicKey G)
  | nodeID (v : uint160)
deriving DecidableEq

variable {G : Type*} [DecidableEq G] (codec : KeyCodec G) (sha256d : List UInt8 → uint256)

/-- The bytes of a key in the scheme that its buffer is in. -/
def ownBytes (k : CBLSLazyPublicKey G) : KeyBytes := (k.serialize codec k.bufLegacyScheme).1

/-- `operator==` of keys, less the caches it fills. -/
def keyEqual (k r : CBLSLazyPublicKey G) : Bool := (k.equal codec r).1

namespace UniqueProperty

/-- Whether `v == T{}`. -/
def isNull : UniqueProperty G → Bool
  | outpoint v => decide (v = ⟨0, BitVec.allOnes 32⟩)
  | service v => decide (v = .default)
  | domain v => decide (v = .default)
  | keyID v => decide (v = 0)
  | operatorKey v => v.isDefault
  | nodeID v => decide (v = 0)

def equal : UniqueProperty G → UniqueProperty G → Bool
  | operatorKey v, operatorKey v' => keyEqual codec v v'
  | v, v' => decide (v = v')

def serialize : UniqueProperty G → List UInt8
  | outpoint v => writeUint256 v.hash++writeLE 4 v.n.toNat
  | service v => v.serialize !v.addr.isAddrV1Compatible
  | domain v => v.serialize
  | keyID v => writeUint160 v
  | operatorKey v => (ownBytes codec v).toList
  | nodeID v => writeUint160 v

end UniqueProperty

def getUniquePropertyHash (v : UniqueProperty G) : uint256 := sha256d (v.serialize codec)

/-- `none` is a property that is not added. -/
def addUniqueProperty (proTxHash : uint256) (v : UniqueProperty G) (map : MnUniquePropertyMap) :
    Option MnUniquePropertyMap :=
  if v.isNull then none
  else
    let hash := getUniquePropertyHash codec sha256d v
    match map[hash]? with
    | some oldEntry =>
      if oldEntry.1 ≠ proTxHash then none
      else some (map.insert hash (proTxHash, oldEntry.2+1))
    | none => some (map.insert hash (proTxHash, 1))

def deleteUniqueProperty (proTxHash : uint256) (oldValue : UniqueProperty G)
    (map : MnUniquePropertyMap) : Option MnUniquePropertyMap :=
  if oldValue.isNull then none
  else
    let oldHash := getUniquePropertyHash codec sha256d oldValue
    match map[oldHash]? with
    | some p =>
      if p.1 ≠ proTxHash then none
      else if p.2 = 1 then some (map.erase oldHash)
      else some (map.insert oldHash (proTxHash, p.2-1))
    | none => none

def updateUniqueProperty (proTxHash : uint256) (oldValue newValue : UniqueProperty G)
    (map : MnUniquePropertyMap) : Option MnUniquePropertyMap :=
  if oldValue.equal codec newValue then some map
  else
    (if oldValue.isNull then some map
      else deleteUniqueProperty codec sha256d proTxHash oldValue map).bind fun map =>
    if newValue.isNull then some map
    else addUniqueProperty codec sha256d proTxHash newValue map

abbrev NamedProperty (G : Type*) := String × Option (UniqueProperty G)

def netInfoProperty (entry : NetInfoEntry) : NamedProperty G :=
  ("address", (entry.getAddrPort.map .service).or (entry.getDomainPort.map .domain))

/-- One operation on several properties, up to the first that fails. -/
def forProperties (op : UniqueProperty G → MnUniquePropertyMap → Option MnUniquePropertyMap)
    (failed : String → String) (invalid : String) :
    List (NamedProperty G) → MnUniquePropertyMap → Except String MnUniquePropertyMap
  | [], map => .ok map
  | (_, none) :: _, _ => .error invalid
  | (name, some v) :: rest, map =>
    match op v map with
    | none => .error (failed name)
    | some map => forProperties op failed invalid rest map

def CDeterministicMN.uniqueProperties (dmn : CDeterministicMN G) : List (NamedProperty G) :=
  ("collateralOutpoint", some (.outpoint dmn.collateralOutpoint)) ::
    dmn.pdmnState.netInfo.getEntries.map netInfoProperty
  ++[("keyIDOwner", some (.keyID dmn.pdmnState.keyIDOwner))]
  ++(if dmn.pdmnState.pubKeyOperator.isDefault then []
    else [("pubKeyOperator", some (.operatorKey dmn.pdmnState.pubKeyOperator))])
  ++(if dmn.nType = .Evo ∧ dmn.pdmnState.platformNodeID ≠ 0 then
      [("platformNodeID", some (.nodeID dmn.pdmnState.platformNodeID))]
    else [])

def updateNetInfo (proTxHash : uint256) (oldInfo newInfo : NetInfo) (map : MnUniquePropertyMap) :
    Except String MnUniquePropertyMap :=
  if oldInfo.isEqual newInfo then .ok map
  else do
    let map ← forProperties (deleteUniqueProperty codec sha256d proTxHash)
      (fun _ => "internal error") "invalid address" (oldInfo.getEntries.map netInfoProperty) map
    forProperties (addUniqueProperty codec sha256d proTxHash)
      (fun _ => "duplicate") "invalid address" (newInfo.getEntries.map netInfoProperty) map

def updateUniqueProperties (proTxHash : uint256) :
    List (String × UniqueProperty G × UniqueProperty G) → MnUniquePropertyMap →
      Except String MnUniquePropertyMap
  | [], map => .ok map
  | (name, oldValue, newValue) :: rest, map =>
    match updateUniqueProperty codec sha256d proTxHash oldValue newValue map with
    | none => .error ("Can't update a masternode with a duplicate "++name)
    | some map => updateUniqueProperties proTxHash rest map

def changedProperties (nType : MnType) (oldState newState : CDeterministicMNState G) :
    List (String × UniqueProperty G × UniqueProperty G) :=
  [("keyIDOwner", .keyID oldState.keyIDOwner, .keyID newState.keyIDOwner),
    ("pubKeyOperator", .operatorKey oldState.pubKeyOperator, .operatorKey newState.pubKeyOperator)]
  ++(if nType = .Evo then
      [("platformNodeID", .nodeID oldState.platformNodeID, .nodeID newState.platformNodeID)]
    else [])

/-- The list, less the simplified list that it caches. -/
structure CDeterministicMNList (G : Type*) where
  blockHash : uint256 := 0
  nHeight : ℤ := -1
  nTotalRegisteredCount : UInt32 := 0
  mnMap : ExtTreeMap uint256 (CDeterministicMN G) := ∅
  mnInternalIdMap : ExtTreeMap UInt64 uint256 := ∅
  mnUniquePropertyMap : MnUniquePropertyMap := ∅

namespace CDeterministicMNList

def getMN (list : CDeterministicMNList G) (proTxHash : uint256) : Option (CDeterministicMN G) :=
  list.mnMap[proTxHash]?

def hasMN (list : CDeterministicMNList G) (proTxHash : uint256) : Bool :=
  (list.getMN proTxHash).isSome

def getMNByInternalId (list : CDeterministicMNList G) (internalId : UInt64) :
    Option (CDeterministicMN G) :=
  list.mnInternalIdMap[internalId]?.bind list.getMN

def hasUniqueProperty (list : CDeterministicMNList G) (v : UniqueProperty G) : Bool :=
  list.mnUniquePropertyMap[getUniquePropertyHash codec sha256d v]?.isSome

def getUniquePropertyMN (list : CDeterministicMNList G) (v : UniqueProperty G) :
    Option (CDeterministicMN G) :=
  list.mnUniquePropertyMap[getUniquePropertyHash codec sha256d v]?.bind fun p => list.getMN p.1

def getMNByCollateral (list : CDeterministicMNList G) (collateralOutpoint : COutPoint) :
    Option (CDeterministicMN G) :=
  list.getUniquePropertyMN codec sha256d (.outpoint collateralOutpoint)

/-- The masternodes in the order of their hashes. The source's map has another
order. -/
def mns (list : CDeterministicMNList G) : List (CDeterministicMN G) := list.mnMap.toList.map Prod.snd

def validMNs (list : CDeterministicMNList G) : List (CDeterministicMN G) :=
  list.mns.filter fun dmn => !dmn.pdmnState.isBanned

/-- Where a property fails, the map is put back, and the list is as it was. -/
def addMN (dmn : CDeterministicMN G) (fBumpTotalCount : Bool) (list : CDeterministicMNList G) :
    Except String (CDeterministicMNList G) :=
  if dmn.proTxHash ∈ list.mnMap then .error "Can't add a masternode with a duplicate proTxHash"
  else if dmn.internalId ∈ list.mnInternalIdMap then
    .error "Can't add a masternode with a duplicate internalId"
  else
    match forProperties (addUniqueProperty codec sha256d dmn.proTxHash) ("with a duplicate "++·)
      "with invalid address" dmn.uniqueProperties list.mnUniquePropertyMap with
    | .error reason => .error ("Can't add a masternode "++reason)
    | .ok map =>
      .ok {list with
        mnMap := list.mnMap.insert dmn.proTxHash dmn
        mnInternalIdMap := list.mnInternalIdMap.insert dmn.internalId dmn.proTxHash
        mnUniquePropertyMap := map
        -- the maximum is taken in 64 bits and narrowed to the counter's 32
        nTotalRegisteredCount := if fBumpTotalCount then
          (max (dmn.internalId+1) list.nTotalRegisteredCount.toUInt64).toUInt32
          else list.nTotalRegisteredCount}

/-- The property updates of `UpdateMN`. -/
def updateProperties (oldDmn : CDeterministicMN G) (pdmnState : CDeterministicMNState G)
    (map : MnUniquePropertyMap) : Except String MnUniquePropertyMap :=
  match updateNetInfo codec sha256d oldDmn.proTxHash oldDmn.pdmnState.netInfo pdmnState.netInfo
    map with
  | .error err => .error ("Can't update masternode with addresses, reason="++err)
  | .ok map => updateUniqueProperties codec sha256d oldDmn.proTxHash
      (changedProperties oldDmn.nType oldDmn.pdmnState pdmnState) map

def updateMN (oldDmn : CDeterministicMN G) (pdmnState : CDeterministicMNState G)
    (list : CDeterministicMNList G) : Except String (CDeterministicMNList G) :=
  match updateProperties codec sha256d oldDmn pdmnState list.mnUniquePropertyMap with
  | .error reason => .error reason
  | .ok map =>
    .ok {list with
      mnMap := list.mnMap.insert oldDmn.proTxHash {oldDmn with pdmnState}
      mnUniquePropertyMap := map}

def updateMNByHash (proTxHash : uint256) (pdmnState : CDeterministicMNState G)
    (list : CDeterministicMNList G) : Except String (CDeterministicMNList G) :=
  match list.getMN proTxHash with
  | none => .error "Can't find a masternode with proTxHash"
  | some oldDmn => updateMN codec sha256d oldDmn pdmnState list

def removeMN (proTxHash : uint256) (list : CDeterministicMNList G) :
    Except String (CDeterministicMNList G) :=
  match list.getMN proTxHash with
  | none => .error "Can't find a masternode with proTxHash"
  | some dmn =>
    match forProperties (deleteUniqueProperty codec sha256d dmn.proTxHash)
      (fun name => if name = "address" then "with an address" else "with a "++name)
      "with invalid address" dmn.uniqueProperties list.mnUniquePropertyMap with
    | .error reason => .error ("Can't delete a masternode "++reason)
    | .ok map =>
      .ok {list with
        mnMap := list.mnMap.erase proTxHash
        mnInternalIdMap := list.mnInternalIdMap.erase dmn.internalId
        mnUniquePropertyMap := map}

def calcMaxPoSePenalty (list : CDeterministicMNList G) : ℤ := max 100 list.mnMap.size

def calcPenalty (percent : ℤ) (list : CDeterministicMNList G) : ℤ :=
  list.calcMaxPoSePenalty*percent/100

def poSePunish (proTxHash : uint256) (penalty : ℤ) (list : CDeterministicMNList G) :
    Except String (CDeterministicMNList G) :=
  match list.getMN proTxHash with
  | none => .error "Can't find a masternode with proTxHash"
  | some dmn =>
    let maxPenalty := list.calcMaxPoSePenalty
    let newState : CDeterministicMNState G :=
      {dmn.pdmnState with nPoSePenalty := min maxPenalty (dmn.pdmnState.nPoSePenalty+penalty)}
    let newState :=
      if !dmn.pdmnState.isBanned && decide (maxPenalty ≤ newState.nPoSePenalty) then
        newState.banIfNotBanned list.nHeight
      else newState
    list.updateMNByHash codec sha256d proTxHash newState

def poSeDecrease (dmn : CDeterministicMN G) (list : CDeterministicMNList G) :
    Except String (CDeterministicMNList G) :=
  list.updateMN codec sha256d dmn
    {dmn.pdmnState with nPoSePenalty := dmn.pdmnState.nPoSePenalty-1}

/-- Those to decrease are collected before the first of them is. -/
def decreaseScores (list : CDeterministicMNList G) : Except String (CDeterministicMNList G) :=
  (list.validMNs.filter fun dmn => 0 < dmn.pdmnState.nPoSePenalty).foldlM
    (fun list dmn => list.poSeDecrease codec sha256d dmn) list

end CDeterministicMNList

end BabaChain.Evo.ByValue
