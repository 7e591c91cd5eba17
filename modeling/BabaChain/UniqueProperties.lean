import BabaChain.LazyKeys
import BabaChain.NetInfo
import BabaChain.Lib.OrdMap

/-! Masternodes, and the properties that no two of them may share. -/
namespace BabaChain
open ByteWriter

abbrev uint160 := BitVec 160

def writeUint256 (h : uint256) : List UInt8 := writeBE 32 h.toNat
def writeUint160 (h : uint160) : List UInt8 := writeBE 20 h.toNat

inductive MnType
  | Regular | Evo | COUNT | Invalid
deriving DecidableEq, Repr

def MnType.toNat : MnType → ℕ
  | Regular => 0
  | Evo => 1
  | COUNT => 2
  | Invalid => 0xffff

namespace Evo
open BLS
open Std (ExtTreeMap)

/-- The operator key is the one mutable part of a state: owners that share a
state share the address of its key. -/
structure CDeterministicMNState where
  nPoSeBanHeight : ℤ := -1
  nVersion : ℤ := 1
  nRegisteredHeight : ℤ := -1
  nLastPaidHeight : ℤ := 0
  nConsecutivePayments : ℤ := 0
  nPoSePenalty : ℤ := 0
  nPoSeRevivedHeight : ℤ := -1
  nRevocationReason : UInt16 := 0
  confirmedHash : uint256 := 0
  confirmedHashWithProRegTxHash : uint256 := 0
  keyIDOwner : uint160 := 0
  pubKeyOperator : KeyRef
  keyIDVoting : uint160 := 0
  netInfo : NetInfo
  scriptPayout : List UInt8 := []
  scriptOperatorPayout : List UInt8 := []
  platformNodeID : uint160 := 0
  platformP2PPort : UInt16 := 0
  platformHTTPPort : UInt16 := 0
deriving DecidableEq

def CDeterministicMNState.isBanned (state : CDeterministicMNState) : Bool :=
  decide (state.nPoSeBanHeight ≠ -1)

structure CDeterministicMN where
  internalId : UInt64
  proTxHash : uint256
  collateralOutpoint : COutPoint
  nOperatorReward : UInt16 := 0
  nType : MnType := .Regular
  pdmnState : CDeterministicMNState
deriving DecidableEq

/-- The values that no two masternodes may share. -/
inductive UniqueProperty
  | outpoint (v : COutPoint)
  | service (v : CService)
  | domain (v : DomainPort)
  | keyID (v : uint160)
  | operatorKey (v : KeyRef)
  | nodeID (v : uint160)
deriving DecidableEq

abbrev MnUniquePropertyMap := ExtTreeMap uint256 (uint256 × UInt32)

variable {G : Type*} [DecidableEq G] (codec : KeyCodec G) (sha256d : List UInt8 → uint256)

namespace UniqueProperty

/-- Whether `v == T{}`. -/
def isNull (store : KeyStore G) : UniqueProperty → Bool
  | outpoint v => decide (v = ⟨0, BitVec.allOnes 32⟩)
  | service v => decide (v = .default)
  | domain v => decide (v = .default)
  | keyID v => decide (v = 0)
  | operatorKey v => (store.keys v).isDefault
  | nodeID v => decide (v = 0)

def equal (store : KeyStore G) : UniqueProperty → UniqueProperty → Bool × KeyStore G
  | operatorKey v, operatorKey v' => store.equal codec v v'
  | v, v' => (decide (v = v'), store)

/-- The serialization that is hashed. An address goes in the format of BIP155
only where the older one cannot hold it. -/
def serialize (store : KeyStore G) : UniqueProperty → List UInt8 × KeyStore G
  | outpoint v => (writeUint256 v.hash++writeLE 4 v.n.toNat, store)
  | service v => (v.serialize !v.addr.isAddrV1Compatible, store)
  | domain v => (v.serialize, store)
  | keyID v => (writeUint160 v, store)
  | operatorKey v =>
    let (bytes, store) := store.serializeOwn codec v
    (bytes.toList, store)
  | nodeID v => (writeUint160 v, store)

end UniqueProperty

/-- What the operations on unique properties work on. -/
abbrev Properties (G : Type*) := MnUniquePropertyMap × KeyStore G

def getUniquePropertyHash (v : UniqueProperty) (store : KeyStore G) : uint256 × KeyStore G :=
  let (bytes, store) := v.serialize codec store
  (sha256d bytes, store)

def addUniqueProperty (proTxHash : uint256) (v : UniqueProperty) (s : Properties G) :
    Bool × Properties G :=
  let (map, store) := s
  if v.isNull store then (false, map, store)
  else
    let (hash, store) := getUniquePropertyHash codec sha256d v store
    match map[hash]? with
    | some oldEntry =>
      -- the masternode itself may hold a value more than once
      if oldEntry.1 ≠ proTxHash then (false, map, store)
      else (true, map.insert hash (proTxHash, oldEntry.2+1), store)
    | none => (true, map.insert hash (proTxHash, 1), store)

def deleteUniqueProperty (proTxHash : uint256) (oldValue : UniqueProperty) (s : Properties G) :
    Bool × Properties G :=
  let (map, store) := s
  if oldValue.isNull store then (false, map, store)
  else
    let (oldHash, store) := getUniquePropertyHash codec sha256d oldValue store
    match map[oldHash]? with
    | some p =>
      if p.1 ≠ proTxHash then (false, map, store)
      else if p.2 = 1 then (true, map.erase oldHash, store)
      else (true, map.insert oldHash (proTxHash, p.2-1), store)
    | none => (false, map, store)

def updateUniqueProperty (proTxHash : uint256) (oldValue newValue : UniqueProperty)
    (s : Properties G) : Bool × Properties G :=
  let (map, store) := s
  let (same, store) := oldValue.equal codec store newValue
  if same then (true, map, store)
  else
    -- an empty value is in no map: it is neither deleted nor added
    let (deleted, map, store) :=
      if oldValue.isNull store then (true, map, store)
      else deleteUniqueProperty codec sha256d proTxHash oldValue (map, store)
    if !deleted then (false, map, store)
    else if newValue.isNull store then (true, map, store)
    else addUniqueProperty codec sha256d proTxHash newValue (map, store)

/-- A property under the name it has in the errors; `none` is an entry that is
neither a service nor a domain. -/
abbrev NamedProperty := String × Option UniqueProperty

def netInfoProperty (entry : NetInfoEntry) : NamedProperty :=
  ("address", (entry.getAddrPort.map .service).or (entry.getDomainPort.map .domain))

/-- One operation on several properties, up to the first that fails. -/
def forProperties (op : UniqueProperty → Properties G → Bool × Properties G)
    (failed : String → String) (invalid : String) :
    List NamedProperty → Properties G → Except String Unit × Properties G
  | [], s => (.ok (), s)
  | (_, none) :: _, s => (.error invalid, s)
  | (name, some v) :: rest, s =>
    match op v s with
    | (false, s) => (.error (failed name), s)
    | (true, s) => forProperties op failed invalid rest s

/-- The properties of a masternode, in the order in which `AddMN` adds them and
`RemoveMN` deletes them. -/
def CDeterministicMN.uniqueProperties (dmn : CDeterministicMN) (store : KeyStore G) :
    List NamedProperty :=
  ("collateralOutpoint", some (.outpoint dmn.collateralOutpoint)) ::
    dmn.pdmnState.netInfo.getEntries.map netInfoProperty
  ++[("keyIDOwner", some (.keyID dmn.pdmnState.keyIDOwner))]
  ++(if (store.keys dmn.pdmnState.pubKeyOperator).isDefault then []
    else [("pubKeyOperator", some (.operatorKey dmn.pdmnState.pubKeyOperator))])
  ++(if dmn.nType = .Evo ∧ dmn.pdmnState.platformNodeID ≠ 0 then
      [("platformNodeID", some (.nodeID dmn.pdmnState.platformNodeID))]
    else [])

def updateNetInfo (proTxHash : uint256) (oldInfo newInfo : NetInfo) (s : Properties G) :
    Except String Unit × Properties G :=
  if oldInfo.isEqual newInfo then (.ok (), s)
  else
    match forProperties (deleteUniqueProperty codec sha256d proTxHash) (fun _ => "internal error")
      "invalid address" (oldInfo.getEntries.map netInfoProperty) s with
    | (.error reason, s) => (.error reason, s)
    | (.ok (), s) =>
      forProperties (addUniqueProperty codec sha256d proTxHash) (fun _ => "duplicate")
        "invalid address" (newInfo.getEntries.map netInfoProperty) s

def updateUniqueProperties (proTxHash : uint256) :
    List (String × UniqueProperty × UniqueProperty) → Properties G →
      Except String Unit × Properties G
  | [], s => (.ok (), s)
  | (name, oldValue, newValue) :: rest, s =>
    match updateUniqueProperty codec sha256d proTxHash oldValue newValue s with
    | (false, s) => (.error ("Can't update a masternode with a duplicate "++name), s)
    | (true, s) => updateUniqueProperties proTxHash rest s

/-- The properties besides the addresses that `UpdateMN` replaces. -/
def changedProperties (nType : MnType) (oldState newState : CDeterministicMNState) :
    List (String × UniqueProperty × UniqueProperty) :=
  [("keyIDOwner", .keyID oldState.keyIDOwner, .keyID newState.keyIDOwner),
    ("pubKeyOperator", .operatorKey oldState.pubKeyOperator, .operatorKey newState.pubKeyOperator)]
  ++(if nType = .Evo then
      [("platformNodeID", .nodeID oldState.platformNodeID, .nodeID newState.platformNodeID)]
    else [])

end Evo

end BabaChain
