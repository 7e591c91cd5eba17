import BabaChain.UniqueProperties
import BabaChain.Lib.MerkleRoot

/-! The simplified masternode list, and its root in the coinbase. -/
namespace BabaChain.Evo
open ByteWriter BLS

/-- `namespace ProTxVersion`. -/
def LegacyBLS : UInt16 := 1
def BasicBLS : UInt16 := 2
def ExtAddr : UInt16 := 3

structure CSimplifiedMNListEntry where
  proRegTxHash : uint256
  confirmedHash : uint256
  netInfo : NetInfo
  pubKeyOperator : KeyRef
  keyIDVoting : uint160
  isValid : Bool
  platformHTTPPort : UInt16
  platformNodeID : uint160
  scriptPayout : List UInt8
  scriptOperatorPayout : List UInt8
  nVersion : UInt16
  nType : MnType
deriving DecidableEq

variable {G : Type*} [DecidableEq G] (codec : KeyCodec G) (sha256d : List UInt8 → uint256)

/-- Each entry has a key of its own, copied from the state. The version of a state
is narrowed to 16 bits. -/
def CDeterministicMN.to_sml_entry (dmn : CDeterministicMN) (store : KeyStore G) :
    CSimplifiedMNListEntry × KeyStore G :=
  let state := dmn.pdmnState
  let (pubKeyOperator, store) := store.copyOf state.pubKeyOperator
  ({proRegTxHash := dmn.proTxHash
    confirmedHash := state.confirmedHash
    netInfo := state.netInfo
    pubKeyOperator
    keyIDVoting := state.keyIDVoting
    isValid := !state.isBanned
    platformHTTPPort := state.platformHTTPPort
    platformNodeID := state.platformNodeID
    scriptPayout := state.scriptPayout
    scriptOperatorPayout := state.scriptOperatorPayout
    nVersion := UInt16.ofInt state.nVersion
    nType := dmn.nType}, store)

namespace CSimplifiedMNListEntry

/-- The scheme that an entry writes its key in. -/
def legacy (e : CSimplifiedMNListEntry) : Bool := decide (e.nVersion = LegacyBLS)

/-- What the serialization for hashing writes before the key. -/
def beforeKey (e : CSimplifiedMNListEntry) : List UInt8 :=
  writeUint256 e.proRegTxHash++writeUint256 e.confirmedHash++e.netInfo.serialize

/-- What it writes after the key. -/
def afterKey (e : CSimplifiedMNListEntry) : List UInt8 :=
  writeUint160 e.keyIDVoting++[if e.isValid then 1 else 0]
  ++(if BasicBLS ≤ e.nVersion then
      writeLE 2 e.nType.toNat
      ++(if e.nType = .Evo then
          (if e.nVersion < ExtAddr then writeLE 2 e.platformHTTPPort.toNat else [])
          ++writeUint160 e.platformNodeID
        else [])
    else [])

/-- `SERIALIZE_METHODS` for hashing, where the version is not written. -/
def serialize (e : CSimplifiedMNListEntry) (store : KeyStore G) : List UInt8 × KeyStore G :=
  let (bytes, store) := store.serialize codec e.legacy e.pubKeyOperator
  (e.beforeKey++bytes.toList++e.afterKey, store)

def calcHash (e : CSimplifiedMNListEntry) (store : KeyStore G) : uint256 × KeyStore G :=
  let (bytes, store) := e.serialize codec store
  (sha256d bytes, store)

/-- `operator==`, which stops at the first difference. -/
def equal (e rhs : CSimplifiedMNListEntry) (store : KeyStore G) : Bool × KeyStore G :=
  if e.proRegTxHash = rhs.proRegTxHash ∧ e.confirmedHash = rhs.confirmedHash ∧
      e.netInfo.isEqual rhs.netInfo then
    let (same, store) := store.equal codec e.pubKeyOperator rhs.pubKeyOperator
    (same && decide (e.keyIDVoting = rhs.keyIDVoting ∧ e.isValid = rhs.isValid ∧
      e.nVersion = rhs.nVersion ∧ e.nType = rhs.nType ∧
      e.platformHTTPPort = rhs.platformHTTPPort ∧ e.platformNodeID = rhs.platformNodeID), store)
  else (false, store)

/-- `operator!=`, which compares the other way round. -/
def notEqual (e rhs : CSimplifiedMNListEntry) (store : KeyStore G) : Bool × KeyStore G :=
  let (same, store) := rhs.equal codec e store
  (!same, store)

end CSimplifiedMNListEntry

/-- The entries of a list are built for it and never shared between lists, so that
lists with entries are the same object where their entries are at the same
addresses. -/
structure CSimplifiedMNList where
  mnList : List CSimplifiedMNListEntry
deriving DecidableEq

namespace CSimplifiedMNList

/-- The constructor, which sorts the entries. -/
def ofEntries (smlEntries : List CSimplifiedMNListEntry) : CSimplifiedMNList :=
  ⟨smlEntries.insertionSort fun a b => a.proRegTxHash ≤ b.proRegTxHash⟩

def calcHashes : List CSimplifiedMNListEntry → KeyStore G → List uint256 × KeyStore G
  | [], store => ([], store)
  | e :: rest, store =>
    let (hash, store) := e.calcHash codec sha256d store
    let (leaves, store) := calcHashes rest store
    (hash :: leaves, store)

/-- `ComputeMerkleRoot`, whose `SHA256D64` hashes two leaves of a level. -/
def computeMerkleRoot (leaves : List uint256) : uint256 × Bool :=
  MerkleRoot.computeMerkleRoot (fun a b => sha256d (writeUint256 a++writeUint256 b)) 0 leaves

def calcMerkleRoot (sml : CSimplifiedMNList) (store : KeyStore G) :
    (uint256 × Bool) × KeyStore G :=
  let (leaves, store) := calcHashes codec sha256d sml.mnList store
  (computeMerkleRoot sha256d leaves, store)

/-- `std::equal`, up to the first difference. -/
def equalEntries : List CSimplifiedMNListEntry → List CSimplifiedMNListEntry → KeyStore G →
    Bool × KeyStore G
  | e :: rest, e' :: rest', store =>
    match e.equal codec e' store with
    | (false, store) => (false, store)
    | (true, store) => equalEntries rest rest' store
  | _, _, store => (true, store)

def equal (sml rhs : CSimplifiedMNList) (store : KeyStore G) : Bool × KeyStore G :=
  if sml.mnList.length = rhs.mnList.length then equalEntries codec sml.mnList rhs.mnList store
  else (false, store)

end CSimplifiedMNList

/-- The static variables of `CalcCbTxMerkleRootMNList`. -/
structure RootCache where
  cached_sml : CSimplifiedMNList := ⟨[]⟩
  merkleRootCached : uint256 := 0
  mutatedCached : Bool := false

/-- The verdict and the root. No call in the body throws. -/
def calcCbTxMerkleRootMNList (sml : CSimplifiedMNList) (cache : RootCache) (store : KeyStore G) :
    (Except String Unit × uint256) × RootCache × KeyStore G :=
  let (same, store) :=
    -- the same list object: no keys are compared
    if sml = cache.cached_sml then (true, store) else sml.equal codec cache.cached_sml store
  if same then
    let verdict := if cache.mutatedCached then .error "mutated-cached-calc-cb-mnmerkleroot" else .ok ()
    ((verdict, cache.merkleRootCached), cache, store)
  else
    let ((merkleRootRet, mutation), store) := sml.calcMerkleRoot codec sha256d store
    let cache := ⟨sml, merkleRootRet, mutation⟩
    let verdict := if mutation then .error "mutated-calc-cb-mnmerkleroot" else .ok ()
    ((verdict, merkleRootRet), cache, store)

end BabaChain.Evo
