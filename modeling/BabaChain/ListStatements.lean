import BabaChain.MasternodeList
import BabaChain.Lib.Triples

/-! The operations of the masternode list one statement at a time, on the list in place. -/
namespace BabaChain.Evo.InPlace
open BLS Triples

variable {G : Type}

/-- A statement of a member function. It changes the list and the caches of the keys in place, and
what it has changed stays so where it throws. -/
abbrev Statement (G α : Type) := Step String (CDeterministicMNList × KeyStore G) α

def onProperties (op : Properties G → Bool × Properties G) : Statement G Bool :=
  modifyGet fun s =>
    let (done, map, store) := op (s.1.mnUniquePropertyMap, s.2)
    (done, {s.1 with mnUniquePropertyMap := map}, store)

/-- `mnUniquePropertyMap = mnUniquePropertyMapSaved` -/
def restore (mnUniquePropertyMapSaved : MnUniquePropertyMap) : Statement G PUnit :=
  modify fun s => ({s.1 with mnUniquePropertyMap := mnUniquePropertyMapSaved}, s.2)

/-- An `if` without an `else`. -/
def onlyIf (c : Prop) [Decidable c] (call : Statement G PUnit) : Statement G PUnit :=
  if c then call else pure ⟨⟩

def rollBack (mnUniquePropertyMapSaved : MnUniquePropertyMap) (reason : String) :
    Statement G PUnit := do
  restore mnUniquePropertyMapSaved
  throw reason

def orRollBack (mnUniquePropertyMapSaved : MnUniquePropertyMap) (call : Statement G Bool)
    (reason : String) : Statement G PUnit := do
  let done ← call
  if done then pure ⟨⟩ else rollBack mnUniquePropertyMapSaved reason

/-- The branches on what an entry of `GetEntries()` holds. -/
def onEntry {α : Type} (property : UniqueProperty → Statement G α) (invalid : Statement G α)
    (entry : NetInfoEntry) : Statement G α :=
  match entry.getAddrPort with
  | some service => property (.service service)
  | none =>
    match entry.getDomainPort with
    | some domain => property (.domain domain)
    | none => invalid

/-- The properties of a masternode one by one, as `AddMN` adds them and `RemoveMN` deletes them. -/
def eachProperty (op : UniqueProperty → Statement G Bool) (failed : String → String)
    (invalid : String) (dmn : CDeterministicMN)
    (mnUniquePropertyMapSaved : MnUniquePropertyMap) : Statement G PUnit := do
  let check (name : String) (v : UniqueProperty) : Statement G PUnit :=
    orRollBack mnUniquePropertyMapSaved (op v) (failed name)
  check "collateralOutpoint" (.outpoint dmn.collateralOutpoint)
  dmn.pdmnState.netInfo.getEntries.forM
    (onEntry (check "address") (rollBack mnUniquePropertyMapSaved invalid))
  check "keyIDOwner" (.keyID dmn.pdmnState.keyIDOwner)
  let store := (← get).2
  onlyIf (¬(store.keys dmn.pdmnState.pubKeyOperator).isDefault)
    (check "pubKeyOperator" (.operatorKey dmn.pdmnState.pubKeyOperator))
  onlyIf (dmn.nType = .Evo ∧ dmn.pdmnState.platformNodeID ≠ 0)
    (check "platformNodeID" (.nodeID dmn.pdmnState.platformNodeID))

section Operations
variable [DecidableEq G] (codec : KeyCodec G) (sha256d : List UInt8 → uint256)

def addUniqueProperty (dmn : CDeterministicMN) (v : UniqueProperty) : Statement G Bool :=
  onProperties (Evo.addUniqueProperty codec sha256d dmn.proTxHash v)

def deleteUniqueProperty (dmn : CDeterministicMN) (oldValue : UniqueProperty) :
    Statement G Bool :=
  onProperties (Evo.deleteUniqueProperty codec sha256d dmn.proTxHash oldValue)

def updateUniqueProperty (dmn : CDeterministicMN) (oldValue newValue : UniqueProperty) :
    Statement G Bool :=
  onProperties (Evo.updateUniqueProperty codec sha256d dmn.proTxHash oldValue newValue)

def addMN (dmn : CDeterministicMN) (fBumpTotalCount : Bool) : Statement G PUnit := do
  let list := (← get).1
  refuse (dmn.proTxHash ∈ list.mnMap) "Can't add a masternode with a duplicate proTxHash"
  refuse (dmn.internalId ∈ list.mnInternalIdMap)
    "Can't add a masternode with a duplicate internalId"
  eachProperty (addUniqueProperty codec sha256d dmn) ("Can't add a masternode with a duplicate "++·)
    "Can't add a masternode with invalid address" dmn list.mnUniquePropertyMap
  modify fun s => ({s.1 with mnMap := s.1.mnMap.insert dmn.proTxHash dmn}, s.2)
  modify fun s => ({s.1 with
    mnInternalIdMap := s.1.mnInternalIdMap.insert dmn.internalId dmn.proTxHash}, s.2)
  modify fun s => ({s.1 with m_cached_sml := none}, s.2)
  onlyIf fBumpTotalCount (modify fun s => ({s.1 with
    nTotalRegisteredCount :=
      (max (dmn.internalId+1) s.1.nTotalRegisteredCount.toUInt64).toUInt32}, s.2))

/-- The entries up to the first that gives a text. -/
def untilText (turn : NetInfoEntry → Statement G String) : List NetInfoEntry → Statement G String
  | [] => pure ""
  | entry :: rest => do
    let err ← turn entry
    if err = "" then untilText turn rest else pure err

def textUnless (call : Statement G Bool) (err : String) : Statement G String := do
  let done ← call
  if done then pure "" else pure err

/-- The lambda of `UpdateMN`, which returns the empty text where it succeeds. It leaves the map as
far as it came. -/
def updateNetInfo (dmn : CDeterministicMN) (oldInfo newInfo : NetInfo) : Statement G String :=
  if oldInfo.isEqual newInfo then pure ""
  else do
    let err ← untilText
      (onEntry (fun v => textUnless (deleteUniqueProperty codec sha256d dmn v) "internal error")
        (pure "invalid address")) oldInfo.getEntries
    if err = "" then
      untilText
        (onEntry (fun v => textUnless (addUniqueProperty codec sha256d dmn v) "duplicate")
          (pure "invalid address")) newInfo.getEntries
    else pure err

/-- The overload for a difference of states calls this one with the state that the difference makes
of the old one. -/
def updateMN (oldDmn : CDeterministicMN) (pdmnState : CDeterministicMNState) :
    Statement G PUnit := do
  let list := (← get).1
  let mnUniquePropertyMapSaved := list.mnUniquePropertyMap
  let oldState := oldDmn.pdmnState
  let err ← updateNetInfo codec sha256d oldDmn oldState.netInfo pdmnState.netInfo
  onlyIf (err ≠ "")
    (rollBack mnUniquePropertyMapSaved ("Can't update masternode with addresses, reason="++err))
  orRollBack mnUniquePropertyMapSaved
    (updateUniqueProperty codec sha256d oldDmn (.keyID oldState.keyIDOwner)
      (.keyID pdmnState.keyIDOwner))
    "Can't update a masternode with a duplicate keyIDOwner"
  orRollBack mnUniquePropertyMapSaved
    (updateUniqueProperty codec sha256d oldDmn (.operatorKey oldState.pubKeyOperator)
      (.operatorKey pdmnState.pubKeyOperator))
    "Can't update a masternode with a duplicate pubKeyOperator"
  onlyIf (oldDmn.nType = .Evo)
    (orRollBack mnUniquePropertyMapSaved
      (updateUniqueProperty codec sha256d oldDmn (.nodeID oldState.platformNodeID)
        (.nodeID pdmnState.platformNodeID))
      "Can't update a masternode with a duplicate platformNodeID")
  let dmn := {oldDmn with pdmnState}
  modify fun s => ({s.1 with mnMap := s.1.mnMap.insert oldDmn.proTxHash dmn}, s.2)
  modify fun s => CDeterministicMNList.refreshSml codec oldDmn dmn s.1 s.2

/-- The overload that looks the masternode up. -/
def updateMNByHash (proTxHash : uint256) (pdmnState : CDeterministicMNState) :
    Statement G PUnit := do
  let list := (← get).1
  match list.getMN proTxHash with
  | none => throw "Can't find a masternode with proTxHash"
  | some oldDmn => updateMN codec sha256d oldDmn pdmnState

def removeMN (proTxHash : uint256) : Statement G PUnit := do
  let list := (← get).1
  match list.getMN proTxHash with
  | none => throw "Can't find a masternode with proTxHash"
  | some dmn =>
    eachProperty (deleteUniqueProperty codec sha256d dmn)
      (fun name => "Can't delete a masternode "++
        (if name = "address" then "with an address" else "with a "++name))
      "Can't delete a masternode with invalid address" dmn list.mnUniquePropertyMap
    modify fun s => ({s.1 with mnMap := s.1.mnMap.erase proTxHash}, s.2)
    modify fun s => ({s.1 with mnInternalIdMap := s.1.mnInternalIdMap.erase dmn.internalId}, s.2)
    modify fun s => ({s.1 with m_cached_sml := none}, s.2)

end Operations

end BabaChain.Evo.InPlace
