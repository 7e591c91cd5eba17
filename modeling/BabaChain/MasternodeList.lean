import BabaChain.SimplifiedList
import BabaChain.Lib.Runs

/-! The deterministic masternode list. -/
namespace BabaChain.Evo
open BLS
open Std (ExtTreeMap)

structure CDeterministicMNList where
  blockHash : uint256 := 0
  nHeight : ℤ := -1
  nTotalRegisteredCount : UInt32 := 0
  mnMap : ExtTreeMap uint256 CDeterministicMN := ∅
  mnInternalIdMap : ExtTreeMap UInt64 uint256 := ∅
  mnUniquePropertyMap : MnUniquePropertyMap := ∅
  /-- Shared by the copies of a list until one of them changes. -/
  m_cached_sml : Option CSimplifiedMNList := none

namespace CDeterministicMNList

variable {G : Type*} [DecidableEq G] (codec : KeyCodec G) (sha256d : List UInt8 → uint256)

def getMN (list : CDeterministicMNList) (proTxHash : uint256) : Option CDeterministicMN :=
  list.mnMap[proTxHash]?

/-- The entries of masternodes, in the order given. -/
def toSmlEntries : List CDeterministicMN → KeyStore G → List CSimplifiedMNListEntry × KeyStore G
  | [], store => ([], store)
  | dmn :: rest, store =>
    let (e, store) := dmn.to_sml_entry store
    let (sml_entries, store) := toSmlEntries rest store
    (e :: sml_entries, store)

def to_sml (list : CDeterministicMNList) (store : KeyStore G) :
    CSimplifiedMNList × CDeterministicMNList × KeyStore G :=
  match list.m_cached_sml with
  | some sml => (sml, list, store)
  | none =>
    let (sml_entries, store) := toSmlEntries (list.mnMap.toList.map Prod.snd) store
    let sml := CSimplifiedMNList.ofEntries sml_entries
    (sml, {list with m_cached_sml := some sml}, store)

/-- Where a property fails, the map is put back as it was. -/
def addMN (dmn : CDeterministicMN) (fBumpTotalCount : Bool) (list : CDeterministicMNList)
    (store : KeyStore G) : Except String Unit × CDeterministicMNList × KeyStore G :=
  if dmn.proTxHash ∈ list.mnMap then
    (.error "Can't add a masternode with a duplicate proTxHash", list, store)
  else if dmn.internalId ∈ list.mnInternalIdMap then
    (.error "Can't add a masternode with a duplicate internalId", list, store)
  else
    let mnUniquePropertyMapSaved := list.mnUniquePropertyMap
    let (result, map, store) :=
      forProperties (addUniqueProperty codec sha256d dmn.proTxHash) ("with a duplicate "++·)
        "with invalid address" (dmn.uniqueProperties store) (list.mnUniquePropertyMap, store)
    let list := {list with mnUniquePropertyMap := map}
    match result with
    | .error reason =>
      (.error ("Can't add a masternode "++reason),
        {list with mnUniquePropertyMap := mnUniquePropertyMapSaved}, store)
    | .ok () =>
      (.ok (), {list with
        mnMap := list.mnMap.insert dmn.proTxHash dmn
        mnInternalIdMap := list.mnInternalIdMap.insert dmn.internalId dmn.proTxHash
        m_cached_sml := none
        -- the maximum is taken in 64 bits and narrowed to the counter's 32
        nTotalRegisteredCount := if fBumpTotalCount then
          (max (dmn.internalId+1) list.nTotalRegisteredCount.toUInt64).toUInt32
          else list.nTotalRegisteredCount}, store)

/-- The property updates of `UpdateMN`. -/
def updateProperties (oldDmn : CDeterministicMN) (pdmnState : CDeterministicMNState)
    (s : Properties G) : Except String Unit × Properties G :=
  match updateNetInfo codec sha256d oldDmn.proTxHash oldDmn.pdmnState.netInfo pdmnState.netInfo s with
  | (.error err, s) => (.error ("Can't update masternode with addresses, reason="++err), s)
  | (.ok (), s) => updateUniqueProperties codec sha256d oldDmn.proTxHash
      (changedProperties oldDmn.nType oldDmn.pdmnState pdmnState) s

/-- The cached list is dropped where the entry of the masternode changes. -/
def refreshSml (oldDmn dmn : CDeterministicMN) (list : CDeterministicMNList) (store : KeyStore G) :
    CDeterministicMNList × KeyStore G :=
  match list.m_cached_sml with
  | none => (list, store)
  | some _ =>
    let (old_entry, store) := oldDmn.to_sml_entry store
    let (entry, store) := dmn.to_sml_entry store
    let (changed, store) := old_entry.notEqual codec entry store
    (if changed then {list with m_cached_sml := none} else list, store)

/-- The first overload. The entry that is replaced is the caller's, which need not
be the one in the list. -/
def updateMN (oldDmn : CDeterministicMN) (pdmnState : CDeterministicMNState)
    (list : CDeterministicMNList) (store : KeyStore G) :
    Except String Unit × CDeterministicMNList × KeyStore G :=
  let dmn := {oldDmn with pdmnState}
  let mnUniquePropertyMapSaved := list.mnUniquePropertyMap
  let (result, map, store) :=
    updateProperties codec sha256d oldDmn pdmnState (list.mnUniquePropertyMap, store)
  let list := {list with mnUniquePropertyMap := map}
  match result with
  | .error reason =>
    (.error reason, {list with mnUniquePropertyMap := mnUniquePropertyMapSaved}, store)
  | .ok () =>
    let list := {list with mnMap := list.mnMap.insert oldDmn.proTxHash dmn}
    -- the cached list may stay where the two entries compare equal
    let (list, store) := refreshSml codec oldDmn dmn list store
    (.ok (), list, store)

/-- The second overload, which looks the entry up. -/
def updateMNByHash (proTxHash : uint256) (pdmnState : CDeterministicMNState)
    (list : CDeterministicMNList) (store : KeyStore G) :
    Except String Unit × CDeterministicMNList × KeyStore G :=
  match list.getMN proTxHash with
  | none => (.error "Can't find a masternode with proTxHash", list, store)
  | some oldDmn => updateMN codec sha256d oldDmn pdmnState list store

def removeMN (proTxHash : uint256) (list : CDeterministicMNList) (store : KeyStore G) :
    Except String Unit × CDeterministicMNList × KeyStore G :=
  match list.getMN proTxHash with
  | none => (.error "Can't find a masternode with proTxHash", list, store)
  | some dmn =>
    let mnUniquePropertyMapSaved := list.mnUniquePropertyMap
    let (result, map, store) :=
      forProperties (deleteUniqueProperty codec sha256d dmn.proTxHash)
        (fun name => if name = "address" then "with an address" else "with a "++name)
        "with invalid address" (dmn.uniqueProperties store) (list.mnUniquePropertyMap, store)
    let list := {list with mnUniquePropertyMap := map}
    match result with
    | .error reason =>
      (.error ("Can't delete a masternode "++reason),
        {list with mnUniquePropertyMap := mnUniquePropertyMapSaved}, store)
    | .ok () =>
      (.ok (), {list with
        mnMap := list.mnMap.erase proTxHash
        mnInternalIdMap := list.mnInternalIdMap.erase dmn.internalId
        m_cached_sml := none}, store)

end CDeterministicMNList

end BabaChain.Evo
