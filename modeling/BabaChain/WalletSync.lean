import BabaChain.Primitives
import BabaChain.Lib.Newest

/-! The state that the devices of a user send each other, and what a device keeps of it. -/
namespace BabaChain.WalletSync
open ByteReader Std

structure SyncData where
  dataType : String
  deviceId : String
  dataHash : uint256
  encryptedData : List UInt8
deriving DecidableEq

structure WalletSyncState where
  walletHash : uint256
  lastSyncTime : ℤ
  transactionCount : ℤ
  balance : ℤ
  settings : ExtTreeMap (List UInt8) (List UInt8)
  recentTxs : List uint256

structure DeviceInfo where
  isTrusted : Bool

structure CWalletSync where
  syncEnabled : Bool
  registeredDevices : String → Option DeviceInfo
  localState : WalletSyncState

/-! ### Serialization -/

/-- Of two settings of one name the first is kept. -/
def readSettings : ℕ → ExtTreeMap (List UInt8) (List UInt8) →
    Reader (ExtTreeMap (List UInt8) (List UInt8))
  | 0, settings => pure settings
  | n+1, settings => do
    let name ← readVarBytes
    let value ← readVarBytes
    readSettings n (settings.insertIfNew name value)

def readTxids : ℕ → Reader (List uint256)
  | 0 => pure []
  | n+1 => do
    let txid ← readUint256
    let txids ← readTxids n
    return txid :: txids

def readWalletSyncState : Reader WalletSyncState := do
  let walletHash ← readUint256
  let lastSyncTime ← readInt 8
  let transactionCount ← readInt 4
  let balance ← readInt 8
  let settings ← readSettings (← readCompactSize) ∅
  let recentTxs ← readTxids (← readCompactSize)
  return ⟨walletHash, lastSyncTime, transactionCount, balance, settings, recentTxs⟩

/-! ### Merging -/

def isStateNewer (state1 state2 : WalletSyncState) : Bool :=
  decide (state2.lastSyncTime < state1.lastSyncTime)

def mergeStates (state1 state2 : WalletSyncState) : WalletSyncState :=
  if isStateNewer state1 state2 then state1 else state2

/-- `DeserializeWalletState`. What follows a state is ignored. -/
def deserializeWalletState (localState : WalletSyncState) (data : List UInt8) :
    Bool × WalletSyncState :=
  match readWalletSyncState data with
  | none => (false, localState)
  | some (newState, _) =>
    if isStateNewer newState localState then (true, mergeStates localState newState)
    else (false, localState)

variable (sha256 : List UInt8 → uint256)

def verifyDataIntegrity (syncData : SyncData) : Bool :=
  decide (sha256 syncData.encryptedData = syncData.dataHash)

/-- The data is not encrypted. -/
def decryptSyncData (encryptedData : List UInt8) : List UInt8 := encryptedData

def CWalletSync.isDeviceTrusted (d : CWalletSync) (deviceId : String) : Bool :=
  (d.registeredDevices deviceId).any DeviceInfo.isTrusted

/-- `ProcessIncomingSyncData`. Packets of another type leave the state as it is. -/
def CWalletSync.processIncomingSyncData (d : CWalletSync) (syncData : SyncData) :
    Bool × CWalletSync :=
  if d.syncEnabled = false then (false, d)
  else if verifyDataIntegrity sha256 syncData = false then (false, d)
  else if d.isDeviceTrusted syncData.deviceId = false then (false, d)
  else
    let decryptedData := decryptSyncData syncData.encryptedData
    if decryptedData.isEmpty then (false, d)
    else if syncData.dataType = "wallet" then
      let (success, localState) := deserializeWalletState d.localState decryptedData
      (success, {d with localState := localState})
    else (false, d)

def CWalletSync.processAll (d : CWalletSync) (packets : List SyncData) : CWalletSync :=
  packets.foldl (fun d syncData => (d.processIncomingSyncData sha256 syncData).2) d

/-! ### What a packet brings -/

theorem mergeStates_eq : mergeStates = Newest.newer WalletSyncState.lastSyncTime := by
  funext state1 state2
  simp only [mergeStates, isStateNewer, Newest.newer, decide_eq_true_eq]

/-- The state in a packet that a device accepts. -/
def walletState (syncData : SyncData) : Option WalletSyncState :=
  if verifyDataIntegrity sha256 syncData = true ∧ syncData.encryptedData ≠ [] ∧
      syncData.dataType = "wallet" then
    (readWalletSyncState syncData.encryptedData).map Prod.fst
  else
    none

/-- The device synchronizes, and trusts the devices that the packets come from. -/
def CWalletSync.Accepts (d : CWalletSync) (packets : List SyncData) : Prop :=
  d.syncEnabled = true ∧ ∀ p ∈ packets, d.isDeviceTrusted p.deviceId = true

variable {d : CWalletSync} {syncData : SyncData}

theorem processIncomingSyncData_syncEnabled :
    (d.processIncomingSyncData sha256 syncData).2.syncEnabled = d.syncEnabled := by
  unfold CWalletSync.processIncomingSyncData
  dsimp only
  split_ifs <;> rfl

theorem processIncomingSyncData_registeredDevices :
    (d.processIncomingSyncData sha256 syncData).2.registeredDevices = d.registeredDevices := by
  unfold CWalletSync.processIncomingSyncData
  dsimp only
  split_ifs <;> rfl

theorem deserializeWalletState_eq (localState : WalletSyncState) (data : List UInt8) :
    (deserializeWalletState localState data).2 =
      ((readWalletSyncState data).map Prod.fst).elim localState
        (Newest.receive WalletSyncState.lastSyncTime localState) := by
  unfold deserializeWalletState
  cases readWalletSyncState data with
  | none => rfl
  | some p =>
    obtain ⟨newState, rest⟩ := p
    change _ = Newest.receive WalletSyncState.lastSyncTime localState newState
    dsimp only
    rw [Newest.receive, ← mergeStates_eq]
    by_cases hnewer : localState.lastSyncTime < newState.lastSyncTime
    · rw [if_pos hnewer, isStateNewer, if_pos (decide_eq_true hnewer)]
    · rw [if_neg hnewer, isStateNewer, if_neg fun h => hnewer (of_decide_eq_true h)]

/-- An accepted packet is received like its state, if it has one. -/
theorem processIncomingSyncData_localState (henabled : d.syncEnabled = true)
    (htrusted : d.isDeviceTrusted syncData.deviceId = true) :
    (d.processIncomingSyncData sha256 syncData).2.localState =
      (walletState sha256 syncData).elim d.localState
        (Newest.receive WalletSyncState.lastSyncTime d.localState) := by
  unfold CWalletSync.processIncomingSyncData walletState decryptSyncData
  rw [henabled, htrusted, if_neg Bool.noConfusion]
  cases hintact : verifyDataIntegrity sha256 syncData with
  | false =>
    rw [if_pos rfl, if_neg fun h => Bool.false_ne_true h.1]
    rfl
  | true =>
    rw [if_neg Bool.noConfusion, if_neg Bool.noConfusion]
    dsimp only
    by_cases hempty : syncData.encryptedData = []
    · rw [if_pos (List.isEmpty_iff.mpr hempty), if_neg fun h => h.2.1 hempty]
      rfl
    · rw [if_neg fun h => hempty (List.isEmpty_iff.mp h)]
      by_cases hwallet : syncData.dataType = "wallet"
      · rw [if_pos hwallet, if_pos ⟨rfl, hempty, hwallet⟩]
        exact deserializeWalletState_eq d.localState syncData.encryptedData
      · rw [if_neg hwallet, if_neg fun h => hwallet h.2.2]
        rfl

/-- The states of the packets are received one after the other. -/
theorem processAll_localState {packets : List SyncData} (haccepts : d.Accepts packets) :
    (d.processAll sha256 packets).localState =
      (packets.filterMap (walletState sha256)).foldl
        (Newest.receive WalletSyncState.lastSyncTime) d.localState := by
  induction packets generalizing d with
  | nil => rfl
  | cons p packets ih =>
    obtain ⟨henabled, htrusted⟩ := haccepts
    rw [List.forall_mem_cons] at htrusted
    have hlocal := processIncomingSyncData_localState sha256 henabled htrusted.1
    have hrest : (d.processIncomingSyncData sha256 p).2.Accepts packets := by
      unfold CWalletSync.Accepts CWalletSync.isDeviceTrusted
      rw [processIncomingSyncData_syncEnabled, processIncomingSyncData_registeredDevices]
      exact ⟨henabled, htrusted.2⟩
    change ((d.processIncomingSyncData sha256 p).2.processAll sha256 packets).localState = _
    rw [ih hrest, hlocal, List.filterMap_cons]
    cases walletState sha256 p with
    | none => rfl
    | some state => rfl

/-! ### Convergence -/

/-- A device that trusts every other one. -/
def trustful (localState : WalletSyncState) : CWalletSync where
  syncEnabled := true
  registeredDevices _ := some ⟨true⟩
  localState := localState

theorem trustful_accepts (localState : WalletSyncState) (packets : List SyncData) :
    (trustful localState).Accepts packets :=
  ⟨rfl, fun _ _ => rfl⟩

/-- A device that has the first state and accepts the packets can end with the state: it
receives all of them, in some order and some of them repeatedly. -/
def EndsWith (localState : WalletSyncState) (packets : List SyncData)
    (state : WalletSyncState) : Prop :=
  ∃ d : CWalletSync, ∃ l, d.Accepts packets ∧ d.localState = localState ∧
    (∀ p, p ∈ l ↔ p ∈ packets) ∧ (d.processAll sha256 l).localState = state

theorem EndsWith.exists_foldl {localState state : WalletSyncState} {packets : List SyncData}
    (h : EndsWith sha256 localState packets state) :
    ∃ l : List WalletSyncState, (∀ a, a ∈ l ↔ a ∈ packets.filterMap (walletState sha256)) ∧
      l.foldl (Newest.receive WalletSyncState.lastSyncTime) localState = state := by
  obtain ⟨d, l, haccepts, rfl, hsame, rfl⟩ := h
  refine ⟨l.filterMap (walletState sha256), fun a => ?_, ?_⟩
  · rw [List.mem_filterMap, List.mem_filterMap]
    exact exists_congr fun p => and_congr_left fun _ => hsame p
  · exact (processAll_localState sha256
      ⟨haccepts.1, fun p hp => haccepts.2 p ((hsame p).mp hp)⟩).symm

/-- A newest state is what a device ends with that receives its packet first. -/
theorem endsWith_of_tied {localState a b : WalletSyncState} {packets : List SyncData}
    (h : Newest.Tied WalletSyncState.lastSyncTime localState
      (packets.filterMap (walletState sha256)) a b) : EndsWith sha256 localState packets a := by
  obtain ⟨ha, -, hlt, -, hle⟩ := h
  obtain ⟨p, hp, hstate⟩ := List.mem_filterMap.mp ha
  have haccepts := trustful_accepts localState
  refine ⟨trustful localState, p :: packets, haccepts packets, rfl, fun q => ?_, ?_⟩
  · rw [List.mem_cons]
    exact or_iff_right_of_imp fun hq => hq ▸ hp
  · rw [processAll_localState sha256 (haccepts (p :: packets)), List.filterMap_cons, hstate]
    exact Newest.foldl_receive_of_newest hlt hle

/-- A state from the time 1 with the given balance and nothing else. -/
def packetOf (balance : UInt8) : SyncData where
  dataType := "wallet"
  deviceId := ""
  dataHash := 0
  encryptedData := List.replicate 32 0 ++ 1 :: List.replicate 11 0 ++ balance ::
    List.replicate 9 0

end BabaChain.WalletSync
