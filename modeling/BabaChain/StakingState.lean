import Std.Data.ExtTreeMap
import Std.Data.ExtTreeSet
import BabaChain.Consensus
import BabaChain.Primitives

/-! The global maps of the staking module and the functions that read and write
them. The clock, `GetTime()`, is an argument. -/
namespace BabaChain.Staking
open MachineInt Std

structure CStakeLock where
  outpoint : COutPoint
  nLockTime : ℤ
  nAmount : ℤ
  ownerPubKey : CPubKey
deriving DecidableEq

def CStakeLock.isExpired (lock : CStakeLock) (nCurrentTime : ℤ) : Bool :=
  decide (lock.nLockTime ≤ nCurrentTime)

structure CValidator where
  pubkey : CPubKey
  nStakeAmount : ℤ
  nRegistrationTime : ℤ
  fActive : Bool
deriving DecidableEq

/-- The static maps of `pos.cpp`. -/
structure State where
  mapStakeLocks : ExtTreeMap COutPoint CStakeLock := ∅
  mapValidators : ExtTreeMap CPubKey CValidator := ∅
  mapValidatorStatus : ExtTreeMap CPubKey Bool := ∅
  mapSlashedValidators : ExtTreeMap CPubKey ℤ := ∅
  mapSlashPenalties : ExtTreeMap CPubKey ℤ := ∅
  setBlacklistedValidators : ExtTreeSet CPubKey := ∅

/-- `CreateStakeLock`. The expiry is an `int64_t` sum. -/
def createStakeLock (nNow : ℤ) (outpoint : COutPoint) (nLockDuration nAmount : ℤ)
    (ownerPubKey : CPubKey) (s : State) : Bool × State :=
  if outpoint ∈ s.mapStakeLocks then
    (false, s)
  else
    let nLockTime := wrap 64 (nNow+nLockDuration)
    let stakeLock : CStakeLock := ⟨outpoint, nLockTime, nAmount, ownerPubKey⟩
    (true, {s with mapStakeLocks := s.mapStakeLocks.insert outpoint stakeLock})

/-- `RemoveStakeLock`. -/
def removeStakeLock (outpoint : COutPoint) (s : State) : Bool × State :=
  if outpoint ∈ s.mapStakeLocks then
    (true, {s with mapStakeLocks := s.mapStakeLocks.erase outpoint})
  else
    (false, s)

/-- `GetStakeLock`. -/
def getStakeLock (outpoint : COutPoint) (s : State) : Option CStakeLock :=
  s.mapStakeLocks[outpoint]?

/-- `IsStakeLocked`; a zero time argument stands for the clock. -/
def isStakeLocked (nNow : ℤ) (outpoint : COutPoint) (nCurrentTime : ℤ) (s : State) : Bool :=
  let nCurrentTime := if nCurrentTime = 0 then nNow else nCurrentTime
  match s.mapStakeLocks[outpoint]? with
  | none => false
  | some lock => !lock.isExpired nCurrentTime

/-- `RegisterValidator`. -/
def registerValidator (nNow : ℤ) (validatorPubKey : CPubKey) (nStakeAmount : ℤ)
    (_rewardScript _strDescription : List UInt8) (s : State) : Bool × State :=
  if validatorPubKey ∈ s.mapValidators then
    (false, s)
  else
    let validator : CValidator := ⟨validatorPubKey, nStakeAmount, nNow, true⟩
    (true, {s with
      mapValidators := s.mapValidators.insert validatorPubKey validator
      mapValidatorStatus := s.mapValidatorStatus.insert validatorPubKey true})

/-- `UpdateValidatorStake`. -/
def updateValidatorStake (validatorPubKey : CPubKey) (nNewStakeAmount : ℤ) (s : State) :
    Bool × State :=
  match s.mapValidators[validatorPubKey]? with
  | none => (false, s)
  | some v => (true, {s with
      mapValidators := s.mapValidators.insert validatorPubKey
        {v with nStakeAmount := nNewStakeAmount}})

/-- `SetValidatorStatus`. -/
def setValidatorStatus (validatorPubKey : CPubKey) (fActive : Bool) (s : State) : Bool × State :=
  match s.mapValidators[validatorPubKey]? with
  | none => (false, s)
  | some v => (true, {s with
      mapValidators := s.mapValidators.insert validatorPubKey {v with fActive := fActive}
      mapValidatorStatus := s.mapValidatorStatus.insert validatorPubKey fActive})

/-- `GetValidator`. -/
def getValidator (validatorPubKey : CPubKey) (s : State) : Option CValidator :=
  s.mapValidators[validatorPubKey]?

/-- `IsValidatorRegistered`. -/
def isValidatorRegistered (validatorPubKey : CPubKey) (s : State) : Bool :=
  decide (validatorPubKey ∈ s.mapValidators)

/-- `IsValidatorActive`. -/
def isValidatorActive (validatorPubKey : CPubKey) (s : State) : Bool :=
  s.mapValidatorStatus[validatorPubKey]?.getD false

/-- The entries of `mapValidators` that both activity flags admit. -/
def activeEntries (s : State) : List (CPubKey × CValidator) :=
  s.mapValidators.toList.filter fun kv => kv.2.fActive && isValidatorActive kv.1 s

/-- `GetActiveValidators`. -/
def getActiveValidators (s : State) : List CValidator :=
  (activeEntries s).map Prod.snd

/-- `GetTotalActiveStake`, an `int64_t` sum. -/
def getTotalActiveStake (s : State) : ℤ :=
  (activeEntries s).foldl (fun totalStake kv => wrap 64 (totalStake+kv.2.nStakeAmount)) 0

/-- `RemoveValidator`. -/
def removeValidator (validatorPubKey : CPubKey) (s : State) : Bool × State :=
  if validatorPubKey ∈ s.mapValidators then
    (true, {s with
      mapValidators := s.mapValidators.erase validatorPubKey
      mapValidatorStatus := s.mapValidatorStatus.erase validatorPubKey})
  else
    (false, s)

end BabaChain.Staking
