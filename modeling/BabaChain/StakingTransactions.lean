import BabaChain.StakingState

/-! Validation and processing of the staking module's transactions. -/
namespace BabaChain.Staking
open MachineInt ByteReader

structure CStakeTransactionPayload where
  nStakeAmount : ℤ
  stakePubKey : CPubKey
  nLockTime : ℤ
deriving DecidableEq

structure CUnstakeTransactionPayload where
  stakeOutpoint : COutPoint
  stakePubKey : CPubKey
deriving DecidableEq

structure CValidatorRegistrationPayload where
  validatorPubKey : CPubKey
  nStakeAmount : ℤ
  rewardScript : List UInt8
  strDescription : List UInt8
deriving DecidableEq

def readStakePayload : Reader CStakeTransactionPayload := do
  let nStakeAmount ← readInt 8
  let stakePubKey ← readPubKey
  let nLockTime ← readInt 8
  return ⟨nStakeAmount, stakePubKey, nLockTime⟩

def readUnstakePayload : Reader CUnstakeTransactionPayload := do
  let stakeOutpoint ← readOutPoint
  let stakePubKey ← readPubKey
  return ⟨stakeOutpoint, stakePubKey⟩

def readRegistrationPayload : Reader CValidatorRegistrationPayload := do
  let validatorPubKey ← readPubKey
  let nStakeAmount ← readInt 8
  let rewardScript ← readVarBytes
  let strDescription ← readVarBytes
  return ⟨validatorPubKey, nStakeAmount, rewardScript, strDescription⟩

/-- A transaction's payload; an empty one and one that throws are both missing. -/
def decodePayload {α : Type} (r : Reader α) (tx : CTransaction) : Option α :=
  if tx.vExtraPayload = [] then none else (r.run tx.vExtraPayload).map Prod.fst

/-- The `int64_t` sum of the output values. -/
def totalOutput (tx : CTransaction) : ℤ :=
  tx.vout.foldl (fun total vout => wrap 64 (total+vout.nValue)) 0

/-- `ValidateStakeTransaction`. -/
def validateStakeTransaction (tx : CTransaction) (payload : CStakeTransactionPayload)
    (p : Params) : Bool :=
  if payload.nStakeAmount < p.nMinStakeAmount then false
  else if payload.nLockTime < p.nStakeMinAge then false
  else if (p.nStakeMaxAge : ℤ) < payload.nLockTime then false
  else if !payload.stakePubKey.isValid then false
  else decide (totalOutput tx = payload.nStakeAmount)

/-- `ValidateUnstakeTransaction`. -/
def validateUnstakeTransaction (nNow : ℤ) (payload : CUnstakeTransactionPayload) (s : State) :
    Bool :=
  match getStakeLock payload.stakeOutpoint s with
  | none => false
  | some stakeLock =>
    if !stakeLock.isExpired nNow then false
    else decide (stakeLock.ownerPubKey = payload.stakePubKey)

/-- `ValidateValidatorRegistration`. -/
def validateValidatorRegistration (tx : CTransaction) (payload : CValidatorRegistrationPayload)
    (p : Params) (s : State) : Bool :=
  if payload.nStakeAmount < wrap 64 (p.nMinStakeAmount*10) then false
  else if !payload.validatorPubKey.isValid then false
  else if isValidatorRegistered payload.validatorPubKey s then false
  else if payload.rewardScript = [] then false
  else if 256 < payload.strDescription.length then false
  else decide (payload.nStakeAmount ≤ totalOutput tx)

/-- `ValidateStakingTransaction`. -/
def validateStakingTransaction (p : Params) (nNow : ℤ) (tx : CTransaction) (s : State) : Bool :=
  if tx.vin = [] ∨ tx.vout = [] then
    false
  else if tx.nType = TRANSACTION_STAKE then
    match decodePayload readStakePayload tx with
    | none => false
    | some payload => validateStakeTransaction tx payload p
  else if tx.nType = TRANSACTION_UNSTAKE then
    match decodePayload readUnstakePayload tx with
    | none => false
    | some payload => validateUnstakeTransaction nNow payload s
  else if tx.nType = TRANSACTION_VALIDATOR_REGISTER then
    match decodePayload readRegistrationPayload tx with
    | none => false
    | some payload => validateValidatorRegistration tx payload p s
  -- every other type passes
  else
    true

/-- `ProcessStakeTransaction`: the lock is on the first output. -/
def processStakeTransaction (nNow : ℤ) (tx : CTransaction) (payload : CStakeTransactionPayload)
    (s : State) : Bool × State :=
  if tx.vout = [] then
    (false, s)
  else
    createStakeLock nNow ⟨tx.hash, 0⟩ payload.nLockTime payload.nStakeAmount payload.stakePubKey s

/-- `ProcessUnstakeTransaction`. -/
def processUnstakeTransaction (payload : CUnstakeTransactionPayload) (s : State) : Bool × State :=
  removeStakeLock payload.stakeOutpoint s

/-- `ProcessValidatorRegistration`. -/
def processValidatorRegistration (nNow : ℤ) (payload : CValidatorRegistrationPayload) (s : State) :
    Bool × State :=
  if isValidatorRegistered payload.validatorPubKey s then
    (false, s)
  else
    registerValidator nNow payload.validatorPubKey payload.nStakeAmount payload.rewardScript
      payload.strDescription s

/-- The processing function of the transaction's type, run on its payload. -/
def processStakingTransaction (nNow : ℤ) (tx : CTransaction) (s : State) : State :=
  if tx.nType = TRANSACTION_STAKE then
    match decodePayload readStakePayload tx with
    | none => s
    | some payload => (processStakeTransaction nNow tx payload s).2
  else if tx.nType = TRANSACTION_UNSTAKE then
    match decodePayload readUnstakePayload tx with
    | none => s
    | some payload => (processUnstakeTransaction payload s).2
  else if tx.nType = TRANSACTION_VALIDATOR_REGISTER then
    match decodePayload readRegistrationPayload tx with
    | none => s
    | some payload => (processValidatorRegistration nNow payload s).2
  else
    s

/-- Connecting a transaction of a block: it is validated and, if accepted,
processed. The answer is the verdict. -/
def connectTransaction (p : Params) (nNow : ℤ) (tx : CTransaction) (s : State) : Bool × State :=
  if validateStakingTransaction p nNow tx s then
    (true, processStakingTransaction nNow tx s)
  else
    (false, s)

end BabaChain.Staking
