import BabaChain.UniqueProperties
import BabaChain.ValidatorRegistry

/-! The validator manager: the registry, the database behind it, and the cache of
the transactions it has processed. -/
namespace BabaChain.PoS
open Std (ExtTreeMap ExtTreeSet)
open OrdMap ByteWriter Runs

structure CValidatorRegTx where
  nVersion : BitVec 16
  validatorPubKey : CPubKey
  blsPubKey : CBLSPublicKey
  stakeOutPoint : COutPoint
  nStakeAmount : ℤ
  payoutScript : List UInt8
  vchSig : List UInt8
deriving DecidableEq

structure CValidatorDeregTx where
  nVersion : BitVec 16
  validatorPubKey : CPubKey
  vchSig : List UInt8
deriving DecidableEq

/-- `CURRENT_VERSION` of both payloads. -/
def CURRENT_VERSION : BitVec 16 := 1

def CValidatorRegTx.serialize (regTx : CValidatorRegTx) : List UInt8 :=
  writeLE 2 regTx.nVersion.toNat++writeVarBytes (keyBytes regTx.validatorPubKey)++
    regTx.blsPubKey.toList++writeUint256 regTx.stakeOutPoint.hash++
    writeLE 4 regTx.stakeOutPoint.n.toNat++writeLE 8 (regTx.nStakeAmount % 2^64).toNat++
    writeVarBytes regTx.payoutScript++writeVarBytes regTx.vchSig

def CValidatorDeregTx.serialize (deregTx : CValidatorDeregTx) : List UInt8 :=
  writeLE 2 deregTx.nVersion.toNat++writeVarBytes (keyBytes deregTx.validatorPubKey)++
    writeVarBytes deregTx.vchSig

/-- What the manager reads of a block index entry. -/
structure CBlockIndex where
  nTime : BitVec 32
  hash : uint256
deriving DecidableEq

def CBlockIndex.getBlockTime (pindex : CBlockIndex) : ℤ := pindex.nTime.toNat

structure Coin where
  out : CTxOut
deriving DecidableEq

def Coin.isSpent (coin : Coin) : Bool := decide (coin.out.nValue = -1)

abbrev CCoinsViewCache := ExtTreeMap COutPoint Coin

/-- `CCoinsViewCache::GetCoin`, where a spent coin is not found. -/
def getCoin (view : CCoinsViewCache) (outpoint : COutPoint) : Option Coin :=
  view[outpoint]?.filter fun coin => !coin.isSpent

/-- The records under `DB_VALIDATOR` and those under `DB_VALIDATOR_BY_STAKE`. -/
structure ValidatorDB where
  validators : ExtTreeMap uint256 CValidator := ∅
  byStake : ExtTreeMap COutPoint uint256 := ∅
deriving DecidableEq

namespace ValidatorDB

/-- The two writes for a validator. -/
def write (Hash : List UInt8 → uint256) (validator : CValidator) (db : ValidatorDB) : ValidatorDB :=
  let validatorHash := getValidatorHash Hash validator.pubkey
  {validators := db.validators.insert validatorHash validator
   byStake := db.byStake.insert validator.stakeInput.prevout validatorHash}

/-- The two erasures for a validator. -/
def erase (validatorHash : uint256) (validator : CValidator) (db : ValidatorDB) : ValidatorDB where
  validators := db.validators.erase validatorHash
  byStake := db.byStake.erase validator.stakeInput.prevout

/-- The record goes by what the database itself says of the validator. -/
def remove (validatorHash : uint256) (db : ValidatorDB) : Bool × ValidatorDB :=
  match db.validators[validatorHash]? with
  | none => (false, db)
  | some validator => (true, db.erase validatorHash validator)

end ValidatorDB

/-- `m_db` is `none` until `Init` has opened it. -/
structure CValidatorManager where
  m_db : Option ValidatorDB := none
  registry : CValidatorRegistry := {}
  processedTxs : ExtTreeSet uint256 := ∅
deriving DecidableEq

namespace CValidatorManager

/-- `Init` in a new directory. -/
def init : CValidatorManager := {m_db := some {}}

def isTransactionProcessed (txHash : uint256) (m : CValidatorManager) : Bool :=
  decide (txHash ∈ m.processedTxs)

def markTransactionProcessed (txHash : uint256) (m : CValidatorManager) : CValidatorManager :=
  {m with processedTxs := m.processedTxs.insert txHash}

def clearProcessedTransactions (m : CValidatorManager) : CValidatorManager :=
  {m with processedTxs := ∅}

section Operations

variable (Hash : List UInt8 → uint256) (VerifyECDSA : CPubKey → uint256 → List UInt8 → Bool)

/-- The records come in the order of their keys; one that the registry refuses is
left out. -/
def loadValidators (m : CValidatorManager) : Bool × CValidatorManager :=
  match m.m_db with
  | none => (false, m)
  | some db =>
    (true, {m with
      registry := db.validators.toList.foldl
        (fun registry record => (registerValidator Hash record.2 registry).2) {}})

def saveValidator (validator : CValidator) (m : CValidatorManager) : Bool × CValidatorManager :=
  match m.m_db with
  | none => (false, m)
  | some db => (true, {m with m_db := some (db.write Hash validator)})

def removeValidator (validatorHash : uint256) (m : CValidatorManager) :
    Bool × CValidatorManager :=
  match m.m_db with
  | none => (false, m)
  | some db =>
    let (removed, db) := db.remove validatorHash
    (removed, {m with m_db := some db})

def verifyValidatorRegSignature (regTx : CValidatorRegTx) : Bool :=
  let regTxCopy := {regTx with vchSig := []}
  VerifyECDSA regTx.validatorPubKey (Hash regTxCopy.serialize) regTx.vchSig

def verifyValidatorDeregSignature (deregTx : CValidatorDeregTx) : Bool :=
  let deregTxCopy := {deregTx with vchSig := []}
  VerifyECDSA deregTx.validatorPubKey (Hash deregTxCopy.serialize) deregTx.vchSig

def validateValidatorRegTx (regTx : CValidatorRegTx) (view : CCoinsViewCache)
    (m : CValidatorManager) : Except String Unit :=
  if regTx.nVersion ≠ CURRENT_VERSION then
    .error "validator-reg-version"
  else if regTx.nStakeAmount < MIN_VALIDATOR_STAKE then
    .error "validator-insufficient-stake"
  else if hasValidator (getValidatorHash Hash regTx.validatorPubKey) m.registry then
    .error "validator-already-exists"
  else if isStakeUsed regTx.stakeOutPoint m.registry then
    .error "stake-already-used"
  else
    match getCoin view regTx.stakeOutPoint with
    | none => .error "stake-utxo-not-found"
    | some coin =>
      if coin.out.nValue ≠ regTx.nStakeAmount then
        .error "stake-amount-mismatch"
      else if !verifyValidatorRegSignature Hash VerifyECDSA regTx then
        .error "validator-reg-signature-invalid"
      else
        .ok ()

def validateValidatorDeregTx (deregTx : CValidatorDeregTx) (m : CValidatorManager) :
    Except String Unit :=
  if deregTx.nVersion ≠ CURRENT_VERSION then
    .error "validator-dereg-version"
  else if !hasValidator (getValidatorHash Hash deregTx.validatorPubKey) m.registry then
    .error "validator-not-found"
  else if !verifyValidatorDeregSignature Hash VerifyECDSA deregTx then
    .error "validator-dereg-signature-invalid"
  else
    .ok ()

/-- The validator that a registration mined in a block stands for. -/
def regValidator (now : ℤ) (regTx : CValidatorRegTx) (pindex : CBlockIndex) : CValidator :=
  let stakeInput : CStakeInput :=
    ⟨regTx.stakeOutPoint, regTx.nStakeAmount, pindex.getBlockTime, pindex.hash⟩
  CValidator.create now regTx.validatorPubKey regTx.blsPubKey stakeInput

/-- `now` is what `GetTime` returns during the call. -/
def processValidatorRegTx (now : ℤ) (txHash : uint256) (regTx : CValidatorRegTx)
    (pindex : CBlockIndex) (view : CCoinsViewCache) (m : CValidatorManager) :
    Except String Unit × CValidatorManager :=
  if m.isTransactionProcessed txHash then
    (.ok (), m)
  else
    match validateValidatorRegTx Hash VerifyECDSA regTx view m with
    | .error e => (.error e, m)
    | .ok () =>
      let validator := regValidator now regTx pindex
      match registerValidator Hash validator m.registry with
      | (false, _) => (.error "validator-reg-failed", m)
      | (true, registry) =>
        match saveValidator Hash validator {m with registry := registry} with
        | (false, m') =>
          -- the registration is rolled back
          let validatorHash := getValidatorHash Hash validator.pubkey
          (.error "validator-db-save-failed",
            {m' with registry := (deregisterValidator validatorHash m'.registry).2})
        | (true, m') => (.ok (), m'.markTransactionProcessed txHash)

def processValidatorDeregTx (txHash : uint256) (deregTx : CValidatorDeregTx)
    (m : CValidatorManager) : Except String Unit × CValidatorManager :=
  if m.isTransactionProcessed txHash then
    (.ok (), m)
  else
    match validateValidatorDeregTx Hash VerifyECDSA deregTx m with
    | .error e => (.error e, m)
    | .ok () =>
      let validatorHash := getValidatorHash Hash deregTx.validatorPubKey
      if !hasValidator validatorHash m.registry then
        (.error "validator-not-found", m)
      else
        match deregisterValidator validatorHash m.registry with
        | (false, _) => (.error "validator-dereg-failed", m)
        | (true, registry) =>
          -- a failure to remove the record is only logged
          let m' := (removeValidator validatorHash {m with registry := registry}).2
          (.ok (), m'.markTransactionProcessed txHash)

/-- The processed cache keeps the transaction. -/
def undoValidatorRegTx (regTx : CValidatorRegTx) (m : CValidatorManager) :
    Bool × CValidatorManager :=
  let validatorHash := getValidatorHash Hash regTx.validatorPubKey
  let m := {m with registry := (deregisterValidator validatorHash m.registry).2}
  (true, (removeValidator validatorHash m).2)

/-- The state from before the deregistration is stored nowhere. -/
def undoValidatorDeregTx (m : CValidatorManager) : Bool × CValidatorManager :=
  loadValidators Hash m

/-- A call of the manager, or of one of the two operations that `GetRegistry` gives
access to. A restart is `clearProcessed` and `load`. -/
inductive ManagerOp where
  | regTx (now : ℤ) (txHash : uint256) (regTx : CValidatorRegTx) (pindex : CBlockIndex)
      (view : CCoinsViewCache)
  | deregTx (txHash : uint256) (deregTx : CValidatorDeregTx)
  | undoRegTx (regTx : CValidatorRegTx)
  | undoDeregTx
  | updateStake (validatorHash : uint256) (newStake : CStakeInput)
  | slash (validatorHash : uint256)
  | load
  | clearProcessed
deriving DecidableEq

def managerStep (m : CValidatorManager) : ManagerOp → Bool × CValidatorManager
  | .regTx now txHash regTx pindex view =>
    let (result, m) := processValidatorRegTx Hash VerifyECDSA now txHash regTx pindex view m
    (result.toBool, m)
  | .deregTx txHash deregTx =>
    let (result, m) := processValidatorDeregTx Hash VerifyECDSA txHash deregTx m
    (result.toBool, m)
  | .undoRegTx regTx => undoValidatorRegTx Hash regTx m
  | .undoDeregTx => undoValidatorDeregTx Hash m
  | .updateStake validatorHash newStake =>
    let (updated, registry) := updateValidatorStake validatorHash newStake m.registry
    (updated, {m with registry := registry})
  | .slash validatorHash =>
    let (slashed, registry) := slashValidator validatorHash m.registry
    (slashed, {m with registry := registry})
  | .load => loadValidators Hash m
  | .clearProcessed => (true, m.clearProcessedTransactions)

end Operations

section Specs

variable {Hash : List UInt8 → uint256} {VerifyECDSA : CPubKey → uint256 → List UInt8 → Bool}
variable {m : CValidatorManager} {regTx : CValidatorRegTx} {deregTx : CValidatorDeregTx}
variable {view : CCoinsViewCache}

/-- The tests of a registration all pass. -/
structure RegAccepted (Hash : List UInt8 → uint256)
    (VerifyECDSA : CPubKey → uint256 → List UInt8 → Bool) (regTx : CValidatorRegTx)
    (view : CCoinsViewCache) (m : CValidatorManager) : Prop where
  version : regTx.nVersion = CURRENT_VERSION
  minimum : MIN_VALIDATOR_STAKE ≤ regTx.nStakeAmount
  new : m.registry.mapValidators[getValidatorHash Hash regTx.validatorPubKey]? = none
  unused : m.registry.mapStakeToValidator[regTx.stakeOutPoint]? = none
  coin : ∃ coin, getCoin view regTx.stakeOutPoint = some coin ∧ coin.out.nValue = regTx.nStakeAmount
  signature : verifyValidatorRegSignature Hash VerifyECDSA regTx = true

theorem hasValidator_eq_false {r : CValidatorRegistry} {h : uint256} :
    hasValidator h r = false ↔ r.mapValidators[h]? = none := by
  rw [hasValidator, decide_eq_false_iff_not, notMem_iff]

theorem hasValidator_eq_true {r : CValidatorRegistry} {h : uint256} :
    hasValidator h r = true ↔ ∃ v, r.mapValidators[h]? = some v := by
  rw [hasValidator, decide_eq_true_iff, mem_iff_exists]

/-- A failing test decides the outcome. -/
theorem ite_error_eq_ok {c : Prop} [Decidable c] {e : String} {x : Except String Unit} :
    (if c then .error e else x) = .ok () ↔ ¬c ∧ x = .ok () := by
  by_cases hc : c <;> simp [hc]

theorem validateValidatorRegTx_eq_ok :
    validateValidatorRegTx Hash VerifyECDSA regTx view m = .ok () ↔
      RegAccepted Hash VerifyECDSA regTx view m := by
  unfold validateValidatorRegTx
  rw [ite_error_eq_ok, ite_error_eq_ok, ite_error_eq_ok, ite_error_eq_ok, not_not, not_lt,
    Bool.not_eq_true, Bool.not_eq_true, hasValidator_eq_false, isStakeUsed,
    decide_eq_false_iff_not, notMem_iff]
  constructor
  · rintro ⟨hv, hm, hn, hu, h⟩
    cases hc : getCoin view regTx.stakeOutPoint with
    | none =>
      rw [hc] at h
      contradiction
    | some coin =>
      rw [hc] at h
      obtain ⟨ha, hs, -⟩ := ite_error_eq_ok.mp h |>.imp_right ite_error_eq_ok.mp
      exact ⟨hv, hm, hn, hu, ⟨coin, hc, not_not.mp ha⟩, by simpa using hs⟩
  · rintro ⟨hv, hm, hn, hu, ⟨coin, hc, ha⟩, hs⟩
    rw [hc, hs]
    exact ⟨hv, hm, hn, hu, if_neg (not_not.mpr ha)⟩

structure DeregAccepted (Hash : List UInt8 → uint256)
    (VerifyECDSA : CPubKey → uint256 → List UInt8 → Bool) (deregTx : CValidatorDeregTx)
    (m : CValidatorManager) : Prop where
  version : deregTx.nVersion = CURRENT_VERSION
  known : ∃ v, m.registry.mapValidators[getValidatorHash Hash deregTx.validatorPubKey]? = some v
  signature : verifyValidatorDeregSignature Hash VerifyECDSA deregTx = true

theorem validateValidatorDeregTx_eq_ok :
    validateValidatorDeregTx Hash VerifyECDSA deregTx m = .ok () ↔
      DeregAccepted Hash VerifyECDSA deregTx m := by
  unfold validateValidatorDeregTx
  rw [ite_error_eq_ok, ite_error_eq_ok, ite_error_eq_ok, not_not, Bool.not_eq_true,
    Bool.not_eq_true, Bool.not_eq_false', Bool.not_eq_false', hasValidator_eq_true]
  constructor
  · rintro ⟨hv, hn, hs, -⟩
    exact ⟨hv, hn, hs⟩
  · rintro ⟨hv, hn, hs⟩
    exact ⟨hv, hn, hs, rfl⟩

/-- A registration enters the registry and the database. -/
structure RegTakesEffect (Hash : List UInt8 → uint256)
    (VerifyECDSA : CPubKey → uint256 → List UInt8 → Bool) (txHash : uint256)
    (regTx : CValidatorRegTx) (pindex : CBlockIndex) (view : CCoinsViewCache)
    (m : CValidatorManager) : Prop where
  unprocessed : txHash ∉ m.processedTxs
  accepted : RegAccepted Hash VerifyECDSA regTx view m
  valid : CStakeInput.isValid
    ⟨regTx.stakeOutPoint, regTx.nStakeAmount, pindex.getBlockTime, pindex.hash⟩ = true
  opened : ∃ db, m.m_db = some db

/-- Taking out what has just been added. -/
theorem deregister_addValidator {r : CValidatorRegistry} (hr : Consistent Hash r) {v : CValidator}
    (hm : r.mapValidators[getValidatorHash Hash v.pubkey]? = none)
    (hs : r.mapStakeToValidator[v.stakeInput.prevout]? = none)
    (hv : v.stakeInput.isValid = true) :
    (deregisterValidator (getValidatorHash Hash v.pubkey) (addValidator Hash v r)).2 = r := by
  have hadd := hr.add hm hs hv
  have hget : (addValidator Hash v r).mapValidators[getValidatorHash Hash v.pubkey]? = some v := by
    unfold addValidator
    rw [getElem?_insert, if_pos rfl]
  rw [deregisterValidator_some hget]
  apply (hadd.drop hget).eq_of_mapValidators hr
  apply ExtTreeMap.ext_getElem?
  intro a
  unfold dropValidator addValidator
  rw [getElem?_erase, getElem?_insert]
  by_cases ha : getValidatorHash Hash v.pubkey = a
  · rw [if_pos ha, ← ha, hm]
  · rw [if_neg ha, if_neg ha]

theorem processValidatorRegTx_effect {now : ℤ} {txHash : uint256} {pindex : CBlockIndex}
    {db : ValidatorDB} (hdb : m.m_db = some db)
    (h : RegTakesEffect Hash VerifyECDSA txHash regTx pindex view m) :
    processValidatorRegTx Hash VerifyECDSA now txHash regTx pindex view m =
      (.ok (), {
        m_db := some (db.write Hash (regValidator now regTx pindex))
        registry := addValidator Hash (regValidator now regTx pindex) m.registry
        processedTxs := m.processedTxs.insert txHash}) := by
  have hreg := @registerValidator_eq_true Hash _ (regValidator now regTx pindex)
    h.accepted.new h.accepted.unused h.valid
  unfold processValidatorRegTx isTransactionProcessed
  rw [decide_eq_false h.unprocessed, validateValidatorRegTx_eq_ok.mpr h.accepted]
  simp only [Bool.false_eq_true, ↓reduceIte, hreg, saveValidator, hdb, markTransactionProcessed]

/-- A registration that does not take effect leaves no trace. -/
theorem processValidatorRegTx_unchanged (hr : Consistent Hash m.registry) {now : ℤ}
    {txHash : uint256} {pindex : CBlockIndex}
    (h : ¬RegTakesEffect Hash VerifyECDSA txHash regTx pindex view m) :
    (processValidatorRegTx Hash VerifyECDSA now txHash regTx pindex view m).2 = m := by
  unfold processValidatorRegTx isTransactionProcessed
  by_cases hp : txHash ∈ m.processedTxs
  · rw [decide_eq_true hp]
    rfl
  rw [decide_eq_false hp]
  cases ha : validateValidatorRegTx Hash VerifyECDSA regTx view m with
  | error e => rfl
  | ok u =>
    have hacc := validateValidatorRegTx_eq_ok.mp ha
    rcases registerValidator_cases Hash (regValidator now regTx pindex) m.registry with
      he | ⟨hm, hs, hv, he⟩
    · simp only [Bool.false_eq_true, ↓reduceIte, he]
    · cases hdb : m.m_db with
      | some db => exact (h ⟨hp, hacc, hv, db, hdb⟩).elim
      | none =>
        -- the rollback undoes the registration
        simp only [Bool.false_eq_true, ↓reduceIte, he, saveValidator]
        obtain ⟨m_db, registry, processedTxs⟩ := m
        subst hdb
        dsimp only at hr hm hs ⊢
        rw [deregister_addValidator hr hm hs hv]

/-- An unprocessed registration that does not take effect is refused. -/
theorem processValidatorRegTx_refused {now : ℤ} {txHash : uint256} {pindex : CBlockIndex}
    (hp : txHash ∉ m.processedTxs)
    (h : ¬RegTakesEffect Hash VerifyECDSA txHash regTx pindex view m) :
    (processValidatorRegTx Hash VerifyECDSA now txHash regTx pindex view m).1 ≠ .ok () := by
  unfold processValidatorRegTx isTransactionProcessed
  rw [decide_eq_false hp]
  cases ha : validateValidatorRegTx Hash VerifyECDSA regTx view m with
  | error e => exact fun h => nomatch h
  | ok u =>
    have hacc := validateValidatorRegTx_eq_ok.mp ha
    rcases registerValidator_cases Hash (regValidator now regTx pindex) m.registry with
      he | ⟨_, _, hv, he⟩
    · simp only [Bool.false_eq_true, ↓reduceIte, he]
      exact fun h => nomatch h
    · cases hdb : m.m_db with
      | some db => exact (h ⟨hp, hacc, hv, db, hdb⟩).elim
      | none =>
        simp only [Bool.false_eq_true, ↓reduceIte, he, saveValidator]
        exact fun h => nomatch h

structure DeregTakesEffect (Hash : List UInt8 → uint256)
    (VerifyECDSA : CPubKey → uint256 → List UInt8 → Bool) (txHash : uint256)
    (deregTx : CValidatorDeregTx) (m : CValidatorManager) : Prop where
  unprocessed : txHash ∉ m.processedTxs
  accepted : DeregAccepted Hash VerifyECDSA deregTx m

theorem removeValidator_eq (h : uint256) (m : CValidatorManager) :
    (removeValidator h m).2 = {m with m_db := m.m_db.map fun db => (db.remove h).2} := by
  obtain ⟨m_db, registry, processedTxs⟩ := m
  cases m_db with
  | none => rfl
  | some db => rfl

theorem processValidatorDeregTx_effect {txHash : uint256} {v : CValidator}
    (hv : m.registry.mapValidators[getValidatorHash Hash deregTx.validatorPubKey]? = some v)
    (h : DeregTakesEffect Hash VerifyECDSA txHash deregTx m) :
    processValidatorDeregTx Hash VerifyECDSA txHash deregTx m =
      (.ok (), {
        m_db := m.m_db.map fun db => (db.remove (getValidatorHash Hash deregTx.validatorPubKey)).2
        registry := dropValidator (getValidatorHash Hash deregTx.validatorPubKey) v m.registry
        processedTxs := m.processedTxs.insert txHash}) := by
  unfold processValidatorDeregTx isTransactionProcessed
  rw [decide_eq_false h.unprocessed, validateValidatorDeregTx_eq_ok.mpr h.accepted]
  simp only [Bool.false_eq_true, ↓reduceIte, hasValidator_eq_true.mpr ⟨v, hv⟩, Bool.not_true,
    deregisterValidator_some hv, removeValidator_eq, markTransactionProcessed]

theorem processValidatorDeregTx_unchanged {txHash : uint256}
    (h : ¬DeregTakesEffect Hash VerifyECDSA txHash deregTx m) :
    (processValidatorDeregTx Hash VerifyECDSA txHash deregTx m).2 = m := by
  unfold processValidatorDeregTx isTransactionProcessed
  by_cases hp : txHash ∈ m.processedTxs
  · rw [decide_eq_true hp]
    rfl
  rw [decide_eq_false hp]
  cases ha : validateValidatorDeregTx Hash VerifyECDSA deregTx m with
  | error e => rfl
  | ok u => exact (h ⟨hp, validateValidatorDeregTx_eq_ok.mp ha⟩).elim

theorem processValidatorDeregTx_refused {txHash : uint256} (hp : txHash ∉ m.processedTxs)
    (h : ¬DeregTakesEffect Hash VerifyECDSA txHash deregTx m) :
    (processValidatorDeregTx Hash VerifyECDSA txHash deregTx m).1 ≠ .ok () := by
  unfold processValidatorDeregTx isTransactionProcessed
  rw [decide_eq_false hp]
  cases ha : validateValidatorDeregTx Hash VerifyECDSA deregTx m with
  | error e => exact fun h => nomatch h
  | ok u => exact (h ⟨hp, validateValidatorDeregTx_eq_ok.mp ha⟩).elim

theorem undoValidatorRegTx_eq :
    undoValidatorRegTx Hash regTx m = (true, {m with
      registry := (deregisterValidator (getValidatorHash Hash regTx.validatorPubKey) m.registry).2
      m_db := m.m_db.map fun db => (db.remove (getValidatorHash Hash regTx.validatorPubKey)).2}) := by
  unfold undoValidatorRegTx
  exact congrArg (Prod.mk true) (removeValidator_eq _ _)

theorem loadValidators_eq {db : ValidatorDB} (hdb : m.m_db = some db) :
    loadValidators Hash m = (true, {m with
      registry := db.validators.toList.foldl
        (fun registry record => (registerValidator Hash record.2 registry).2) {}}) := by
  unfold loadValidators
  rw [hdb]

theorem consistent_loadValidators (hr : Consistent Hash m.registry) :
    Consistent Hash (loadValidators Hash m).2.registry := by
  cases hdb : m.m_db with
  | none =>
    unfold loadValidators
    rw [hdb]
    exact hr
  | some db =>
    rw [loadValidators_eq hdb]
    exact (consistent_empty Hash).foldl_register_snd db.validators.toList

/-- Every call keeps the registry consistent. -/
theorem consistent_managerStep (hr : Consistent Hash m.registry) (op : ManagerOp) :
    Consistent Hash (managerStep Hash VerifyECDSA m op).2.registry := by
  cases op with
  | regTx now txHash regTx pindex view =>
    dsimp only [managerStep]
    by_cases h : RegTakesEffect Hash VerifyECDSA txHash regTx pindex view m
    · obtain ⟨db, hdb⟩ := h.opened
      rw [processValidatorRegTx_effect hdb h]
      exact hr.add h.accepted.new h.accepted.unused h.valid
    · rw [processValidatorRegTx_unchanged hr h]
      exact hr
  | deregTx txHash deregTx =>
    dsimp only [managerStep]
    by_cases h : DeregTakesEffect Hash VerifyECDSA txHash deregTx m
    · obtain ⟨v, hv⟩ := h.accepted.known
      rw [processValidatorDeregTx_effect hv h]
      exact hr.drop hv
    · rw [processValidatorDeregTx_unchanged h]
      exact hr
  | undoRegTx regTx =>
    dsimp only [managerStep]
    rw [undoValidatorRegTx_eq]
    exact hr.deregister _
  | undoDeregTx => exact consistent_loadValidators hr
  | updateStake h s => exact hr.updateStake h s
  | slash h => exact hr.slash h
  | load => exact consistent_loadValidators hr
  | clearProcessed => exact hr

/-- The registry is consistent after any calls, whatever database was opened. -/
theorem consistent_managerFinal (Hash : List UInt8 → uint256)
    (VerifyECDSA : CPubKey → uint256 → List UInt8 → Bool) (m_db : Option ValidatorDB)
    (ops : List ManagerOp) :
    Consistent Hash (final (managerStep Hash VerifyECDSA) {m_db} ops).registry :=
  final_invariant (fun m : CValidatorManager => Consistent Hash m.registry)
    (fun _ op hr _ => consistent_managerStep hr op) (consistent_empty Hash) (everyStep_true _ ops)

end Specs

section Samples

/-- A hash that keeps the low bytes. -/
def lowHash (bytes : List UInt8) : uint256 := BitVec.ofNat 256 (ByteReader.leNat bytes)

/-- Signatures that spell out the key and the message. -/
def tagVerify (pubkey : CPubKey) (message : uint256) (vchSig : List UInt8) : Bool :=
  decide (vchSig = keyBytes pubkey++writeUint256 message)

def tagSign (pubkey : CPubKey) (message : uint256) : List UInt8 :=
  keyBytes pubkey++writeUint256 message

/-- A compressed key. -/
def sampleKey (b : UInt8) : CPubKey := ⟨2, b :: List.replicate 31 0, rfl⟩

/-- A signed registration of a stake of 1000 coins. -/
def sampleReg (pubkey : CPubKey) (stakeOutPoint : COutPoint) : CValidatorRegTx :=
  let regTx : CValidatorRegTx :=
    ⟨1, pubkey, Vector.replicate 48 0, stakeOutPoint, 1000*COIN, [], []⟩
  {regTx with vchSig := tagSign pubkey (lowHash regTx.serialize)}

/-- A signed deregistration. -/
def sampleDereg (pubkey : CPubKey) : CValidatorDeregTx :=
  let deregTx : CValidatorDeregTx := ⟨1, pubkey, []⟩
  {deregTx with vchSig := tagSign pubkey (lowHash deregTx.serialize)}

/-- A view with 1000 coins at each of the outpoints. -/
def sampleView (scriptPubKey : List UInt8) (outpoints : List COutPoint) : CCoinsViewCache :=
  outpoints.foldl (fun view o => view.insert o ⟨⟨1000*COIN, scriptPubKey⟩⟩) ∅

end Samples

end CValidatorManager

end BabaChain.PoS
