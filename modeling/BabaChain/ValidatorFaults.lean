import BabaChain.ValidatorPersistence

/-! Registration and deregistration when single writes to the database fail. -/
namespace BabaChain.PoS.CValidatorManager
open Std (ExtTreeMap)
open OrdMap Runs

/-- What a write or an erasure comes to: it is done, it is refused with `false`, or it ends in an
exception. -/
inductive DbOutcome where
  | done
  | refused
  | thrown
deriving DecidableEq, Repr

/-- The outcomes of the two writes, or erasures, of a call. -/
structure DbOutcomes where
  first : DbOutcome
  second : DbOutcome
deriving DecidableEq, Repr

section Operations

variable (Hash : List UInt8 → uint256) (VerifyECDSA : CPubKey → uint256 → List UInt8 → Bool)

/-- `SaveValidator`; no answer stands for an exception. -/
def saveValidatorUnder (o : DbOutcomes) (validator : CValidator) (m : CValidatorManager) :
    Option Bool × CValidatorManager :=
  match m.m_db with
  | none => (some false, m)
  | some db =>
    let validatorHash := getValidatorHash Hash validator.pubkey
    match o.first with
    | .thrown => (none, m)
    | .refused => (some false, m)
    | .done =>
      let written := {db with validators := db.validators.insert validatorHash validator}
      match o.second with
      | .thrown => (none, {m with m_db := some written})
      | .refused => (some false, {m with m_db := some written})
      | .done => (some true, {m with m_db := some {written with
          byStake := db.byStake.insert validator.stakeInput.prevout validatorHash}})

/-- `RemoveValidator`. -/
def removeValidatorUnder (o : DbOutcomes) (validatorHash : uint256) (m : CValidatorManager) :
    Option Bool × CValidatorManager :=
  match m.m_db with
  | none => (some false, m)
  | some db =>
    match db.validators[validatorHash]? with
    | none => (some false, m)
    | some validator =>
      match o.first with
      | .thrown => (none, m)
      | .refused => (some false, m)
      | .done =>
        let erased := {db with validators := db.validators.erase validatorHash}
        match o.second with
        | .thrown => (none, {m with m_db := some erased})
        | .refused => (some false, {m with m_db := some erased})
        | .done => (some true, {m with m_db := some {erased with
            byStake := db.byStake.erase validator.stakeInput.prevout}})

/-- `ProcessValidatorRegTx`. -/
def processValidatorRegTxUnder (o : DbOutcomes) (now : ℤ) (txHash : uint256)
    (regTx : CValidatorRegTx) (pindex : CBlockIndex) (view : CCoinsViewCache)
    (m : CValidatorManager) : Option (Except String Unit) × CValidatorManager :=
  if m.isTransactionProcessed txHash then
    (some (.ok ()), m)
  else
    match validateValidatorRegTx Hash VerifyECDSA regTx view m with
    | .error e => (some (.error e), m)
    | .ok () =>
      let validator := regValidator now regTx pindex
      match registerValidator Hash validator m.registry with
      | (false, _) => (some (.error "validator-reg-failed"), m)
      | (true, registry) =>
        match saveValidatorUnder Hash o validator {m with registry := registry} with
        | (none, m') => (none, m')
        | (some false, m') =>
          -- only the registration in memory is rolled back
          let validatorHash := getValidatorHash Hash validator.pubkey
          (some (.error "validator-db-save-failed"),
            {m' with registry := (deregisterValidator validatorHash m'.registry).2})
        | (some true, m') => (some (.ok ()), m'.markTransactionProcessed txHash)

/-- `ProcessValidatorDeregTx`. -/
def processValidatorDeregTxUnder (o : DbOutcomes) (txHash : uint256) (deregTx : CValidatorDeregTx)
    (m : CValidatorManager) : Option (Except String Unit) × CValidatorManager :=
  if m.isTransactionProcessed txHash then
    (some (.ok ()), m)
  else
    match validateValidatorDeregTx Hash VerifyECDSA deregTx m with
    | .error e => (some (.error e), m)
    | .ok () =>
      let validatorHash := getValidatorHash Hash deregTx.validatorPubKey
      if !hasValidator validatorHash m.registry then
        (some (.error "validator-not-found"), m)
      else
        match deregisterValidator validatorHash m.registry with
        | (false, _) => (some (.error "validator-dereg-failed"), m)
        | (true, registry) =>
          match removeValidatorUnder o validatorHash {m with registry := registry} with
          | (none, m') => (none, m')
          -- a failure to remove the record is only logged
          | (some _, m') => (some (.ok ()), m'.markTransactionProcessed txHash)

/-- `UndoValidatorRegTx`. -/
def undoValidatorRegTxUnder (o : DbOutcomes) (regTx : CValidatorRegTx) (m : CValidatorManager) :
    Option Bool × CValidatorManager :=
  let validatorHash := getValidatorHash Hash regTx.validatorPubKey
  let m := {m with registry := (deregisterValidator validatorHash m.registry).2}
  let (removed, m) := removeValidatorUnder o validatorHash m
  (removed.map fun _ => true, m)

/-- A call of the manager, with the outcomes of its writes; an exception counts as `false`. -/
def faultyStep (m : CValidatorManager) : ManagerOp × DbOutcomes → Bool × CValidatorManager
  | (.regTx now txHash regTx pindex view, o) =>
    let (result, m) :=
      processValidatorRegTxUnder Hash VerifyECDSA o now txHash regTx pindex view m
    (decide (result.map Except.toBool = some true), m)
  | (.deregTx txHash deregTx, o) =>
    let (result, m) := processValidatorDeregTxUnder Hash VerifyECDSA o txHash deregTx m
    (decide (result.map Except.toBool = some true), m)
  | (.undoRegTx regTx, o) =>
    let (result, m) := undoValidatorRegTxUnder Hash o regTx m
    (decide (result = some true), m)
  | (op, _) => managerStep Hash VerifyECDSA m op

end Operations

/-- The registry and the database either both have no such validator, or both have it with the
same outpoint, which both stake maps have under the validator. -/
def Agrees (h : uint256) (m : CValidatorManager) : Prop :=
  ∃ db, m.m_db = some db ∧
    (m.registry.mapValidators[h]?.map fun v => v.stakeInput.prevout) =
      (db.validators[h]?.map fun v => v.stakeInput.prevout) ∧
    ∀ v, db.validators[h]? = some v → db.byStake[v.stakeInput.prevout]? = some h ∧
      m.registry.mapStakeToValidator[v.stakeInput.prevout]? = some h

section Rules

variable {Hash : List UInt8 → uint256} {VerifyECDSA : CPubKey → uint256 → List UInt8 → Bool}
variable {m : CValidatorManager} {o : DbOutcomes} {now : ℤ} {txHash : uint256}
variable {regTx : CValidatorRegTx} {deregTx : CValidatorDeregTx} {pindex : CBlockIndex}
variable {view : CCoinsViewCache}

/-- A registration that would not take effect does not reach the database. -/
theorem regTxUnder_of_not_effect (h : ¬RegTakesEffect Hash VerifyECDSA txHash regTx pindex view m) :
    processValidatorRegTxUnder Hash VerifyECDSA o now txHash regTx pindex view m =
      (some (processValidatorRegTx Hash VerifyECDSA now txHash regTx pindex view m).1,
        (processValidatorRegTx Hash VerifyECDSA now txHash regTx pindex view m).2) := by
  unfold processValidatorRegTxUnder processValidatorRegTx isTransactionProcessed
  by_cases hp : txHash ∈ m.processedTxs
  · rw [decide_eq_true hp]
    rfl
  rw [decide_eq_false hp]
  cases ha : validateValidatorRegTx Hash VerifyECDSA regTx view m with
  | error e => rfl
  | ok u =>
    have hacc := validateValidatorRegTx_eq_ok.mp ha
    rcases registerValidator_cases Hash (regValidator now regTx pindex) m.registry with
      he | ⟨-, -, hv, he⟩
    · simp only [Bool.false_eq_true, ↓reduceIte, he]
    · cases hdb : m.m_db with
      | some db => exact (h ⟨hp, hacc, hv, db, hdb⟩).elim
      | none => simp only [Bool.false_eq_true, ↓reduceIte, he, saveValidator, saveValidatorUnder]

/-- A registration that would take effect is decided by the two writes. -/
theorem regTxUnder_effect (h : RegTakesEffect Hash VerifyECDSA txHash regTx pindex view m) :
    processValidatorRegTxUnder Hash VerifyECDSA o now txHash regTx pindex view m =
      match saveValidatorUnder Hash o (regValidator now regTx pindex)
        {m with registry := addValidator Hash (regValidator now regTx pindex) m.registry} with
      | (none, m') => (none, m')
      | (some false, m') =>
        (some (.error "validator-db-save-failed"), {m' with registry := (deregisterValidator
          (getValidatorHash Hash (regValidator now regTx pindex).pubkey) m'.registry).2})
      | (some true, m') => (some (.ok ()), m'.markTransactionProcessed txHash) := by
  have hreg := @registerValidator_eq_true Hash _ (regValidator now regTx pindex)
    h.accepted.new h.accepted.unused h.valid
  unfold processValidatorRegTxUnder isTransactionProcessed
  rw [decide_eq_false h.unprocessed, validateValidatorRegTx_eq_ok.mpr h.accepted]
  simp only [Bool.false_eq_true, ↓reduceIte, hreg]

/-- Saving touches the database only. -/
theorem saveValidatorUnder_frame (v : CValidator) (m : CValidatorManager) :
    (saveValidatorUnder Hash o v m).2.registry = m.registry ∧
      (saveValidatorUnder Hash o v m).2.processedTxs = m.processedTxs := by
  unfold saveValidatorUnder
  cases m.m_db with
  | none => exact ⟨rfl, rfl⟩
  | some db =>
    obtain ⟨first, second⟩ := o
    cases first <;> cases second <;> exact ⟨rfl, rfl⟩

/-- A save that answers `false` has changed nothing, unless the first write was done and the
second refused. -/
theorem saveValidatorUnder_false {v : CValidator}
    (h : (saveValidatorUnder Hash o v m).1 = some false) :
    (saveValidatorUnder Hash o v m).2.m_db = m.m_db ∨ o.first = .done ∧ o.second = .refused := by
  unfold saveValidatorUnder at *
  cases hdb : m.m_db with
  | none => exact Or.inl hdb
  | some db =>
    rw [hdb] at h
    obtain ⟨first, second⟩ := o
    cases first with
    | thrown => cases h
    | refused => exact Or.inl hdb
    | done =>
      cases second with
      | thrown => cases h
      | refused => exact Or.inr ⟨rfl, rfl⟩
      | done => cases h

theorem saveValidatorUnder_true {v : CValidator}
    (h : (saveValidatorUnder Hash o v m).1 = some true) :
    ∃ db, m.m_db = some db ∧
      (saveValidatorUnder Hash o v m).2 = {m with m_db := some (db.write Hash v)} := by
  unfold saveValidatorUnder at *
  cases hdb : m.m_db with
  | none =>
    rw [hdb] at h
    cases h
  | some db =>
    rw [hdb] at h
    obtain ⟨first, second⟩ := o
    cases first with
    | thrown => cases h
    | refused => cases h
    | done =>
      cases second with
      | thrown => cases h
      | refused => cases h
      | done => exact ⟨db, rfl, rfl⟩

/-- A registration that answers `false` leaves the registry and the processed transactions, and
the database but for the one failure. -/
theorem regTxUnder_error (hr : Consistent Hash m.registry) {e : String}
    (h : (processValidatorRegTxUnder Hash VerifyECDSA o now txHash regTx pindex view m).1 =
      some (.error e)) :
    (processValidatorRegTxUnder Hash VerifyECDSA o now txHash regTx pindex view m).2.registry =
        m.registry ∧
      (processValidatorRegTxUnder Hash VerifyECDSA o now txHash regTx pindex
        view m).2.processedTxs = m.processedTxs ∧
      ((processValidatorRegTxUnder Hash VerifyECDSA o now txHash regTx pindex view m).2.m_db =
        m.m_db ∨ o.first = .done ∧ o.second = .refused) := by
  by_cases heffect : RegTakesEffect Hash VerifyECDSA txHash regTx pindex view m
  · rw [regTxUnder_effect heffect] at h ⊢
    have hframe := @saveValidatorUnder_frame Hash o (regValidator now regTx pindex)
      {m with registry := addValidator Hash (regValidator now regTx pindex) m.registry}
    have hfalse := @saveValidatorUnder_false Hash
      {m with registry := addValidator Hash (regValidator now regTx pindex) m.registry} o
      (regValidator now regTx pindex)
    cases hsave : saveValidatorUnder Hash o (regValidator now regTx pindex)
        {m with registry := addValidator Hash (regValidator now regTx pindex) m.registry} with
    | mk answer m' =>
      rw [hsave] at h hframe hfalse
      cases answer with
      | none => cases h
      | some saved =>
        cases saved with
        | true => cases h
        | false =>
          refine ⟨?_, hframe.2, hfalse rfl⟩
          -- the rollback takes out what was added
          dsimp only at hframe ⊢
          rw [hframe.1]
          exact deregister_addValidator (v := regValidator now regTx pindex) hr
            heffect.accepted.new heffect.accepted.unused heffect.valid
  · rw [regTxUnder_of_not_effect heffect]
    dsimp only
    rw [processValidatorRegTx_unchanged hr heffect]
    exact ⟨rfl, rfl, Or.inl rfl⟩

/-- A registration that answers `true` was processed before, or is in the registry and in the
database. -/
theorem regTxUnder_ok (hr : Consistent Hash m.registry)
    (h : (processValidatorRegTxUnder Hash VerifyECDSA o now txHash regTx pindex view m).1 =
      some (.ok ())) :
    (txHash ∈ m.processedTxs ∧
        (processValidatorRegTxUnder Hash VerifyECDSA o now txHash regTx pindex view m).2 = m) ∨
      Agrees (getValidatorHash Hash regTx.validatorPubKey)
        (processValidatorRegTxUnder Hash VerifyECDSA o now txHash regTx pindex view m).2 := by
  by_cases heffect : RegTakesEffect Hash VerifyECDSA txHash regTx pindex view m
  · right
    rw [regTxUnder_effect heffect] at h ⊢
    have htrue := @saveValidatorUnder_true Hash
      {m with registry := addValidator Hash (regValidator now regTx pindex) m.registry} o
      (regValidator now regTx pindex)
    cases hsave : saveValidatorUnder Hash o (regValidator now regTx pindex)
        {m with registry := addValidator Hash (regValidator now regTx pindex) m.registry} with
    | mk answer m' =>
      rw [hsave] at h htrue
      cases answer with
      | none => cases h
      | some saved =>
        cases saved with
        | false => cases h
        | true =>
          obtain ⟨db, -, hm'⟩ := htrue rfl
          dsimp only at hm' ⊢
          rw [hm']
          refine ⟨db.write Hash (regValidator now regTx pindex), rfl, ?_, ?_⟩
          · exact congrArg (Option.map fun v : CValidator => v.stakeInput.prevout)
              ((ExtTreeMap.getElem?_insert_self).trans ExtTreeMap.getElem?_insert_self.symm)
          · intro v hv
            have hself : v = regValidator now regTx pindex :=
              Option.some.inj (hv.symm.trans ExtTreeMap.getElem?_insert_self)
            rw [hself]
            exact ⟨ExtTreeMap.getElem?_insert_self, ExtTreeMap.getElem?_insert_self⟩
  · left
    rw [regTxUnder_of_not_effect heffect] at h ⊢
    dsimp only at h ⊢
    refine ⟨?_, processValidatorRegTx_unchanged hr heffect⟩
    by_contra hp
    exact processValidatorRegTx_refused hp heffect (Option.some.inj h)

/-- Removing touches the database only. -/
theorem removeValidatorUnder_frame (h : uint256) (m : CValidatorManager) :
    (removeValidatorUnder o h m).2.registry = m.registry ∧
      (removeValidatorUnder o h m).2.processedTxs = m.processedTxs := by
  unfold removeValidatorUnder
  cases m.m_db with
  | none => exact ⟨rfl, rfl⟩
  | some db =>
    dsimp only
    cases db.validators[h]? with
    | none => exact ⟨rfl, rfl⟩
    | some v =>
      obtain ⟨first, second⟩ := o
      cases first <;> cases second <;> exact ⟨rfl, rfl⟩

/-- The record is gone afterwards if it could be erased. -/
theorem removeValidatorUnder_validators {h : uint256} (db : ValidatorDB) (hdb : m.m_db = some db)
    (hfirst : ∀ v, db.validators[h]? = some v → o.first = .done) :
    ∃ db', (removeValidatorUnder o h m).2.m_db = some db' ∧ db'.validators[h]? = none := by
  unfold removeValidatorUnder
  rw [hdb]
  dsimp only
  cases hv : db.validators[h]? with
  | none => exact ⟨db, hdb, hv⟩
  | some v =>
    dsimp only
    rw [hfirst v hv]
    have hgone : (db.validators.erase h)[h]? = none := ExtTreeMap.getElem?_erase_self
    cases o.second with
    | thrown => exact ⟨_, rfl, hgone⟩
    | refused => exact ⟨_, rfl, hgone⟩
    | done => exact ⟨_, rfl, hgone⟩

/-- So is the stake mapping of its outpoint. -/
theorem removeValidatorUnder_byStake {h : uint256} (db : ValidatorDB) (v : CValidator)
    (hdb : m.m_db = some db) (hv : db.validators[h]? = some v) (hfirst : o.first = .done)
    (hsecond : o.second = .done) :
    ∃ db', (removeValidatorUnder o h m).2.m_db = some db' ∧
      db'.byStake[v.stakeInput.prevout]? = none := by
  unfold removeValidatorUnder
  rw [hdb]
  dsimp only
  rw [hv]
  dsimp only
  rw [hfirst]
  dsimp only
  rw [hsecond]
  exact ⟨_, rfl, ExtTreeMap.getElem?_erase_self⟩

/-- A deregistration that would not take effect does not reach the database. -/
theorem deregTxUnder_of_not_effect (h : ¬DeregTakesEffect Hash VerifyECDSA txHash deregTx m) :
    processValidatorDeregTxUnder Hash VerifyECDSA o txHash deregTx m =
      (some (processValidatorDeregTx Hash VerifyECDSA txHash deregTx m).1, m) := by
  have hsame := processValidatorDeregTx_unchanged h
  unfold processValidatorDeregTxUnder processValidatorDeregTx isTransactionProcessed at *
  by_cases hp : txHash ∈ m.processedTxs
  · rw [decide_eq_true hp]
    rfl
  rw [decide_eq_false hp] at *
  cases ha : validateValidatorDeregTx Hash VerifyECDSA deregTx m with
  | error e => rfl
  | ok u => exact (h ⟨hp, validateValidatorDeregTx_eq_ok.mp ha⟩).elim

/-- One that would is decided by the removal. -/
theorem deregTxUnder_effect {v : CValidator}
    (hv : m.registry.mapValidators[getValidatorHash Hash deregTx.validatorPubKey]? = some v)
    (h : DeregTakesEffect Hash VerifyECDSA txHash deregTx m) :
    processValidatorDeregTxUnder Hash VerifyECDSA o txHash deregTx m =
      match removeValidatorUnder o (getValidatorHash Hash deregTx.validatorPubKey) {m with
        registry := dropValidator (getValidatorHash Hash deregTx.validatorPubKey) v m.registry} with
      | (none, m') => (none, m')
      | (some _, m') => (some (.ok ()), m'.markTransactionProcessed txHash) := by
  unfold processValidatorDeregTxUnder isTransactionProcessed
  rw [decide_eq_false h.unprocessed, validateValidatorDeregTx_eq_ok.mpr h.accepted]
  simp only [Bool.false_eq_true, ↓reduceIte, hasValidator_eq_true.mpr ⟨v, hv⟩, Bool.not_true,
    deregisterValidator_some hv]

/-- A deregistration that answers `false` has changed nothing. -/
theorem deregTxUnder_error {e : String}
    (h : (processValidatorDeregTxUnder Hash VerifyECDSA o txHash deregTx m).1 =
      some (.error e)) :
    (processValidatorDeregTxUnder Hash VerifyECDSA o txHash deregTx m).2 = m := by
  by_cases heffect : DeregTakesEffect Hash VerifyECDSA txHash deregTx m
  · obtain ⟨v, hv⟩ := heffect.accepted.known
    rw [deregTxUnder_effect hv heffect] at h
    cases hremove : removeValidatorUnder o (getValidatorHash Hash deregTx.validatorPubKey) {m with
        registry := dropValidator (getValidatorHash Hash deregTx.validatorPubKey) v m.registry} with
    | mk answer m' =>
      rw [hremove] at h
      cases answer with
      | none => cases h
      | some removed => cases h
  · rw [deregTxUnder_of_not_effect heffect]

/-- What a deregistration that answers `true` leaves of the validator. -/
structure Gone (h : uint256) (o : DbOutcomes) (m m' : CValidatorManager) : Prop where
  registry : m'.registry.mapValidators[h]? = none
  agrees : ∀ db, m.m_db = some db → (∀ v, db.validators[h]? = some v → o.first = .done) →
    Agrees h m'
  byStake : ∀ db v, m.m_db = some db → db.validators[h]? = some v → o.first = .done →
    o.second = .done → ∃ db', m'.m_db = some db' ∧ db'.byStake[v.stakeInput.prevout]? = none

theorem deregTxUnder_ok
    (h : (processValidatorDeregTxUnder Hash VerifyECDSA o txHash deregTx m).1 = some (.ok ())) :
    (txHash ∈ m.processedTxs ∧
        (processValidatorDeregTxUnder Hash VerifyECDSA o txHash deregTx m).2 = m) ∨
      Gone (getValidatorHash Hash deregTx.validatorPubKey) o m
        (processValidatorDeregTxUnder Hash VerifyECDSA o txHash deregTx m).2 := by
  by_cases heffect : DeregTakesEffect Hash VerifyECDSA txHash deregTx m
  · right
    obtain ⟨v, hv⟩ := heffect.accepted.known
    rw [deregTxUnder_effect hv heffect] at h ⊢
    generalize getValidatorHash Hash deregTx.validatorPubKey = key at *
    have hframe := removeValidatorUnder_frame (o := o) key
      {m with registry := dropValidator key v m.registry}
    have hgone : (dropValidator key v m.registry).mapValidators[key]? = none :=
      ExtTreeMap.getElem?_erase_self
    have hvalidators := removeValidatorUnder_validators (o := o) (h := key)
      (m := {m with registry := dropValidator key v m.registry})
    have hbyStake := removeValidatorUnder_byStake (o := o) (h := key)
      (m := {m with registry := dropValidator key v m.registry})
    cases hremove : removeValidatorUnder o key
        {m with registry := dropValidator key v m.registry} with
    | mk answer m' =>
      rw [hremove] at h hframe hvalidators hbyStake
      cases answer with
      | none => cases h
      | some removed =>
        have hregistry : m'.registry.mapValidators[key]? = none := by
          rw [hframe.1]
          exact hgone
        refine ⟨hregistry, fun db hdb hfirst => ?_, fun db w hdb hw h₁ h₂ => ?_⟩
        · obtain ⟨db', hdb', hnone⟩ := hvalidators db hdb hfirst
          refine ⟨db', hdb', ?_, fun w hw => ?_⟩
          · exact congrArg (Option.map fun v : CValidator => v.stakeInput.prevout)
              (hregistry.trans hnone.symm)
          · rw [hnone] at hw
            cases hw
        · exact hbyStake db w hdb hw h₁ h₂
  · left
    rw [deregTxUnder_of_not_effect heffect] at h ⊢
    refine ⟨?_, rfl⟩
    by_contra hp
    exact processValidatorDeregTx_refused hp heffect (Option.some.inj h)

/-- Every call keeps the registry consistent, whatever its writes come to. -/
theorem consistent_faultyStep (hr : Consistent Hash m.registry) (a : ManagerOp × DbOutcomes) :
    Consistent Hash (faultyStep Hash VerifyECDSA m a).2.registry := by
  obtain ⟨op, o⟩ := a
  cases op with
  | regTx now txHash regTx pindex view =>
    dsimp only [faultyStep]
    by_cases heffect : RegTakesEffect Hash VerifyECDSA txHash regTx pindex view m
    · have hadd := hr.add (v := regValidator now regTx pindex) heffect.accepted.new
        heffect.accepted.unused heffect.valid
      have hframe := @saveValidatorUnder_frame Hash o (regValidator now regTx pindex)
        {m with registry := addValidator Hash (regValidator now regTx pindex) m.registry}
      rw [regTxUnder_effect heffect]
      cases hsave : saveValidatorUnder Hash o (regValidator now regTx pindex)
          {m with registry := addValidator Hash (regValidator now regTx pindex) m.registry} with
      | mk answer m' =>
        rw [hsave] at hframe
        have hm' : Consistent Hash m'.registry := by
          rw [hframe.1]
          exact hadd
        cases answer with
        | none => exact hm'
        | some saved =>
          cases saved with
          | true => exact hm'
          | false => exact hm'.deregister _
    · rw [regTxUnder_of_not_effect heffect]
      dsimp only
      rw [processValidatorRegTx_unchanged hr heffect]
      exact hr
  | deregTx txHash deregTx =>
    dsimp only [faultyStep]
    by_cases heffect : DeregTakesEffect Hash VerifyECDSA txHash deregTx m
    · obtain ⟨v, hv⟩ := heffect.accepted.known
      have hframe := removeValidatorUnder_frame (o := o)
        (getValidatorHash Hash deregTx.validatorPubKey) {m with
          registry := dropValidator (getValidatorHash Hash deregTx.validatorPubKey) v m.registry}
      rw [deregTxUnder_effect hv heffect]
      cases hremove : removeValidatorUnder o (getValidatorHash Hash deregTx.validatorPubKey) {m with
          registry :=
            dropValidator (getValidatorHash Hash deregTx.validatorPubKey) v m.registry} with
      | mk answer m' =>
        rw [hremove] at hframe
        have hm' : Consistent Hash m'.registry := by
          rw [hframe.1]
          exact hr.drop hv
        cases answer with
        | none => exact hm'
        | some removed => exact hm'
    · rw [deregTxUnder_of_not_effect heffect]
      exact hr
  | undoRegTx regTx =>
    dsimp only [faultyStep, undoValidatorRegTxUnder]
    rw [(removeValidatorUnder_frame _ _).1]
    exact hr.deregister _
  | undoDeregTx => exact @consistent_managerStep _ VerifyECDSA _ hr .undoDeregTx
  | updateStake h s => exact hr.updateStake h s
  | slash h => exact hr.slash h
  | load => exact @consistent_managerStep _ VerifyECDSA _ hr .load
  | clearProcessed => exact hr

end Rules

/-- The manager after a registration whose writes were done. -/
def registeredManager : CValidatorManager :=
  let stake : COutPoint := ⟨1, 0⟩
  final (faultyStep lowHash tagVerify) init
    [(.regTx 1000 7 (sampleReg (sampleKey 1) stake) ⟨900, 5⟩ (sampleView [] [stake]),
      ⟨.done, .done⟩)]

/-- Its stake is then changed in memory. -/
def restakedManager : CValidatorManager :=
  (managerStep lowHash tagVerify registeredManager (.updateStake
    (getValidatorHash lowHash (sampleKey 1)) ⟨⟨2, 0⟩, 1000*COIN, 900, 5⟩)).2

end BabaChain.PoS.CValidatorManager
