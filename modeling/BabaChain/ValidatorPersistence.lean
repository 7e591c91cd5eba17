import BabaChain.ValidatorManager

/-! What a reload from the database gives, compared with the registry in memory. -/
namespace BabaChain.PoS.CValidatorManager
open Std (ExtTreeMap)
open OrdMap Runs

/-- The database holds the entries of the registry and its stake map. -/
structure Synced (Hash : List UInt8 → uint256) (m : CValidatorManager) : Prop where
  consistent : Consistent Hash m.registry
  stored : m.m_db = some ⟨m.registry.mapValidators, m.registry.mapStakeToValidator⟩

/-- What the step leaves in memory is also what the database has. -/
def Persisted (m : CValidatorManager) : ManagerOp → Prop
  | .slash h => m.registry.mapValidators[h]? = none
  | .updateStake h s => ∀ v, m.registry.mapValidators[h]? = some v →
      s.isValid = true → usedByOther h s.prevout m.registry = false →
      v.stakeInput = s ∧ v.nStakeAmount = s.nValue
  | _ => True

section Rules

variable {Hash : List UInt8 → uint256} {VerifyECDSA : CPubKey → uint256 → List UInt8 → Bool}
variable {m : CValidatorManager}

theorem synced_init (Hash : List UInt8 → uint256) : Synced Hash init :=
  ⟨consistent_empty Hash, rfl⟩

/-- A reload brings back the registry. -/
theorem Synced.loadValidators_eq (hm : Synced Hash m) : loadValidators Hash m = (true, m) := by
  rw [CValidatorManager.loadValidators_eq hm.stored]
  dsimp only
  rw [hm.consistent.foldl_register_toList]

/-- The record and the entry of a validator go together. -/
theorem Synced.drop (hm : Synced Hash m) {h : uint256} :
    Synced Hash {m with
      registry := (deregisterValidator h m.registry).2
      m_db := m.m_db.map fun db => (db.remove h).2} := by
  refine ⟨hm.consistent.deregister h, ?_⟩
  dsimp only
  rw [hm.stored, Option.map_some, Option.some.injEq]
  unfold ValidatorDB.remove
  cases hv : m.registry.mapValidators[h]? with
  | none => rw [deregisterValidator_none hv]
  | some v =>
    rw [deregisterValidator_some hv]
    rfl

theorem Synced.regTx (hm : Synced Hash m) (now : ℤ) (txHash : uint256) (regTx : CValidatorRegTx)
    (pindex : CBlockIndex) (view : CCoinsViewCache) :
    Synced Hash (processValidatorRegTx Hash VerifyECDSA now txHash regTx pindex view m).2 := by
  by_cases h : RegTakesEffect Hash VerifyECDSA txHash regTx pindex view m
  · rw [processValidatorRegTx_effect hm.stored h]
    exact ⟨hm.consistent.add h.accepted.new h.accepted.unused h.valid, rfl⟩
  · rw [processValidatorRegTx_unchanged hm.consistent h]
    exact hm

theorem Synced.deregTx (hm : Synced Hash m) (txHash : uint256) (deregTx : CValidatorDeregTx) :
    Synced Hash (processValidatorDeregTx Hash VerifyECDSA txHash deregTx m).2 := by
  by_cases h : DeregTakesEffect Hash VerifyECDSA txHash deregTx m
  · obtain ⟨v, hv⟩ := h.accepted.known
    rw [processValidatorDeregTx_effect hv h]
    have hdrop := hm.drop (h := getValidatorHash Hash deregTx.validatorPubKey)
    rw [deregisterValidator_some hv] at hdrop
    exact ⟨hdrop.consistent, hdrop.stored⟩
  · rw [processValidatorDeregTx_unchanged h]
    exact hm

/-- An update to the stake the entry has already changes nothing. -/
theorem updateValidatorStake_eq_self {r : CValidatorRegistry} (hr : Consistent Hash r) {h : uint256}
    {s : CStakeInput}
    (hp : ∀ v, r.mapValidators[h]? = some v → s.isValid = true → usedByOther h s.prevout r = false →
      v.stakeInput = s ∧ v.nStakeAmount = s.nValue) :
    (updateValidatorStake h s r).2 = r := by
  rcases updateValidatorStake_cases h s r with he | ⟨v, hv, hs, hown, he⟩
  · rw [he]
  have hused : usedByOther h s.prevout r = false := by
    unfold usedByOther
    cases ho : r.mapStakeToValidator[s.prevout]? with
    | none => rfl
    | some owner => simpa using hown owner ho
  obtain ⟨hstake, hamount⟩ := hp v hv hs hused
  refine (hr.updateStake h s).eq_of_mapValidators hr ?_
  rw [he]
  apply ExtTreeMap.ext_getElem?
  intro a
  rw [getElem?_insert]
  by_cases ha : h = a
  · subst hstake
    rw [if_pos ha, ← ha, hv, ← hamount]
  · rw [if_neg ha]

theorem Synced.step (hm : Synced Hash m) {op : ManagerOp} (hp : Persisted m op) :
    Synced Hash (managerStep Hash VerifyECDSA m op).2 := by
  cases op with
  | regTx now txHash regTx pindex view => exact hm.regTx now txHash regTx pindex view
  | deregTx txHash deregTx => exact hm.deregTx txHash deregTx
  | undoRegTx regTx =>
    dsimp only [managerStep]
    rw [undoValidatorRegTx_eq]
    exact hm.drop
  | undoDeregTx =>
    have hload : (managerStep Hash VerifyECDSA m .undoDeregTx).2 = m :=
      congrArg Prod.snd hm.loadValidators_eq
    rw [hload]
    exact hm
  | updateStake h s =>
    have hsame : (managerStep Hash VerifyECDSA m (.updateStake h s)).2 = m :=
      congrArg (fun r => {m with registry := r}) (updateValidatorStake_eq_self hm.consistent hp)
    rw [hsame]
    exact hm
  | slash h =>
    dsimp only [managerStep]
    rw [slashValidator_none hp]
    exact hm
  | load =>
    have hload : (managerStep Hash VerifyECDSA m .load).2 = m :=
      congrArg Prod.snd hm.loadValidators_eq
    rw [hload]
    exact hm
  | clearProcessed => exact ⟨hm.consistent, hm.stored⟩

/-- The other steps change the registry and not the database. -/
theorem registry_ne_of_not_persisted {op : ManagerOp}
    (hp : ¬Persisted m op) :
    (managerStep Hash VerifyECDSA m op).2.m_db = m.m_db ∧
      (managerStep Hash VerifyECDSA m op).2.registry ≠ m.registry := by
  cases op with
  | slash h =>
    refine ⟨rfl, fun he => ?_⟩
    obtain ⟨v, hv⟩ := Option.ne_none_iff_exists'.mp hp
    have he : (slashValidator h m.registry).2 = m.registry := he
    rw [slashValidator_some hv] at he
    have hget := congrArg (fun r : CValidatorRegistry => r.mapValidators[h]?) he
    dsimp only at hget
    rw [getElem?_insert, if_pos rfl, hv, Option.some.injEq] at hget
    -- the count has gone up
    have hcount := congrArg CValidator.nSlashingCount hget
    dsimp only at hcount
    omega
  | updateStake h s =>
    refine ⟨rfl, fun he => hp fun v hv hs hused => ?_⟩
    have he : (updateValidatorStake h s m.registry).2 = m.registry := he
    unfold updateValidatorStake at he
    simp only [hv, hs, hused, Bool.not_true, Bool.false_eq_true, ↓reduceIte] at he
    have hget := congrArg (fun r : CValidatorRegistry => r.mapValidators[h]?) he
    dsimp only at hget
    rw [getElem?_insert, if_pos rfl, hv, Option.some.injEq] at hget
    have hstake := congrArg CValidator.stakeInput hget
    have hamount := congrArg CValidator.nStakeAmount hget
    exact ⟨hstake.symm, hamount.symm⟩
  | regTx | deregTx | undoRegTx | undoDeregTx | load | clearProcessed => exact (hp trivial).elim

end Rules

/-- At every point of a run, a reload gives the registry it replaces, exactly when
no step slashes a validator or changes a stake through the registry. -/
theorem reload_agrees_iff (Hash : List UInt8 → uint256)
    (VerifyECDSA : CPubKey → uint256 → List UInt8 → Bool) (ops : List ManagerOp) :
    (∀ bs, bs <+: ops →
      (loadValidators Hash (final (managerStep Hash VerifyECDSA) init bs)).2.registry =
        (final (managerStep Hash VerifyECDSA) init bs).registry) ↔
      EveryStep (managerStep Hash VerifyECDSA) Persisted init ops := by
  apply forall_prefix_iff (Synced Hash)
    (fun m => (loadValidators Hash m).2.registry = m.registry) _ (fun m op hm => hm.step) _
    (synced_init Hash)
  · intro m hm
    rw [hm.loadValidators_eq]
  · intro m op hm hp hload
    obtain ⟨hdb, hne⟩ := @registry_ne_of_not_persisted Hash VerifyECDSA m op hp
    apply hne
    apply hload.symm.trans
    rw [CValidatorManager.loadValidators_eq (hdb.trans hm.stored)]
    exact hm.consistent.foldl_register_toList

/-- A slashed validator that a reload makes active again. -/
def slashedRun : List ManagerOp :=
  let stake : COutPoint := ⟨1, 0⟩
  [.regTx 1000 7 (sampleReg (sampleKey 1) stake) ⟨900, 5⟩ (sampleView [] [stake]),
   .slash (getValidatorHash lowHash (sampleKey 1))]

theorem reload_disagrees :
    (loadValidators lowHash (final (managerStep lowHash tagVerify) init slashedRun)).2.registry ≠
        (final (managerStep lowHash tagVerify) init slashedRun).registry ∧
      getEligibleValidators 50000
        (final (managerStep lowHash tagVerify) init slashedRun).registry = [] ∧
      getEligibleValidators 50000
        (loadValidators lowHash (final (managerStep lowHash tagVerify) init slashedRun)).2.registry ≠
          [] := by
  decide +kernel

end BabaChain.PoS.CValidatorManager
