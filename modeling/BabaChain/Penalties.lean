import BabaChain.ValidatorManager

/-! What remains of a slashing over the later life of the manager. The penalty is
written in the validator's entry and nowhere else. -/
namespace BabaChain.PoS.CValidatorManager
open Std (ExtTreeMap)
open OrdMap Runs

instance (Hash : List UInt8 → uint256) (VerifyECDSA : CPubKey → uint256 → List UInt8 → Bool)
    (txHash : uint256) (regTx : CValidatorRegTx) (pindex : CBlockIndex) (view : CCoinsViewCache)
    (m : CValidatorManager) :
    Decidable (RegTakesEffect Hash VerifyECDSA txHash regTx pindex view m) :=
  decidable_of_iff (txHash ∉ m.processedTxs ∧
      validateValidatorRegTx Hash VerifyECDSA regTx view m = .ok () ∧
      CStakeInput.isValid
        ⟨regTx.stakeOutPoint, regTx.nStakeAmount, pindex.getBlockTime, pindex.hash⟩ = true ∧
      m.m_db.isSome = true) <| by
    rw [validateValidatorRegTx_eq_ok, Option.isSome_iff_exists]
    exact ⟨fun ⟨hp, ha, hv, ho⟩ => ⟨hp, ha, hv, ho⟩, fun ⟨hp, ha, hv, ho⟩ => ⟨hp, ha, hv, ho⟩⟩

/-- The step gives the key hash no fresh entry: no registration of it takes effect,
and no reload finds a record of it. -/
def KeepsPenalty (Hash : List UInt8 → uint256)
    (VerifyECDSA : CPubKey → uint256 → List UInt8 → Bool) (h : uint256) (m : CValidatorManager) :
    ManagerOp → Prop
  | .regTx _ txHash regTx pindex view => getValidatorHash Hash regTx.validatorPubKey = h →
      ¬RegTakesEffect Hash VerifyECDSA txHash regTx pindex view m
  | .undoDeregTx | .load => ∀ db ∈ m.m_db, ∀ record ∈ db.validators.toList,
      getValidatorHash Hash record.2.pubkey ≠ h
  | _ => True

instance (Hash : List UInt8 → uint256) (VerifyECDSA : CPubKey → uint256 → List UInt8 → Bool)
    (h : uint256) (m : CValidatorManager) (op : ManagerOp) :
    Decidable (KeepsPenalty Hash VerifyECDSA h m op) := by
  cases op <;> (dsimp only [KeepsPenalty]; infer_instance)

/-- The key hash is out of the selection, and its recorded count is not below. -/
def Contained (Hash : List UInt8 → uint256) (h : uint256) (count : ℤ) (r : CValidatorRegistry) :
    Prop :=
  (∀ t, ∀ v ∈ getEligibleValidators t r, getValidatorHash Hash v.pubkey ≠ h) ∧
    ∀ v, r.mapValidators[h]? = some v → count ≤ v.nSlashingCount

/-- An entry of the key hash is slashed, at least as often as counted. -/
structure Penalised (Hash : List UInt8 → uint256) (h : uint256) (count : ℤ)
    (m : CValidatorManager) : Prop where
  consistent : Consistent Hash m.registry
  entry : ∀ v, m.registry.mapValidators[h]? = some v →
    v.status = .SLASHED ∧ count ≤ v.nSlashingCount

variable {Hash : List UInt8 → uint256} {VerifyECDSA : CPubKey → uint256 → List UInt8 → Bool}
variable {m : CValidatorManager} {h : uint256} {count : ℤ}

theorem Penalised.contained (hm : Penalised Hash h count m) : Contained Hash h count m.registry := by
  refine ⟨fun t v hv hkey => ?_, fun v hv => (hm.entry v hv).2⟩
  obtain ⟨k, _, hk, heligible⟩ := mem_getEligibleValidators.mp hv
  rw [← hm.consistent.key k v hk, hkey] at hk
  have hstatus := (hm.entry v hk).1
  rw [CValidator.isEligible, CValidator.isActive, hstatus] at heligible
  exact Bool.false_ne_true heligible

theorem Penalised.replace (hm : Penalised Hash h count m) {k : uint256} {v w : CValidator}
    (hv : m.registry.mapValidators[k]? = some v) (hstatus : v.status = .SLASHED → w.status = .SLASHED)
    (hcount : v.nSlashingCount ≤ w.nSlashingCount) {u : CValidator}
    (hu : (m.registry.mapValidators.insert k w)[h]? = some u) :
    u.status = .SLASHED ∧ count ≤ u.nSlashingCount := by
  rw [getElem?_insert] at hu
  split_ifs at hu with hk
  · rw [Option.some.injEq] at hu
    obtain ⟨hslashed, hle⟩ := hm.entry v (hk ▸ hv)
    rw [← hu]
    exact ⟨hstatus hslashed, hle.trans hcount⟩
  · exact hm.entry u hu

theorem Penalised.drop (hm : Penalised Hash h count m) {k : uint256} {v : CValidator}
    (hv : (dropValidator k v m.registry).mapValidators[h]? = some w) :
    w.status = .SLASHED ∧ count ≤ w.nSlashingCount := by
  unfold dropValidator at hv
  rw [getElem?_erase] at hv
  split_ifs at hv
  exact hm.entry w hv

/-- What a reload registers comes from a record. -/
theorem exists_record (l : List (uint256 × CValidator)) {r : CValidatorRegistry} {v : CValidator}
    (hr : Consistent Hash r)
    (hv : (l.foldl (fun registry p => (registerValidator Hash p.2 registry).2) r).mapValidators[h]? =
      some v) :
    r.mapValidators[h]? = some v ∨ ∃ p ∈ l, getValidatorHash Hash p.2.pubkey = h := by
  induction l generalizing r with
  | nil => exact Or.inl hv
  | cons p l ih =>
    rcases ih (hr.register p.2) hv with hget | ⟨q, hq, hkey⟩
    · rcases registerValidator_cases Hash p.2 r with he | ⟨_, _, _, he⟩
      · rw [he] at hget
        exact Or.inl hget
      · rw [he] at hget
        unfold addValidator at hget
        dsimp only at hget
        rw [getElem?_insert] at hget
        split_ifs at hget with hk
        · exact Or.inr ⟨p, List.mem_cons_self, hk⟩
        · exact Or.inl hget
    · exact Or.inr ⟨q, List.mem_cons_of_mem p hq, hkey⟩

theorem Penalised.load (hm : Penalised Hash h count m)
    (hrecords : ∀ db ∈ m.m_db, ∀ record ∈ db.validators.toList,
      getValidatorHash Hash record.2.pubkey ≠ h) :
    Penalised Hash h count (loadValidators Hash m).2 := by
  refine ⟨consistent_loadValidators hm.consistent, fun v hv => ?_⟩
  cases hdb : m.m_db with
  | none =>
    unfold loadValidators at hv
    rw [hdb] at hv
    exact hm.entry v hv
  | some db =>
    rw [loadValidators_eq hdb] at hv
    rcases exists_record _ (consistent_empty Hash) hv with hget | ⟨p, hp, hkey⟩
    · rw [ExtTreeMap.getElem?_empty] at hget
      contradiction
    · exact (hrecords db hdb p hp hkey).elim

theorem Penalised.step (hm : Penalised Hash h count m) {op : ManagerOp}
    (hop : KeepsPenalty Hash VerifyECDSA h m op) :
    Penalised Hash h count (managerStep Hash VerifyECDSA m op).2 := by
  refine ⟨consistent_managerStep hm.consistent op, fun w hw => ?_⟩
  cases op with
  | regTx now txHash regTx pindex view =>
    dsimp only [managerStep] at hw
    by_cases he : RegTakesEffect Hash VerifyECDSA txHash regTx pindex view m
    · obtain ⟨db, hdb⟩ := he.opened
      rw [processValidatorRegTx_effect hdb he] at hw
      -- a new entry under the same hash would be active and without a count
      have hkey : getValidatorHash Hash regTx.validatorPubKey ≠ h := fun hk => hop hk he
      unfold addValidator at hw
      dsimp only at hw
      rw [getElem?_insert] at hw
      split_ifs at hw with hk
      · exact (hkey hk).elim
      · exact hm.entry w hw
    · rw [processValidatorRegTx_unchanged hm.consistent he] at hw
      exact hm.entry w hw
  | deregTx txHash deregTx =>
    dsimp only [managerStep] at hw
    by_cases he : DeregTakesEffect Hash VerifyECDSA txHash deregTx m
    · obtain ⟨v, hv⟩ := he.accepted.known
      rw [processValidatorDeregTx_effect hv he] at hw
      exact hm.drop hw
    · rw [processValidatorDeregTx_unchanged he] at hw
      exact hm.entry w hw
  | undoRegTx regTx =>
    dsimp only [managerStep] at hw
    rw [undoValidatorRegTx_eq] at hw
    cases hv : m.registry.mapValidators[getValidatorHash Hash regTx.validatorPubKey]? with
    | none =>
      rw [deregisterValidator_none hv] at hw
      exact hm.entry w hw
    | some v =>
      rw [deregisterValidator_some hv] at hw
      exact hm.drop hw
  | undoDeregTx => exact (hm.load hop).entry w hw
  | updateStake k s =>
    dsimp only [managerStep] at hw
    rcases updateValidatorStake_cases k s m.registry with he | ⟨v, hv, _, _, he⟩
    · rw [he] at hw
      exact hm.entry w hw
    · rw [he] at hw
      exact hm.replace (w := {v with stakeInput := s, nStakeAmount := s.nValue}) hv id le_rfl hw
  | slash k =>
    dsimp only [managerStep] at hw
    cases hv : m.registry.mapValidators[k]? with
    | none =>
      rw [slashValidator_none hv] at hw
      exact hm.entry w hw
    | some v =>
      rw [slashValidator_some hv] at hw
      -- slashing again raises the count and keeps the status
      refine hm.replace (w := {v with nSlashingCount := v.nSlashingCount+1, status := .SLASHED}) hv
        (fun _ => rfl) ?_ hw
      dsimp only
      omega
  | load => exact (hm.load hop).entry w hw
  | clearProcessed => exact hm.entry w hw

theorem penalised_slash (hr : Consistent Hash m.registry) {v : CValidator}
    (hv : m.registry.mapValidators[h]? = some v) :
    Penalised Hash h (v.nSlashingCount+1) (managerStep Hash VerifyECDSA m (.slash h)).2 := by
  refine ⟨hr.slash h, fun w hw => ?_⟩
  dsimp only [managerStep] at hw
  rw [slashValidator_some hv] at hw
  dsimp only at hw
  rw [getElem?_insert, if_pos rfl, Option.some.injEq] at hw
  rw [← hw]
  exact ⟨rfl, le_rfl⟩

/-- Over any calls before and after it, a slashing keeps the key hash out of the
selection and its count from falling, as long as no step gives it a fresh entry. -/
theorem slashing_holds (Hash : List UInt8 → uint256)
    (VerifyECDSA : CPubKey → uint256 → List UInt8 → Bool) (m_db : Option ValidatorDB)
    (before later : List ManagerOp) (h : uint256) (v : CValidator)
    (hv : (final (managerStep Hash VerifyECDSA) {m_db} before).registry.mapValidators[h]? = some v)
    (hlater : EveryStep (managerStep Hash VerifyECDSA) (KeepsPenalty Hash VerifyECDSA h)
      (final (managerStep Hash VerifyECDSA) {m_db} (before++[.slash h])) later) :
    ∀ bs, bs <+: later → Contained Hash h (v.nSlashingCount+1)
      (final (managerStep Hash VerifyECDSA) {m_db} (before++[.slash h]++bs)).registry := by
  have hr := consistent_managerFinal Hash VerifyECDSA m_db before
  intro bs hbs
  rw [final_append _ before] at hlater
  rw [final_append, final_append _ before]
  exact (prefix_invariant (Penalised Hash h (v.nSlashingCount+1)) (fun m op hm => hm.step)
    (penalised_slash hr hv) hlater hbs).contained

/-- The key hash of the sample runs, and its registration. -/
def slashedKey : uint256 := getValidatorHash lowHash (sampleKey 1)

def registersKey (txHash : uint256) : ManagerOp :=
  .regTx 1000 txHash (sampleReg (sampleKey 1) ⟨1, 0⟩) ⟨900, 5⟩ (sampleView [] [⟨1, 0⟩])

/-- The validator leaves after the slashing and does not come back. -/
def leaves : List ManagerOp := [.deregTx 8 (sampleDereg (sampleKey 1)), .load]

theorem slashing_holds_leaves : Contained lowHash slashedKey 1
    (final (managerStep lowHash tagVerify) {m_db := some {}}
      ([registersKey 7]++[.slash slashedKey]++leaves)).registry :=
  slashing_holds lowHash tagVerify (some {}) [registersKey 7] leaves slashedKey
    (regValidator 1000 (sampleReg (sampleKey 1) ⟨1, 0⟩) ⟨900, 5⟩) (by decide +kernel)
    (by decide +kernel) leaves List.prefix_rfl

/-- It comes back with the same stake, or is brought back by a reload. -/
theorem slashing_escaped :
    (¬∀ bs, bs <+: [.deregTx 8 (sampleDereg (sampleKey 1)), registersKey 9] →
      Contained lowHash slashedKey 1 (final (managerStep lowHash tagVerify) {m_db := some {}}
        ([registersKey 7]++[.slash slashedKey]++bs)).registry) ∧
    ¬∀ bs, bs <+: [.load] →
      Contained lowHash slashedKey 1 (final (managerStep lowHash tagVerify) {m_db := some {}}
        ([registersKey 7]++[.slash slashedKey]++bs)).registry := by
  constructor
  · intro h
    have heligible := (h _ (List.prefix_refl _)).1 50000
    revert heligible
    decide +kernel
  · intro h
    have heligible := (h _ (List.prefix_refl _)).1 50000
    revert heligible
    decide +kernel

end BabaChain.PoS.CValidatorManager
