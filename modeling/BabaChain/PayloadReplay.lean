import BabaChain.ValidatorManager

/-! Which signed payloads can change the registry a second time. The processed
cache knows transactions, and a payload can be put into another transaction. -/
namespace BabaChain.PoS.CValidatorManager
open Std (ExtTreeMap)
open OrdMap Runs

/-- A payload with its signature. -/
inductive Payload where
  | reg (regTx : CValidatorRegTx)
  | dereg (deregTx : CValidatorDeregTx)
deriving DecidableEq

/-- The processing of one transaction. -/
inductive TxOp where
  | regTx (now : ℤ) (txHash : uint256) (regTx : CValidatorRegTx) (pindex : CBlockIndex)
      (view : CCoinsViewCache)
  | deregTx (txHash : uint256) (deregTx : CValidatorDeregTx)
deriving DecidableEq

def TxOp.payload : TxOp → Payload
  | .regTx _ _ payload _ _ => .reg payload
  | .deregTx _ payload => .dereg payload

section Replays

variable (Hash : List UInt8 → uint256) (VerifyECDSA : CPubKey → uint256 → List UInt8 → Bool)

def txStep (m : CValidatorManager) : TxOp → Bool × CValidatorManager
  | .regTx now txHash regTx pindex view =>
    managerStep Hash VerifyECDSA m (.regTx now txHash regTx pindex view)
  | .deregTx txHash deregTx => managerStep Hash VerifyECDSA m (.deregTx txHash deregTx)

/-- The payloads that change the registry, once for each change. -/
def changes : CValidatorManager → List TxOp → List Payload
  | _, [] => []
  | m, op :: ops =>
    if (txStep Hash VerifyECDSA m op).2.registry = m.registry then
      changes (txStep Hash VerifyECDSA m op).2 ops
    else
      op.payload :: changes (txStep Hash VerifyECDSA m op).2 ops

/-- The manager next to the payloads that have changed its registry. -/
structure History where
  manager : CValidatorManager
  changed : List Payload
deriving DecidableEq

def historyStep (s : History) (op : TxOp) : Bool × History :=
  let (accepted, manager) := txStep Hash VerifyECDSA s.manager op
  (accepted, {
    manager := manager
    changed := if manager.registry = s.manager.registry then s.changed else op.payload :: s.changed})

/-- The state refuses the payload, whatever its signature says: a registration
because of the validator or the stake, a deregistration because of the validator. -/
def Stale (m : CValidatorManager) : TxOp → Prop
  | .regTx _ txHash regTx pindex view =>
    txHash ∈ m.processedTxs ∨
    hasValidator (getValidatorHash Hash regTx.validatorPubKey) m.registry = true ∨
    isStakeUsed regTx.stakeOutPoint m.registry = true ∨
    (getCoin view regTx.stakeOutPoint).map (fun coin => coin.out.nValue) ≠
      some regTx.nStakeAmount ∨
    pindex.getBlockTime ≤ 0
  | .deregTx txHash deregTx =>
    txHash ∈ m.processedTxs ∨
    hasValidator (getValidatorHash Hash deregTx.validatorPubKey) m.registry = false

/-- A payload that has changed the registry before is stale. -/
def NoReplay (s : History) (op : TxOp) : Prop := op.payload ∈ s.changed → Stale Hash s.manager op

end Replays

/-- The tests that depend on the payload alone. -/
def WellSigned (Hash : List UInt8 → uint256)
    (VerifyECDSA : CPubKey → uint256 → List UInt8 → Bool) : Payload → Prop
  | .reg regTx => regTx.nVersion = CURRENT_VERSION ∧ MIN_VALIDATOR_STAKE ≤ regTx.nStakeAmount ∧
      isNull regTx.stakeOutPoint = false ∧ verifyValidatorRegSignature Hash VerifyECDSA regTx = true
  | .dereg deregTx => deregTx.nVersion = CURRENT_VERSION ∧
      verifyValidatorDeregSignature Hash VerifyECDSA deregTx = true

section Rules

variable {Hash : List UInt8 → uint256} {VerifyECDSA : CPubKey → uint256 → List UInt8 → Bool}
variable {m : CValidatorManager}

/-- What every state of a run from the opened manager has. -/
structure Ready (Hash : List UInt8 → uint256) (m : CValidatorManager) : Prop where
  consistent : Consistent Hash m.registry
  opened : ∃ db, m.m_db = some db

theorem stake_isValid_iff (regTx : CValidatorRegTx) (pindex : CBlockIndex) :
    CStakeInput.isValid
        ⟨regTx.stakeOutPoint, regTx.nStakeAmount, pindex.getBlockTime, pindex.hash⟩ = true ↔
      isNull regTx.stakeOutPoint = false ∧ MIN_VALIDATOR_STAKE ≤ regTx.nStakeAmount ∧
        0 < pindex.getBlockTime := by
  rw [CStakeInput.isValid, Bool.and_eq_true, Bool.and_eq_true, Bool.not_eq_true',
    decide_eq_true_iff, decide_eq_true_iff, and_assoc]

/-- A registration changes the registry exactly when it is well signed and not
stale. -/
theorem regTx_changes_iff (hm : Ready Hash m) (now : ℤ) (txHash : uint256)
    (regTx : CValidatorRegTx) (pindex : CBlockIndex) (view : CCoinsViewCache) :
    (txStep Hash VerifyECDSA m (.regTx now txHash regTx pindex view)).2.registry ≠ m.registry ↔
      WellSigned Hash VerifyECDSA (.reg regTx) ∧
        ¬Stale Hash m (.regTx now txHash regTx pindex view) := by
  have heffect : RegTakesEffect Hash VerifyECDSA txHash regTx pindex view m ↔
      WellSigned Hash VerifyECDSA (.reg regTx) ∧
        ¬Stale Hash m (.regTx now txHash regTx pindex view) := by
    have hcoin : (∃ coin, getCoin view regTx.stakeOutPoint = some coin ∧
        coin.out.nValue = regTx.nStakeAmount) ↔
        (getCoin view regTx.stakeOutPoint).map (fun coin => coin.out.nValue) =
          some regTx.nStakeAmount := Option.map_eq_some_iff.symm
    have hused : m.registry.mapStakeToValidator[regTx.stakeOutPoint]? = none ↔
        isStakeUsed regTx.stakeOutPoint m.registry ≠ true := by
      rw [isStakeUsed, ne_eq, decide_eq_true_iff, notMem_iff]
    have hnew : m.registry.mapValidators[getValidatorHash Hash regTx.validatorPubKey]? = none ↔
        hasValidator (getValidatorHash Hash regTx.validatorPubKey) m.registry ≠ true := by
      rw [hasValidator, ne_eq, decide_eq_true_iff, notMem_iff]
    unfold WellSigned Stale
    push Not
    rw [← hused, ← hcoin, ← hnew]
    constructor
    · rintro ⟨hp, ha, hv, -⟩
      obtain ⟨hnull, -, htime⟩ := (stake_isValid_iff regTx pindex).mp hv
      exact ⟨⟨ha.version, ha.minimum, hnull, ha.signature⟩, hp, ha.new, ha.unused, ha.coin, htime⟩
    · rintro ⟨⟨hversion, hmin, hnull, hsig⟩, hp, hnew, hunused, hc, htime⟩
      exact ⟨hp, ⟨hversion, hmin, hnew, hunused, hc, hsig⟩,
        (stake_isValid_iff regTx pindex).mpr ⟨hnull, hmin, htime⟩, hm.opened⟩
  rw [← heffect]
  dsimp only [txStep, managerStep]
  by_cases he : RegTakesEffect Hash VerifyECDSA txHash regTx pindex view m
  · refine iff_of_true (fun hsame => ?_) he
    obtain ⟨db, hdb⟩ := hm.opened
    rw [processValidatorRegTx_effect hdb he] at hsame
    -- the new validator's hash was free before
    have hget := congrArg
      (fun r : CValidatorRegistry => r.mapValidators[getValidatorHash Hash regTx.validatorPubKey]?)
      hsame
    dsimp only [addValidator, regValidator, CValidator.create] at hget
    rw [getElem?_insert, if_pos rfl, he.accepted.new] at hget
    contradiction
  · refine iff_of_false (fun hne => hne ?_) he
    rw [processValidatorRegTx_unchanged hm.consistent he]

theorem deregTx_changes_iff (txHash : uint256) (deregTx : CValidatorDeregTx) :
    (txStep Hash VerifyECDSA m (.deregTx txHash deregTx)).2.registry ≠ m.registry ↔
      WellSigned Hash VerifyECDSA (.dereg deregTx) ∧ ¬Stale Hash m (.deregTx txHash deregTx) := by
  have heffect : DeregTakesEffect Hash VerifyECDSA txHash deregTx m ↔
      WellSigned Hash VerifyECDSA (.dereg deregTx) ∧ ¬Stale Hash m (.deregTx txHash deregTx) := by
    unfold WellSigned Stale
    push Not
    rw [ne_eq, Bool.not_eq_false, hasValidator_eq_true]
    exact ⟨fun ⟨hp, ha⟩ => ⟨⟨ha.version, ha.signature⟩, hp, ha.known⟩,
      fun ⟨⟨hversion, hsig⟩, hp, hknown⟩ => ⟨hp, hversion, hknown, hsig⟩⟩
  rw [← heffect]
  dsimp only [txStep, managerStep]
  by_cases he : DeregTakesEffect Hash VerifyECDSA txHash deregTx m
  · refine iff_of_true (fun hsame => ?_) he
    obtain ⟨v, hv⟩ := he.accepted.known
    rw [processValidatorDeregTx_effect hv he] at hsame
    -- the hash it had is free afterwards
    have hget := congrArg
      (fun r : CValidatorRegistry => r.mapValidators[getValidatorHash Hash deregTx.validatorPubKey]?)
      hsame
    dsimp only [dropValidator] at hget
    rw [getElem?_erase, if_pos rfl, hv] at hget
    contradiction
  · refine iff_of_false (fun hne => hne ?_) he
    rw [processValidatorDeregTx_unchanged he]

theorem txStep_changes_iff (hm : Ready Hash m) (op : TxOp) :
    (txStep Hash VerifyECDSA m op).2.registry ≠ m.registry ↔
      WellSigned Hash VerifyECDSA op.payload ∧ ¬Stale Hash m op := by
  cases op with
  | regTx now txHash regTx pindex view => exact regTx_changes_iff hm now txHash regTx pindex view
  | deregTx txHash deregTx => exact deregTx_changes_iff txHash deregTx

theorem Ready.step (hm : Ready Hash m) (op : TxOp) :
    Ready Hash (txStep Hash VerifyECDSA m op).2 := by
  obtain ⟨db, hdb⟩ := hm.opened
  cases op with
  | regTx now txHash regTx pindex view =>
    refine ⟨consistent_managerStep hm.consistent (.regTx now txHash regTx pindex view), ?_⟩
    dsimp only [txStep, managerStep]
    by_cases he : RegTakesEffect Hash VerifyECDSA txHash regTx pindex view m
    · rw [processValidatorRegTx_effect hdb he]
      exact ⟨_, rfl⟩
    · rw [processValidatorRegTx_unchanged hm.consistent he]
      exact hm.opened
  | deregTx txHash deregTx =>
    refine ⟨consistent_managerStep hm.consistent (.deregTx txHash deregTx), ?_⟩
    dsimp only [txStep, managerStep]
    by_cases he : DeregTakesEffect Hash VerifyECDSA txHash deregTx m
    · obtain ⟨v, hv⟩ := he.accepted.known
      rw [processValidatorDeregTx_effect hv he, hdb]
      exact ⟨_, rfl⟩
    · rw [processValidatorDeregTx_unchanged he]
      exact hm.opened

/-- From a history of well signed payloads on, no change repeats one of them or
another change exactly when no step is a replay. -/
theorem nodup_changes_iff (ops : List TxOp) {changed : List Payload} (hm : Ready Hash m)
    (hchanged : ∀ p ∈ changed, WellSigned Hash VerifyECDSA p) :
    ((changes Hash VerifyECDSA m ops).Nodup ∧
        ∀ p ∈ changes Hash VerifyECDSA m ops, p ∉ changed) ↔
      EveryStep (historyStep Hash VerifyECDSA) (NoReplay Hash) ⟨m, changed⟩ ops := by
  induction ops generalizing m changed with
  | nil => exact iff_of_true ⟨List.nodup_nil, fun p hp => absurd hp List.not_mem_nil⟩ trivial
  | cons op ops ih =>
    have hiff : (txStep Hash VerifyECDSA m op).2.registry ≠ m.registry ↔ _ := txStep_changes_iff hm op
    rw [EveryStep, changes, historyStep]
    by_cases hsame : (txStep Hash VerifyECDSA m op).2.registry = m.registry
    · dsimp only
      rw [if_pos hsame, if_pos hsame, ih (hm.step op) hchanged]
      refine (and_iff_right ?_).symm
      -- a payload of the history is well signed, so only staleness stops it
      intro hmem
      by_contra hstale
      exact hiff.mpr ⟨hchanged _ hmem, hstale⟩ hsame
    · obtain ⟨hsigned, hstale⟩ := hiff.mp hsame
      have hnext := @ih (txStep Hash VerifyECDSA m op).2 (op.payload :: changed) (hm.step op)
        (List.forall_mem_cons.mpr ⟨hsigned, hchanged⟩)
      dsimp only
      rw [if_neg hsame, if_neg hsame, ← hnext, List.nodup_cons, List.forall_mem_cons]
      have hfresh : NoReplay Hash ⟨m, changed⟩ op ↔ op.payload ∉ changed :=
        ⟨fun h hmem => hstale (h hmem), fun h hmem => absurd hmem h⟩
      rw [hfresh]
      simp only [List.mem_cons, not_or]
      constructor
      · rintro ⟨⟨hnot, hnodup⟩, hop, hrest⟩
        exact ⟨hop, hnodup, fun p hp => ⟨fun he => hnot (he ▸ hp), hrest p hp⟩⟩
      · rintro ⟨hop, hnodup, hrest⟩
        exact ⟨⟨fun hmem => (hrest _ hmem).1 rfl, hnodup⟩, hop, fun p hp => (hrest p hp).2⟩

end Rules

/-- Every payload changes the registry at most once in a run, exactly when a
payload that has changed it before only comes again while it is stale. -/
theorem changes_once_iff (Hash : List UInt8 → uint256)
    (VerifyECDSA : CPubKey → uint256 → List UInt8 → Bool) (ops : List TxOp) :
    (changes Hash VerifyECDSA init ops).Nodup ↔
      EveryStep (historyStep Hash VerifyECDSA) (NoReplay Hash) ⟨init, []⟩ ops := by
  have hready : Ready Hash init := ⟨consistent_empty Hash, _, rfl⟩
  rw [← nodup_changes_iff ops hready (fun p hp => absurd hp List.not_mem_nil)]
  exact (and_iff_left fun p _ => List.not_mem_nil).symm

/-- The old payloads in two new transactions register and deregister once more. -/
def replayedRun : List TxOp :=
  let regTx := sampleReg (sampleKey 1) ⟨1, 0⟩
  let deregTx := sampleDereg (sampleKey 1)
  let view := sampleView [] [⟨1, 0⟩]
  [.regTx 1000 7 regTx ⟨900, 5⟩ view, .deregTx 8 deregTx,
   .regTx 1000 9 regTx ⟨900, 5⟩ view, .deregTx 10 deregTx]

theorem payloads_replayed : ¬(changes lowHash tagVerify init replayedRun).Nodup := by
  decide +kernel

end BabaChain.PoS.CValidatorManager
