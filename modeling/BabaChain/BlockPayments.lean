import BabaChain.CoinbaseSplit
import BabaChain.GovernanceTallies
import BabaChain.GovernanceTriggers
import BabaChain.SubsidyTermination
import Mathlib

/-! The payments of a block: how a template fills the coinbase, and how a block's coinbase is
checked. -/
namespace BabaChain.MNPayments
open MachineInt CreditPool Guards
open Governance (VoteChecks SuperblockParams CSuperblock TriggerState isValidBlockHeight
  getPaymentsLimit getValueOut Accepts)
open Evo.ByValue (CBlockIndex CDeterministicMNList)

/-- The parameters of the payments of a block, of which two records hold some. -/
structure BlockPaymentParams where
  payments : PaymentParams
  superblocks : SuperblockParams
  nBudgetPaymentsCycleBlocks : ℤ
  nBudgetPaymentsWindowBlocks : ℤ
  nGovernanceMinQuorum : ℤ
  cycle_eq : payments.nSuperblockCycle = superblocks.nSuperblockCycle
  v20_eq : payments.V20Height = superblocks.V20Height
  budget_cycle_pos : 0 < nBudgetPaymentsCycleBlocks
  budgets_first : (superblocks.nBudgetPaymentsStartBlock : ℤ) < superblocks.nSuperblockStartBlock

/-- What a node knows besides: `m_mn_sync.IsSynced`, `m_govman.IsValid` and
`AreSuperblocksEnabled`. -/
structure NodeStatus where
  isSynced : Bool
  isGovernanceValid : Bool
  areSuperblocksEnabled : Bool

variable (p : BlockPaymentParams) (status : NodeStatus)

/-- The check against the block reward alone. -/
def checkBlockReward (nBlockHeight nValueOut blockReward : ℤ) (strReason : String) :
    Except String Unit :=
  refuse (blockReward < nValueOut)
    ("coinbase pays too much at height " ++ toString nBlockHeight ++ " (actual=" ++
      toString nValueOut ++ " vs limit=" ++ toString blockReward ++
      "), exceeded block reward, " ++ strReason)

/-- `IsOldBudgetBlockValueValid`; an error is the text that it returns false with. -/
def isOldBudgetBlockValueValid (nValueOut nBlockHeight blockReward : ℤ) : Except String Unit := do
  refuse (nBlockHeight < p.superblocks.nBudgetPaymentsStartBlock)
    ("Incorrect block " ++ toString nBlockHeight ++ ", old budgets are not activated yet")
  refuse ((p.superblocks.nSuperblockStartBlock : ℤ) ≤ nBlockHeight)
    ("Incorrect block " ++ toString nBlockHeight ++ ", old budgets are no longer active")
  let nOffset := nBlockHeight.tmod p.nBudgetPaymentsCycleBlocks
  if nOffset < p.nBudgetPaymentsWindowBlocks then
    if status.isSynced then
      checkBlockReward nBlockHeight nValueOut blockReward "old budgets are disabled"
    else
      .ok ()
  else
    checkBlockReward nBlockHeight nValueOut blockReward "block is not in old budget cycle window"

variable {G : Type*} (env : VoteChecks G) (network : Network) (fuel : ℕ) (time : ℤ)

/-- `IsBlockValueValid` of a block with the given coinbase. `none` is an overflow, an exception, or
a payments limit that has not been computed within the fuel. -/
def isBlockValueValid (gov : TriggerState) (coinbase : CTransaction)
    (nBlockHeight blockReward : ℤ) (check_superblock : Bool) :
    Option (Except String Unit × TriggerState) := do
  let nValueOut ← getValueOut coinbase.vout 0
  if nBlockHeight < p.superblocks.nBudgetPaymentsStartBlock then
    return (checkBlockReward nBlockHeight nValueOut blockReward "old budgets are not activated yet",
      gov)
  else if nBlockHeight < p.superblocks.nSuperblockStartBlock then
    return (isOldBudgetBlockValueValid p status nValueOut nBlockHeight blockReward, gov)
  else
    let nPaymentsLimit ← getPaymentsLimit network fuel p.superblocks nBlockHeight
    let nSuperblockMaxValue ← checked 64 (blockReward+nPaymentsLimit)
    if !isValidBlockHeight p.superblocks nBlockHeight then
      return (checkBlockReward nBlockHeight nValueOut blockReward
        "only regular blocks are allowed at this height", gov)
    else if nSuperblockMaxValue < nValueOut then
      return (.error ("coinbase pays too much at height " ++ toString nBlockHeight ++ " (actual=" ++
        toString nValueOut ++ " vs limit=" ++ toString nSuperblockMaxValue ++
        "), exceeded superblock max value"), gov)
    else if !status.isSynced || !status.isGovernanceValid then
      return (.ok (), gov)
    else if !status.areSuperblocksEnabled then
      return (checkBlockReward nBlockHeight nValueOut blockReward "superblocks are disabled", gov)
    else if !check_superblock then
      return (.ok (), gov)
    else
      let (triggered, gov) := gov.isSuperblockTriggered env p.nGovernanceMinQuorum p.superblocks time
        nBlockHeight
      if !triggered then
        return (checkBlockReward nBlockHeight nValueOut blockReward
          "no triggered superblock detected", gov)
      else
        let valid ← gov.isValidSuperblock env p.superblocks network fuel coinbase nBlockHeight
          blockReward
        return (refuse (valid = false)
          ("invalid superblock detected at height " ++ toString nBlockHeight), gov)

variable (pindexPrev : CBlockIndex) (mnList : CDeterministicMNList G) (blockSubsidy feeReward : ℤ)

/-- `IsBlockPayeeValid`. -/
def isBlockPayeeValid (gov : TriggerState) (txNew : CTransaction) (check_superblock : Bool) :
    Option (Bool × TriggerState) := do
  let nBlockHeight := pindexPrev.nHeight+1
  let paid ← isTransactionValid p.payments pindexPrev mnList blockSubsidy feeReward txNew
  if !paid then
    return (false, gov)
  else if !status.isSynced || !status.isGovernanceValid then
    return (true, gov)
  else if nBlockHeight < p.superblocks.nSuperblockStartBlock then
    return (true, gov)
  else if !status.areSuperblocksEnabled || !check_superblock then
    return (true, gov)
  else
    let (triggered, gov) := gov.isSuperblockTriggered env p.nGovernanceMinQuorum p.superblocks time
      nBlockHeight
    if triggered then
      let blockReward ← checked 64 (blockSubsidy+feeReward)
      let valid ← gov.isValidSuperblock env p.superblocks network fuel txNew nBlockHeight blockReward
      return (valid, gov)
    else
      return (true, gov)

/-- The loop that subtracts the payments from the first output. -/
def subtractPayments : List CTxOut → List CTxOut → Option (List CTxOut)
  | vout, [] => some vout
  | [], _ :: _ => none
  | txout0 :: vout, txout :: payments => do
    let nValue ← checked 64 (txout0.nValue-txout.nValue)
    subtractPayments (⟨nValue, txout0.scriptPubKey⟩ :: vout) payments

/-- `FillBlockPayments`. -/
def fillBlockPayments (gov : TriggerState) (txNew : CTransaction) :
    Option (CTransaction × TriggerState) := do
  let nBlockHeight := pindexPrev.nHeight+1
  let (triggered, gov) :=
    if status.areSuperblocksEnabled then
      gov.isSuperblockTriggered env p.nGovernanceMinQuorum p.superblocks time nBlockHeight
    else
      (false, gov)
  let voutSuperblockPayments :=
    if triggered then gov.getSuperblockPayments env p.superblocks nBlockHeight else []
  let (_, voutMasternodePayments) ←
    getMasternodeTxOuts p.payments pindexPrev mnList blockSubsidy feeReward
  let vout ← subtractPayments (txNew.vout ++ voutMasternodePayments ++ voutSuperblockPayments)
    voutMasternodePayments
  return ({txNew with vout}, gov)

/-! ### What the checks accept -/

variable {p status env network fuel time}

theorem checkBlockReward_ok_iff {nBlockHeight nValueOut blockReward : ℤ} {strReason : String} :
    checkBlockReward nBlockHeight nValueOut blockReward strReason = .ok () ↔
      nValueOut ≤ blockReward :=
  refuse_ok_iff.trans not_lt

theorem lt_start_of_not_valid {nBlockHeight : ℤ}
    (h : nBlockHeight < p.superblocks.nSuperblockStartBlock) :
    isValidBlockHeight p.superblocks nBlockHeight = false := by
  rw [isValidBlockHeight, decide_eq_false (not_le.mpr h), Bool.false_and]

/-- A synced node checks the blocks of old budgets as any others. -/
theorem isOldBudgetBlockValueValid_eq (hsynced : status.isSynced = true) {nBlockHeight : ℤ}
    (hstart : ¬nBlockHeight < p.superblocks.nBudgetPaymentsStartBlock)
    (hend : nBlockHeight < p.superblocks.nSuperblockStartBlock) (nValueOut blockReward : ℤ) :
    isOldBudgetBlockValueValid p status nValueOut nBlockHeight blockReward = .ok () ↔
      nValueOut ≤ blockReward := by
  unfold isOldBudgetBlockValueValid
  rw [refuse_then_ok_iff, refuse_then_ok_iff]
  simp only [hstart, not_le.mpr hend, not_false_eq_true, true_and, hsynced, if_true]
  split_ifs <;> exact checkBlockReward_ok_iff

/-- Where there cannot be a superblock, the value is checked against the reward alone. -/
theorem isBlockValueValid_regular (hsynced : status.isSynced = true) {gov : TriggerState}
    {coinbase : CTransaction} {nBlockHeight blockReward : ℤ} (hreward : InRange 64 blockReward)
    (hheight : isValidBlockHeight p.superblocks nBlockHeight = false) (check_superblock : Bool)
    (gov' : TriggerState) :
    isBlockValueValid p status env network fuel time gov coinbase nBlockHeight blockReward
        check_superblock = some (.ok (), gov') ↔
      gov' = gov ∧ ∃ nValueOut, getValueOut coinbase.vout 0 = some nValueOut ∧
        nValueOut ≤ blockReward := by
  have hlimit : getPaymentsLimit network fuel p.superblocks nBlockHeight = some 0 := by
    rw [getPaymentsLimit, hheight]
    rfl
  have hsome (nValueOut : ℤ) (check : Except String Unit)
      (hcheck : check = .ok () ↔ nValueOut ≤ blockReward) :
      (pure (check, gov) : Option (Except String Unit × TriggerState)) = some (.ok (), gov') ↔
        gov' = gov ∧ nValueOut ≤ blockReward := by
    rw [Option.pure_def, Option.some.injEq, Prod.mk.injEq, hcheck, eq_comm (a := gov), And.comm]
  unfold isBlockValueValid
  rcases getValueOut coinbase.vout 0 with _ | nValueOut
  · simp
  · simp only [Option.bind_eq_bind, Option.bind_some, Option.some.injEq, exists_eq_left']
    by_cases hbudget : nBlockHeight < p.superblocks.nBudgetPaymentsStartBlock
    · rw [if_pos hbudget]
      exact hsome nValueOut _ checkBlockReward_ok_iff
    · rw [if_neg hbudget]
      by_cases hstart : nBlockHeight < p.superblocks.nSuperblockStartBlock
      · rw [if_pos hstart]
        exact hsome nValueOut _ (isOldBudgetBlockValueValid_eq hsynced hbudget hstart _ _)
      · rw [if_neg hstart, hlimit, Option.bind_some, add_zero, checked_of_inRange hreward,
          Option.bind_some, hheight, if_pos (Bool.not_false)]
        exact hsome nValueOut _ checkBlockReward_ok_iff

/-- Whether the superblock of a height has to be paid. -/
def PaysSuperblock (p : BlockPaymentParams) (status : NodeStatus) (env : VoteChecks G)
    (gov : TriggerState) (nBlockHeight : ℤ) : Prop :=
  status.areSuperblocksEnabled = true ∧
    gov.Triggered env p.nGovernanceMinQuorum p.superblocks nBlockHeight

/-- The superblock of a height is the best trigger's, and a coinbase is accepted for it. -/
def AcceptsBest (p : BlockPaymentParams) (env : VoteChecks G) (network : Network) (fuel : ℕ)
    (gov : TriggerState) (coinbase : CTransaction) (nBlockHeight blockReward : ℤ) : Prop :=
  ∃ best, gov.bestTrigger env nBlockHeight = some best ∧
    Accepts network fuel p.superblocks best coinbase nBlockHeight blockReward

theorem isValidSuperblock_iff {gov : TriggerState} {coinbase : CTransaction}
    {nBlockHeight blockReward : ℤ} :
    gov.isValidSuperblock env p.superblocks network fuel coinbase nBlockHeight blockReward =
        some true ↔
      AcceptsBest p env network fuel gov coinbase nBlockHeight blockReward := by
  unfold TriggerState.isValidSuperblock AcceptsBest
  rw [TriggerState.getBestSuperblock_eq]
  rcases hheight : isValidBlockHeight p.superblocks nBlockHeight with _ | _
  · refine iff_of_false (by simp) ?_
    rintro ⟨best, -, haccepts⟩
    rw [haccepts.height] at hheight
    cases hheight
  · rw [if_pos rfl]
    rcases gov.bestTrigger env nBlockHeight with _ | best
    · simp
    · rw [CSuperblock.isValid_iff]
      simp

section Updates

variable (p status env time) (gov : TriggerState) (nBlockHeight : ℤ)

/-- The state after a look at the triggers of a height. -/
def updated : TriggerState :=
  if status.areSuperblocksEnabled then
    (gov.isSuperblockTriggered env p.nGovernanceMinQuorum p.superblocks time nBlockHeight).2
  else
    gov

theorem sameTriggers_updated : TriggerState.SameTriggers env p.nGovernanceMinQuorum gov
    (updated p status env time gov nBlockHeight) := by
  unfold updated
  split_ifs
  · exact (gov.isSuperblockTriggered_spec env p.nGovernanceMinQuorum p.superblocks time
      nBlockHeight).2
  · exact .refl gov

theorem updated_of_not_valid (h : isValidBlockHeight p.superblocks nBlockHeight = false) :
    updated p status env time gov nBlockHeight = gov := by
  rw [updated, TriggerState.isSuperblockTriggered, h]
  exact ite_self gov

end Updates

theorem AcceptsBest.congr {gov gov' : TriggerState} {coinbase : CTransaction}
    {nBlockHeight blockReward : ℤ}
    (h : TriggerState.SameTriggers env p.nGovernanceMinQuorum gov gov') :
    AcceptsBest p env network fuel gov' coinbase nBlockHeight blockReward ↔
      AcceptsBest p env network fuel gov coinbase nBlockHeight blockReward := by
  rw [AcceptsBest, h.bestTrigger_eq, AcceptsBest]

theorem PaysSuperblock.congr {gov gov' : TriggerState} {nBlockHeight : ℤ}
    (h : TriggerState.SameTriggers env p.nGovernanceMinQuorum gov gov') :
    PaysSuperblock p status env gov' nBlockHeight ↔ PaysSuperblock p status env gov nBlockHeight := by
  rw [PaysSuperblock, h.triggered_iff, PaysSuperblock]

/-- What the value of a coinbase has to satisfy at the height of a superblock. -/
structure ValueAccepted (p : BlockPaymentParams) (status : NodeStatus) (env : VoteChecks G)
    (network : Network) (fuel : ℕ) (gov : TriggerState) (coinbase : CTransaction)
    (nBlockHeight blockReward nValueOut nPaymentsLimit : ℤ) : Prop where
  value : getValueOut coinbase.vout 0 = some nValueOut
  limit : getPaymentsLimit network fuel p.superblocks nBlockHeight = some nPaymentsLimit
  fits : InRange 64 (blockReward+nPaymentsLimit)
  value_le : nValueOut ≤ blockReward+nPaymentsLimit
  superblock : PaysSuperblock p status env gov nBlockHeight →
    AcceptsBest p env network fuel gov coinbase nBlockHeight blockReward
  no_superblock : ¬PaysSuperblock p status env gov nBlockHeight → nValueOut ≤ blockReward

theorem isBlockValueValid_superblock (hsynced : status.isSynced = true)
    (hvalid : status.isGovernanceValid = true) {gov : TriggerState} {coinbase : CTransaction}
    {nBlockHeight blockReward : ℤ} (hheight : isValidBlockHeight p.superblocks nBlockHeight = true)
    (gov' : TriggerState) :
    isBlockValueValid p status env network fuel time gov coinbase nBlockHeight blockReward true =
        some (.ok (), gov') ↔
      gov' = updated p status env time gov nBlockHeight ∧
        ∃ nValueOut nPaymentsLimit, ValueAccepted p status env network fuel gov coinbase
          nBlockHeight blockReward nValueOut nPaymentsLimit := by
  have hstart : ¬nBlockHeight < p.superblocks.nSuperblockStartBlock := by
    intro hlt
    rw [lt_start_of_not_valid hlt] at hheight
    cases hheight
  have hbudget : ¬nBlockHeight < p.superblocks.nBudgetPaymentsStartBlock := by
    have := p.budgets_first
    omega
  obtain ⟨htriggered, hsame⟩ := gov.isSuperblockTriggered_spec env p.nGovernanceMinQuorum
    p.superblocks time nBlockHeight
  unfold isBlockValueValid
  rcases hvalue : getValueOut coinbase.vout 0 with _ | nValueOut
  · refine iff_of_false (by simp) ?_
    rintro ⟨-, _, _, h⟩
    rw [h.value] at hvalue
    cases hvalue
  rcases hlimit : getPaymentsLimit network fuel p.superblocks nBlockHeight with _ | nPaymentsLimit
  · refine iff_of_false (by simp [hbudget, hstart]) ?_
    rintro ⟨-, _, _, h⟩
    rw [h.limit] at hlimit
    cases hlimit
  by_cases hfits : InRange 64 (blockReward+nPaymentsLimit)
  swap
  · refine iff_of_false (by simp [hbudget, hstart, checked_eq_none hfits]) ?_
    rintro ⟨-, _, _, h⟩
    rw [h.limit] at hlimit
    exact hfits (Option.some.inj hlimit ▸ h.fits)
  simp only [Option.bind_eq_bind, Option.bind_some, if_neg hbudget, if_neg hstart,
    checked_of_inRange hfits, hheight, Bool.not_true, Bool.false_eq_true, if_false, hsynced, hvalid,
    Bool.or_false, Option.pure_def]
  by_cases hle : nValueOut ≤ blockReward+nPaymentsLimit
  swap
  · rw [if_pos (not_le.mp hle)]
    refine iff_of_false (by simp) ?_
    rintro ⟨-, _, _, h⟩
    obtain rfl := Option.some.inj (h.value.symm.trans hvalue)
    obtain rfl := Option.some.inj (h.limit.symm.trans hlimit)
    exact hle h.value_le
  have hrest : (∃ nValueOut nPaymentsLimit, ValueAccepted p status env network fuel gov coinbase
      nBlockHeight blockReward nValueOut nPaymentsLimit) ↔
        (PaysSuperblock p status env gov nBlockHeight →
          AcceptsBest p env network fuel gov coinbase nBlockHeight blockReward) ∧
        (¬PaysSuperblock p status env gov nBlockHeight → nValueOut ≤ blockReward) := by
    constructor
    · rintro ⟨_, _, h⟩
      obtain rfl := Option.some.inj (h.value.symm.trans hvalue)
      exact ⟨h.superblock, h.no_superblock⟩
    · rintro ⟨hbest, hno⟩
      exact ⟨nValueOut, nPaymentsLimit, hvalue, hlimit, hfits, hle, hbest, hno⟩
  rw [if_neg (not_lt.mpr hle), hrest]
  unfold PaysSuperblock updated
  rcases henabled : status.areSuperblocksEnabled with _ | _
  · simp only [Bool.not_false, if_true, Option.some.injEq, Prod.mk.injEq, checkBlockReward_ok_iff,
      Bool.false_eq_true, false_and, false_implies, not_false_eq_true, true_implies, true_and,
      if_false, eq_comm (a := gov)]
    exact And.comm
  · simp only [Bool.not_true, Bool.false_eq_true, if_false, if_true, true_and]
    rw [← htriggered, ← AcceptsBest.congr hsame]
    generalize gov.isSuperblockTriggered env p.nGovernanceMinQuorum p.superblocks time
      nBlockHeight = looked
    obtain ⟨_ | _, gov''⟩ := looked
    · simp only [Bool.not_false, if_true, Option.some.injEq, Prod.mk.injEq,
        checkBlockReward_ok_iff, Bool.false_eq_true, false_implies, not_false_eq_true,
        true_implies, true_and, eq_comm (a := gov'')]
      exact And.comm
    · rw [← isValidSuperblock_iff]
      simp only [Bool.not_true, Bool.false_eq_true, if_false, not_true_eq_false, false_implies,
        true_implies, and_true]
      rcases gov''.isValidSuperblock env p.superblocks network fuel coinbase nBlockHeight
        blockReward with _ | _ | _ <;> simp [refuse, eq_comm (a := gov'')]

section Blocks

variable {pindexPrev : CBlockIndex} {mnList : CDeterministicMNList G} {blockSubsidy feeReward : ℤ}

theorem isBlockPayeeValid_iff (hsynced : status.isSynced = true)
    (hvalid : status.isGovernanceValid = true) {gov : TriggerState} {txNew : CTransaction}
    (hreward : InRange 64 (blockSubsidy+feeReward)) (gov' : TriggerState) :
    isBlockPayeeValid p status env network fuel time pindexPrev mnList blockSubsidy feeReward gov
        txNew true = some (true, gov') ↔
      gov' = updated p status env time gov (pindexPrev.nHeight+1) ∧
        isTransactionValid p.payments pindexPrev mnList blockSubsidy feeReward txNew = some true ∧
          (PaysSuperblock p status env gov (pindexPrev.nHeight+1) →
            AcceptsBest p env network fuel gov txNew (pindexPrev.nHeight+1)
              (blockSubsidy+feeReward)) := by
  obtain ⟨htriggered, hsame⟩ := gov.isSuperblockTriggered_spec env p.nGovernanceMinQuorum
    p.superblocks time (pindexPrev.nHeight+1)
  unfold isBlockPayeeValid
  rcases isTransactionValid p.payments pindexPrev mnList blockSubsidy feeReward txNew with
    _ | _ | _
  · simp
  · simp
  simp only [Option.bind_eq_bind, Option.bind_some, Bool.not_true, Bool.false_eq_true, if_false,
    hsynced, hvalid, Bool.or_false, Option.pure_def, true_and]
  by_cases hstart : pindexPrev.nHeight+1 < p.superblocks.nSuperblockStartBlock
  · have hnot := lt_start_of_not_valid hstart
    have hno : ¬PaysSuperblock p status env gov (pindexPrev.nHeight+1) := by
      rintro ⟨-, hheight, -⟩
      rw [hnot] at hheight
      cases hheight
    rw [if_pos hstart, updated_of_not_valid p status env time gov _ hnot]
    simp [hno, eq_comm (a := gov)]
  · rw [if_neg hstart]
    unfold PaysSuperblock updated
    rcases henabled : status.areSuperblocksEnabled with _ | _
    · simp [eq_comm (a := gov)]
    · simp only [Bool.not_true, Bool.false_eq_true, if_false, if_true, true_and]
      rw [← htriggered, ← AcceptsBest.congr hsame]
      generalize gov.isSuperblockTriggered env p.nGovernanceMinQuorum p.superblocks time
        (pindexPrev.nHeight+1) = looked
      obtain ⟨_ | _, gov''⟩ := looked
      · simp [eq_comm (a := gov'')]
      · rw [← isValidSuperblock_iff, if_pos rfl, checked_of_inRange hreward, Option.bind_some]
        rcases gov''.isValidSuperblock env p.superblocks network fuel txNew (pindexPrev.nHeight+1)
          (blockSubsidy+feeReward) with _ | _ | _ <;> simp [eq_comm (a := gov'')]

/-! ### What the template fills in -/

/-- The first output keeps what the payments leave of it. -/
theorem subtractPayments_eq {payments : List CTxOut} (h0 : ∀ txout ∈ payments, 0 ≤ txout.nValue)
    {nValue : ℤ} (hle : (payments.map CTxOut.nValue).sum ≤ nValue) (hmax : nValue ≤ MAX_MONEY)
    (scriptPubKey : List UInt8) (vout : List CTxOut) :
    subtractPayments (⟨nValue, scriptPubKey⟩ :: vout) payments =
      some (⟨nValue-(payments.map CTxOut.nValue).sum, scriptPubKey⟩ :: vout) := by
  induction payments generalizing nValue with
  | nil => simp [subtractPayments]
  | cons txout payments ih =>
    have hbig : MAX_MONEY = 100000000000000000 := by decide
    obtain ⟨hv, hrest⟩ := List.forall_mem_cons.mp h0
    have hnonneg : 0 ≤ (payments.map CTxOut.nValue).sum := by
      apply List.sum_nonneg
      simpa using hrest
    rw [List.map_cons, List.sum_cons] at hle
    have hleft : checked 64 (nValue-txout.nValue) = some (nValue-txout.nValue) :=
      checked_of_inRange (inRange_of_between (by omega) (by rw [intMax_64]; omega))
    simp only [subtractPayments, hleft, Option.bind_eq_bind, Option.bind_some]
    rw [ih hrest (by omega) (by omega), List.map_cons, List.sum_cons, sub_sub]

variable (p status env) in
/-- The outputs of the superblock, where one is paid. -/
noncomputable def superblockOutputs (gov : TriggerState) (nBlockHeight : ℤ) : List CTxOut :=
  open Classical in
  if PaysSuperblock p status env gov nBlockHeight then
    ((gov.bestTrigger env nBlockHeight).map CSuperblock.outputs).getD []
  else
    []

/-- The outputs of a masternode take no more than the block value. -/
theorem sum_expectedOutputs_le (h : BlockRewards mnList blockSubsidy feeReward) :
    ((expectedOutputs p.payments pindexPrev mnList blockSubsidy feeReward).map CTxOut.nValue).sum ≤
      blockSubsidy+feeReward := by
  have hsub := h.blockSubsidy_nonneg
  have hfee := h.feeReward_nonneg
  have hpay := payment_le p.payments (pindexPrev.nHeight+1) (fV20Active p.payments pindexPrev)
    (v := blockSubsidy+feeReward) (by omega)
  rcases hpayee : mnList.getMNPayee pindexPrev with _ | dmn
  · obtain ⟨hmn, hmn'⟩ := h.masternodeReward_bounds p.payments pindexPrev
    have hplatform := h.platformReward_bounds p.payments pindexPrev
    simp only [expectedOutputs, hpayee, List.append_nil, sum_platformOutputs]
    unfold masternodeReward at hmn
    omega
  · rw [sum_expectedOutputs h hpayee]
    exact hpay

variable (p status env pindexPrev mnList blockSubsidy feeReward) in
/-- The coinbase of a template whose first output pays to the given script. -/
noncomputable def templateOutputs (gov : TriggerState) (scriptPubKey : List UInt8) : List CTxOut :=
  ⟨blockSubsidy+feeReward-((expectedOutputs p.payments pindexPrev mnList blockSubsidy
      feeReward).map CTxOut.nValue).sum, scriptPubKey⟩ ::
    (expectedOutputs p.payments pindexPrev mnList blockSubsidy feeReward ++
      superblockOutputs p status env gov (pindexPrev.nHeight+1))

variable (p status env pindexPrev mnList blockSubsidy feeReward) in
noncomputable def templateCoinbase (gov : TriggerState) (scriptPubKey : List UInt8)
    (txNew : CTransaction) : CTransaction :=
  {txNew with
    vout := templateOutputs p status env pindexPrev mnList blockSubsidy feeReward gov scriptPubKey}

variable (status env time) in
theorem fillBlockPayments_eq (h : BlockRewards mnList blockSubsidy feeReward)
    (hfit : ProductsFit p.payments pindexPrev mnList blockSubsidy feeReward) (gov : TriggerState)
    (txNew : CTransaction) (scriptPubKey : List UInt8)
    (hvout : txNew.vout = [⟨blockSubsidy+feeReward, scriptPubKey⟩]) :
    fillBlockPayments p status env time pindexPrev mnList blockSubsidy feeReward gov txNew =
      some
        (templateCoinbase p status env pindexPrev mnList blockSubsidy feeReward gov scriptPubKey
          txNew, updated p status env time gov (pindexPrev.nHeight+1)) := by
  obtain ⟨htriggered, hsame⟩ := gov.isSuperblockTriggered_spec env p.nGovernanceMinQuorum
    p.superblocks time (pindexPrev.nHeight+1)
  have houts := getBlockTxOuts_eq h hfit
  have hnonneg : ∀ txout ∈ expectedOutputs p.payments pindexPrev mnList blockSubsidy feeReward,
      0 ≤ txout.nValue := expectedOutputs_nonneg h
  have hsub := subtractPayments_eq hnonneg (sum_expectedOutputs_le h) h.blockValue_le scriptPubKey
  obtain ⟨triggered, hpays, hlooked⟩ : ∃ triggered : Bool,
      (triggered = true ↔ PaysSuperblock p status env gov (pindexPrev.nHeight+1)) ∧
      (if status.areSuperblocksEnabled then
        gov.isSuperblockTriggered env p.nGovernanceMinQuorum p.superblocks time
          (pindexPrev.nHeight+1)
      else (false, gov)) =
        (triggered, updated p status env time gov (pindexPrev.nHeight+1)) := by
    unfold PaysSuperblock updated
    rcases status.areSuperblocksEnabled with _ | _
    · exact ⟨false, by simp, rfl⟩
    · exact ⟨_, htriggered.trans (by simp), rfl⟩
  have hsuper : (if triggered then (updated p status env time gov
      (pindexPrev.nHeight+1)).getSuperblockPayments env p.superblocks (pindexPrev.nHeight+1)
      else []) = superblockOutputs p status env gov (pindexPrev.nHeight+1) := by
    unfold superblockOutputs TriggerState.getSuperblockPayments
    by_cases hsome : PaysSuperblock p status env gov (pindexPrev.nHeight+1)
    · rw [if_pos hsome, if_pos (hpays.mpr hsome), TriggerState.getBestSuperblock_eq,
        if_pos hsome.2.1, (sameTriggers_updated p status env time gov _).bestTrigger_eq]
    · rw [if_neg hsome, if_neg fun h => hsome (hpays.mp h)]
  unfold fillBlockPayments getMasternodeTxOuts
  simp only [hlooked, houts, hvout, Option.bind_eq_bind, Option.bind_some, hsuper,
    List.cons_append, List.nil_append, hsub]
  rfl

theorem superblockOutputs_of_not {gov : TriggerState} {nBlockHeight : ℤ}
    (h : ¬PaysSuperblock p status env gov nBlockHeight) :
    superblockOutputs p status env gov nBlockHeight = [] := if_neg h

theorem superblockOutputs_of_best {gov : TriggerState} {nBlockHeight : ℤ} {best : CSuperblock}
    (h : PaysSuperblock p status env gov nBlockHeight)
    (hbest : gov.bestTrigger env nBlockHeight = some best) :
    superblockOutputs p status env gov nBlockHeight = best.outputs := by
  rw [superblockOutputs, if_pos h, hbest]
  rfl

theorem superblockOutputs_nonneg (gov : TriggerState) (nBlockHeight : ℤ) :
    ∀ txout ∈ superblockOutputs p status env gov nBlockHeight, 0 ≤ txout.nValue := by
  intro txout htxout
  unfold superblockOutputs at htxout
  split_ifs at htxout
  · rcases hbest : gov.bestTrigger env nBlockHeight with _ | best
    · rw [hbest] at htxout
      cases htxout
    · rw [hbest] at htxout
      exact best.value_nonneg txout htxout
  · cases htxout

section Templates

variable (h : BlockRewards mnList blockSubsidy feeReward) (gov : TriggerState)
  (scriptPubKey : List UInt8)
include h

theorem templateOutputs_nonneg :
    ∀ txout ∈ templateOutputs p status env pindexPrev mnList blockSubsidy feeReward gov
      scriptPubKey, 0 ≤ txout.nValue := by
  refine List.forall_mem_cons.mpr ⟨sub_nonneg.mpr (sum_expectedOutputs_le h), ?_⟩
  intro txout htxout
  rcases List.mem_append.mp htxout with hmem | hmem
  · exact expectedOutputs_nonneg h txout hmem
  · exact superblockOutputs_nonneg gov _ txout hmem

variable (p status env pindexPrev) in
/-- The masternode is paid out of the reward, and the superblock on top of it. -/
theorem getValueOut_templateOutputs (nValueOut : ℤ) :
    getValueOut (templateOutputs p status env pindexPrev mnList blockSubsidy feeReward gov
        scriptPubKey) 0 = some nValueOut ↔
      nValueOut = blockSubsidy+feeReward+((superblockOutputs p status env gov
        (pindexPrev.nHeight+1)).map CTxOut.nValue).sum ∧ nValueOut ≤ MAX_MONEY := by
  have hsum : ((templateOutputs p status env pindexPrev mnList blockSubsidy feeReward gov
      scriptPubKey).map CTxOut.nValue).sum = blockSubsidy+feeReward+((superblockOutputs p status env
        gov (pindexPrev.nHeight+1)).map CTxOut.nValue).sum := by
    simp only [templateOutputs, List.map_cons, List.map_append, List.sum_cons, List.sum_append]
    omega
  rw [Governance.getValueOut_eq_some_iff le_rfl (by decide), hsum, zero_add]
  exact and_iff_right (templateOutputs_nonneg h gov scriptPubKey)

variable (status env) in
/-- The template makes the payments of a masternode that are checked. -/
theorem isTransactionValid_template
    (hfit : ProductsFit p.payments pindexPrev mnList blockSubsidy feeReward) (txNew : CTransaction) :
    isTransactionValid p.payments pindexPrev mnList blockSubsidy feeReward
      (templateCoinbase p status env pindexPrev mnList blockSubsidy feeReward gov scriptPubKey
        txNew) = some true := by
  rw [isTransactionValid_iff (getBlockTxOuts_eq h hfit)]
  intro _ _ txout htxout
  exact List.mem_cons_of_mem _ (List.mem_append_left _ htxout)

/-- The template is accepted for the superblock that it pays just when the payments are within
the limits. -/
theorem accepts_template_iff (txNew : CTransaction) {best : CSuperblock}
    (hpays : PaysSuperblock p status env gov (pindexPrev.nHeight+1))
    (hbest : gov.bestTrigger env (pindexPrev.nHeight+1) = some best) :
    Accepts network fuel p.superblocks best
        (templateCoinbase p status env pindexPrev mnList blockSubsidy feeReward gov scriptPubKey
          txNew) (pindexPrev.nHeight+1) (blockSubsidy+feeReward) ↔
      (∃ nPaymentsLimit,
        getPaymentsLimit network fuel p.superblocks (pindexPrev.nHeight+1) = some nPaymentsLimit ∧
          best.total ≤ nPaymentsLimit) ∧
        blockSubsidy+feeReward+best.total ≤ MAX_MONEY := by
  have houts := superblockOutputs_of_best hpays hbest
  have hvalue := getValueOut_templateOutputs p status env pindexPrev h gov scriptPubKey
    (blockSubsidy+feeReward+best.total)
  rw [houts, best.sum_outputs, eq_self_iff_true, true_and] at hvalue
  have hbig : MAX_MONEY = 100000000000000000 := by decide
  have hsub := h.blockSubsidy_nonneg
  have hfee := h.feeReward_nonneg
  have htotal := best.total_nonneg
  constructor
  · intro haccepts
    refine ⟨haccepts.limit, ?_⟩
    obtain ⟨nBlockValue, hsome, -⟩ := haccepts.value
    have := (getValueOut_templateOutputs p status env pindexPrev h gov scriptPubKey _).mp hsome
    rw [houts, best.sum_outputs] at this
    omega
  · rintro ⟨hlimit, hmax⟩
    have hsublist : best.outputs.Sublist (templateOutputs p status env pindexPrev mnList
        blockSubsidy feeReward gov scriptPubKey) := by
      rw [templateOutputs, houts]
      exact (List.sublist_append_right _ _).cons _
    refine ⟨hpays.2.1, ?_, ?_, hlimit, ?_, ⟨_, hvalue.mpr hmax, le_rfl⟩,
      best.merged_sublist.trans hsublist⟩
    · rw [← best.length_outputs]
      exact hsublist.length_le
    · exact inRange_of_between (by omega) (by rw [intMax_64]; omega)
    · exact inRange_of_between (by omega) (by rw [intMax_64]; omega)

end Templates

/-! ### Agreement -/

variable (p status env network pindexPrev mnList blockSubsidy feeReward) in
/-- The coinbase of a template is filled at any time, has no negative output, and passes both
checks, whenever they are made. -/
def TemplatePasses (gov : TriggerState) (txNew : CTransaction) : Prop :=
  ∀ timeFill timeValue timePayee, ∃ coinbase govFill,
    fillBlockPayments p status env timeFill pindexPrev mnList blockSubsidy feeReward gov txNew =
      some (coinbase, govFill) ∧
    (∀ txout ∈ coinbase.vout, 0 ≤ txout.nValue) ∧
    ∃ fuel govValue govPayee,
      isBlockValueValid p status env network fuel timeValue govFill coinbase
        (pindexPrev.nHeight+1) (blockSubsidy+feeReward) true = some (.ok (), govValue) ∧
      isBlockPayeeValid p status env network fuel timePayee pindexPrev mnList blockSubsidy feeReward
        govValue coinbase true = some (true, govPayee)

variable (p status env network) in
/-- The payments limit of the height can be computed, is not negative and fits on top of the
reward, and where a superblock is triggered there is a best trigger, with payments within the
limit and, with the reward, within `MAX_MONEY`. -/
def WithinLimit (gov : TriggerState) (nBlockHeight blockReward : ℤ) : Prop :=
  ∃ fuel nPaymentsLimit,
    getPaymentsLimit network fuel p.superblocks nBlockHeight = some nPaymentsLimit ∧
      0 ≤ nPaymentsLimit ∧ InRange 64 (blockReward+nPaymentsLimit) ∧
      (PaysSuperblock p status env gov nBlockHeight →
        ∃ best, gov.bestTrigger env nBlockHeight = some best ∧ best.total ≤ nPaymentsLimit ∧
          blockReward+best.total ≤ MAX_MONEY)

theorem not_pays_of_not_valid {gov : TriggerState} {nBlockHeight : ℤ}
    (hheight : isValidBlockHeight p.superblocks nBlockHeight = false) :
    ¬PaysSuperblock p status env gov nBlockHeight := by
  rintro ⟨-, hvalid, -⟩
  rw [hheight] at hvalid
  cases hvalid

/-- Where there is no superblock, the template passes. -/
theorem value_template_regular (h : BlockRewards mnList blockSubsidy feeReward)
    (hsynced : status.isSynced = true) (gov gov' : TriggerState) (txNew : CTransaction)
    (scriptPubKey : List UInt8)
    (hheight : isValidBlockHeight p.superblocks (pindexPrev.nHeight+1) = false) :
    isBlockValueValid p status env network fuel time gov' (templateCoinbase p status env pindexPrev
        mnList blockSubsidy feeReward gov scriptPubKey txNew) (pindexPrev.nHeight+1)
        (blockSubsidy+feeReward) true = some (.ok (), gov') := by
  have hreward : InRange 64 (blockSubsidy+feeReward) := (checked_eq_some_iff.mp h.blockValue_eq).1
  have hvalue := (getValueOut_templateOutputs p status env pindexPrev h gov scriptPubKey
    (blockSubsidy+feeReward)).mpr
      ⟨by rw [superblockOutputs_of_not (not_pays_of_not_valid hheight)]; simp, h.blockValue_le⟩
  exact (isBlockValueValid_regular hsynced hreward hheight true gov').mpr ⟨rfl, _, hvalue, le_rfl⟩

variable (fuel time) in
/-- At the height of a superblock it passes within the limits, and only there. -/
theorem value_template_superblock (h : BlockRewards mnList blockSubsidy feeReward)
    (hsynced : status.isSynced = true) (hvalid : status.isGovernanceValid = true)
    {gov gov' : TriggerState}
    (hsame : TriggerState.SameTriggers env p.nGovernanceMinQuorum gov gov') (txNew : CTransaction)
    (scriptPubKey : List UInt8)
    (hheight : isValidBlockHeight p.superblocks (pindexPrev.nHeight+1) = true)
    (govValue : TriggerState) :
    isBlockValueValid p status env network fuel time gov' (templateCoinbase p status env pindexPrev
        mnList blockSubsidy feeReward gov scriptPubKey txNew) (pindexPrev.nHeight+1)
        (blockSubsidy+feeReward) true = some (.ok (), govValue) ↔
      govValue = updated p status env time gov' (pindexPrev.nHeight+1) ∧ ∃ nPaymentsLimit,
        getPaymentsLimit network fuel p.superblocks (pindexPrev.nHeight+1) = some nPaymentsLimit ∧
          0 ≤ nPaymentsLimit ∧ InRange 64 (blockSubsidy+feeReward+nPaymentsLimit) ∧
          (PaysSuperblock p status env gov (pindexPrev.nHeight+1) →
            ∃ best, gov.bestTrigger env (pindexPrev.nHeight+1) = some best ∧
              best.total ≤ nPaymentsLimit ∧ blockSubsidy+feeReward+best.total ≤ MAX_MONEY) := by
  have hmax := h.blockValue_le
  rw [isBlockValueValid_superblock hsynced hvalid hheight]
  refine and_congr_right fun _ => ⟨?_, ?_⟩
  · rintro ⟨nValueOut, nPaymentsLimit, haccepted⟩
    obtain ⟨hvalue, -⟩ := (getValueOut_templateOutputs p status env pindexPrev h gov
      scriptPubKey _).mp haccepted.value
    have hsum : 0 ≤ ((superblockOutputs p status env gov
        (pindexPrev.nHeight+1)).map CTxOut.nValue).sum := by
      apply List.sum_nonneg
      simpa using superblockOutputs_nonneg gov (pindexPrev.nHeight+1)
    have hle := haccepted.value_le
    refine ⟨nPaymentsLimit, haccepted.limit, by omega, haccepted.fits, ?_⟩
    intro hpays
    obtain ⟨best, hbest, haccepts⟩ :=
      (AcceptsBest.congr hsame).mp (haccepted.superblock ((PaysSuperblock.congr hsame).mpr hpays))
    obtain ⟨⟨_, hlimit, htotal⟩, hmoney⟩ :=
      (accepts_template_iff h gov scriptPubKey txNew hpays hbest).mp haccepts
    obtain rfl := Option.some.inj (hlimit.symm.trans haccepted.limit)
    exact ⟨best, hbest, htotal, hmoney⟩
  · rintro ⟨nPaymentsLimit, hlimit, h0, hfits, hbest⟩
    by_cases hpays : PaysSuperblock p status env gov (pindexPrev.nHeight+1)
    · obtain ⟨best, hbest, htotal, hmoney⟩ := hbest hpays
      have hvalue := (getValueOut_templateOutputs p status env pindexPrev h gov scriptPubKey
        (blockSubsidy+feeReward+best.total)).mpr
          ⟨by rw [superblockOutputs_of_best hpays hbest, best.sum_outputs], hmoney⟩
      have haccepts := (accepts_template_iff h gov scriptPubKey txNew hpays hbest).mpr
        ⟨⟨nPaymentsLimit, hlimit, htotal⟩, hmoney⟩
      exact ⟨_, nPaymentsLimit, hvalue, hlimit, hfits, by omega,
        fun _ => (AcceptsBest.congr hsame).mpr ⟨best, hbest, haccepts⟩,
        fun hno => absurd ((PaysSuperblock.congr hsame).mpr hpays) hno⟩
    · have hvalue := (getValueOut_templateOutputs p status env pindexPrev h gov scriptPubKey
        (blockSubsidy+feeReward)).mpr
          ⟨by rw [superblockOutputs_of_not hpays]; simp, hmax⟩
      exact ⟨_, nPaymentsLimit, hvalue, hlimit, hfits, by omega,
        fun hyes => absurd ((PaysSuperblock.congr hsame).mp hyes) hpays, fun _ => le_rfl⟩

section Main

variable (h : BlockRewards mnList blockSubsidy feeReward) (hsynced : status.isSynced = true)
  (hvalid : status.isGovernanceValid = true) (gov : TriggerState) (txNew : CTransaction)
  (scriptPubKey : List UInt8) (hvout : txNew.vout = [⟨blockSubsidy+feeReward, scriptPubKey⟩])
include h hsynced hvalid hvout

theorem withinLimit_of_passes (hpasses : TemplatePasses p status env network pindexPrev mnList
      blockSubsidy feeReward gov txNew) :
    ProductsFit p.payments pindexPrev mnList blockSubsidy feeReward ∧
      (isValidBlockHeight p.superblocks (pindexPrev.nHeight+1) = true →
        WithinLimit p status env network gov (pindexPrev.nHeight+1) (blockSubsidy+feeReward)) := by
  obtain ⟨coinbase, govFill, hfill, -, fuel, govValue, govPayee, hvalue, -⟩ := hpasses 0 0 0
  have hfit : ProductsFit p.payments pindexPrev mnList blockSubsidy feeReward := by
    by_contra hover
    simp [fillBlockPayments, getMasternodeTxOuts, getBlockTxOuts_eq_none h hover] at hfill
  refine ⟨hfit, fun hheight => ?_⟩
  rw [fillBlockPayments_eq status env 0 h hfit gov txNew scriptPubKey hvout] at hfill
  obtain ⟨rfl, rfl⟩ := Prod.mk.inj (Option.some.inj hfill)
  have hsame := sameTriggers_updated p status env 0 gov (pindexPrev.nHeight+1)
  exact ⟨fuel, ((value_template_superblock fuel 0 h hsynced hvalid hsame txNew scriptPubKey hheight
    govValue).mp hvalue).2⟩

theorem passes_of_withinLimit
    (hfit : ProductsFit p.payments pindexPrev mnList blockSubsidy feeReward)
    (hlimit : isValidBlockHeight p.superblocks (pindexPrev.nHeight+1) = true →
      WithinLimit p status env network gov (pindexPrev.nHeight+1) (blockSubsidy+feeReward)) :
    TemplatePasses p status env network pindexPrev mnList blockSubsidy feeReward gov txNew := by
  intro timeFill timeValue timePayee
  have hreward : InRange 64 (blockSubsidy+feeReward) := (checked_eq_some_iff.mp h.blockValue_eq).1
  have hsame (time : ℤ) (gov : TriggerState) :=
    sameTriggers_updated p status env time gov (pindexPrev.nHeight+1)
  have hpaid := isTransactionValid_template status env h gov scriptPubKey hfit txNew
  have hfill := fillBlockPayments_eq status env timeFill h hfit gov txNew scriptPubKey hvout
  refine ⟨_, _, hfill, templateOutputs_nonneg h gov scriptPubKey, ?_⟩
  rcases hheight : isValidBlockHeight p.superblocks (pindexPrev.nHeight+1) with _ | _
  · refine ⟨0, _, _, value_template_regular h hsynced gov _ txNew scriptPubKey hheight,
      (isBlockPayeeValid_iff hsynced hvalid hreward _).mpr ⟨rfl, hpaid, ?_⟩⟩
    exact fun hpays => absurd hpays (not_pays_of_not_valid hheight)
  · obtain ⟨fuel, nPaymentsLimit, hsome, h0, hfits, hbest⟩ := hlimit hheight
    have hvalue := (value_template_superblock fuel timeValue h hsynced hvalid
      (hsame timeFill gov) txNew scriptPubKey hheight _).mpr
        ⟨rfl, nPaymentsLimit, hsome, h0, hfits, hbest⟩
    refine ⟨fuel, _, _, hvalue,
      (isBlockPayeeValid_iff hsynced hvalid hreward _).mpr ⟨rfl, hpaid, ?_⟩⟩
    have hboth := (hsame timeFill gov).trans
      (hsame timeValue (updated p status env timeFill gov (pindexPrev.nHeight+1)))
    intro hpays
    have hpays := (PaysSuperblock.congr hboth).mp hpays
    obtain ⟨best, hbest, htotal, hmoney⟩ := hbest hpays
    exact (AcceptsBest.congr hboth).mpr ⟨best, hbest,
      (accepts_template_iff h gov scriptPubKey txNew hpays hbest).mpr
        ⟨⟨nPaymentsLimit, hsome, htotal⟩, hmoney⟩⟩

/-- A template passes just when no product of amounts overflows and, at the height of a
superblock, the payments are within the limits. -/
theorem template_passes_iff :
    TemplatePasses p status env network pindexPrev mnList blockSubsidy feeReward gov txNew ↔
      ProductsFit p.payments pindexPrev mnList blockSubsidy feeReward ∧
        (isValidBlockHeight p.superblocks (pindexPrev.nHeight+1) = true →
          WithinLimit p status env network gov (pindexPrev.nHeight+1) (blockSubsidy+feeReward)) :=
  ⟨withinLimit_of_passes h hsynced hvalid gov txNew scriptPubKey hvout,
    fun hboth => passes_of_withinLimit h hsynced hvalid gov txNew scriptPubKey hvout hboth.1
      hboth.2⟩

end Main

/-- Where a superblock is triggered whose payments pass the limit, no coinbase is accepted. -/
theorem stalls_over_limit (hsynced : status.isSynced = true)
    (hvalid : status.isGovernanceValid = true) {gov : TriggerState} {nBlockHeight : ℤ}
    (hpays : PaysSuperblock p status env gov nBlockHeight)
    (hover : ∀ fuel nPaymentsLimit best,
      getPaymentsLimit network fuel p.superblocks nBlockHeight = some nPaymentsLimit →
        gov.bestTrigger env nBlockHeight = some best → nPaymentsLimit < best.total)
    (coinbase : CTransaction) (blockReward : ℤ) (gov' : TriggerState) :
    isBlockValueValid p status env network fuel time gov coinbase nBlockHeight blockReward true ≠
      some (.ok (), gov') := by
  intro hok
  obtain ⟨-, nValueOut, nPaymentsLimit, haccepted⟩ :=
    (isBlockValueValid_superblock hsynced hvalid hpays.2.1 gov').mp hok
  obtain ⟨best, hbest, haccepts⟩ := haccepted.superblock hpays
  obtain ⟨nPaymentsLimit, hlimit, hle⟩ := haccepts.limit
  exact absurd hle (not_le.mpr (hover fuel nPaymentsLimit best hlimit hbest))

end Blocks

/-! ### A trigger over the limit -/

section Samples
open Governance (CGovernanceObject CGovernancePayment vote_rec_t sampleChecks sampleOutpoint
  halvingSuperblockParams mainSuperblockParams VOTE_OUTCOME_YES VOTE_SIGNAL_FUNDING)
open Std (ExtTreeMap)

/-- The payments of the main network. -/
def mainPaymentParams : PaymentParams where
  DIP0003Height := 1028160
  DIP0008Height := 1088640
  V20Height := 1987776
  MN_RRHeight := 2128896
  WithdrawalsHeight := 2201472
  v24ActiveAfter _ := false
  nMasternodePaymentsIncreaseBlock := 158000
  nMasternodePaymentsIncreasePeriod := 17280
  BRRHeight := 1374912
  nSuperblockCycle := 16616
  nCreditPoolPeriodBlocks := 576
  dip3_le_v20 := by decide
  dip8_le_v20 := by decide
  v20_le_v24 _ h := absurd h Bool.noConfusion
  v24_stays := v24_never
  DIP0003EnforcementHeight := 1047200
  cycle_pos := by decide
  increase_fits k h0 h9 := by
    unfold InRange
    omega
  realloc_fits := by decide
  cycles_fit := by decide

/-- The main network, with superblocks of its own. -/
def blockParams (superblocks : SuperblockParams) (nGovernanceMinQuorum : ℤ)
    (hcycle : 16616 = (superblocks.nSuperblockCycle : ℤ))
    (hv20 : 1987776 = (superblocks.V20Height : ℤ))
    (hbudgets : (superblocks.nBudgetPaymentsStartBlock : ℤ) < superblocks.nSuperblockStartBlock) :
    BlockPaymentParams where
  payments := mainPaymentParams
  superblocks := superblocks
  nBudgetPaymentsCycleBlocks := 16616
  nBudgetPaymentsWindowBlocks := 100
  nGovernanceMinQuorum := nGovernanceMinQuorum
  cycle_eq := hcycle
  v20_eq := hv20
  budget_cycle_pos := by decide
  budgets_first := hbudgets

def halvingBlockParams : BlockPaymentParams :=
  blockParams halvingSuperblockParams 1 (by decide) (by decide) (by decide)

def mainBlockParams : BlockPaymentParams :=
  blockParams mainSuperblockParams 10 (by decide) (by decide) (by decide)

/-- A trigger that pays twenty thousand coins. -/
def largeTrigger : CSuperblock :=
  Governance.repeatedTrigger 1 ['2', '0', '0', '0', '0'] 2000000000000 (by decide)

/-- The only masternode has voted for it. -/
def largeTriggers : TriggerState where
  mapObjects := (∅ : ExtTreeMap uint256 CGovernanceObject).insert 1
    { type := .TRIGGER
      mapCurrentMNVotes := (∅ : ExtTreeMap COutPoint vote_rec_t).insert sampleOutpoint
        ((∅ : vote_rec_t).insert VOTE_SIGNAL_FUNDING {eOutcome := VOTE_OUTCOME_YES}) }
  mapTrigger := (∅ : ExtTreeMap uint256 CSuperblock).insert 1 largeTrigger

def syncedStatus : NodeStatus := ⟨true, true, true⟩

theorem halving_limit {fuel : ℕ} {nPaymentsLimit : ℤ}
    (h : getPaymentsLimit .main fuel halvingSuperblockParams 1993920 = some nPaymentsLimit) :
    nPaymentsLimit = 1661600000000 := by
  cases fuel with
  | zero =>
    have hnone : getPaymentsLimit .main 0 halvingSuperblockParams 1993920 = none := by rfl
    rw [hnone] at h
    cases h
  | succ fuel =>
    have hsome : getPaymentsLimit .main (fuel+1) halvingSuperblockParams 1993920 =
        some 1661600000000 := by rfl
    exact (Option.some.inj (hsome.symm.trans h)).symm

theorem main_limit (fuel : ℕ) :
    getPaymentsLimit .main fuel mainSuperblockParams 1993920 = none := by
  have hnever : getSuperblockSubsidyInner .main fuel 1#32 1993919 mainParams true = none := by
    rw [getSuperblockSubsidyInner, getBlockSubsidyHelper,
      yearlyDecline_diverges (by decide) (by decide)]
    rfl
  have hunfold : getPaymentsLimit .main fuel mainSuperblockParams 1993920 =
      (getSuperblockSubsidyInner .main fuel 1#32 1993919 mainParams true).bind
        fun nSuperblockPartOfSubsidy => checked 64 (nSuperblockPartOfSubsidy*16616) := by rfl
  rw [hunfold, hnever, Option.bind_none]

theorem largeTriggers_pays :
    PaysSuperblock halvingBlockParams syncedStatus sampleChecks largeTriggers 1993920 :=
  ⟨rfl, (largeTriggers.isSuperblockTriggered_spec sampleChecks 1 halvingSuperblockParams 0
    1993920).1.mp (by decide +kernel)⟩

theorem largeTriggers_total {best : CSuperblock}
    (h : largeTriggers.bestTrigger sampleChecks 1993920 = some best) :
    best.total = 2000000000000 := by
  have hbest : (largeTriggers.getBestSuperblock sampleChecks halvingSuperblockParams
      1993920).map CSuperblock.total = some 2000000000000 := by decide +kernel
  rw [TriggerState.getBestSuperblock_eq, h, if_pos (by decide), Option.map_some] at hbest
  exact Option.some.inj hbest

def superblockTip : CBlockIndex where
  blockHash := 0
  nHeight := 1993919

def rewardTx : CTransaction := ⟨0, TRANSACTION_COINBASE, [], [⟨800000000, [0x51]⟩], []⟩

theorem reward_eight : BlockRewards (sampleList 2500) 800000000 0 :=
  ⟨by decide, by decide, by decide, sampleList_operator 2500 (by decide)⟩

/-- Without a trigger the template of a superblock height passes. -/
theorem template_passes_without_trigger :
    TemplatePasses halvingBlockParams syncedStatus sampleChecks .main superblockTip
      (sampleList 2500) 800000000 0 {} rewardTx := by
  apply (template_passes_iff reward_eight rfl rfl {} rewardTx [0x51] rfl).mpr
  refine ⟨⟨fun _ _ hearly => absurd hearly (by decide), fun _ => by decide, ?_⟩, fun _ =>
    ⟨1, 1661600000000, by rfl, by decide, by decide, ?_⟩⟩
  · intro dmn hpayee _
    obtain rfl := Option.some.inj ((sampleList_payee 2500 false).symm.trans hpayee)
    decide
  · rintro ⟨-, -, trigger, hmem, -⟩
    cases hmem

/-- A funded trigger over the payments limit has every coinbase refused, that of a template among
them; and on the main network the limit is never computed, so that nothing passes without any
trigger. -/
theorem large_trigger_stalls :
    (∀ fuel time coinbase blockReward gov', isBlockValueValid halvingBlockParams syncedStatus
      sampleChecks .main fuel time largeTriggers coinbase 1993920 blockReward true ≠
        some (.ok (), gov')) ∧
      ¬TemplatePasses halvingBlockParams syncedStatus sampleChecks .main superblockTip
        (sampleList 2500) 800000000 0 largeTriggers rewardTx ∧
      ¬TemplatePasses mainBlockParams syncedStatus sampleChecks .main superblockTip
        (sampleList 2500) 800000000 0 {} rewardTx := by
  refine ⟨?_, ?_, ?_⟩
  · intro fuel time coinbase blockReward gov'
    apply stalls_over_limit rfl rfl largeTriggers_pays
    intro fuel nPaymentsLimit best hlimit hbest
    rw [halving_limit hlimit, largeTriggers_total hbest]
    decide
  · intro hpasses
    obtain ⟨fuel, nPaymentsLimit, hlimit, -, -, hbest⟩ := (withinLimit_of_passes reward_eight rfl rfl
      largeTriggers rewardTx [0x51] rfl hpasses).2 (by decide)
    obtain ⟨best, hbest, hle, -⟩ := hbest largeTriggers_pays
    rw [halving_limit hlimit, largeTriggers_total hbest] at hle
    exact absurd hle (by decide)
  · intro hpasses
    obtain ⟨fuel, nPaymentsLimit, hlimit, -⟩ := (withinLimit_of_passes reward_eight rfl rfl
      {} rewardTx [0x51] rfl hpasses).2 (by decide)
    exact Option.some_ne_none _ (hlimit.symm.trans (main_limit fuel))

end Samples
end BabaChain.MNPayments
