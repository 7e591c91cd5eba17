import BabaChain.CreditPool
import BabaChain.ListBuilder

/-! What a coinbase has to pay to a masternode, and how the payment is split between the platform,
the owner and the operator. -/
namespace BabaChain.MNPayments
open MachineInt CreditPool
open Evo.ByValue (CDeterministicMN CDeterministicMNList)

/-- The parameters of the payments. The source keeps the heights of the schedules in an `int`,
where they fit, so only amounts can overflow. -/
structure PaymentParams extends ChainParams where
  DIP0003EnforcementHeight : ℤ
  cycle_pos : 0 < nSuperblockCycle
  increase_fits : ∀ k : ℤ, 0 ≤ k → k ≤ 9 →
    InRange 32 (nMasternodePaymentsIncreaseBlock+nMasternodePaymentsIncreasePeriod*k)
  realloc_fits : InRange 32 (BRRHeight-BRRHeight.tmod nSuperblockCycle+nSuperblockCycle)
  cycles_fit : InRange 32 (nSuperblockCycle*3)

/-- The steps of the increase: after so many periods the payment grows by one part in so many. -/
def increases : List (ℤ × ℤ) :=
  [(0, 20), (1, 20), (2, 20), (3, 40), (4, 40), (5, 40), (6, 40), (7, 40), (9, 40)]

/-- `v24_stays` of a network that never activates v24. -/
theorem v24_never (_block : CBlock) (_pprev : CBlockIndex) (h : false = true) : false = true := h

variable (p : PaymentParams)

/-- `ret` before the reallocation. -/
def increasedPayment (nHeight blockValue : ℤ) : ℤ :=
  increases.foldl
    (fun ret step =>
      if p.nMasternodePaymentsIncreaseBlock+p.nMasternodePaymentsIncreasePeriod*step.1 < nHeight then
        ret+blockValue.tdiv step.2
      else
        ret)
    (blockValue.tdiv 5)

/-- The actual reallocation starts in the cycle next to the one that the activation happens in. -/
def nReallocStart : ℤ := p.BRRHeight-p.BRRHeight.tmod p.nSuperblockCycle+p.nSuperblockCycle

def currentPeriod (nHeight : ℤ) : ℤ :=
  let nReallocCycle := p.nSuperblockCycle*3
  let nCurrentPeriod := min ((nHeight-nReallocStart p).tdiv nReallocCycle) (vecPeriods.length-1)
  vecPeriods.getD nCurrentPeriod.toNat 0

def getMasternodePayment (nHeight blockValue : ℤ) (fV20Active : Bool) : Option ℤ :=
  let ret := increasedPayment p nHeight blockValue
  if nHeight < p.BRRHeight then
    some ret
  else if nHeight < nReallocStart p then
    some ret
  else if fV20Active then
    (checked 64 (blockValue*3)).map (·.tdiv 4)
  else
    (checked 64 (blockValue*currentPeriod p nHeight)).map (·.tdiv 1000)

/-- `PlatformShare`. `none` is an overflow or the failing assertion. -/
def platformShare (reward : ℤ) : Option ℤ := do
  let platformReward ← (checked 64 (reward*375)).map (·.tdiv 1000)
  if moneyRange platformReward then some platformReward else none

variable {G : Type*}

/-- The operator's part of what the masternode gets. -/
def operatorReward (dmnPayee : CDeterministicMN G) (masternodeReward : ℤ) : Option ℤ :=
  if dmnPayee.nOperatorReward ≠ 0 ∧ dmnPayee.pdmnState.scriptOperatorPayout ≠ [] then
    (checked 64 (masternodeReward*dmnPayee.nOperatorReward.toNat)).map (·.tdiv 10000)
  else
    some 0

/-- The outputs of the owner and the operator, where they get something. -/
def payeeOutputs (dmnPayee : CDeterministicMN G) (masternodeReward operatorReward : ℤ) :
    List CTxOut :=
  (if 0 < masternodeReward then [⟨masternodeReward, dmnPayee.pdmnState.scriptPayout⟩] else []) ++
    if 0 < operatorReward then [⟨operatorReward, dmnPayee.pdmnState.scriptOperatorPayout⟩] else []

section Blocks

variable (pindexPrev : Evo.ByValue.CBlockIndex) (mnList : CDeterministicMNList G)
  (blockSubsidy feeReward : ℤ)

def fV20Active : Bool := decide (p.V20Height ≤ pindexPrev.nHeight+1)

/-- The masternode's reward less the platform's, and the output of the platform. -/
def reallocate (masternodeReward : ℤ) : Option (ℤ × List CTxOut) :=
  if fV20Active p pindexPrev && pindexPrev.isMNRewardReallocation then do
    let masternodeSubsidyReward ←
      getMasternodePayment p (pindexPrev.nHeight+1) blockSubsidy (fV20Active p pindexPrev)
    let platformReward ← platformShare masternodeSubsidyReward
    let masternodeReward ← checked 64 (masternodeReward-platformReward)
    if moneyRange masternodeReward then
      some (masternodeReward, [⟨platformReward, [OP_RETURN]⟩])
    else
      none
  else
    some (masternodeReward, [])

/-- `GetBlockTxOuts`: what it returns and the outputs. `none` is an overflow or a failing
assertion. -/
def getBlockTxOuts : Option (Bool × List CTxOut) := do
  let blockValue ← checked 64 (blockSubsidy+feeReward)
  let masternodeReward ←
    getMasternodePayment p (pindexPrev.nHeight+1) blockValue (fV20Active p pindexPrev)
  let (masternodeReward, vout) ← reallocate p pindexPrev blockSubsidy masternodeReward
  if mnList.mnMap.isEmpty then
    return (true, vout)
  match mnList.getMNPayee pindexPrev with
  | none => return (false, vout)
  | some dmnPayee =>
    let operatorReward ← operatorReward dmnPayee masternodeReward
    let masternodeReward ← checked 64 (masternodeReward-operatorReward)
    return (true, vout ++ payeeOutputs dmnPayee masternodeReward operatorReward)

/-- `GetMasternodeTxOuts`, which only adds lines to the log. -/
def getMasternodeTxOuts : Option (Bool × List CTxOut) :=
  getBlockTxOuts p pindexPrev mnList blockSubsidy feeReward

/-- `CMNPaymentsProcessor::IsTransactionValid`. -/
def isTransactionValid (txNew : CTransaction) : Option Bool :=
  if pindexPrev.nHeight+1 < p.DIP0003EnforcementHeight then
    some true
  else do
    let (found, voutMasternodePayments) ← getBlockTxOuts p pindexPrev mnList blockSubsidy feeReward
    if !found then
      return true
    return voutMasternodePayments.all fun txout => txNew.vout.any (txout == ·)

end Blocks
end BabaChain.MNPayments
