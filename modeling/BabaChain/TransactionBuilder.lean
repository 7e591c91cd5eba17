import BabaChain.CoinJoin
import BabaChain.Lib.Checked

/-! The builder of the transactions with which a wallet splits what it has, and the fees that it
estimates for them. -/
namespace BabaChain.CoinJoin
open Checked

/-- What the builder can run into: a product outside of `int64_t`, an output that was not added, or
an assertion. -/
inductive Fault
  | overflow
  | nullPointer
  | assertion
deriving DecidableEq

/-! ### Fees -/

/-- A rate. What is parsed for one is never negative. -/
structure CFeeRate where
  nSatoshisPerK : ℕ
deriving DecidableEq

namespace CFeeRate

def Fits (rate : CFeeRate) (num_bytes : ℕ) : Prop := rate.nSatoshisPerK*num_bytes < 2^63

instance (rate : CFeeRate) (num_bytes : ℕ) : Decidable (rate.Fits num_bytes) :=
  inferInstanceAs (Decidable (_ < _))

def fee (rate : CFeeRate) (num_bytes : ℕ) : ℕ :=
  let nFee := rate.nSatoshisPerK*num_bytes/1000
  if nFee = 0 ∧ num_bytes ≠ 0 ∧ 0 < rate.nSatoshisPerK then 1 else nFee

def getFee (rate : CFeeRate) (num_bytes : ℕ) : Except Fault ℕ :=
  if rate.Fits num_bytes then .ok (rate.fee num_bytes) else .error .overflow

theorem fee_mono (rate : CFeeRate) {m n : ℕ} (h : m ≤ n) : rate.fee m ≤ rate.fee n := by
  have hproduct : rate.nSatoshisPerK*m/1000 ≤ rate.nSatoshisPerK*n/1000 :=
    Nat.div_le_div_right (Nat.mul_le_mul_left _ h)
  unfold fee
  dsimp only
  split_ifs with hm hn
  · exact le_rfl
  · omega
  · omega
  · exact hproduct

theorem fee_mono_rate {rate rate' : CFeeRate} (h : rate.nSatoshisPerK ≤ rate'.nSatoshisPerK)
    (n : ℕ) : rate.fee n ≤ rate'.fee n := by
  have hproduct : rate.nSatoshisPerK*n/1000 ≤ rate'.nSatoshisPerK*n/1000 :=
    Nat.div_le_div_right (Nat.mul_le_mul_right _ h)
  unfold fee
  dsimp only
  split_ifs with hrate hrate'
  · exact le_rfl
  · omega
  · omega
  · exact hproduct

theorem Fits.mono {rate : CFeeRate} {m n : ℕ} (h : rate.Fits n) (hmn : m ≤ n) : rate.Fits m :=
  lt_of_le_of_lt (Nat.mul_le_mul_left _ hmn) h

theorem Fits.mono_rate {rate rate' : CFeeRate} {n : ℕ} (h : rate'.Fits n)
    (hrate : rate.nSatoshisPerK ≤ rate'.nSatoshisPerK) : rate.Fits n :=
  lt_of_le_of_lt (Nat.mul_le_mul_right _ hrate) h

end CFeeRate

/-- What the wallet is configured with, as far as fees depend on it. -/
structure FeeSettings where
  requiredFeeRate : CFeeRate
  m_pay_tx_fee : CFeeRate
  m_default_max_tx_fee : ℕ
  discardRate : CFeeRate
deriving DecidableEq

namespace FeeSettings
variable (w : FeeSettings)

def m_feerate : CFeeRate :=
  if w.requiredFeeRate.nSatoshisPerK < w.m_pay_tx_fee.nSatoshisPerK then w.m_pay_tx_fee
  else w.requiredFeeRate

/-- `CTransactionBuilder::GetFee`. -/
def getFee (nBytes : ℕ) : Except Fault ℕ := do
  let nFeeCalc ← w.m_feerate.getFee nBytes
  let nRequiredFee ← w.requiredFeeRate.getFee nBytes
  let nFeeCalc := if nFeeCalc < nRequiredFee then nRequiredFee else nFeeCalc
  return if w.m_default_max_tx_fee < nFeeCalc then w.m_default_max_tx_fee else nFeeCalc

def fee (nBytes : ℕ) : ℕ := min (w.m_feerate.fee nBytes) w.m_default_max_tx_fee

theorem required_le : w.requiredFeeRate.nSatoshisPerK ≤ w.m_feerate.nSatoshisPerK := by
  unfold m_feerate
  split_ifs with h
  · exact h.le
  · exact le_rfl

theorem getFee_eq {nBytes : ℕ} (h : w.m_feerate.Fits nBytes) :
    w.getFee nBytes = .ok (w.fee nBytes) := by
  have hfee := CFeeRate.fee_mono_rate w.required_le nBytes
  unfold getFee CFeeRate.getFee
  rw [if_pos h, if_pos (h.mono_rate w.required_le), ok_bind, ok_bind, if_neg (by omega)]
  refine congrArg Except.ok ?_
  unfold fee
  split_ifs with hmax
  · omega
  · omega

theorem getFee_error {nBytes : ℕ} (h : ¬w.m_feerate.Fits nBytes) :
    w.getFee nBytes = .error .overflow := by
  unfold getFee CFeeRate.getFee
  rw [if_neg h]
  rfl

theorem fee_mono {m n : ℕ} (h : m ≤ n) : w.fee m ≤ w.fee n :=
  min_le_min_right _ (w.m_feerate.fee_mono h)

end FeeSettings

/-! ### The builder -/

def getSizeOfCompactSize (nSize : ℕ) : ℕ :=
  if nSize < 253 then 1 else if nSize ≤ 0xFFFF then 3 else if nSize ≤ 0xFFFFFFFF then 5 else 9

theorem getSizeOfCompactSize_mono {m n : ℕ} (h : m ≤ n) :
    getSizeOfCompactSize m ≤ getSizeOfCompactSize n := by
  unfold getSizeOfCompactSize
  split_ifs <;> omega

/-- The size of an output, where the script of the key of the wallet has 25 bytes. -/
def nBytesOutput : ℕ := 8+getSizeOfCompactSize 25+25

/-- What the wallet has at one address. -/
structure CompactTallyItem where
  txdest : CScript
  nAmount : ℤ
  outpoints : List COutPoint
deriving DecidableEq

/-- A transaction that spends all of a tally item, with the outputs that it has so far. -/
structure CTransactionBuilder where
  wallet : FeeSettings
  tallyItem : CompactTallyItem
  nBytesBase : ℕ
  vecOutputs : List ℤ := []
deriving DecidableEq

namespace CTransactionBuilder
variable (b : CTransactionBuilder)

def getSizeOfCompactSizeDiff (nAdd : ℕ) : ℕ :=
  getSizeOfCompactSize (b.vecOutputs.length+nAdd)-getSizeOfCompactSize b.vecOutputs.length

def getBytesTotal : ℕ :=
  b.nBytesBase+b.vecOutputs.length*nBytesOutput+
    (getSizeOfCompactSize b.vecOutputs.length-getSizeOfCompactSize 0)

def getAmountUsed : ℤ := b.vecOutputs.sum

def getAmountLeft : Except Fault ℤ := do
  let nFee ← b.wallet.getFee b.getBytesTotal
  return b.tallyItem.nAmount-b.getAmountUsed-nFee

def couldAddOutputs (vecOutputAmounts : List ℤ) : Except Fault Bool :=
  if vecOutputAmounts.any fun nAmountOutput => decide (nAmountOutput < 0) then .ok false
  else do
    let nBytes := b.getBytesTotal+nBytesOutput*vecOutputAmounts.length+
      b.getSizeOfCompactSizeDiff vecOutputAmounts.length
    let nFee ← b.wallet.getFee nBytes
    return decide (0 ≤ b.tallyItem.nAmount-(b.getAmountUsed+vecOutputAmounts.sum)-nFee)

def couldAddOutput (nAmountOutput : ℤ) : Except Fault Bool := b.couldAddOutputs [nAmountOutput]

/-- The index of the new output stands for the pointer to it. -/
def addOutput (nAmountOutput : ℤ) : Except Fault (CTransactionBuilder × Option ℕ) := do
  if ← b.couldAddOutput nAmountOutput then
    return ({ b with vecOutputs := b.vecOutputs ++ [nAmountOutput] }, some b.vecOutputs.length)
  else return (b, none)

/-- `CTransactionBuilderOutput::UpdateAmount`, for a pointer to an output. -/
def updateAmount (out : Option ℕ) (nNewAmount : ℤ) : Except Fault CTransactionBuilder :=
  match out with
  | none => .error .nullPointer
  | some i =>
    if nNewAmount ≤ 0 then .ok b
    else do
      let nAmountLeft ← b.getAmountLeft
      if nAmountLeft < nNewAmount-b.vecOutputs.getD i 0 then return b
      else return { b with vecOutputs := b.vecOutputs.set i nNewAmount }

/-- The size of an output to the address of the tally item, with the input that spends it. -/
def nSizeSpent : ℕ :=
  8+getSizeOfCompactSize b.tallyItem.txdest.length+b.tallyItem.txdest.length+148

def getDustThreshold : Except Fault ℕ :=
  if isUnspendable b.tallyItem.txdest then .ok 0 else b.wallet.discardRate.getFee b.nSizeSpent

def isDust (nAmount : ℤ) : Except Fault Bool := do
  let nThreshold ← b.getDustThreshold
  return decide (nAmount < nThreshold)

/-- The fee that `Commit` expects of the transaction: what is left goes into it if it is dust, and
into one more output if not. -/
def nFeeCalc : Except Fault ℤ := do
  let nAmountLeft ← b.getAmountLeft
  if ← b.isDust nAmountLeft then
    let nFee ← b.wallet.getFee b.getBytesTotal
    return nFee+nAmountLeft
  else
    let nFee ← b.wallet.getFee (b.getBytesTotal+nBytesOutput+b.getSizeOfCompactSizeDiff 1)
    return nFee

/-! ### What its functions compute -/

def withOutputs (vecOutputs : List ℤ) : CTransactionBuilder := { b with vecOutputs }

/-- The size of the transaction with a number of outputs. -/
def bytesWith (k : ℕ) : ℕ :=
  b.nBytesBase+nBytesOutput*k+(getSizeOfCompactSize k-getSizeOfCompactSize 0)

def outputsFee (k : ℕ) : ℕ := b.wallet.fee (b.bytesWith k)

def OutputsFit (k : ℕ) : Prop := b.wallet.m_feerate.Fits (b.bytesWith k)

instance (k : ℕ) : Decidable (b.OutputsFit k) := inferInstanceAs (Decidable (CFeeRate.Fits _ _))

/-- What is left with some outputs. -/
def room (vecOutputs : List ℤ) : ℤ :=
  b.tallyItem.nAmount-vecOutputs.sum-b.outputsFee vecOutputs.length

variable {b} {l vecOutputAmounts : List ℤ} {nAmountOutput nNewAmount : ℤ}

theorem bytesWith_mono {k k' : ℕ} (h : k ≤ k') : b.bytesWith k ≤ b.bytesWith k' :=
  Nat.add_le_add (Nat.add_le_add_left (Nat.mul_le_mul_left _ h) _)
    (Nat.sub_le_sub_right (getSizeOfCompactSize_mono h) _)

theorem outputsFee_mono {k k' : ℕ} (h : k ≤ k') : b.outputsFee k ≤ b.outputsFee k' :=
  b.wallet.fee_mono (bytesWith_mono h)

theorem OutputsFit.mono {k k' : ℕ} (h : b.OutputsFit k') (hk : k ≤ k') : b.OutputsFit k :=
  CFeeRate.Fits.mono h (bytesWith_mono hk)

theorem bytes_eq (nAdd : ℕ) :
    (b.withOutputs l).getBytesTotal+nBytesOutput*nAdd+
      (b.withOutputs l).getSizeOfCompactSizeDiff nAdd = b.bytesWith (l.length+nAdd) := by
  have hzero : getSizeOfCompactSize 0 ≤ getSizeOfCompactSize l.length :=
    getSizeOfCompactSize_mono l.length.zero_le
  have hadd : getSizeOfCompactSize l.length ≤ getSizeOfCompactSize (l.length+nAdd) :=
    getSizeOfCompactSize_mono (by omega)
  have hsize : nBytesOutput*(l.length+nAdd) = l.length*nBytesOutput+nBytesOutput*nAdd := by ring
  dsimp only [getBytesTotal, getSizeOfCompactSizeDiff, withOutputs, bytesWith]
  omega

theorem getBytesTotal_eq : (b.withOutputs l).getBytesTotal = b.bytesWith l.length := by
  have hbytes := bytes_eq (b := b) (l := l) 0
  rw [getSizeOfCompactSizeDiff, Nat.add_zero, Nat.sub_self] at hbytes
  exact hbytes

theorem getAmountLeft_eq (hfit : b.OutputsFit l.length) :
    (b.withOutputs l).getAmountLeft = .ok (b.room l) := by
  rw [getAmountLeft, getBytesTotal_eq]
  dsimp only [withOutputs]
  rw [b.wallet.getFee_eq hfit]
  rfl

theorem couldAddOutputs_eq (hpos : ∀ a ∈ vecOutputAmounts, 0 ≤ a)
    (hfit : b.OutputsFit (l ++ vecOutputAmounts).length) :
    (b.withOutputs l).couldAddOutputs vecOutputAmounts =
      .ok (decide (0 ≤ b.room (l ++ vecOutputAmounts))) := by
  have hneg : ¬(vecOutputAmounts.any fun a => decide (a < 0)) = true := by
    simpa using hpos
  rw [List.length_append] at hfit
  rw [couldAddOutputs, if_neg hneg, bytes_eq, room, List.length_append, List.sum_append]
  dsimp only [withOutputs]
  rw [b.wallet.getFee_eq hfit]
  rfl

theorem couldAddOutputs_error (hpos : ∀ a ∈ vecOutputAmounts, 0 ≤ a)
    (hfit : ¬b.OutputsFit (l ++ vecOutputAmounts).length) :
    (b.withOutputs l).couldAddOutputs vecOutputAmounts = .error .overflow := by
  have hneg : ¬(vecOutputAmounts.any fun a => decide (a < 0)) = true := by
    simpa using hpos
  rw [List.length_append] at hfit
  rw [couldAddOutputs, if_neg hneg, bytes_eq]
  dsimp only [withOutputs]
  rw [b.wallet.getFee_error hfit]
  rfl

theorem addOutput_eq (hpos : 0 ≤ nAmountOutput)
    (hfit : b.OutputsFit (l ++ [nAmountOutput]).length)
    (hroom : 0 ≤ b.room (l ++ [nAmountOutput])) :
    (b.withOutputs l).addOutput nAmountOutput =
      .ok (b.withOutputs (l ++ [nAmountOutput]), some l.length) := by
  rw [addOutput, couldAddOutput, couldAddOutputs_eq (by simpa using hpos) hfit,
    decide_eq_true hroom]
  rfl

theorem updateAmount_eq {i : ℕ} (hpos : 0 < nNewAmount) (hfit : b.OutputsFit l.length)
    (hroom : nNewAmount-l.getD i 0 ≤ b.room l) :
    (b.withOutputs l).updateAmount (some i) nNewAmount =
      .ok (b.withOutputs (l.set i nNewAmount)) := by
  have hleft : ¬b.room l < nNewAmount-(b.withOutputs l).vecOutputs.getD i 0 := not_lt.mpr hroom
  rw [updateAmount, if_neg (by omega), getAmountLeft_eq hfit, ok_bind, if_neg hleft]
  rfl

/-! ### Dust -/

variable (b) in
def DustFits : Prop :=
  isUnspendable b.tallyItem.txdest = true ∨ b.wallet.discardRate.Fits b.nSizeSpent

instance : Decidable b.DustFits := inferInstanceAs (Decidable (_ ∨ _))

variable (b) in
def dustThreshold : ℕ :=
  if isUnspendable b.tallyItem.txdest then 0 else b.wallet.discardRate.fee b.nSizeSpent

theorem isDust_eq (h : b.DustFits) (nAmount : ℤ) :
    b.isDust nAmount = .ok (decide (nAmount < b.dustThreshold)) := by
  unfold isDust getDustThreshold dustThreshold CFeeRate.getFee
  by_cases hscript : isUnspendable b.tallyItem.txdest = true
  · rw [if_pos hscript, if_pos hscript]
    rfl
  · rw [if_neg hscript, if_neg hscript, if_pos (h.resolve_left hscript)]
    rfl

theorem isDust_error (h : ¬b.DustFits) (nAmount : ℤ) : b.isDust nAmount = .error .overflow := by
  obtain ⟨hscript, hfit⟩ := not_or.mp h
  unfold isDust getDustThreshold CFeeRate.getFee
  rw [if_neg hscript, if_neg hfit]
  rfl

end CTransactionBuilder
end BabaChain.CoinJoin
