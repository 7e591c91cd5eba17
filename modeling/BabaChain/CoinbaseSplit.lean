import BabaChain.MasternodePayments
import Mathlib

/-! How the payment of a coinbase is split, over the integers and in 64 bits. -/
namespace BabaChain.MNPayments
open MachineInt CreditPool
open Evo.ByValue (CDeterministicMN CDeterministicMNList)

variable (p : PaymentParams)

/-! ### The payment -/

/-- The payment over the integers. -/
def payment (nHeight blockValue : ℤ) (fV20Active : Bool) : ℤ :=
  CreditPool.getMasternodePayment p.toChainParams nHeight blockValue fV20Active

theorem payment_eq (nHeight blockValue : ℤ) (fV20Active : Bool) :
    payment p nHeight blockValue fV20Active =
      if nHeight < p.BRRHeight then increasedPayment p nHeight blockValue
      else if nHeight < nReallocStart p then increasedPayment p nHeight blockValue
      else if fV20Active = true then (blockValue*3).tdiv 4
      else (blockValue*currentPeriod p nHeight).tdiv 1000 := rfl

theorem increasedPayment_eq (nHeight blockValue : ℤ) :
    increasedPayment p nHeight blockValue = blockValue.tdiv 5 +
      ((increases.filter fun step => decide (p.nMasternodePaymentsIncreaseBlock+
        p.nMasternodePaymentsIncreasePeriod*step.1 < nHeight)).map
          fun step => blockValue.tdiv step.2).sum := by
  unfold increasedPayment
  generalize blockValue.tdiv 5 = ret
  induction increases generalizing ret with
  | nil => simp
  | cons step steps ih =>
    rw [List.foldl_cons, ih, List.filter_cons]
    split <;> rename_i hreached
    · simp only [hreached, decide_true, if_true, List.map_cons, List.sum_cons, add_assoc]
    · simp only [hreached, decide_false, Bool.false_eq_true, if_false]

theorem increasedPayment_mono (nHeight : ℤ) {v w : ℤ} (hvw : v ≤ w) :
    increasedPayment p nHeight v ≤ increasedPayment p nHeight w := by
  rw [increasedPayment_eq, increasedPayment_eq]
  have hparts : ∀ step ∈ increases, (0:ℤ) < step.2 := by decide
  apply add_le_add (Int.tdiv_le_tdiv (by norm_num) hvw)
  apply List.sum_le_sum
  intro step hstep
  exact Int.tdiv_le_tdiv (hparts step (List.mem_of_mem_filter hstep)) hvw

/-- Half of the block value at most. -/
theorem increasedPayment_le (nHeight : ℤ) {v : ℤ} (hv : 0 ≤ v) :
    increasedPayment p nHeight v ≤ v := by
  rw [increasedPayment_eq]
  have hall : ((increases.filter fun step => decide (p.nMasternodePaymentsIncreaseBlock+
      p.nMasternodePaymentsIncreasePeriod*step.1 < nHeight)).map fun step => v.tdiv step.2).sum ≤
        (increases.map fun step => v.tdiv step.2).sum := by
    apply (List.filter_sublist.map _).sum_le_sum
    intro part hpart
    obtain ⟨step, hstep, rfl⟩ := List.mem_map.mp hpart
    have hparts : ∀ step ∈ increases, (0:ℤ) ≤ step.2 := by decide
    exact Int.tdiv_nonneg hv (hparts step hstep)
  have hsum : (increases.map fun step => v.tdiv step.2).sum = 3*(v/20)+6*(v/40) := by
    simp only [increases, List.map_cons, List.map_nil, List.sum_cons, List.sum_nil,
      Int.tdiv_eq_ediv_of_nonneg hv]
    ring
  rw [Int.tdiv_eq_ediv_of_nonneg hv]
  omega

theorem currentPeriod_bounds (nHeight : ℤ) :
    0 ≤ currentPeriod p nHeight ∧ currentPeriod p nHeight ≤ 600 := by
  have hall : ∀ period ∈ vecPeriods, (0:ℤ) ≤ period ∧ period ≤ 600 := by decide
  unfold currentPeriod
  rw [List.getD_eq_getElem?_getD]
  rcases hget : vecPeriods[_]? with _ | period
  · simp
  · exact hall period (List.mem_of_getElem? hget)

section Bounds

variable (nHeight : ℤ) (fV20Active : Bool) {v w : ℤ}

theorem payment_mono (hvw : v ≤ w) :
    payment p nHeight v fV20Active ≤ payment p nHeight w fV20Active := by
  obtain ⟨hperiod, -⟩ := currentPeriod_bounds p nHeight
  rw [payment_eq, payment_eq]
  split_ifs
  · exact increasedPayment_mono p nHeight hvw
  · exact increasedPayment_mono p nHeight hvw
  · exact Int.tdiv_le_tdiv (by norm_num) (by omega)
  · exact Int.tdiv_le_tdiv (by norm_num) (mul_le_mul_of_nonneg_right hvw hperiod)

theorem payment_le (hv : 0 ≤ v) : payment p nHeight v fV20Active ≤ v := by
  obtain ⟨hperiod, hmax⟩ := currentPeriod_bounds p nHeight
  rw [payment_eq]
  split_ifs
  · exact increasedPayment_le p nHeight hv
  · exact increasedPayment_le p nHeight hv
  · rw [Int.tdiv_eq_ediv_of_nonneg (by omega)]
    omega
  · have hprod : v*currentPeriod p nHeight ≤ v*600 := mul_le_mul_of_nonneg_left hmax hv
    rw [Int.tdiv_eq_ediv_of_nonneg (mul_nonneg hv hperiod)]
    omega

theorem payment_nonneg (hv : 0 ≤ v) : 0 ≤ payment p nHeight v fV20Active := by
  have hzero : payment p nHeight 0 fV20Active = 0 := by
    have hincreased : increasedPayment p nHeight 0 = 0 := by
      rw [increasedPayment_eq]
      simp
    rw [payment_eq, hincreased]
    simp
  rw [← hzero]
  exact payment_mono p nHeight fV20Active hv

/-- The only product of the payment that can overflow. -/
def PeriodFits (v : ℤ) : Prop :=
  p.BRRHeight ≤ nHeight → nReallocStart p ≤ nHeight → fV20Active = false →
    InRange 64 (v*currentPeriod p nHeight)

variable {p nHeight fV20Active}

theorem PeriodFits.mono (h : PeriodFits p nHeight fV20Active w) (hv : 0 ≤ v) (hvw : v ≤ w) :
    PeriodFits p nHeight fV20Active v := by
  intro hbrr hstart hv20
  obtain ⟨hperiod, -⟩ := currentPeriod_bounds p nHeight
  have hle : v*currentPeriod p nHeight ≤ w*currentPeriod p nHeight :=
    mul_le_mul_of_nonneg_right hvw hperiod
  obtain ⟨-, hhi⟩ := h hbrr hstart hv20
  have hnonneg := mul_nonneg hv hperiod
  exact ⟨by omega, by omega⟩

theorem getMasternodePayment_eq (h : PeriodFits p nHeight fV20Active v) (hv : 0 ≤ v)
    (hmax : v ≤ MAX_MONEY) :
    getMasternodePayment p nHeight v fV20Active = some (payment p nHeight v fV20Active) := by
  have hthree : InRange 64 (v*3) := by
    have : MAX_MONEY = 100000000000000000 := by decide
    unfold InRange
    omega
  rw [getMasternodePayment, payment_eq]
  split_ifs with hbrr hstart hv20
  · rfl
  · rfl
  · rw [checked_of_inRange hthree]
    rfl
  · rw [checked_of_inRange (h (not_lt.mp hbrr) (not_lt.mp hstart) (Bool.not_eq_true _ ▸ hv20))]
    rfl

theorem getMasternodePayment_eq_none (h : ¬PeriodFits p nHeight fV20Active v) :
    getMasternodePayment p nHeight v fV20Active = none := by
  unfold PeriodFits at h
  push Not at h
  obtain ⟨hbrr, hstart, hv20, hoverflow⟩ := h
  rw [getMasternodePayment, if_neg (not_lt.mpr hbrr), if_neg (not_lt.mpr hstart), hv20,
    if_neg Bool.false_ne_true, checked_eq_none hoverflow]
  rfl

end Bounds

/-! ### The payee -/

variable {G : Type*}

/-- A fold that takes an element of the list or keeps what it has. -/
theorem mem_of_foldl_eq_some {α : Type*} {f : Option α → α → Option α}
    (hf : ∀ best x y, f best x = some y → best = some y ∨ y = x) {xs : List α} {best : Option α}
    {y : α} (h : xs.foldl f best = some y) : best = some y ∨ y ∈ xs := by
  induction xs generalizing best with
  | nil => exact .inl h
  | cons x xs ih =>
    rcases ih h with hnext | hmem
    · rcases hf best x y hnext with hbest | rfl
      · exact .inl hbest
      · exact .inr List.mem_cons_self
    · exact .inr (List.mem_cons_of_mem x hmem)

theorem getMNPayee_mem {pindexPrev : Evo.ByValue.CBlockIndex} {mnList : CDeterministicMNList G}
    {dmn : CDeterministicMN G} (h : mnList.getMNPayee pindexPrev = some dmn) : dmn ∈ mnList.mns := by
  have hfirst : ∀ (best : Option (CDeterministicMN G)) x y,
      Evo.ByValue.firstToPay best x = some y → best = some y ∨ y = x := by
    intro best x y hy
    rcases best with _ | b
    · exact .inr (Option.some.inj hy).symm
    · simp only [Evo.ByValue.firstToPay] at hy
      split at hy
      · exact .inr (Option.some.inj hy).symm
      · exact .inl hy
  have hstay : ∀ (best : Option (CDeterministicMN G)) x y,
      (if Evo.ByValue.inPayments mnList.nHeight x then some x else best) = some y →
        best = some y ∨ y = x := by
    intro best x y hy
    split at hy
    · exact .inr (Option.some.inj hy).symm
    · exact .inl hy
  have hvalid : dmn ∈ mnList.validMNs := by
    unfold CDeterministicMNList.getMNPayee at h
    simp only at h
    split at h
    · rename_i best hbest
      obtain rfl := Option.some.inj h
      split at hbest
      · exact (mem_of_foldl_eq_some hstay hbest).resolve_left nofun
      · cases hbest
    · exact (mem_of_foldl_eq_some hfirst h).resolve_left nofun
  exact List.mem_of_mem_filter hvalid

/-! ### The outputs -/

section Outputs

variable (pindexPrev : Evo.ByValue.CBlockIndex) (mnList : CDeterministicMNList G)
  (blockSubsidy feeReward : ℤ)

/-- Whether the platform gets a share. -/
def sharedWithPlatform : Bool := fV20Active p pindexPrev && pindexPrev.isMNRewardReallocation

def platformReward : ℤ :=
  if sharedWithPlatform p pindexPrev then
    (payment p (pindexPrev.nHeight+1) blockSubsidy (fV20Active p pindexPrev)*375).tdiv 1000
  else
    0

/-- What is left for the masternode. -/
def masternodeReward : ℤ :=
  payment p (pindexPrev.nHeight+1) (blockSubsidy+feeReward) (fV20Active p pindexPrev)-
    platformReward p pindexPrev blockSubsidy

def platformOutputs : List CTxOut :=
  if sharedWithPlatform p pindexPrev then
    [⟨platformReward p pindexPrev blockSubsidy, [OP_RETURN]⟩]
  else
    []

/-- Whether a masternode shares its reward with its operator. -/
def HasOperatorShare (dmn : CDeterministicMN G) : Prop :=
  dmn.nOperatorReward ≠ 0 ∧ dmn.pdmnState.scriptOperatorPayout ≠ []

instance (dmn : CDeterministicMN G) : Decidable (HasOperatorShare dmn) :=
  inferInstanceAs (Decidable (_ ∧ _))

def operatorShare (dmn : CDeterministicMN G) : ℤ :=
  if HasOperatorShare dmn then
    (masternodeReward p pindexPrev blockSubsidy feeReward*dmn.nOperatorReward.toNat).tdiv 10000
  else
    0

def expectedOutputs : List CTxOut :=
  platformOutputs p pindexPrev blockSubsidy ++
    match mnList.getMNPayee pindexPrev with
    | none => []
    | some dmn =>
      payeeOutputs dmn
        (masternodeReward p pindexPrev blockSubsidy feeReward-
          operatorShare p pindexPrev blockSubsidy feeReward dmn)
        (operatorShare p pindexPrev blockSubsidy feeReward dmn)

/-- The products of amounts fit in 64 bits. -/
structure ProductsFit : Prop where
  period : PeriodFits p (pindexPrev.nHeight+1) (fV20Active p pindexPrev) (blockSubsidy+feeReward)
  platform : sharedWithPlatform p pindexPrev = true →
    InRange 64 (payment p (pindexPrev.nHeight+1) blockSubsidy (fV20Active p pindexPrev)*375)
  operator : ∀ dmn, mnList.getMNPayee pindexPrev = some dmn → HasOperatorShare dmn →
    InRange 64 (masternodeReward p pindexPrev blockSubsidy feeReward*dmn.nOperatorReward.toNat)

/-- What the source promises of a block: amounts that add up to an amount, and operator rewards
in parts of ten thousand. -/
structure BlockRewards : Prop where
  blockSubsidy_nonneg : 0 ≤ blockSubsidy
  feeReward_nonneg : 0 ≤ feeReward
  blockValue_le : blockSubsidy+feeReward ≤ MAX_MONEY
  operator_le : ∀ dmn ∈ mnList.mns, dmn.nOperatorReward.toNat ≤ 10000

variable {p pindexPrev mnList blockSubsidy feeReward}

theorem operatorReward_eq {dmn : CDeterministicMN G} (hfit : HasOperatorShare dmn →
      InRange 64 (masternodeReward p pindexPrev blockSubsidy feeReward*
        dmn.nOperatorReward.toNat)) :
    operatorReward dmn (masternodeReward p pindexPrev blockSubsidy feeReward) =
      some (operatorShare p pindexPrev blockSubsidy feeReward dmn) := by
  unfold operatorShare operatorReward
  by_cases hshare : HasOperatorShare dmn
  · have hcond : dmn.nOperatorReward ≠ 0 ∧ dmn.pdmnState.scriptOperatorPayout ≠ [] := hshare
    rw [if_pos hcond, if_pos hshare, checked_of_inRange (hfit hshare)]
    rfl
  · have hcond : ¬(dmn.nOperatorReward ≠ 0 ∧ dmn.pdmnState.scriptOperatorPayout ≠ []) := hshare
    rw [if_neg hcond, if_neg hshare]

namespace BlockRewards

variable (h : BlockRewards mnList blockSubsidy feeReward)
include h

theorem blockValue_eq : checked 64 (blockSubsidy+feeReward) = some (blockSubsidy+feeReward) := by
  have hbig : MAX_MONEY = 100000000000000000 := by decide
  have hsub := h.blockSubsidy_nonneg
  have hfee := h.feeReward_nonneg
  have hmax := h.blockValue_le
  exact checked_of_inRange (inRange_of_between (by omega) (by rw [intMax_64]; omega))

variable (p pindexPrev) in
theorem platformReward_bounds : 0 ≤ platformReward p pindexPrev blockSubsidy ∧
    platformReward p pindexPrev blockSubsidy ≤
      payment p (pindexPrev.nHeight+1) blockSubsidy (fV20Active p pindexPrev) := by
  have hnonneg := payment_nonneg p (pindexPrev.nHeight+1) (fV20Active p pindexPrev)
    h.blockSubsidy_nonneg
  unfold platformReward
  split_ifs
  · rw [Int.tdiv_eq_ediv_of_nonneg (by omega)]
    omega
  · exact ⟨le_rfl, hnonneg⟩

variable (p pindexPrev) in
theorem masternodeReward_bounds : 0 ≤ masternodeReward p pindexPrev blockSubsidy feeReward ∧
    masternodeReward p pindexPrev blockSubsidy feeReward ≤ MAX_MONEY := by
  obtain ⟨hplatform, hplatform'⟩ := h.platformReward_bounds p pindexPrev
  have hsub := h.blockSubsidy_nonneg
  have hfee := h.feeReward_nonneg
  have hmono := payment_mono p (pindexPrev.nHeight+1) (fV20Active p pindexPrev)
    (show blockSubsidy ≤ blockSubsidy+feeReward by omega)
  have hle := payment_le p (pindexPrev.nHeight+1) (fV20Active p pindexPrev)
    (show 0 ≤ blockSubsidy+feeReward by omega)
  have hmax := h.blockValue_le
  unfold masternodeReward
  omega

variable (p pindexPrev) in
theorem operatorShare_bounds {dmn : CDeterministicMN G} (hdmn : dmn ∈ mnList.mns) :
    0 ≤ operatorShare p pindexPrev blockSubsidy feeReward dmn ∧
      operatorShare p pindexPrev blockSubsidy feeReward dmn ≤
        masternodeReward p pindexPrev blockSubsidy feeReward := by
  obtain ⟨hnonneg, -⟩ := h.masternodeReward_bounds p pindexPrev
  unfold operatorShare
  split_ifs
  · have hten : (dmn.nOperatorReward.toNat : ℤ) ≤ 10000 := by
      exact_mod_cast h.operator_le dmn hdmn
    have hprod := mul_le_mul_of_nonneg_left hten hnonneg
    have hprod0 := mul_nonneg hnonneg (Int.natCast_nonneg dmn.nOperatorReward.toNat)
    rw [Int.tdiv_eq_ediv_of_nonneg hprod0]
    omega
  · exact ⟨le_rfl, hnonneg⟩

/-- Since v20 the payment from the subsidy does not overflow. -/
theorem subsidyPayment_eq (hshared : sharedWithPlatform p pindexPrev = true) :
    getMasternodePayment p (pindexPrev.nHeight+1) blockSubsidy (fV20Active p pindexPrev) =
      some (payment p (pindexPrev.nHeight+1) blockSubsidy (fV20Active p pindexPrev)) := by
  have hv20 : fV20Active p pindexPrev = true := (Bool.and_eq_true_iff.mp hshared).1
  have hmax := h.blockValue_le
  have hfee := h.feeReward_nonneg
  apply getMasternodePayment_eq _ h.blockSubsidy_nonneg (by omega)
  intro _ _ hearly
  rw [hv20] at hearly
  cases hearly

theorem platformShare_eq (hshared : sharedWithPlatform p pindexPrev = true)
    (hfit : InRange 64 (payment p (pindexPrev.nHeight+1) blockSubsidy
      (fV20Active p pindexPrev)*375)) :
    platformShare (payment p (pindexPrev.nHeight+1) blockSubsidy (fV20Active p pindexPrev)) =
      some (platformReward p pindexPrev blockSubsidy) := by
  obtain ⟨hnonneg, hle⟩ := h.platformReward_bounds p pindexPrev
  have hpay := payment_le p (pindexPrev.nHeight+1) (fV20Active p pindexPrev) h.blockSubsidy_nonneg
  have hmax := h.blockValue_le
  have hfee := h.feeReward_nonneg
  have hrange : moneyRange (platformReward p pindexPrev blockSubsidy) = true :=
    decide_eq_true ⟨hnonneg, by omega⟩
  unfold platformReward at hrange ⊢
  rw [if_pos hshared] at hrange ⊢
  simp only [platformShare, checked_of_inRange hfit, Option.map_some, Option.bind_eq_bind,
    Option.bind_some, hrange, if_true]

theorem reallocate_eq (hfit : sharedWithPlatform p pindexPrev = true →
      InRange 64 (payment p (pindexPrev.nHeight+1) blockSubsidy (fV20Active p pindexPrev)*375)) :
    reallocate p pindexPrev blockSubsidy
        (payment p (pindexPrev.nHeight+1) (blockSubsidy+feeReward) (fV20Active p pindexPrev)) =
      some (masternodeReward p pindexPrev blockSubsidy feeReward,
        platformOutputs p pindexPrev blockSubsidy) := by
  rcases hshared : sharedWithPlatform p pindexPrev with _ | _
  · have hplatform : platformReward p pindexPrev blockSubsidy = 0 := by
      rw [platformReward, hshared, if_neg Bool.false_ne_true]
    unfold sharedWithPlatform at hshared
    rw [reallocate, hshared, if_neg Bool.false_ne_true, masternodeReward, hplatform, sub_zero,
      platformOutputs, sharedWithPlatform, hshared, if_neg Bool.false_ne_true]
  · have hv20 : fV20Active p pindexPrev = true := (Bool.and_eq_true_iff.mp hshared).1
    obtain ⟨hnonneg, hle⟩ := h.masternodeReward_bounds p pindexPrev
    have hshare := h.platformShare_eq hshared (hfit hshared)
    have hsubsidy := h.subsidyPayment_eq hshared
    have hreward : checked 64 (payment p (pindexPrev.nHeight+1) (blockSubsidy+feeReward)
        (fV20Active p pindexPrev)-platformReward p pindexPrev blockSubsidy) =
          some (masternodeReward p pindexPrev blockSubsidy feeReward) := by
      have hbig : MAX_MONEY = 100000000000000000 := by decide
      rw [← masternodeReward]
      exact checked_of_inRange (inRange_of_between hnonneg (by rw [intMax_64]; omega))
    have hrange : moneyRange (masternodeReward p pindexPrev blockSubsidy feeReward) = true :=
      decide_eq_true ⟨hnonneg, hle⟩
    have houtputs : platformOutputs p pindexPrev blockSubsidy =
        [⟨platformReward p pindexPrev blockSubsidy, [OP_RETURN]⟩] := if_pos hshared
    unfold sharedWithPlatform at hshared
    rw [reallocate, hshared, if_pos rfl, hsubsidy]
    simp only [Option.bind_eq_bind, Option.bind_some, hshare, hreward, hrange, if_true, houtputs]

theorem reallocate_eq_none (hshared : sharedWithPlatform p pindexPrev = true)
    (hover : ¬InRange 64 (payment p (pindexPrev.nHeight+1) blockSubsidy
      (fV20Active p pindexPrev)*375)) (reward : ℤ) :
    reallocate p pindexPrev blockSubsidy reward = none := by
  have hsubsidy := h.subsidyPayment_eq hshared
  unfold sharedWithPlatform at hshared
  rw [reallocate, hshared, if_pos rfl, hsubsidy]
  simp only [Option.bind_eq_bind, Option.bind_some, platformShare, checked_eq_none hover,
    Option.map_none, Option.bind_none]

end BlockRewards

theorem getMNPayee_of_isEmpty (hempty : mnList.mnMap.isEmpty = true) :
    mnList.getMNPayee pindexPrev = none := by
  have hmns : mnList.mns = [] := by
    rw [CDeterministicMNList.mns, Std.ExtTreeMap.isEmpty_iff.mp hempty]
    rfl
  rcases hpayee : mnList.getMNPayee pindexPrev with _ | dmn
  · rfl
  · have hmem := getMNPayee_mem hpayee
    rw [hmns] at hmem
    cases hmem

/-- The outputs, where nothing overflows. -/
theorem getBlockTxOuts_eq (h : BlockRewards mnList blockSubsidy feeReward)
    (hfit : ProductsFit p pindexPrev mnList blockSubsidy feeReward) :
    getBlockTxOuts p pindexPrev mnList blockSubsidy feeReward =
      some (mnList.mnMap.isEmpty || (mnList.getMNPayee pindexPrev).isSome,
        expectedOutputs p pindexPrev mnList blockSubsidy feeReward) := by
  have hvalue := h.blockValue_eq
  have hsub := h.blockSubsidy_nonneg
  have hfee := h.feeReward_nonneg
  have hmax := h.blockValue_le
  have hpayment := getMasternodePayment_eq hfit.period (by omega) hmax
  unfold getBlockTxOuts expectedOutputs
  simp only [hvalue, hpayment, h.reallocate_eq hfit.platform, Option.bind_eq_bind,
    Option.bind_some]
  rcases hempty : mnList.mnMap.isEmpty with _ | _
  · simp only [Bool.false_eq_true, if_false, Bool.false_or]
    rcases hpayee : mnList.getMNPayee pindexPrev with _ | dmn
    · simp only [List.append_nil]
      rfl
    · have hdmn := getMNPayee_mem hpayee
      obtain ⟨hop, hop'⟩ := h.operatorShare_bounds p pindexPrev hdmn
      obtain ⟨hmn, hmn'⟩ := h.masternodeReward_bounds p pindexPrev
      have hbig : MAX_MONEY = 100000000000000000 := by decide
      have hleft : checked 64 (masternodeReward p pindexPrev blockSubsidy feeReward-
          operatorShare p pindexPrev blockSubsidy feeReward dmn) = some _ :=
        checked_of_inRange (inRange_of_between (by omega) (by rw [intMax_64]; omega))
      simp only [operatorReward_eq (hfit.operator dmn hpayee), Option.bind_some, hleft]
      rfl
  · rw [getMNPayee_of_isEmpty hempty, List.append_nil]
    rfl

theorem getBlockTxOuts_eq_none (h : BlockRewards mnList blockSubsidy feeReward)
    (hover : ¬ProductsFit p pindexPrev mnList blockSubsidy feeReward) :
    getBlockTxOuts p pindexPrev mnList blockSubsidy feeReward = none := by
  have hsub := h.blockSubsidy_nonneg
  have hfee := h.feeReward_nonneg
  have hmax := h.blockValue_le
  unfold getBlockTxOuts
  simp only [h.blockValue_eq, Option.bind_eq_bind, Option.bind_some]
  by_cases hperiod : PeriodFits p (pindexPrev.nHeight+1) (fV20Active p pindexPrev)
      (blockSubsidy+feeReward)
  · rw [getMasternodePayment_eq hperiod (by omega) hmax, Option.bind_some]
    by_cases hplatform : sharedWithPlatform p pindexPrev = true →
        InRange 64 (payment p (pindexPrev.nHeight+1) blockSubsidy (fV20Active p pindexPrev)*375)
    · simp only [h.reallocate_eq hplatform, Option.bind_some]
      have hop : ¬∀ dmn, mnList.getMNPayee pindexPrev = some dmn → HasOperatorShare dmn →
          InRange 64 (masternodeReward p pindexPrev blockSubsidy feeReward*
            dmn.nOperatorReward.toNat) :=
        fun hop => hover ⟨hperiod, hplatform, hop⟩
      push Not at hop
      obtain ⟨dmn, hpayee, hshare, hprod⟩ := hop
      have hempty : mnList.mnMap.isEmpty = false := by
        rcases hempty : mnList.mnMap.isEmpty with _ | _
        · rfl
        · rw [getMNPayee_of_isEmpty hempty] at hpayee
          cases hpayee
      have hcond : dmn.nOperatorReward ≠ 0 ∧ dmn.pdmnState.scriptOperatorPayout ≠ [] := hshare
      simp only [hempty, Bool.false_eq_true, if_false, hpayee]
      rw [operatorReward, if_pos hcond, checked_eq_none hprod]
      rfl
    · push Not at hplatform
      obtain ⟨hshared, hprod⟩ := hplatform
      rw [h.reallocate_eq_none hshared hprod, Option.bind_none]
  · rw [getMasternodePayment_eq_none hperiod, Option.bind_none]

/-! ### The split -/

theorem sum_payeeOutputs (dmn : CDeterministicMN G) {owner operator : ℤ} (h0 : 0 ≤ owner)
    (h1 : 0 ≤ operator) :
    ((payeeOutputs dmn owner operator).map CTxOut.nValue).sum = owner+operator := by
  unfold payeeOutputs
  rcases h0.eq_or_lt with rfl | hpos <;> rcases h1.eq_or_lt with rfl | hpos' <;> simp [*]

theorem sum_platformOutputs : ((platformOutputs p pindexPrev blockSubsidy).map CTxOut.nValue).sum =
    platformReward p pindexPrev blockSubsidy := by
  unfold platformOutputs platformReward
  split_ifs <;> simp

/-- With a payee, the outputs add up to the payment. -/
theorem sum_expectedOutputs (h : BlockRewards mnList blockSubsidy feeReward)
    {dmn : CDeterministicMN G} (hpayee : mnList.getMNPayee pindexPrev = some dmn) :
    ((expectedOutputs p pindexPrev mnList blockSubsidy feeReward).map CTxOut.nValue).sum =
      payment p (pindexPrev.nHeight+1) (blockSubsidy+feeReward) (fV20Active p pindexPrev) := by
  obtain ⟨hop, hop'⟩ := h.operatorShare_bounds p pindexPrev
    (getMNPayee_mem hpayee)
  simp only [expectedOutputs, hpayee]
  rw [List.map_append, List.sum_append, sum_platformOutputs,
    sum_payeeOutputs dmn (by omega) hop, masternodeReward]
  omega

theorem payeeOutputs_pos (dmn : CDeterministicMN G) (owner operator : ℤ) :
    ∀ txout ∈ payeeOutputs dmn owner operator, 0 < txout.nValue := by
  intro txout htxout
  rcases List.mem_append.mp htxout with hmem | hmem
  · split_ifs at hmem with hpos
    · obtain rfl := List.mem_singleton.mp hmem
      exact hpos
    · cases hmem
  · split_ifs at hmem with hpos
    · obtain rfl := List.mem_singleton.mp hmem
      exact hpos
    · cases hmem

theorem expectedOutputs_nonneg (h : BlockRewards mnList blockSubsidy feeReward) :
    ∀ txout ∈ expectedOutputs p pindexPrev mnList blockSubsidy feeReward, 0 ≤ txout.nValue := by
  intro txout htxout
  rcases List.mem_append.mp htxout with hmem | hmem
  · unfold platformOutputs at hmem
    split at hmem
    · obtain rfl := List.mem_singleton.mp hmem
      exact (h.platformReward_bounds p pindexPrev).1
    · cases hmem
  · split at hmem
    · cases hmem
    · exact (payeeOutputs_pos _ _ _ txout hmem).le

/-- Where a block is checked, it has every output that is expected. -/
theorem isTransactionValid_iff {txNew : CTransaction} {success : Bool} {vout : List CTxOut}
    (hvout : getBlockTxOuts p pindexPrev mnList blockSubsidy feeReward = some (success, vout)) :
    isTransactionValid p pindexPrev mnList blockSubsidy feeReward txNew = some true ↔
      (p.DIP0003EnforcementHeight ≤ pindexPrev.nHeight+1 → success = true →
        ∀ txout ∈ vout, txout ∈ txNew.vout) := by
  unfold isTransactionValid
  by_cases hheight : pindexPrev.nHeight+1 < p.DIP0003EnforcementHeight
  · rw [if_pos hheight]
    exact iff_of_true rfl fun hle => absurd hle (not_le.mpr hheight)
  · rw [if_neg hheight, hvout]
    cases success <;> simp [not_lt.mp hheight]

variable (p pindexPrev mnList blockSubsidy feeReward)

/-- The payment of a block is an amount of the block value that grows with it; the outputs are
not negative and, where there is a payee, add up to it; a coinbase that is checked has them. -/
structure ExactSplit (success : Bool) (vout : List CTxOut) : Prop where
  success_iff : success = true ↔
    mnList.mnMap.isEmpty = true ∨ (mnList.getMNPayee pindexPrev).isSome = true
  payment : ∃ masternodeReward,
    getMasternodePayment p (pindexPrev.nHeight+1) (blockSubsidy+feeReward)
        (fV20Active p pindexPrev) = some masternodeReward ∧
      0 ≤ masternodeReward ∧ masternodeReward ≤ blockSubsidy+feeReward ∧
      (∀ blockValue, 0 ≤ blockValue → blockValue ≤ blockSubsidy+feeReward →
        ∃ smallerReward, getMasternodePayment p (pindexPrev.nHeight+1) blockValue
          (fV20Active p pindexPrev) = some smallerReward ∧ smallerReward ≤ masternodeReward) ∧
      ((mnList.getMNPayee pindexPrev).isSome = true →
        (vout.map CTxOut.nValue).sum = masternodeReward)
  nonneg : ∀ txout ∈ vout, 0 ≤ txout.nValue
  without_payee : mnList.getMNPayee pindexPrev = none →
    vout = platformOutputs p pindexPrev blockSubsidy
  checked : ∀ txNew, isTransactionValid p pindexPrev mnList blockSubsidy feeReward txNew = some true →
    p.DIP0003EnforcementHeight ≤ pindexPrev.nHeight+1 → success = true →
      ∀ txout ∈ vout, txout ∈ txNew.vout

/-- The split of a coinbase whose products of amounts fit in 64 bits. -/
theorem coinbase_split (h : BlockRewards mnList blockSubsidy feeReward)
    (hfit : ProductsFit p pindexPrev mnList blockSubsidy feeReward) :
    ∃ success vout,
      getBlockTxOuts p pindexPrev mnList blockSubsidy feeReward = some (success, vout) ∧
        ExactSplit p pindexPrev mnList blockSubsidy feeReward success vout := by
  have houts := getBlockTxOuts_eq h hfit
  have hsub := h.blockSubsidy_nonneg
  have hfee := h.feeReward_nonneg
  have hmax := h.blockValue_le
  refine ⟨_, _, houts, ?_, ⟨_, getMasternodePayment_eq hfit.period (by omega) hmax, ?_, ?_, ?_, ?_⟩,
    expectedOutputs_nonneg h, ?_, ?_⟩
  · rw [Bool.or_eq_true]
  · exact payment_nonneg p _ _ (by omega)
  · exact payment_le p _ _ (by omega)
  · intro blockValue h0 hle
    exact ⟨_, getMasternodePayment_eq (hfit.period.mono h0 hle) h0 (by omega),
      payment_mono p _ _ hle⟩
  · intro hsome
    obtain ⟨dmn, hpayee⟩ := Option.isSome_iff_exists.mp hsome
    exact sum_expectedOutputs h hpayee
  · intro hpayee
    simp only [expectedOutputs, hpayee, List.append_nil]
  · intro txNew hvalid hheight hsuccess
    exact (isTransactionValid_iff houts).mp hvalid hheight hsuccess

end Outputs

/-! ### Where the split is not exact -/

section Samples
open Evo.ByValue (CBlockIndex)
open Std (ExtTreeMap)

/-- A network with v20 active from the given height on. -/
def sampleParams (V20Height : ℤ) (h : 1 ≤ V20Height) : PaymentParams where
  DIP0003Height := 1
  DIP0008Height := 1
  V20Height := V20Height
  MN_RRHeight := V20Height
  WithdrawalsHeight := 600
  v24ActiveAfter _ := false
  nMasternodePaymentsIncreaseBlock := 350
  nMasternodePaymentsIncreasePeriod := 10
  BRRHeight := 1
  nSuperblockCycle := 20
  nCreditPoolPeriodBlocks := 100
  dip3_le_v20 := h
  dip8_le_v20 := h
  v20_le_v24 _ h := absurd h Bool.noConfusion
  v24_stays := v24_never
  DIP0003EnforcementHeight := 1
  cycle_pos := by decide
  increase_fits k h0 h9 := by
    unfold InRange
    omega
  realloc_fits := by decide
  cycles_fit := by decide

/-- A masternode that is paid to the script 0x51, as is its operator. -/
def sampleMN (nOperatorReward : UInt16) : CDeterministicMN Unit where
  internalId := 0
  proTxHash := 1
  collateralOutpoint := ⟨1, 0⟩
  nOperatorReward := nOperatorReward
  pdmnState :=
    { netInfo := .mn {}
      scriptPayout := [0x51]
      scriptOperatorPayout := [0x51] }

def sampleList (nOperatorReward : UInt16) : CDeterministicMNList Unit where
  mnMap := (∅ : ExtTreeMap uint256 (CDeterministicMN Unit)).insert 1 (sampleMN nOperatorReward)

def sampleTip (isMNRewardReallocation : Bool) : CBlockIndex where
  blockHash := 0
  nHeight := 999
  isMNRewardReallocation := isMNRewardReallocation

theorem sampleList_payee (nOperatorReward : UInt16) (isMNRewardReallocation : Bool) :
    (sampleList nOperatorReward).getMNPayee (sampleTip isMNRewardReallocation) =
      some (sampleMN nOperatorReward) := by
  cases isMNRewardReallocation <;> rfl

theorem sampleList_operator (nOperatorReward : UInt16) (h : nOperatorReward.toNat ≤ 10000) :
    ∀ dmn ∈ (sampleList nOperatorReward).mns, dmn.nOperatorReward.toNat ≤ 10000 := by
  intro dmn hdmn
  have hmns : (sampleList nOperatorReward).mns = [sampleMN nOperatorReward] := rfl
  rw [hmns, List.mem_singleton] at hdmn
  rw [hdmn]
  exact h

/-- Eight coins are shared between the platform, an owner and an operator. -/
theorem coinbase_split_eight : ∃ success vout,
    getBlockTxOuts (sampleParams 1 le_rfl) (sampleTip true) (sampleList 2500) 800000000 0 =
        some (success, vout) ∧
      ExactSplit (sampleParams 1 le_rfl) (sampleTip true) (sampleList 2500) 800000000 0
        success vout :=
  coinbase_split (sampleParams 1 le_rfl) (sampleTip true) (sampleList 2500) 800000000 0
    ⟨by decide, by decide, by decide, sampleList_operator 2500 (by decide)⟩
    { period := fun _ _ hearly => absurd hearly (by decide)
      platform := fun _ => by decide
      operator := by
        intro dmn hpayee _
        obtain rfl := Option.some.inj ((sampleList_payee 2500 true).symm.trans hpayee)
        decide }

/-- A value of `MAX_MONEY` overflows; without masternodes only the platform is paid; and one output
is enough for an owner and an operator that share a script and a reward. -/
theorem split_not_exact :
    getBlockTxOuts (sampleParams 2000 (by decide)) (sampleTip false)
        ({} : CDeterministicMNList Unit) MAX_MONEY 0 = none ∧
      (getBlockTxOuts (sampleParams 1 le_rfl) (sampleTip true)
          ({} : CDeterministicMNList Unit) 800000000 0 =
            some (true, [⟨225000000, [OP_RETURN]⟩]) ∧
        getMasternodePayment (sampleParams 1 le_rfl) 1000 800000000 true = some 600000000) ∧
      (getBlockTxOuts (sampleParams 1 le_rfl) (sampleTip true) (sampleList 5000) 800000000 0 =
          some (true, [⟨225000000, [OP_RETURN]⟩, ⟨187500000, [0x51]⟩, ⟨187500000, [0x51]⟩]) ∧
        isTransactionValid (sampleParams 1 le_rfl) (sampleTip true) (sampleList 5000) 800000000 0
          ⟨0, TRANSACTION_COINBASE, [], [⟨225000000, [OP_RETURN]⟩, ⟨187500000, [0x51]⟩], []⟩ =
            some true) := by
  have hpaid : getBlockTxOuts (sampleParams 1 le_rfl) (sampleTip true) (sampleList 5000)
      800000000 0 =
        some (true, [⟨225000000, [OP_RETURN]⟩, ⟨187500000, [0x51]⟩, ⟨187500000, [0x51]⟩]) := by
    rfl
  refine ⟨by rfl, ⟨by rfl, by rfl⟩, hpaid, ?_⟩
  rw [isTransactionValid_iff hpaid]
  decide

end Samples
end BabaChain.MNPayments
