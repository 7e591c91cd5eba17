import BabaChain.Superblocks

/-! What a superblock that has been accepted pays. -/
namespace BabaChain.Governance
open MachineInt CreditPool Subsequences

/-! ### Sums -/

theorem moneyRange_iff {nValue : ℤ} : moneyRange nValue = true ↔ 0 ≤ nValue ∧ nValue ≤ MAX_MONEY :=
  decide_eq_true_iff

/-- `GetValueOut` returns the sum when no value is negative and the sum is in range. -/
theorem getValueOut_eq_some_iff {vout : List CTxOut} {nValueOut v : ℤ} (h0 : 0 ≤ nValueOut)
    (h1 : nValueOut ≤ MAX_MONEY) : getValueOut vout nValueOut = some v ↔
      (∀ txout ∈ vout, 0 ≤ txout.nValue) ∧
        v = nValueOut+(vout.map CTxOut.nValue).sum ∧ v ≤ MAX_MONEY := by
  induction vout generalizing nValueOut with
  | nil =>
    have hrange : moneyRange nValueOut = true := moneyRange_iff.mpr ⟨h0, h1⟩
    simp only [getValueOut, hrange, if_true, Option.some.injEq, List.map_nil, List.sum_nil,
      add_zero, List.not_mem_nil, false_implies, implies_true, true_and]
    constructor
    · rintro rfl
      exact ⟨rfl, h1⟩
    · exact fun h => h.1.symm
  | cons txout vout ih =>
    rw [getValueOut, List.forall_mem_cons, List.map_cons, List.sum_cons, ← add_assoc]
    by_cases hok : (moneyRange txout.nValue && moneyRange (nValueOut+txout.nValue)) = true
    · obtain ⟨hv, hs⟩ := Bool.and_eq_true_iff.mp hok
      have hv := (moneyRange_iff.mp hv).1
      have hs := moneyRange_iff.mp hs
      rw [if_pos hok, ih hs.1 hs.2]
      simp only [hv, true_and]
    · rw [if_neg hok]
      simp only [reduceCtorEq, false_iff]
      rintro ⟨⟨hv, hrest⟩, hsum, hmax⟩
      have hnonneg : 0 ≤ (vout.map CTxOut.nValue).sum := by
        apply List.sum_nonneg
        simpa using hrest
      apply hok
      rw [Bool.and_eq_true_iff, moneyRange_iff, moneyRange_iff]
      omega

namespace CSuperblock

variable (superblock : CSuperblock)

/-- The outputs that the payments ask for. -/
def outputs : List CTxOut := superblock.vecPayments.map CGovernancePayment.txout

/-- The exact total of the payments. -/
def total : ℤ := (superblock.vecPayments.map CGovernancePayment.nAmount).sum

/-- What is left of the outputs when neighbours that are equal count once. -/
def merged : List CTxOut := superblock.outputs.destutter (· ≠ ·)

theorem amount_nonneg : ∀ payment ∈ superblock.vecPayments, 0 ≤ payment.nAmount := by
  intro payment hpayment
  obtain ⟨strAmount, hparsed⟩ := superblock.parsed payment hpayment
  exact (moneyRange_iff.mp (moneyRange_of_parsePaymentAmount hparsed)).1

theorem value_nonneg : ∀ txout ∈ superblock.outputs, 0 ≤ txout.nValue := by
  intro txout htxout
  obtain ⟨payment, hpayment, rfl⟩ := List.mem_map.mp htxout
  exact superblock.amount_nonneg payment hpayment

theorem sum_outputs : (superblock.outputs.map CTxOut.nValue).sum = superblock.total := by
  rw [outputs, List.map_map]
  rfl

theorem length_outputs : superblock.outputs.length = superblock.vecPayments.length :=
  List.length_map _

theorem total_nonneg : 0 ≤ superblock.total := by
  apply List.sum_nonneg
  simpa using superblock.amount_nonneg

theorem merged_sublist : superblock.merged.Sublist superblock.outputs :=
  List.destutter_sublist _ _

theorem sum_merged_le : (superblock.merged.map CTxOut.nValue).sum ≤ superblock.total := by
  rw [← sum_outputs]
  apply (superblock.merged_sublist.map CTxOut.nValue).sum_le_sum
  simpa using superblock.value_nonneg

/-- The sum overflows just when the total does not fit. -/
theorem getPaymentsTotalAmount_eq :
    superblock.getPaymentsTotalAmount = checked 64 superblock.total := by
  have hnonneg : ∀ nAmount ∈ superblock.vecPayments.map CGovernancePayment.nAmount, 0 ≤ nAmount := by
    simpa using superblock.amount_nonneg
  have hzero : InRange 64 0 := by decide
  have hsum := checkedSum_of_nonneg hnonneg le_rfl hzero
  rw [getPaymentsTotalAmount, hsum, zero_add]
  rfl

theorem fPaymentMatch_iff (payment : CGovernancePayment) (txout : CTxOut) :
    fPaymentMatch payment txout = true ↔ payment.txout = txout := by
  cases txout
  simp only [fPaymentMatch, CGovernancePayment.txout, Bool.and_eq_true, beq_iff_eq,
    CTxOut.mk.injEq]
  exact And.comm

end CSuperblock

variable (network : Network) (fuel : ℕ) (p : SuperblockParams)

/-- What a coinbase is accepted for. -/
structure Accepts (superblock : CSuperblock) (txNew : CTransaction) (nBlockHeight blockReward : ℤ) :
    Prop where
  height : isValidBlockHeight p nBlockHeight = true
  enough : superblock.vecPayments.length ≤ txNew.vout.length
  fits : InRange 64 superblock.total
  limit : ∃ nPaymentsLimit, getPaymentsLimit network fuel p nBlockHeight = some nPaymentsLimit ∧
    superblock.total ≤ nPaymentsLimit
  reward : InRange 64 (blockReward+superblock.total)
  value : ∃ nBlockValue, getValueOut txNew.vout 0 = some nBlockValue ∧
    nBlockValue ≤ blockReward+superblock.total
  found : superblock.merged.Sublist txNew.vout

theorem CSuperblock.isValid_iff (superblock : CSuperblock) (txNew : CTransaction)
    (nBlockHeight blockReward : ℤ) :
    superblock.isValid network fuel p txNew nBlockHeight blockReward = some true ↔
      Accepts network fuel p superblock txNew nBlockHeight blockReward := by
  have hfound : searchAll fPaymentMatch txNew.vout superblock.vecPayments 0 = true ↔
      superblock.merged.Sublist txNew.vout :=
    searchAll_iff fPaymentMatch_iff superblock.vecPayments
  constructor
  · intro h
    unfold isValid at h
    split at h
    · cases h
    · rename_i hheight
      simp only at h
      split at h
      · cases h
      · rename_i henough
        simp only [getPaymentsTotalAmount_eq, Option.bind_eq_bind, Option.bind_eq_some_iff,
          checked_eq_some_iff] at h
        obtain ⟨_, ⟨hfits, rfl⟩, nPaymentsLimit, hlimit, h⟩ := h
        split at h
        · cases h
        · rename_i hle
          simp only [Option.bind_eq_some_iff, checked_eq_some_iff] at h
          obtain ⟨nBlockValue, hvalue, _, ⟨hreward, rfl⟩, h⟩ := h
          split at h
          · cases h
          · rename_i hvle
            exact ⟨by simpa using hheight, by omega, hfits, ⟨nPaymentsLimit, hlimit, by omega⟩,
              hreward, ⟨nBlockValue, hvalue, by omega⟩, hfound.mp (Option.some.inj h)⟩
  · rintro ⟨hheight, henough, hfits, ⟨nPaymentsLimit, hlimit, hle⟩, hreward,
      ⟨nBlockValue, hvalue, hvle⟩, hsub⟩
    have hcount : ¬((txNew.vout.length : ℤ)-superblock.vecPayments.length < 0) := by omega
    simp only [isValid, hheight, Bool.not_true, Bool.false_eq_true, if_false, hcount,
      getPaymentsTotalAmount_eq, checked_of_inRange hfits, hlimit, Option.bind_eq_bind,
      Option.bind_some, not_lt.mpr hle, hvalue, checked_of_inRange hreward, not_lt.mpr hvle,
      hfound.mpr hsub]
    rfl

/-! ### Separate payments -/

/-- The total of a trigger is computed exactly, and a coinbase is accepted only if it makes every
payment in an output of its own, in order, within the limits. -/
structure PaysSeparately (superblock : CSuperblock) (nBlockHeight : ℤ) : Prop where
  no_overflow : superblock.getPaymentsTotalAmount = some superblock.total
  separate : ∀ fuel txNew blockReward,
    superblock.isValid network fuel p txNew nBlockHeight blockReward = some true →
      superblock.outputs.Sublist txNew.vout
  within_limit : ∀ fuel txNew blockReward,
    superblock.isValid network fuel p txNew nBlockHeight blockReward = some true →
      ∃ nPaymentsLimit, getPaymentsLimit network fuel p nBlockHeight = some nPaymentsLimit ∧
        superblock.total ≤ nPaymentsLimit
  rest_le : ∀ fuel txNew blockReward,
    superblock.isValid network fuel p txNew nBlockHeight blockReward = some true →
      ∃ nBlockValue, getValueOut txNew.vout 0 = some nBlockValue ∧
        nBlockValue-superblock.total ≤ blockReward

/-- A superblock cannot be accepted at a height: it is not the height of a superblock, or the
payments pass the limit, or they pass `MAX_MONEY` though equal neighbours count once. -/
def Refused (superblock : CSuperblock) (nBlockHeight : ℤ) : Prop :=
  isValidBlockHeight p nBlockHeight = false ∨
    (∀ fuel nPaymentsLimit, getPaymentsLimit network fuel p nBlockHeight = some nPaymentsLimit →
      nPaymentsLimit < superblock.total) ∨
    MAX_MONEY < (superblock.merged.map CTxOut.nValue).sum

variable {network p}

theorem Accepts.not_refused {superblock : CSuperblock} {txNew : CTransaction}
    {nBlockHeight blockReward : ℤ} {fuel : ℕ}
    (h : Accepts network fuel p superblock txNew nBlockHeight blockReward) :
    ¬Refused network p superblock nBlockHeight := by
  rintro (hheight | hlimit | hmax)
  · rw [h.height] at hheight
    cases hheight
  · obtain ⟨nPaymentsLimit, hsome, hle⟩ := h.limit
    have := hlimit _ _ hsome
    omega
  · obtain ⟨nBlockValue, hsome, -⟩ := h.value
    obtain ⟨hnonneg, hsum, hle⟩ := (getValueOut_eq_some_iff le_rfl (by decide)).mp hsome
    have hpart : (superblock.merged.map CTxOut.nValue).sum ≤ (txNew.vout.map CTxOut.nValue).sum :=
      (h.found.map CTxOut.nValue).sum_le_sum (by simpa using hnonneg)
    omega

/-- An output that pays nothing, to a script longer than those of the payments. -/
def filler (superblock : CSuperblock) : CTxOut :=
  ⟨0, OP_RETURN :: superblock.outputs.flatMap CTxOut.scriptPubKey⟩

theorem filler_not_mem (superblock : CSuperblock) : filler superblock ∉ superblock.outputs := by
  intro hmem
  have hlen : (filler superblock).scriptPubKey.length ≤
      (superblock.outputs.flatMap CTxOut.scriptPubKey).length := by
    rw [List.length_flatMap]
    exact List.single_le_sum (by simp) _ (List.mem_map_of_mem hmem)
  simp [filler] at hlen

/-- A coinbase that makes each payment once where neighbours are equal. -/
def mergedCoinbase (superblock : CSuperblock) : CTransaction where
  hash := 0
  nType := TRANSACTION_COINBASE
  vin := []
  vout := superblock.merged ++
    List.replicate (superblock.outputs.length-superblock.merged.length) (filler superblock)
  vExtraPayload := []

theorem not_sublist_mergedCoinbase {superblock : CSuperblock}
    (h : ¬superblock.outputs.IsChain (· ≠ ·)) :
    ¬superblock.outputs.Sublist (mergedCoinbase superblock).vout := by
  intro hsub
  have hfilter := hsub.filter (· != filler superblock)
  have hself : superblock.outputs.filter (· != filler superblock) = superblock.outputs := by
    apply List.filter_eq_self.mpr
    intro txout htxout
    have hne : txout ≠ filler superblock := by
      rintro rfl
      exact filler_not_mem superblock htxout
    simpa using hne
  rw [hself, mergedCoinbase, List.filter_append, List.filter_replicate] at hfilter
  have hlen := hfilter.length_le
  have hle := List.length_filter_le (· != filler superblock) superblock.merged
  have hlt : superblock.merged.length < superblock.outputs.length := length_destutter_lt h
  simp at hlen
  omega

/-- It is accepted where anything can be. -/
theorem accepts_mergedCoinbase {superblock : CSuperblock} {nBlockHeight : ℤ}
    (hfits : InRange 64 superblock.total) (h : ¬Refused network p superblock nBlockHeight) :
    ∃ fuel, Accepts network fuel p superblock (mergedCoinbase superblock) nBlockHeight 0 := by
  obtain ⟨hheight, hlimit, hmax⟩ := not_or.mp h |>.imp_right not_or.mp
  push Not at hlimit
  obtain ⟨fuel, nPaymentsLimit, hsome, hle⟩ := hlimit
  have hlen : (mergedCoinbase superblock).vout.length = superblock.vecPayments.length := by
    have := superblock.merged_sublist.length_le
    have := superblock.length_outputs
    simp only [mergedCoinbase, List.length_append, List.length_replicate]
    omega
  have hsum : ((mergedCoinbase superblock).vout.map CTxOut.nValue).sum =
      (superblock.merged.map CTxOut.nValue).sum := by
    simp [mergedCoinbase, filler]
  have hnonneg : ∀ txout ∈ (mergedCoinbase superblock).vout, 0 ≤ txout.nValue := by
    intro txout htxout
    rcases List.mem_append.mp htxout with hmem | hmem
    · exact superblock.value_nonneg txout (superblock.merged_sublist.subset hmem)
    · rw [List.eq_of_mem_replicate hmem]
      exact le_rfl
  have hvalue := (getValueOut_eq_some_iff (v := ((mergedCoinbase superblock).vout.map
    CTxOut.nValue).sum) le_rfl (by decide)).mpr ⟨hnonneg, (zero_add _).symm, by omega⟩
  refine ⟨fuel, by simpa using hheight, hlen.ge, hfits, ⟨nPaymentsLimit, hsome, hle⟩, ?_,
    ⟨_, hvalue, ?_⟩, List.sublist_append_left _ _⟩
  · rwa [zero_add]
  · rw [hsum, zero_add]
    exact superblock.sum_merged_le

variable (network p)

/-- A superblock pays every payment separately just when their total fits in 64 bits and no two
neighbours are equal, or when nothing is accepted at all. -/
theorem paysSeparately_iff (superblock : CSuperblock) (nBlockHeight : ℤ) :
    PaysSeparately network p superblock nBlockHeight ↔
      InRange 64 superblock.total ∧
        (superblock.outputs.IsChain (· ≠ ·) ∨ Refused network p superblock nBlockHeight) := by
  constructor
  · intro h
    have hfits := h.no_overflow
    rw [superblock.getPaymentsTotalAmount_eq, checked_eq_some_iff] at hfits
    refine ⟨hfits.1, ?_⟩
    by_contra hneither
    obtain ⟨hchain, hrefused⟩ := not_or.mp hneither
    obtain ⟨fuel, haccepts⟩ := accepts_mergedCoinbase hfits.1 hrefused
    exact not_sublist_mergedCoinbase hchain
      (h.separate fuel _ 0 ((superblock.isValid_iff network fuel p _ _ _).mpr haccepts))
  · rintro ⟨hfits, hmatch⟩
    refine ⟨?_, ?_, ?_, ?_⟩
    · rw [superblock.getPaymentsTotalAmount_eq, checked_of_inRange hfits]
    · intro fuel txNew blockReward hvalid
      have haccepts := (superblock.isValid_iff network fuel p _ _ _).mp hvalid
      have hchain := hmatch.resolve_right haccepts.not_refused
      have hself : superblock.merged = superblock.outputs :=
        List.destutter_of_isChain _ _ hchain
      rw [← hself]
      exact haccepts.found
    · intro fuel txNew blockReward hvalid
      exact ((superblock.isValid_iff network fuel p _ _ _).mp hvalid).limit
    · intro fuel txNew blockReward hvalid
      obtain ⟨nBlockValue, hsome, hle⟩ :=
        ((superblock.isValid_iff network fuel p _ _ _).mp hvalid).value
      exact ⟨nBlockValue, hsome, by omega⟩

/-- The main network. -/
def mainSuperblockParams : SuperblockParams where
  toParams := mainParams
  nSuperblockStartBlock := ⟨614820, by decide⟩
  nSuperblockCycle := ⟨16616, by decide⟩
  fPowAllowMinDifficultyBlocks := false
  powLimit := 0xffffffffffffffffffffffffffffffffffffffffffffffffffffffffff0f0000
  cycle_pos := by decide

/-- The main network, with a halving interval that lets the limit be computed. -/
def halvingSuperblockParams : SuperblockParams where
  toParams := {mainParams with nSubsidyHalvingInterval := ⟨4000000, by decide⟩}
  nSuperblockStartBlock := ⟨614820, by decide⟩
  nSuperblockCycle := ⟨16616, by decide⟩
  fPowAllowMinDifficultyBlocks := false
  powLimit := 0xffffffffffffffffffffffffffffffffffffffffffffffffffffffffff0f0000
  cycle_pos := by decide

/-- A trigger that makes the same payment `n` times. -/
def repeatedTrigger (n : ℕ) (strAmount : List Char) (nAmount : ℤ)
    (h : parsePaymentAmount strAmount = .ok nAmount) : CSuperblock where
  nGovObjHash := 1
  nBlockHeight := 1993920
  vecPayments := List.replicate n ⟨[0x51], nAmount, 7⟩
  parsed := by
    intro payment hpayment
    rw [List.eq_of_mem_replicate hpayment]
    exact ⟨strAmount, h⟩

/-- Two equal payments are found in one output, and the total of ninety-three payments of the
largest amount overflows. -/
theorem equal_neighbours_share_an_output :
    ¬PaysSeparately .main halvingSuperblockParams
        (repeatedTrigger 2 ['1'] 100000000 (by decide)) 1993920 ∧
      ¬PaysSeparately .main mainSuperblockParams
        (repeatedTrigger 93 ['1', '0', '0', '0', '0', '0', '0', '0', '0', '0'] MAX_MONEY
          (by decide)) 1993920 := by
  constructor
  · intro h
    have hsub := h.separate 1
      ⟨0, TRANSACTION_COINBASE, [], [⟨100000000, [0x51]⟩, ⟨500000000, [0x52]⟩], []⟩ 600000000
      (by decide)
    revert hsub
    decide
  · intro h
    have hsum := h.no_overflow
    revert hsum
    decide

end BabaChain.Governance
