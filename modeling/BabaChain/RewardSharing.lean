import BabaChain.CreditPool
import BabaChain.Lib.Shares
import BabaChain.StakingState

/-! The functions that share a reward out by stake, and when their 64-bit arithmetic fits.
An overflow, of a conversion from a real number too, is `none`. -/
namespace BabaChain.Staking
open MachineInt Shares
open CreditPool (MAX_MONEY moneyRange)

/-! ### Individual rewards -/

/-- `dBonusPercentage` as the exact number. -/
def bonusPercentage (nStakeAmount : ℤ) : Option ℚ :=
  if 100000*COIN ≤ nStakeAmount then
    some 20
  else if 10000*COIN ≤ nStakeAmount then
    (checked 64 (nStakeAmount-10000*COIN)).map fun n : ℤ => 5+15*((n : ℚ)/(90000*COIN : ℤ))
  else if 1*COIN ≤ nStakeAmount then
    (checked 64 (nStakeAmount-1*COIN)).map fun n : ℤ => 5*((n : ℚ)/(9999*COIN : ℤ))
  else
    some 0

/-- The conversion of a real number to `CAmount`, towards zero. -/
def toAmount (x : ℚ) : Option ℤ := checked 64 (x.num.tdiv x.den)

def calculateIndividualStakingReward (nStakeAmount nTotalNetworkStake nBlockReward : ℤ) :
    Option ℤ :=
  if nStakeAmount ≤ 0 then
    some 0
  else if nTotalNetworkStake ≤ 0 then
    some 0
  else do
    let nProduct ← checked 64 (nBlockReward*nStakeAmount)
    let nProportionalReward ← checkedDiv 64 nProduct nTotalNetworkStake
    let dBonusPercentage ← bonusPercentage nStakeAmount
    let dBonusMultiplier := 1+dBonusPercentage/100
    toAmount (nProportionalReward*dBonusMultiplier)

/-! ### `DistributeStakingRewards` of `validation.cpp` -/

/-- The variables of the loop, and what it would credit to the validators. -/
structure Distribution where
  nDistributedRewards : ℤ := 0
  nRemainingReward : ℤ
  credited : List ℤ := []
deriving DecidableEq

/-- The turns for the rest of the stakes. The last index is that with nothing after it. -/
def Distribution.share (nTotalReward nTotalStake : ℤ) : List ℤ → Distribution → Option Distribution
  | [], d => some d
  | nStake :: rest, d =>
    if nStake ≤ 0 then
      share nTotalReward nTotalStake rest d
    else if rest = [] then do
      let nDistributedRewards ← checked 64 (d.nDistributedRewards+d.nRemainingReward)
      share nTotalReward nTotalStake rest
        {d with nDistributedRewards, credited := d.credited++[d.nRemainingReward]}
    else do
      let nProduct ← checked 64 (nTotalReward*nStake)
      let nValidatorReward ← checkedDiv 64 nProduct nTotalStake
      let nRemainingReward ← checked 64 (d.nRemainingReward-nValidatorReward)
      let nDistributedRewards ← checked 64 (d.nDistributedRewards+nValidatorReward)
      share nTotalReward nTotalStake rest
        ⟨nDistributedRewards, nRemainingReward, d.credited++[nValidatorReward]⟩

def positives (vStakeAmounts : List ℤ) : List ℤ := vStakeAmounts.filter (0 < ·)

/-- `DistributeStakingRewards`, with the amounts that it credits. -/
def Distribution.distributeStakingRewards (vStakeAmounts : List ℤ) (nTotalReward : ℤ) :
    Option Distribution :=
  if vStakeAmounts = [] ∨ nTotalReward ≤ 0 then
    some {nRemainingReward := 0}
  else do
    let nTotalStake ← checkedSum 64 (positives vStakeAmounts) 0
    if nTotalStake ≤ 0 then
      return {nRemainingReward := 0}
    else
      Distribution.share nTotalReward nTotalStake vStakeAmounts {nRemainingReward := nTotalReward}

/-! ### `DistributeStakingRewards` of `pos.cpp` -/

structure CStakeInput where
  prevout : COutPoint
  nValue : ℤ
  nTime : ℤ
  hashBlock : uint256
deriving DecidableEq

/-- The loop over the validators: their rewards and the sum of these. -/
def shareOut (totalReward totalStake : ℤ) :
    List CStakeInput → List ℤ × ℤ → Option (List ℤ × ℤ)
  | [], s => some s
  | v :: validators, s => do
    let product ← checked 64 (totalReward*v.nValue)
    let validatorReward ← checkedDiv 64 product totalStake
    let distributedReward ← checked 64 (s.2+validatorReward)
    shareOut totalReward totalStake validators (s.1++[validatorReward], distributedReward)

/-- The search for the largest stake, up to the index `k`. -/
def largestIndex (stakes : List ℤ) (k : ℕ) : ℕ :=
  (List.range' 1 k).foldl
    (fun largest i => if stakes.getD largest 0 < stakes.getD i 0 then i else largest) 0

def largestStakeIndex (validators : List CStakeInput) : ℕ :=
  largestIndex (validators.map CStakeInput.nValue) (validators.length-1)

/-- `DistributeStakingRewards`: the answer and the rewards. -/
def distributeStakingRewards (validators : List CStakeInput) (totalReward : ℤ) (rewards : List ℤ) :
    Option (Bool × List ℤ) :=
  if validators = [] then
    some (false, rewards)
  else do
    let totalStake ← checkedSum 64 (validators.map CStakeInput.nValue) 0
    if totalStake = 0 then
      return (false, List.replicate validators.length 0)
    else do
      let (rewards, distributedReward) ← shareOut totalReward totalStake validators ([], 0)
      if distributedReward < totalReward then do
        let remainder ← checked 64 (totalReward-distributedReward)
        let largest := largestStakeIndex validators
        let reward ← checked 64 (rewards.getD largest 0+remainder)
        return (true, rewards.set largest reward)
      else
        return (true, rewards)

/-! ### The individual rewards -/

/-- The bonus of a stake that is in range. -/
def bonus (nStakeAmount : ℤ) : ℚ :=
  if 100000*COIN ≤ nStakeAmount then 20
  else if 10000*COIN ≤ nStakeAmount then
    5+15*(((nStakeAmount-10000*COIN : ℤ) : ℚ)/(90000*COIN : ℤ))
  else if 1*COIN ≤ nStakeAmount then
    5*(((nStakeAmount-1*COIN : ℤ) : ℚ)/(9999*COIN : ℤ))
  else 0

variable {s s' T R : ℤ}

theorem bonusPercentage_eq (h0 : 0 ≤ s) (hs : s ≤ intMax 64) :
    bonusPercentage s = some (bonus s) := by
  rw [intMax_64] at hs
  have hfits : ∀ c : ℤ, 0 ≤ c → c ≤ s → checked 64 (s-c) = some (s-c) := fun c hc hle =>
    checked_of_inRange (inRange_of_between (by omega) (by rw [intMax_64]; omega))
  unfold bonusPercentage bonus COIN
  split_ifs with h₁ h₂ h₃
  · rfl
  · rw [hfits _ (by norm_num) h₂, Option.map_some]
  · rw [hfits _ (by norm_num) h₃, Option.map_some]
  · rfl

theorem bonus_nonneg (s : ℤ) : 0 ≤ bonus s := by
  unfold bonus COIN
  split_ifs with h₁ h₂ h₃
  · norm_num
  · have hle : (0 : ℚ) ≤ ((s-10000*100000000 : ℤ) : ℚ) := by exact_mod_cast sub_nonneg.mpr h₂
    positivity
  · have hle : (0 : ℚ) ≤ ((s-1*100000000 : ℤ) : ℚ) := by exact_mod_cast sub_nonneg.mpr h₃
    positivity
  · exact le_rfl

/-- The percentage does not fall at the seams either. -/
theorem bonus_mono (h : s ≤ s') : bonus s ≤ bonus s' := by
  have hcast : (s : ℚ) ≤ s' := by exact_mod_cast h
  unfold bonus COIN
  split_ifs
  all_goals
    push_cast
    qify at *
    linarith

theorem bonus_le (s : ℤ) : bonus s ≤ 20 := by
  rcases le_total s (100000*COIN) with h | h
  · exact (bonus_mono h).trans_eq (if_pos le_rfl)
  · exact (if_pos h).le

theorem bonus_eq_zero (h : s ≤ 1*COIN) : bonus s = 0 := by
  refine le_antisymm ((bonus_mono h).trans_eq ?_) (bonus_nonneg s)
  unfold bonus COIN
  norm_num

theorem toAmount_eq {x : ℚ} (h0 : 0 ≤ x) : toAmount x = checked 64 ⌊x⌋ := by
  rw [toAmount, Int.tdiv_eq_ediv_of_nonneg (Rat.num_nonneg.mpr h0), Rat.floor_def']

theorem share_le (hR : 0 ≤ R) (h0 : 0 ≤ s) (hT : 0 < T) (hle : s ≤ T) : share R T s ≤ R := by
  have hsum := @sum_shares_le _ _ [s] hR hT (by simpa using h0) (by simpa using hle)
  simpa using hsum

/-- A reward with its bonus. -/
def withBonus (T R s : ℤ) : ℤ := ⌊(share R T s : ℚ)*(1+bonus s/100)⌋

theorem withBonus_mono (hR : 0 ≤ R) (hT : 0 < T) (h0 : 0 ≤ s) (hle : s ≤ s') :
    withBonus T R s ≤ withBonus T R s' := by
  refine Int.floor_le_floor (mul_le_mul ?_ ?_ ?_ ?_)
  · exact_mod_cast share_mono hR hT h0 hle
  · linarith [bonus_mono hle]
  · linarith [bonus_nonneg s]
  · exact_mod_cast share_nonneg hR hT.le (h0.trans hle)

theorem withBonus_nonneg (hR : 0 ≤ R) (hT : 0 < T) (h0 : 0 ≤ s) : 0 ≤ withBonus T R s := by
  refine Int.floor_nonneg.mpr (mul_nonneg ?_ ?_)
  · exact_mod_cast share_nonneg hR hT.le h0
  · linarith [bonus_nonneg s]

/-- The bonus adds at most a fifth. -/
theorem five_withBonus_le (hR : 0 ≤ R) (hT : 0 < T) (h0 : 0 ≤ s) :
    5*withBonus T R s ≤ 6*share R T s := by
  have hfloor : (withBonus T R s : ℚ) ≤ share R T s*(1+bonus s/100) := Int.floor_le _
  have hshare : (0 : ℚ) ≤ share R T s := by exact_mod_cast share_nonneg hR hT.le h0
  have hbonus : (share R T s : ℚ)*(1+bonus s/100) ≤ share R T s*(6/5) :=
    mul_le_mul_of_nonneg_left (by linarith [bonus_le s]) hshare
  have hboth : (5*withBonus T R s : ℚ) ≤ 6*share R T s := by linarith
  exact_mod_cast hboth

theorem withBonus_eq_share (hs : s ≤ 1*COIN) : withBonus T R s = share R T s := by
  rw [withBonus, bonus_eq_zero hs, zero_div, add_zero, mul_one, Int.floor_intCast]

/-- The reward is the share with the bonus, if the product and then the reward fit. -/
theorem calculateIndividualStakingReward_eq (hR : 0 ≤ R) (h0 : 0 < s) (hT : 0 < T)
    (hs : s ≤ intMax 64) : calculateIndividualStakingReward s T R =
      (checked 64 (R*s)).bind fun _ => checked 64 (withBonus T R s) := by
  unfold calculateIndividualStakingReward
  rw [if_neg (not_le.mpr h0), if_neg (not_le.mpr hT)]
  by_cases hfits : InRange 64 (R*s)
  · have hnonneg := share_nonneg hR hT.le h0.le
    have hle : share R T s ≤ R*s := Int.tdiv_le_self _ (mul_nonneg hR h0.le)
    have hdiv : checkedDiv 64 (R*s) T = some (share R T s) :=
      checkedDiv_eq_some_iff.mpr ⟨hT.ne', inRange_of_between hnonneg
        (hle.trans (inRange_iff_le_intMax.mp hfits).2), rfl⟩
    rw [checked_of_inRange hfits]
    dsimp only [Option.bind_eq_bind, Option.bind_some]
    rw [hdiv, Option.bind_some, bonusPercentage_eq h0.le hs, Option.bind_some]
    exact toAmount_eq (mul_nonneg (by exact_mod_cast hnonneg) (by linarith [bonus_nonneg s]))
  · rw [checked_eq_none hfits]
    rfl

/-- Only the product can overflow where the stake is part of the total. -/
theorem withBonus_fits (hR : 0 ≤ R) (h0 : 0 < s) (hle : s ≤ T) (hfits : R*s ≤ intMax 64) :
    InRange 64 (withBonus T R s) := by
  have hT := h0.trans_le hle
  have hshare := share_le hR h0.le hT hle
  refine inRange_of_between (withBonus_nonneg hR hT h0.le) ?_
  rcases le_total s (1*COIN) with hs | hs
  · rw [withBonus_eq_share hs]
    exact (Int.tdiv_le_self _ (mul_nonneg hR h0.le)).trans hfits
  · have hsmall : R*(1*COIN) ≤ intMax 64 := (mul_le_mul_of_nonneg_left hs hR).trans hfits
    have hbonus := five_withBonus_le hR hT h0.le
    rw [intMax_64] at hsmall ⊢
    unfold COIN at hsmall
    omega

theorem calculateIndividualStakingReward_fits (hR : 0 ≤ R) (h0 : 0 < s) (hle : s ≤ T)
    (hs : s ≤ intMax 64) (hfits : R*s ≤ intMax 64) :
    calculateIndividualStakingReward s T R = some (withBonus T R s) := by
  rw [calculateIndividualStakingReward_eq hR h0 (h0.trans_le hle) hs,
    checked_of_inRange (inRange_of_between (mul_nonneg hR h0.le) hfits), Option.bind_some,
    checked_of_inRange (withBonus_fits hR h0 hle hfits)]

theorem calculateIndividualStakingReward_some (hR : 0 ≤ R) (hs : s ≤ intMax 64) {r : ℤ}
    (h : calculateIndividualStakingReward s T R = some r) :
    (s ≤ 0 ∨ T ≤ 0) ∧ r = 0 ∨ (0 < s ∧ 0 < T) ∧ r = withBonus T R s := by
  rcases le_or_gt s 0 with h0 | h0
  · rw [calculateIndividualStakingReward, if_pos h0, Option.some.injEq] at h
    exact Or.inl ⟨Or.inl h0, h.symm⟩
  rcases le_or_gt T 0 with hT | hT
  · rw [calculateIndividualStakingReward, if_neg (not_le.mpr h0), if_pos hT, Option.some.injEq] at h
    exact Or.inl ⟨Or.inr hT, h.symm⟩
  rw [calculateIndividualStakingReward_eq hR h0 hT hs, Option.bind_eq_some_iff] at h
  obtain ⟨_, -, h⟩ := h
  exact Or.inr ⟨⟨h0, hT⟩, (checked_eq_some_iff.mp h).2.symm⟩

/-- The individual rewards add up to at most six fifths of the block reward, to at most the
block reward where no stake is above one coin, and a larger stake has no smaller reward. -/
theorem individual_rewards_bounded (stakes : List ℤ) (nBlockReward : ℤ)
    (hpos : ∀ s ∈ stakes, 0 < s) (hint : ∀ s ∈ stakes, s ≤ intMax 64) (hR : 0 ≤ nBlockReward)
    (hfits : ∀ s ∈ stakes, nBlockReward*s ≤ intMax 64) :
    (∃ rewards, List.Forall₂
        (fun s r => calculateIndividualStakingReward s stakes.sum nBlockReward = some r)
        stakes rewards ∧ 5*rewards.sum ≤ 6*nBlockReward ∧
        ((∀ s ∈ stakes, s ≤ 1*COIN) → rewards.sum ≤ nBlockReward)) ∧
      ∀ T s s' r r', s ≤ s' → s' ≤ intMax 64 →
        calculateIndividualStakingReward s T nBlockReward = some r →
        calculateIndividualStakingReward s' T nBlockReward = some r' → r ≤ r' := by
  have hnonneg : ∀ s ∈ stakes, 0 ≤ s := fun s hs => (hpos s hs).le
  have hshares : (stakes.map (share nBlockReward stakes.sum)).sum ≤ nBlockReward := by
    cases stakes with
    | nil => exact hR
    | cons s stakes =>
      have hs : s ≤ (s :: stakes).sum := List.single_le_sum hnonneg s List.mem_cons_self
      exact sum_shares_le hR ((hpos s List.mem_cons_self).trans_le hs) hnonneg le_rfl
  constructor
  · refine ⟨stakes.map (withBonus stakes.sum nBlockReward), ?_, ?_, fun hsmall => ?_⟩
    · rw [List.forall₂_map_right_iff, List.forall₂_same]
      intro s hs
      exact calculateIndividualStakingReward_fits hR (hpos s hs)
        (List.single_le_sum hnonneg s hs) (hint s hs) (hfits s hs)
    · calc 5*(stakes.map (withBonus stakes.sum nBlockReward)).sum
          = (stakes.map fun s => 5*withBonus stakes.sum nBlockReward s).sum :=
            (List.sum_map_mul_left _ _ _).symm
        _ ≤ (stakes.map fun s => 6*share nBlockReward stakes.sum s).sum :=
            List.sum_le_sum fun s hs => five_withBonus_le hR
              ((hpos s hs).trans_le (List.single_le_sum hnonneg s hs)) (hnonneg s hs)
        _ = 6*(stakes.map (share nBlockReward stakes.sum)).sum := List.sum_map_mul_left _ _ _
        _ ≤ 6*nBlockReward := mul_le_mul_of_nonneg_left hshares (by norm_num)
    · rw [List.map_congr_left fun s hs => withBonus_eq_share (hsmall s hs)]
      exact hshares
  · intro T s s' r r' hle hs' hr hr'
    rcases calculateIndividualStakingReward_some hR (hle.trans hs') hr with
      ⟨h0, rfl⟩ | ⟨⟨h0, hT⟩, rfl⟩
    · rcases calculateIndividualStakingReward_some hR hs' hr' with ⟨-, rfl⟩ | ⟨⟨h0', hT⟩, rfl⟩
      · exact le_rfl
      · exact withBonus_nonneg hR hT h0'.le
    · rcases calculateIndividualStakingReward_some hR hs' hr' with ⟨h0' | hT', -⟩ | ⟨-, rfl⟩
      · omega
      · omega
      · exact withBonus_mono hR hT h0.le hle

/-- Half of ten coins each, out of a reward that does not divide. -/
theorem individual_rewards_bounded_two :
    (∃ rewards, List.Forall₂
        (fun s r => calculateIndividualStakingReward s [5*COIN, 5*COIN].sum 7 = some r)
        [5*COIN, 5*COIN] rewards ∧ 5*rewards.sum ≤ 6*7 ∧
        ((∀ s ∈ [5*COIN, 5*COIN], s ≤ 1*COIN) → rewards.sum ≤ 7)) ∧
      ∀ T s s' r r', s ≤ s' → s' ≤ intMax 64 →
        calculateIndividualStakingReward s T 7 = some r →
        calculateIndividualStakingReward s' T 7 = some r' → r ≤ r' :=
  individual_rewards_bounded [5*COIN, 5*COIN] 7 (by decide) (by decide) (by decide) (by decide)

/-- The only staker, with a hundred thousand coins, gets six out of a reward of five. -/
theorem bonus_exceeds_reward :
    ¬∀ (stakes : List ℤ) (nBlockReward : ℤ), (∀ s ∈ stakes, 0 < s) → 0 ≤ nBlockReward →
      (∀ s ∈ stakes, nBlockReward*s ≤ intMax 64) → ∀ rewards : List ℤ, List.Forall₂
        (fun s r => calculateIndividualStakingReward s stakes.sum nBlockReward = some r)
        stakes rewards → rewards.sum ≤ nBlockReward := by
  intro h
  have hsix : calculateIndividualStakingReward (100000*COIN) [100000*COIN].sum 5 = some 6 := by
    decide +kernel
  exact absurd (h [100000*COIN] 5 (by decide) (by decide) (by decide) [6] (.cons hsix .nil))
    (by decide)

end BabaChain.Staking
