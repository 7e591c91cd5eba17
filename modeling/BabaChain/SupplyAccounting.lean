import BabaChain.SupplyCap

/-! The two closed products of the staking module that account for the issued
supply, compared with the replay of the block subsidies. -/
namespace BabaChain
open MachineInt

/-- `(nHeight - 1) * nInitialBlockReward`, the factor being an `int`. -/
def distributedRewards (nHeight : ℤ) (p : Params) : Option ℤ := do
  let nBlocks ← checked 32 (nHeight-1)
  checked 64 (nBlocks*p.nInitialBlockReward)

/-- `IsSupplyCapEnforced`. -/
def isSupplyCapEnforced (nHeight : ℤ) (p : Params) : Option Bool := do
  let totalSupply : ℤ := p.nPremineAmount
  let totalSupply ←
    if nHeight > 0 then
      (distributedRewards nHeight p).bind fun r => checked 64 (totalSupply+r)
    else
      some totalSupply
  return decide ((p.nMaxSupply : ℤ) ≤ totalSupply)

/-- `GetRemainingStakingSupply`. -/
def getRemainingStakingSupply (nHeight : ℤ) (p : Params) : Option ℤ := do
  let distributed ← if nHeight > 0 then distributedRewards nHeight p else some 0
  if (p.nStakingSupply : ℤ) ≤ distributed then
    return 0
  checked 64 (p.nStakingSupply-distributed)

/-- The supply parameters have the default values of the source; the other
parameters are free. -/
structure Params.DefaultSupply (p : Params) : Prop where
  max_eq : (p.nMaxSupply : ℤ) = 1000000000*COIN
  premine_eq : (p.nPremineAmount : ℤ) = 20000000*COIN
  staking_eq : (p.nStakingSupply : ℤ) = 190000000*COIN
  reward_eq : (p.nInitialBlockReward : ℤ) = 200*COIN

variable {p : Params}

theorem mainParams_defaultSupply : mainParams.DefaultSupply := by
  constructor <;> rfl

theorem Params.DefaultSupply.bounds (hp : p.DefaultSupply) : p.SupplyBounds := by
  have hm := hp.max_eq
  have hpre := hp.premine_eq
  have hr := hp.reward_eq
  unfold COIN at hm hpre hr
  constructor <;> omega

theorem distributedRewards_eq_some_iff (hp : p.DefaultSupply) {h r : ℤ} (h0 : 0 < h)
    (hmax : h ≤ intMax 32) :
    distributedRewards h p = some r ↔
      (h-1)*(200*COIN) ≤ intMax 64 ∧ r = (h-1)*(200*COIN) := by
  unfold distributedRewards
  rw [checked_of_inRange (inRange_of_between (by omega) (by omega)), hp.reward_eq]
  simp only [Option.bind_eq_bind, Option.bind_some, checked_eq_some_iff, inRange_iff_le_intMax]
  unfold COIN
  rw [intMax_64]
  omega

/-- The height up to which the staking module's products fit an `int64_t`. -/
def lastAccountedHeight : ℤ := 461068602

theorem isSupplyCapEnforced_eq_some_iff (hp : p.DefaultSupply) {h : ℤ} {b : Bool} (h0 : 0 < h)
    (hmax : h ≤ intMax 32) :
    isSupplyCapEnforced h p = some b ↔
      h ≤ lastAccountedHeight ∧ (b = true ↔ 4900001 ≤ h) := by
  have hsum : ((p.nPremineAmount : ℤ)+(h-1)*(200*COIN) ≤ intMax 64 ↔ h ≤ lastAccountedHeight) ∧
      ((p.nMaxSupply : ℤ) ≤ p.nPremineAmount+(h-1)*(200*COIN) ↔ 4900001 ≤ h) ∧
      -intMax 64-1 ≤ (p.nPremineAmount : ℤ)+(h-1)*(200*COIN) ∧
      (h ≤ lastAccountedHeight → (h-1)*(200*COIN) ≤ intMax 64) := by
    rw [hp.premine_eq, hp.max_eq, intMax_64]
    unfold COIN lastAccountedHeight
    omega
  obtain ⟨hfit, hcap, hlow, hprod⟩ := hsum
  unfold isSupplyCapEnforced
  rw [if_pos h0]
  simp only [Option.bind_eq_bind, Option.bind_eq_some_iff, distributedRewards_eq_some_iff hp h0 hmax,
    checked_eq_some_iff, inRange_iff_le_intMax, Option.pure_def, Option.some.injEq]
  constructor
  · rintro ⟨t, ⟨r, ⟨_, rfl⟩, ⟨_, ht⟩, rfl⟩, rfl⟩
    exact ⟨hfit.mp ht, by rw [decide_eq_true_iff, hcap]⟩
  · rintro ⟨hl, hb⟩
    refine ⟨_, ⟨_, ⟨hprod hl, rfl⟩, ⟨hlow, hfit.mpr hl⟩, rfl⟩, ?_⟩
    rw [Bool.eq_iff_iff, decide_eq_true_iff, hcap, hb]

theorem getRemainingStakingSupply_eq_some_iff (hp : p.DefaultSupply) {h v : ℤ} (h0 : 0 < h)
    (hmax : h ≤ intMax 32) :
    getRemainingStakingSupply h p = some v ↔
      (h-1)*(200*COIN) ≤ intMax 64 ∧ v = max 0 (190000000*COIN-(h-1)*(200*COIN)) := by
  unfold getRemainingStakingSupply
  rw [if_pos h0]
  simp only [Option.bind_eq_bind, Option.bind_eq_some_iff, distributedRewards_eq_some_iff hp h0 hmax]
  have hstep (d : ℤ) (hd : 0 ≤ d) :
      (if (p.nStakingSupply : ℤ) ≤ d then some 0 else checked 64 (p.nStakingSupply-d)) =
        some (max 0 (190000000*COIN-d)) := by
    rw [hp.staking_eq]
    split
    · rw [max_eq_left (by omega)]
    · rw [max_eq_right (by omega)]
      apply checked_of_inRange
      unfold COIN at *
      constructor <;> omega
  have hnn : 0 ≤ (h-1)*(200*COIN) := by
    unfold COIN
    omega
  constructor
  · rintro ⟨d, ⟨hfit, rfl⟩, hv⟩
    exact ⟨hfit, (Option.some.inj ((hstep _ hnn).symm.trans hv)).symm⟩
  · rintro ⟨hfit, rfl⟩
    exact ⟨_, ⟨hfit, rfl⟩, hstep _ hnn⟩

/-- Agreement of the three accountings of the issued supply at a height. -/
structure SupplyAccountsAgree (p : Params) (h : ℤ) : Prop where
  cap : ∃ (b : Bool) (nTotal nNext : ℤ), isSupplyCapEnforced h p = some b ∧
    getBabaChainCirculatingSupply h p = some nTotal ∧
    (checked 32 (h+1)).bind (getBabaChainPoSSubsidy · p) = some nNext ∧
    (b = true ↔ (p.nMaxSupply : ℤ) ≤ nTotal) ∧ (b = true ↔ nNext = 0)
  remaining : ∃ nTotal : ℤ, getBabaChainCirculatingSupply h p = some nTotal ∧
    getRemainingStakingSupply h p = some (max 0 (p.nPremineAmount+p.nStakingSupply-nTotal))

theorem default_replayLeaves (hp : p.DefaultSupply) (h : ℤ) : ReplayLeaves p h := by
  refine Or.inr (Or.inr ?_)
  rw [hp.max_eq, hp.premine_eq, hp.reward_eq, intMax_32]
  decide

theorem issuedSupply_default (hp : p.DefaultSupply) (h : ℤ) :
    issuedSupply p h = min (1000000000*COIN) (20000000*COIN+h*(200*COIN)) := by
  rw [issuedSupply, hp.max_eq, hp.premine_eq, hp.reward_eq]

theorem next_subsidy_default (hp : p.DefaultSupply) {h : ℤ} (h0 : 0 ≤ h) (hmax : h < intMax 32) :
    (checked 32 (h+1)).bind (getBabaChainPoSSubsidy · p) =
      some (issuedSupply p (h+1)-issuedSupply p h) := by
  rw [checked_of_inRange (inRange_of_between (by omega) (by omega)), Option.bind_some,
    posSubsidy_eq_issued_diff hp.bounds (by omega) (by omega), add_sub_cancel_right]

/-- The accountings agree at genesis and once the staking pool is used up, while
the products fit, except at the height that reaches the cap. -/
theorem supply_accounts_agree_iff (hp : p.DefaultSupply) (h : ℤ) (h0 : 0 ≤ h)
    (hmax : h ≤ intMax 32) :
    SupplyAccountsAgree p h ↔
      h = 0 ∨ (950001 ≤ h ∧ h ≤ lastAccountedHeight ∧ h ≠ 4900000) := by
  have hcirc := circulatingSupply_eq_issued hp.bounds h0 hmax (default_replayLeaves hp h)
  have hpool : (p.nPremineAmount : ℤ)+p.nStakingSupply = 210000000*COIN := by
    rw [hp.premine_eq, hp.staking_eq]
    ring
  rcases eq_or_lt_of_le h0 with rfl | hpos
  · -- at genesis every account takes its branch for height zero
    refine iff_of_true ⟨⟨false, _, _, ?_, hcirc, next_subsidy_default hp le_rfl (by decide), ?_, ?_⟩,
      ⟨_, hcirc, ?_⟩⟩ (Or.inl rfl)
    · unfold isSupplyCapEnforced
      rw [if_neg (lt_irrefl _), hp.premine_eq, hp.max_eq]
      rfl
    · rw [issuedSupply_default hp, hp.max_eq]
      decide
    · rw [issuedSupply_default hp, issuedSupply_default hp]
      decide
    · unfold getRemainingStakingSupply
      rw [if_neg (lt_irrefl _), hpool, issuedSupply_default hp]
      simp only [Option.bind_eq_bind, Option.bind_some, hp.staking_eq]
      decide
  constructor
  · rintro ⟨⟨b, t, n, hb, ht, hn, hbt, hbn⟩, ⟨t', ht', hr⟩⟩
    rw [hcirc, Option.some.injEq] at ht ht'
    subst ht ht'
    obtain ⟨hlast, hb⟩ := (isSupplyCapEnforced_eq_some_iff hp hpos hmax).mp hb
    obtain ⟨_, hr⟩ := (getRemainingStakingSupply_eq_some_iff hp hpos hmax).mp hr
    rw [hpool, issuedSupply_default hp] at hr
    -- the rest is arithmetic on the closed forms of the three accounts
    rw [hb, issuedSupply_default hp, hp.max_eq] at hbt
    unfold COIN at hr hbt
    refine Or.inr ⟨?_, hlast, ?_⟩ <;> omega
  · rintro (rfl | ⟨hlow, hlast, hne⟩)
    · exact absurd hpos (lt_irrefl _)
    have hlt : h < intMax 32 := by
      rw [intMax_32]
      unfold lastAccountedHeight at hlast
      omega
    refine ⟨⟨decide (4900001 ≤ h), _, _, ?_, hcirc, next_subsidy_default hp h0 hlt, ?_, ?_⟩,
      ⟨_, hcirc, ?_⟩⟩
    · rw [isSupplyCapEnforced_eq_some_iff hp hpos hmax, decide_eq_true_iff]
      exact ⟨hlast, Iff.rfl⟩
    · rw [decide_eq_true_iff, issuedSupply_default hp, hp.max_eq]
      unfold COIN
      omega
    · rw [decide_eq_true_iff, issuedSupply_default hp, issuedSupply_default hp]
      unfold COIN
      omega
    · rw [getRemainingStakingSupply_eq_some_iff hp hpos hmax, hpool, issuedSupply_default hp]
      unfold COIN
      unfold lastAccountedHeight at hlast
      rw [intMax_64]
      omega

theorem supply_accounts_agree_main :
    SupplyAccountsAgree mainParams 0 ↔ (0:ℤ) = 0 ∨
      (950001 ≤ (0:ℤ) ∧ (0:ℤ) ≤ lastAccountedHeight ∧ (0:ℤ) ≠ 4900000) :=
  supply_accounts_agree_iff mainParams_defaultSupply 0 le_rfl (by decide)

/-- The block that reaches the cap: the replay is full, the product is one
reward short. -/
theorem supply_accounts_differ_at_cap :
    getBabaChainCirculatingSupply 4900000 mainParams = some ↑mainParams.nMaxSupply ∧
      isSupplyCapEnforced 4900000 mainParams = some false ∧
      ¬SupplyAccountsAgree mainParams 4900000 := by
  have hp := mainParams_defaultSupply
  have hcirc := circulatingSupply_eq_issued hp.bounds (show (0:ℤ) ≤ 4900000 by decide)
    (by decide) (default_replayLeaves hp 4900000)
  have hcap : isSupplyCapEnforced 4900000 mainParams = some false := by decide
  refine ⟨hcirc.trans (by rw [issuedSupply_default hp]; decide), hcap, ?_⟩
  rintro ⟨⟨b, t, _, hb, ht, _, hbt, _⟩, _⟩
  rw [hcap, Option.some.injEq] at hb
  rw [hcirc, Option.some.injEq] at ht
  subst hb ht
  rw [issuedSupply_default hp] at hbt
  exact absurd hbt (by decide)

end BabaChain
