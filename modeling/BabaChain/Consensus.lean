import BabaChain.Lib.MachineInt

/-! The consensus parameters that the subsidy and staking code reads. -/
namespace BabaChain
open MachineInt

def COIN : ℤ := 100000000

/-- The network named by `Params().NetworkIDString()`. -/
inductive Network where
  | main
  | test
  | devnet
  | regtest
deriving DecidableEq, Repr

/-- `Consensus::Params`, with the default member initializers of the source. -/
structure Params where
  nSubsidyHalvingInterval : SInt 32
  nBudgetPaymentsStartBlock : SInt 32
  DIP0008Height : SInt 32
  V20Height : SInt 32
  nMaxSupply : SInt 64 := ⟨1000000000*COIN, by decide⟩
  nPremineAmount : SInt 64 := ⟨20000000*COIN, by decide⟩
  nStakingSupply : SInt 64 := ⟨190000000*COIN, by decide⟩
  nStakeMinAge : SInt 64 := ⟨8*60*60, by decide⟩
  nStakeMaxAge : SInt 64 := ⟨30*24*60*60, by decide⟩
  nMinStakeAmount : SInt 64 := ⟨1*COIN, by decide⟩
  nInitialBlockReward : SInt 64 := ⟨200*COIN, by decide⟩
  nHighSubsidyBlocks : SInt 32 := ⟨0, by decide⟩
  nHighSubsidyFactor : SInt 32 := ⟨1, by decide⟩
deriving DecidableEq

/-- The parameters of the main network: halving is disabled, the supply
parameters keep their defaults. -/
def mainParams : Params where
  nSubsidyHalvingInterval := ⟨0, by decide⟩
  nBudgetPaymentsStartBlock := ⟨328008, by decide⟩
  DIP0008Height := ⟨1088640, by decide⟩
  V20Height := ⟨1987776, by decide⟩

/-- The parameter ranges the supply schedule is meant for. -/
structure Params.SupplyBounds (p : Params) : Prop where
  premine_nonneg : 0 ≤ (p.nPremineAmount : ℤ)
  premine_le : (p.nPremineAmount : ℤ) ≤ p.nMaxSupply
  reward_nonneg : 0 ≤ (p.nInitialBlockReward : ℤ)
  sum_lt : (p.nMaxSupply : ℤ)+p.nInitialBlockReward < 2^63

theorem mainParams_supplyBounds : mainParams.SupplyBounds := by
  constructor <;> decide

end BabaChain
