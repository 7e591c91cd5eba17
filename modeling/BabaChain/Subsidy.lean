import BabaChain.Consensus

namespace BabaChain
open MachineInt

/-- `CalculateBaseStakingReward`. -/
def calculateBaseStakingReward (_nCurrentSupply : ℤ) (p : Params) : ℤ :=
  p.nInitialBlockReward

/-- `CalculateStakingReward`. -/
def calculateStakingReward (_nHeight nCurrentSupply : ℤ) (p : Params) : ℤ :=
  calculateBaseStakingReward nCurrentSupply p

/-- One iteration of the replay in `GetBabaChainCirculatingSupply`. -/
def circulatingSupplyBody (p : Params) (i nTotalSupply : ℤ) : Option (Flow ℤ) :=
  if (p.nMaxSupply : ℤ) ≤ nTotalSupply then
    some (.stop nTotalSupply)
  else
    (checked 64 (nTotalSupply+calculateStakingReward i nTotalSupply p)).map fun nNext =>
      if (p.nMaxSupply : ℤ) < nNext then .stop p.nMaxSupply else .next nNext

/-- `GetBabaChainCirculatingSupply`. The counter is an `int` that passes
`nHeight` after at most `nHeight+1` tests, or overflows. -/
def getBabaChainCirculatingSupply (nHeight : ℤ) (p : Params) : Option ℤ :=
  if nHeight ≤ 0 then
    some p.nPremineAmount
  else
    forLoop 32 nHeight 1 (circulatingSupplyBody p) (nHeight.toNat+1) 1 p.nPremineAmount

/-- `GetBabaChainPoSSubsidy`. -/
def getBabaChainPoSSubsidy (nHeight : ℤ) (p : Params) : Option ℤ :=
  if nHeight = 0 then
    some p.nPremineAmount
  else do
    let nPrevHeight ← checked 32 (nHeight-1)
    let nCurrentSupply ← getBabaChainCirculatingSupply nPrevHeight p
    if (p.nMaxSupply : ℤ) ≤ nCurrentSupply then
      return 0
    let nStakingReward := calculateStakingReward nHeight nCurrentSupply p
    let nNext ← checked 64 (nCurrentSupply+nStakingReward)
    -- the reward that would pass the maximum is cut to what is left
    if (p.nMaxSupply : ℤ) < nNext then
      checked 64 (p.nMaxSupply-nCurrentSupply)
    else
      return nStakingReward

/-- `ConvertBitsToDouble`. -/
def convertBitsToDouble (nBits : BitVec 32) : Float :=
  let nShift := ((nBits >>> 24) &&& 0xff#32).toNat
  let dDiff := (0x0000ffff : Float)/Float.ofNat (nBits &&& 0x00ffffff#32).toNat
  let dDiff := (fun d : Float => d*256.0)^[29-nShift] dDiff
  (fun d : Float => d/256.0)^[nShift-29] dDiff

/-- The clamp that follows each difficulty formula. -/
def clampSubsidy (lo hi n : ℤ) : ℤ :=
  if n > hi then hi else if n < lo then lo else n

/-- `nSubsidyBase` of `GetBlockSubsidyHelper`. -/
def subsidyBase (network : Network) (nPrevBits : BitVec 32) (nPrevHeight : ℤ) (p : Params)
    (fV20Active : Bool) : ℤ :=
  let dDiff : Float :=
    if nPrevHeight ≤ 4500 ∧ network = .main then
      (0x0000ffff : Float)/Float.ofNat (nPrevBits &&& 0x00ffffff#32).toNat
    else
      convertBitsToDouble nPrevBits
  let isDevnet := network = .devnet
  if fV20Active ∨ (isDevnet ∧ (p.nHighSubsidyBlocks : ℤ) ≤ nPrevHeight) then
    5
  else if nPrevHeight < 5465 then
    clampSubsidy 1 500 (1111.0/Float.pow (dDiff+1.0) 2.0).toInt64.toInt
  else if nPrevHeight < 17000 ∨ (dDiff ≤ 75 ∧ nPrevHeight < 24000) then
    clampSubsidy 25 500 (11111.0/Float.pow ((dDiff+51.0)/6.0) 2.0).toInt64.toInt
  else
    clampSubsidy 5 25 (2222222.0/Float.pow ((dDiff+2600.0)/9.0) 2.0).toInt64.toInt

/-- The yearly decline loop of `GetBlockSubsidyHelper`, for at most `fuel` turns.
`none` is a loop that has not ended or an overflow of its counter. -/
def yearlyDecline (fuel : ℕ) (nPrevHeight : ℤ) (p : Params) (nSubsidy : ℤ) : Option ℤ :=
  forLoop 32 nPrevHeight p.nSubsidyHalvingInterval
    (fun _ nSubsidy => some (.next (nSubsidy-nSubsidy.tdiv 14))) fuel
    p.nSubsidyHalvingInterval nSubsidy

/-- The high subsidy phase, asserted to be devnet's; the product wraps around. -/
def applyHighSubsidy (network : Network) (nPrevHeight : ℤ) (p : Params) (nSubsidy : ℤ) :
    Option ℤ :=
  if nPrevHeight < p.nHighSubsidyBlocks then
    if network = .devnet then some (wrap 64 (nSubsidy*p.nHighSubsidyFactor)) else none
  else
    some nSubsidy

/-- `nSuperblockPart` of `GetBlockSubsidyHelper`. -/
def superblockPart (nPrevHeight : ℤ) (p : Params) (fV20Active : Bool) (nSubsidy : ℤ) : ℤ :=
  if (p.nBudgetPaymentsStartBlock : ℤ) < nPrevHeight then
    nSubsidy.tdiv (if fV20Active then 5 else 10)
  else
    0

/-- `GetBlockSubsidyHelper`. -/
def getBlockSubsidyHelper (network : Network) (fuel : ℕ) (nPrevBits : BitVec 32)
    (nPrevHeight : ℤ) (p : Params) (fV20Active : Bool) : Option (ℤ × ℤ) := do
  let nSubsidyBase := subsidyBase network nPrevBits nPrevHeight p fV20Active
  let nSubsidy ← yearlyDecline fuel nPrevHeight p (wrap 64 (nSubsidyBase*COIN))
  let nSubsidy ← applyHighSubsidy network nPrevHeight p nSubsidy
  let nSuperblockPart := superblockPart nPrevHeight p fV20Active nSubsidy
  return (nSubsidy-nSuperblockPart, nSuperblockPart)

/-- `GetSuperblockSubsidyInner`. -/
def getSuperblockSubsidyInner (network : Network) (fuel : ℕ) (nPrevBits : BitVec 32)
    (nPrevHeight : ℤ) (p : Params) (fV20Active : Bool) : Option ℤ :=
  (getBlockSubsidyHelper network fuel nPrevBits nPrevHeight p fV20Active).map Prod.snd

/-- `GetBlockSubsidyInner`. -/
def getBlockSubsidyInner (network : Network) (fuel : ℕ) (nPrevBits : BitVec 32)
    (nPrevHeight : ℤ) (p : Params) (fV20Active : Bool) : Option ℤ :=
  if (p.nSubsidyHalvingInterval : ℤ) = 0 then
    (checked 32 (nPrevHeight+1)).bind fun nHeight => getBabaChainPoSSubsidy nHeight p
  else
    (getBlockSubsidyHelper network fuel nPrevBits nPrevHeight p fV20Active).map Prod.fst

end BabaChain
