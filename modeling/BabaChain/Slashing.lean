import BabaChain.StakingState

namespace BabaChain.Staking
open MachineInt

/-- `enum SlashingCondition`. -/
inductive SlashingCondition where
  | doubleSigning
  | longRangeAttack
  | unavailability
  | invalidBlock
  | equivocation
deriving DecidableEq, Repr

/-- The share of the stake that an offense costs; divisions truncate. -/
def basePenalty (nStakeAmount : ℤ) : SlashingCondition → ℤ
  | .doubleSigning => nStakeAmount.tdiv 2
  | .longRangeAttack => nStakeAmount
  | .unavailability => nStakeAmount.tdiv 20
  | .invalidBlock => nStakeAmount.tdiv 4
  | .equivocation => (wrap 64 (nStakeAmount*2)).tdiv 5

/-- `CalculateSlashingPenalty`. -/
def calculateSlashingPenalty (validatorPubKey : CPubKey) (condition : SlashingCondition)
    (s : State) : ℤ :=
  match getValidator validatorPubKey s with
  | none => 0
  | some validator =>
    let penalty := basePenalty validator.nStakeAmount condition
    if validator.nStakeAmount < penalty then validator.nStakeAmount else penalty

def severe (condition : SlashingCondition) : Bool :=
  condition = .longRangeAttack || condition = .doubleSigning

/-- The effects of a slashing on the registry: the stake is reduced, the slashing
recorded and the validator deactivated. -/
def applyPenalty (nNow : ℤ) (validatorPubKey : CPubKey) (penalty nStakeAmount : ℤ) (s : State) :
    State :=
  let newStake := max 0 (wrap 64 (nStakeAmount-penalty))
  let s := (updateValidatorStake validatorPubKey newStake s).2
  let s := {s with
    mapSlashedValidators := s.mapSlashedValidators.insert validatorPubKey nNow
    mapSlashPenalties := s.mapSlashPenalties.insert validatorPubKey penalty}
  (setValidatorStatus validatorPubKey false s).2

/-- `SlashValidator`; it does not read its evidence argument. -/
def slashValidator (nNow : ℤ) (validatorPubKey : CPubKey) (condition : SlashingCondition)
    (s : State) : Bool × State :=
  if !isValidatorRegistered validatorPubKey s then
    (false, s)
  else if validatorPubKey ∈ s.mapSlashedValidators then
    (false, s)
  else
    let penalty := calculateSlashingPenalty validatorPubKey condition s
    if penalty = 0 then
      (false, s)
    else
      match getValidator validatorPubKey s with
      | none => (false, s)
      | some validator =>
        let s := applyPenalty nNow validatorPubKey penalty validator.nStakeAmount s
        -- only severe offenses reach the blacklist
        (true, if severe condition then
          {s with setBlacklistedValidators := s.setBlacklistedValidators.insert validatorPubKey}
          else s)

/-- `DetectDoubleSigning`. -/
def detectDoubleSigning (nNow : ℤ) (validatorPubKey : CPubKey) (blockHash1 blockHash2 : uint256)
    (s : State) : Bool × State :=
  if blockHash1 = blockHash2 then
    (false, s)
  else
    slashValidator nNow validatorPubKey .doubleSigning s

/-- `DetectUnavailability`. A rate that is not a number counts as too high. -/
def detectUnavailability (nNow : ℤ) (validatorPubKey : CPubKey) (nMissedBlocks nTotalBlocks : ℤ)
    (s : State) : Bool × State :=
  let missRate := Float.ofInt nMissedBlocks/Float.ofInt nTotalBlocks
  if missRate ≤ 0.2 then
    (false, s)
  else
    slashValidator nNow validatorPubKey .unavailability s

/-- `RemoveFromBlacklist`. -/
def removeFromBlacklist (validatorPubKey : CPubKey) (s : State) : Bool × State :=
  if validatorPubKey ∈ s.setBlacklistedValidators then
    (true, {s with
      setBlacklistedValidators := s.setBlacklistedValidators.erase validatorPubKey})
  else
    (false, s)

/-- The operations that change the registry, with their arguments and the clock. -/
inductive Call where
  | registerValidator (nNow : ℤ) (k : CPubKey) (nStakeAmount : ℤ)
      (rewardScript strDescription : List UInt8)
  | updateValidatorStake (k : CPubKey) (nNewStakeAmount : ℤ)
  | setValidatorStatus (k : CPubKey) (fActive : Bool)
  | removeValidator (k : CPubKey)
  | slashValidator (nNow : ℤ) (k : CPubKey) (condition : SlashingCondition)
  | detectDoubleSigning (nNow : ℤ) (k : CPubKey) (blockHash1 blockHash2 : uint256)
  | detectUnavailability (nNow : ℤ) (k : CPubKey) (nMissedBlocks nTotalBlocks : ℤ)
  | removeFromBlacklist (k : CPubKey)
deriving DecidableEq

def call (s : State) : Call → Bool × State
  | .registerValidator nNow k nStakeAmount script desc =>
      registerValidator nNow k nStakeAmount script desc s
  | .updateValidatorStake k n => updateValidatorStake k n s
  | .setValidatorStatus k fActive => setValidatorStatus k fActive s
  | .removeValidator k => removeValidator k s
  | .slashValidator nNow k condition => slashValidator nNow k condition s
  | .detectDoubleSigning nNow k h1 h2 => detectDoubleSigning nNow k h1 h2 s
  | .detectUnavailability nNow k missed total => detectUnavailability nNow k missed total s
  | .removeFromBlacklist k => removeFromBlacklist k s

end BabaChain.Staking
