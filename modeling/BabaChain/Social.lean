import BabaChain.Primitives
import BabaChain.Lib.OrdMap

/-! Profiles of users, their referrals, their achievements and what they have shared. The texts
that are shown to users, the competitions and the leaderboards are left out: nothing here reads
them. -/
namespace BabaChain.Social
open Std OrdMap

def COIN : ℤ := 100000000

structure UserProfile where
  pubkey : CPubKey
  username : List UInt8
  joinDate : ℤ := 0
  totalStaked : ℤ := 0
  totalEarned : ℤ := 0
  referralCount : ℤ := 0

structure ReferralInfo where
  referrer : CPubKey
  referee : CPubKey
  referralDate : ℤ
  isActive : Bool
  bonusEarned : ℤ := 0
  lastActivityDate : ℤ

structure Achievement where
  id : String
  rewardAmount : ℤ
  isRepeatable : Bool := false
  unlockedDate : ℤ := 0
deriving DecidableEq

structure SocialShare where
  user : CPubKey
  platform : String
  achievementId : String := ""
  stakingAmount : ℤ := 0
  shareDate : ℤ

/-! ### State -/

structure CSocialFeatures where
  userProfiles : ExtTreeMap CPubKey UserProfile := ∅
  userReferrals : ExtTreeMap CPubKey (List ReferralInfo) := ∅
  userAchievements : ExtTreeMap CPubKey (List Achievement) := ∅
  userShares : ExtTreeMap CPubKey (List SocialShare) := ∅
  availableAchievements : List Achievement := []
  socialFeaturesEnabled : Bool := true

/-- `InitializeAchievements`. -/
def achievements : List Achievement :=
  [ {id := "first_stake", rewardAmount := 10*COIN},
    {id := "big_staker", rewardAmount := 50*COIN},
    {id := "whale_staker", rewardAmount := 500*COIN},
    {id := "first_referral", rewardAmount := 25*COIN},
    {id := "super_referrer", rewardAmount := 250*COIN},
    {id := "first_earning", rewardAmount := 5*COIN},
    {id := "earnings_millionaire", rewardAmount := 10000*COIN},
    {id := "social_butterfly", rewardAmount := 100*COIN} ]

namespace CSocialFeatures

def initializeAchievements (s : CSocialFeatures) : CSocialFeatures :=
  {s with availableAchievements := achievements}

def init : CSocialFeatures := initializeAchievements {}

variable (s : CSocialFeatures)

def userExists (pubkey : CPubKey) : Bool := (s.userProfiles[pubkey]?).isSome

def getUserReferrals (user : CPubKey) : List ReferralInfo := (s.userReferrals[user]?).getD []

def getUserAchievements (user : CPubKey) : List Achievement :=
  (s.userAchievements[user]?).getD []

def getUserShares (user : CPubKey) : List SocialShare := (s.userShares[user]?).getD []

/-! ### Profiles -/

/-- A letter, a digit or an underscore. -/
def isUsernameByte (c : UInt8) : Bool :=
  (97 ≤ c && c ≤ 122) || (65 ≤ c && c ≤ 90) || (48 ≤ c && c ≤ 57) || c == 95

def isValidUsername (username : List UInt8) : Bool :=
  decide (3 ≤ username.length) && decide (username.length ≤ 20) && username.all isUsernameByte

def createUserProfile (now : ℤ) (pubkey : CPubKey) (username : List UInt8) :
    Bool × CSocialFeatures :=
  if isValidUsername username = false then (false, s)
  else if s.userExists pubkey then (false, s)
  else if s.userProfiles.toList.any fun p => p.2.username = username then (false, s)
  else
    let profile : UserProfile := {pubkey := pubkey, username := username, joinDate := now}
    (true, {s with userProfiles := s.userProfiles.insert pubkey profile})

def updateUserProfile (pubkey : CPubKey) (profile : UserProfile) : Bool × CSocialFeatures :=
  match s.userProfiles[pubkey]? with
  | none => (false, s)
  | some old =>
    let updatedProfile :=
      { profile with
        pubkey := pubkey
        joinDate := old.joinDate
        referralCount := old.referralCount }
    (true, {s with userProfiles := s.userProfiles.insert pubkey updatedProfile})

/-! ### Achievements -/

def unlockAchievement (now : ℤ) (user : CPubKey) (achievementId : String) :
    Bool × CSocialFeatures :=
  if s.userExists user = false then (false, s)
  else
    match s.availableAchievements.find? fun ach => ach.id = achievementId with
    | none => (false, s)
    | some achievement =>
      let userAchs := s.getUserAchievements user
      if userAchs.any fun ach => ach.id = achievementId && !achievement.isRepeatable then
        (false, s)
      else
        let unlocked := userAchs ++ [{achievement with unlockedDate := now}]
        (true, {s with userAchievements := s.userAchievements.insert user unlocked})

/-- An achievement is unlocked where a condition holds. -/
def unlockIf (now : ℤ) (user : CPubKey) (achieved : Bool) (achievementId : String) :
    CSocialFeatures :=
  if achieved then (s.unlockAchievement now user achievementId).2 else s

def checkReferralAchievements (now : ℤ) (user : CPubKey) : CSocialFeatures :=
  let referralCount := (s.getUserReferrals user).length
  let s := s.unlockIf now user (decide (1 ≤ referralCount)) "first_referral"
  s.unlockIf now user (decide (10 ≤ referralCount)) "super_referrer"

def checkSocialAchievements (now : ℤ) (user : CPubKey) : CSocialFeatures :=
  let shareCount := (s.getUserShares user).length
  s.unlockIf now user (decide (10 ≤ shareCount)) "social_butterfly"

def totalStaked (user : CPubKey) : ℤ := ((s.userProfiles[user]?).map (·.totalStaked)).getD 0

def totalEarned (user : CPubKey) : ℤ := ((s.userProfiles[user]?).map (·.totalEarned)).getD 0

def checkStakingAchievements (now : ℤ) (user : CPubKey) : CSocialFeatures :=
  let staked := s.totalStaked user
  let s := s.unlockIf now user (decide (0 < staked)) "first_stake"
  let s := s.unlockIf now user (decide (1000*COIN ≤ staked)) "big_staker"
  s.unlockIf now user (decide (10000*COIN ≤ staked)) "whale_staker"

def checkEarningsAchievements (now : ℤ) (user : CPubKey) : CSocialFeatures :=
  let earned := s.totalEarned user
  let s := s.unlockIf now user (decide (0 < earned)) "first_earning"
  s.unlockIf now user (decide (1000000*COIN ≤ earned)) "earnings_millionaire"

def checkForNewAchievements (now : ℤ) (user : CPubKey) : CSocialFeatures :=
  if !s.socialFeaturesEnabled || !s.userExists user then s
  else
    let s := s.checkStakingAchievements now user
    let s := s.checkReferralAchievements now user
    let s := s.checkEarningsAchievements now user
    s.checkSocialAchievements now user

/-! ### Referrals -/

def isReferred (referee : CPubKey) : Bool :=
  s.userReferrals.toList.any fun p => p.2.any fun referral => referral.referee = referee

/-- The profile of the referrer and the list of referrals both get one more. -/
def addReferral (now : ℤ) (referrer referee : CPubKey) : CSocialFeatures :=
  let referral : ReferralInfo :=
    { referrer := referrer
      referee := referee
      referralDate := now
      isActive := true
      lastActivityDate := now }
  {s with
    userReferrals := s.userReferrals.insert referrer (s.getUserReferrals referrer ++ [referral])
    userProfiles := s.userProfiles.modify referrer fun profile =>
      {profile with referralCount := profile.referralCount+1}}

def createReferral (now : ℤ) (referrer referee : CPubKey) : Bool × CSocialFeatures :=
  if s.socialFeaturesEnabled = false then (false, s)
  else if s.userExists referrer = false ∨ s.userExists referee = false then (false, s)
  else if s.isReferred referee then (false, s)
  else (true, (s.addReferral now referrer referee).checkReferralAchievements now referrer)

/-- The first referral of a user is changed. -/
def touchReferral (f : ReferralInfo → ReferralInfo) (referee : CPubKey) :
    List ReferralInfo → List ReferralInfo
  | [] => []
  | referral :: referrals =>
    if referral.referee = referee then f referral :: referrals
    else referral :: touchReferral f referee referrals

def touch (user referee : CPubKey) (f : ReferralInfo → ReferralInfo) : CSocialFeatures :=
  {s with userReferrals := s.userReferrals.modify user (touchReferral f referee)}

/-- `ProcessReferralBonus`, with the bonus that `CalculateReferralBonus` gives. -/
def processReferralBonus (now : ℤ) (referee : CPubKey) (bonus : ℤ) : CSocialFeatures :=
  if s.socialFeaturesEnabled = false then s
  else
    match s.userReferrals.toList.findSome? fun p =>
      (p.2.find? fun referral => referral.referee = referee).map fun referral =>
        (p.1, referral.referrer) with
    | none => s
    | some (user, referrer) =>
      let s := s.touch user referee fun referral => {referral with lastActivityDate := now}
      if 0 < bonus then
        s.touch referrer referee fun referral =>
          {referral with bonusEarned := referral.bonusEarned+bonus}
      else s

/-! ### Sharing -/

def addShare (user : CPubKey) (share : SocialShare) : CSocialFeatures :=
  {s with userShares := s.userShares.insert user (s.getUserShares user ++ [share])}

def shareAchievement (now : ℤ) (user : CPubKey) (achievementId platform : String) :
    Bool × CSocialFeatures :=
  if !s.socialFeaturesEnabled || !s.userExists user then (false, s)
  else if (s.getUserAchievements user).any fun ach => ach.id = achievementId then
    let share : SocialShare :=
      {user := user, platform := platform, achievementId := achievementId, shareDate := now}
    (true, (s.addShare user share).checkSocialAchievements now user)
  else
    (false, s)

def shareStakingMilestone (now : ℤ) (user : CPubKey) (amount : ℤ) (platform : String) :
    Bool × CSocialFeatures :=
  if !s.socialFeaturesEnabled || !s.userExists user then (false, s)
  else
    let share : SocialShare :=
      {user := user, platform := platform, stakingAmount := amount, shareDate := now}
    (true, s.addShare user share)

end CSocialFeatures

/-! ### Referrals that are changed -/

section Changes

variable {s : CSocialFeatures} {user : CPubKey}
open CSocialFeatures

theorem getUserReferrals_touch (referee : CPubKey) (f : ReferralInfo → ReferralInfo)
    (other : CPubKey) :
    (s.touch user referee f).getUserReferrals other =
      if user = other then touchReferral f referee (s.getUserReferrals other)
      else s.getUserReferrals other := by
  unfold touch getUserReferrals
  rw [ExtTreeMap.getElem?_modify]
  simp only [LawfulEqCmp.compare_eq_iff_eq]
  split_ifs with hother
  · subst hother
    cases s.userReferrals[user]? with
    | none => rfl
    | some referrals => rfl
  · rfl

theorem getUserReferrals_addReferral (now : ℤ) (referrer referee other : CPubKey) :
    (s.addReferral now referrer referee).getUserReferrals other =
      if referrer = other then s.getUserReferrals referrer ++
        [{ referrer := referrer
           referee := referee
           referralDate := now
           isActive := true
           lastActivityDate := now }]
      else s.getUserReferrals other := by
  unfold addReferral getUserReferrals
  rw [getElem?_insert]
  split_ifs
  · rfl
  · rfl

theorem userExists_addReferral (now : ℤ) (referrer referee other : CPubKey) :
    (s.addReferral now referrer referee).userExists other = s.userExists other := by
  unfold addReferral userExists
  rw [ExtTreeMap.getElem?_modify]
  split_ifs with hother
  · rw [← LawfulEqCmp.eq_of_compare hother, Option.isSome_map]
  · rfl

/-- What every change of a referral keeps that leaves its referee as it is. -/
theorem processReferralBonus_induction {P : CSocialFeatures → Prop} {referee : CPubKey}
    (hs : P s) (htouch : ∀ s user f, (∀ r : ReferralInfo, (f r).referee = r.referee) → P s →
      P (CSocialFeatures.touch s user referee f)) (now bonus : ℤ) :
    P (s.processReferralBonus now referee bonus) := by
  unfold processReferralBonus
  by_cases henabled : s.socialFeaturesEnabled = false
  · rw [if_pos henabled]
    exact hs
  rw [if_neg henabled]
  cases s.userReferrals.toList.findSome? fun p =>
      (p.2.find? fun referral => referral.referee = referee).map fun referral =>
        (p.1, referral.referrer) with
  | none => exact hs
  | some found =>
    obtain ⟨user, referrer⟩ := found
    dsimp only
    have hdate := htouch s user (fun r => {r with lastActivityDate := now}) (fun _ => rfl) hs
    split_ifs
    · exact htouch _ referrer _ (fun _ => rfl) hdate
    · exact hdate

end Changes

/-! ### Runs -/

inductive Call
  | createUserProfile (pubkey : CPubKey) (username : List UInt8)
  | updateUserProfile (pubkey : CPubKey) (profile : UserProfile)
  | createReferral (referrer referee : CPubKey)
  | processReferralBonus (referee : CPubKey) (bonus : ℤ)
  | initializeAchievements
  | unlockAchievement (user : CPubKey) (achievementId : String)
  | checkForNewAchievements (user : CPubKey)
  | shareAchievement (user : CPubKey) (achievementId platform : String)
  | shareStakingMilestone (user : CPubKey) (amount : ℤ) (platform : String)
  | setSocialFeaturesEnabled (enabled : Bool)

/-- A call at a time. -/
def step (s : CSocialFeatures) (call : ℤ × Call) : Bool × CSocialFeatures :=
  let (now, call) := call
  match call with
  | .createUserProfile pubkey username => s.createUserProfile now pubkey username
  | .updateUserProfile pubkey profile => s.updateUserProfile pubkey profile
  | .createReferral referrer referee => s.createReferral now referrer referee
  | .processReferralBonus referee bonus => (true, s.processReferralBonus now referee bonus)
  | .initializeAchievements => (true, s.initializeAchievements)
  | .unlockAchievement user achievementId => s.unlockAchievement now user achievementId
  | .checkForNewAchievements user => (true, s.checkForNewAchievements now user)
  | .shareAchievement user achievementId platform =>
    s.shareAchievement now user achievementId platform
  | .shareStakingMilestone user amount platform =>
    s.shareStakingMilestone now user amount platform
  | .setSocialFeaturesEnabled enabled => (true, {s with socialFeaturesEnabled := enabled})

end BabaChain.Social
