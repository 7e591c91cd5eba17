import BabaChain.Social
import BabaChain.Lib.Runs

/-! Achievements over whole runs: once unlocked they stay, none is unlocked twice, and whether those
for referrals and for sharing come as soon as they are earned. -/
namespace BabaChain.Social
open Std OrdMap

namespace CSocialFeatures

variable (s : CSocialFeatures)

def HasAchievement (user : CPubKey) (achievementId : String) : Prop :=
  ∃ ach ∈ s.getUserAchievements user, ach.id = achievementId

/-- An achievement that is not repeatable occurs at most once. -/
def Once : Prop :=
  ∀ user achievementId, (s.getUserAchievements user).countP
    (fun ach => ach.id = achievementId && !ach.isRepeatable) ≤ 1

/-- What has been earned is unlocked. -/
structure Complete : Prop where
  firstReferral : ∀ user, 1 ≤ (s.getUserReferrals user).length →
    s.HasAchievement user "first_referral"
  superReferrer : ∀ user, 10 ≤ (s.getUserReferrals user).length →
    s.HasAchievement user "super_referrer"
  socialButterfly : ∀ user, 10 ≤ (s.getUserShares user).length →
    s.HasAchievement user "social_butterfly"

/-- No unlocked achievement is lost. -/
def Keeps (s' : CSocialFeatures) : Prop :=
  ∀ user, s.getUserAchievements user <+: s'.getUserAchievements user

/-- Some achievements are unlocked, and nothing else is changed. -/
structure Unlocks (s' : CSocialFeatures) : Prop where
  profiles : s'.userProfiles = s.userProfiles
  referrals : s'.userReferrals = s.userReferrals
  shares : s'.userShares = s.userShares
  available : s'.availableAchievements = s.availableAchievements
  enabled : s'.socialFeaturesEnabled = s.socialFeaturesEnabled
  keeps : s.Keeps s'
  once : s.availableAchievements = achievements → s.Once → s'.Once

end CSocialFeatures

open CSocialFeatures

variable {s s' s'' : CSocialFeatures} {user : CPubKey} {achievementId : String}

theorem unlocks_refl (s : CSocialFeatures) : s.Unlocks s :=
  ⟨rfl, rfl, rfl, rfl, rfl, fun _ => List.prefix_rfl, fun _ h => h⟩

theorem CSocialFeatures.Unlocks.trans (h : s.Unlocks s') (h' : s'.Unlocks s'') :
    s.Unlocks s'' where
  profiles := h'.profiles.trans h.profiles
  referrals := h'.referrals.trans h.referrals
  shares := h'.shares.trans h.shares
  available := h'.available.trans h.available
  enabled := h'.enabled.trans h.enabled
  keeps user := (h.keeps user).trans (h'.keeps user)
  once havailable honce := h'.once (h.available.trans havailable) (h.once havailable honce)

theorem CSocialFeatures.Keeps.has (h : s.Keeps s') (hhas : s.HasAchievement user achievementId) :
    s'.HasAchievement user achievementId := by
  obtain ⟨ach, hach, hid⟩ := hhas
  exact ⟨ach, (h user).subset hach, hid⟩

/-! ### Unlocking -/

theorem achievements_not_repeatable {ach : Achievement} (h : ach ∈ achievements) :
    ach.isRepeatable = false := by
  have hall : ∀ ach ∈ achievements, ach.isRepeatable = false := by decide
  exact hall ach h

theorem getUserAchievements_insert (other : CPubKey) (achs : List Achievement) :
    getUserAchievements {s with userAchievements := s.userAchievements.insert user achs} other =
      if user = other then achs else s.getUserAchievements other := by
  unfold getUserAchievements
  rw [getElem?_insert]
  split_ifs
  · rfl
  · rfl

theorem unlockAchievement_unlocks (now : ℤ) (user : CPubKey) (achievementId : String) :
    s.Unlocks (s.unlockAchievement now user achievementId).2 := by
  unfold unlockAchievement
  split_ifs
  · exact unlocks_refl s
  cases hfind : s.availableAchievements.find? fun ach => ach.id = achievementId with
  | none => exact unlocks_refl s
  | some achievement =>
    dsimp only
    split_ifs with hany
    · exact unlocks_refl s
    refine ⟨rfl, rfl, rfl, rfl, rfl, fun other => ?_, fun havailable honce other id => ?_⟩
    · rw [getUserAchievements_insert]
      split_ifs with hother
      · subst hother
        exact List.prefix_append _ _
      · exact List.prefix_rfl
    · rw [getUserAchievements_insert]
      split_ifs with hother
      · subst hother
        have hid : achievement.id = achievementId := by
          have hsome := List.find?_some hfind
          exact of_decide_eq_true hsome
        have hfixed : achievement.isRepeatable = false :=
          achievements_not_repeatable (havailable ▸ List.mem_of_find?_eq_some hfind)
        rw [List.countP_append, List.countP_singleton]
        by_cases heq : id = achievementId
        · -- nothing unlocked before has this name
          have hnone : (s.getUserAchievements user).countP
              (fun ach => ach.id = id && !ach.isRepeatable) = 0 := by
            rw [List.countP_eq_zero]
            intro ach hach hcounts
            rw [Bool.and_eq_true, decide_eq_true_eq] at hcounts
            apply hany
            rw [List.any_eq_true]
            exact ⟨ach, hach, by rw [hfixed, decide_eq_true (hcounts.1.trans heq)]; rfl⟩
          rw [hnone, Nat.zero_add]
          split_ifs
          · exact le_rfl
          · exact Nat.zero_le 1
        · have hother : ¬(decide (achievement.id = id) && !achievement.isRepeatable) = true := by
            rw [Bool.and_eq_true, decide_eq_true_eq, hid]
            exact fun h => heq h.1.symm
          rw [if_neg hother, Nat.add_zero]
          exact honce user id
      · exact honce other id

/-- A known achievement of a user is there once it is unlocked. -/
theorem unlockAchievement_has (now : ℤ) (hexists : s.userExists user = true)
    (hknown : ∃ ach ∈ s.availableAchievements, ach.id = achievementId) :
    (s.unlockAchievement now user achievementId).2.HasAchievement user achievementId := by
  unfold unlockAchievement
  rw [hexists, if_neg Bool.noConfusion]
  cases hfind : s.availableAchievements.find? fun ach => ach.id = achievementId with
  | none =>
    obtain ⟨ach, hach, hid⟩ := hknown
    exact absurd (decide_eq_true hid) (List.find?_eq_none.mp hfind ach hach)
  | some achievement =>
    dsimp only
    split_ifs with hany
    · obtain ⟨ach, hach, hsame⟩ := List.any_eq_true.mp hany
      rw [Bool.and_eq_true, decide_eq_true_eq] at hsame
      exact ⟨ach, hach, hsame.1⟩
    · refine ⟨{achievement with unlockedDate := now}, ?_, ?_⟩
      · rw [getUserAchievements_insert, if_pos rfl]
        exact List.mem_append_right _ List.mem_cons_self
      · have hsome := List.find?_some hfind
        exact of_decide_eq_true hsome

theorem unlockIf_unlocks (now : ℤ) (user : CPubKey) (achieved : Bool) (achievementId : String) :
    s.Unlocks (s.unlockIf now user achieved achievementId) := by
  unfold unlockIf
  split_ifs
  · exact unlockAchievement_unlocks now user achievementId
  · exact unlocks_refl s

theorem unlockIf_has (now : ℤ) {achieved : Bool} (hachieved : achieved = true)
    (hexists : s.userExists user = true)
    (hknown : ∃ ach ∈ s.availableAchievements, ach.id = achievementId) :
    (s.unlockIf now user achieved achievementId).HasAchievement user achievementId := by
  unfold unlockIf
  rw [if_pos hachieved]
  exact unlockAchievement_has now hexists hknown

theorem checkReferralAchievements_unlocks (now : ℤ) (user : CPubKey) :
    s.Unlocks (s.checkReferralAchievements now user) := by
  unfold checkReferralAchievements
  exact (unlockIf_unlocks now user _ _).trans (unlockIf_unlocks now user _ _)

theorem checkSocialAchievements_unlocks (now : ℤ) (user : CPubKey) :
    s.Unlocks (s.checkSocialAchievements now user) :=
  unlockIf_unlocks now user _ _

theorem checkForNewAchievements_unlocks (now : ℤ) (user : CPubKey) :
    s.Unlocks (s.checkForNewAchievements now user) := by
  unfold checkForNewAchievements
  split_ifs
  · exact unlocks_refl s
  · have hstaking : ∀ s : CSocialFeatures, s.Unlocks (s.checkStakingAchievements now user) :=
      fun s => ((unlockIf_unlocks now user _ _).trans (unlockIf_unlocks now user _ _)).trans
        (unlockIf_unlocks now user _ _)
    have hearnings : ∀ s : CSocialFeatures, s.Unlocks (s.checkEarningsAchievements now user) :=
      fun s => (unlockIf_unlocks now user _ _).trans (unlockIf_unlocks now user _ _)
    exact (((hstaking s).trans (checkReferralAchievements_unlocks now user)).trans
      (hearnings _)).trans (checkSocialAchievements_unlocks now user)

/-! ### Steps -/

/-- What holds between two calls. -/
structure Rewarded (s : CSocialFeatures) : Prop where
  available : s.availableAchievements = achievements
  once : s.Once
  complete : s.Complete

theorem CSocialFeatures.Complete.unlocks (h : s.Complete) (hunlocks : s.Unlocks s') :
    s'.Complete where
  firstReferral user := by
    unfold getUserReferrals
    rw [hunlocks.referrals]
    exact fun hcount => hunlocks.keeps.has (h.firstReferral user hcount)
  superReferrer user := by
    unfold getUserReferrals
    rw [hunlocks.referrals]
    exact fun hcount => hunlocks.keeps.has (h.superReferrer user hcount)
  socialButterfly user := by
    unfold getUserShares
    rw [hunlocks.shares]
    exact fun hcount => hunlocks.keeps.has (h.socialButterfly user hcount)

theorem Rewarded.unlocks (h : Rewarded s) (hunlocks : s.Unlocks s') : Rewarded s' :=
  ⟨hunlocks.available.trans h.available, hunlocks.once h.available h.once,
    h.complete.unlocks hunlocks⟩

theorem known_achievement (havailable : s.availableAchievements = achievements)
    (hmem : achievementId ∈ achievements.map Achievement.id) :
    ∃ ach ∈ s.availableAchievements, ach.id = achievementId := by
  rw [havailable]
  exact List.mem_map.mp hmem

/-- Profiles may change, and referrals in what is not counted. -/
theorem Rewarded.congr (h : Rewarded s)
    (havailable : s'.availableAchievements = achievements)
    (hachievements : s'.userAchievements = s.userAchievements)
    (hreferrals : ∀ user, (s'.getUserReferrals user).length = (s.getUserReferrals user).length)
    (hshares : s'.userShares = s.userShares) : Rewarded s' ∧ s.Keeps s' := by
  have hsame : ∀ user, s'.getUserAchievements user = s.getUserAchievements user := by
    intro user
    unfold getUserAchievements
    rw [hachievements]
  have hhas : ∀ user id, s'.HasAchievement user id ↔ s.HasAchievement user id := by
    intro user id
    unfold HasAchievement
    rw [hsame]
  refine ⟨⟨havailable, fun user id => ?_, fun user => ?_, fun user => ?_, fun user => ?_⟩,
    fun user => ?_⟩
  · rw [hsame]
    exact h.once user id
  · rw [hreferrals, hhas]
    exact h.complete.firstReferral user
  · rw [hreferrals, hhas]
    exact h.complete.superReferrer user
  · unfold getUserShares
    rw [hshares, hhas]
    exact h.complete.socialButterfly user
  · rw [hsame]

theorem length_touchReferral (f : ReferralInfo → ReferralInfo) (referee : CPubKey)
    (referrals : List ReferralInfo) :
    (touchReferral f referee referrals).length = referrals.length := by
  induction referrals with
  | nil => rfl
  | cons referral referrals ih =>
    rw [touchReferral]
    split_ifs
    · rfl
    · rw [List.length_cons, List.length_cons, ih]

theorem length_getUserReferrals_touch (referee : CPubKey) (f : ReferralInfo → ReferralInfo)
    (other : CPubKey) : ((s.touch user referee f).getUserReferrals other).length =
      (s.getUserReferrals other).length := by
  rw [getUserReferrals_touch]
  split_ifs
  · exact length_touchReferral f referee _
  · rfl

theorem processReferralBonus_rewarded (h : Rewarded s) (now : ℤ) (referee : CPubKey) (bonus : ℤ) :
    Rewarded (s.processReferralBonus now referee bonus) ∧
      s.Keeps (s.processReferralBonus now referee bonus) := by
  apply processReferralBonus_induction (P := fun s' => Rewarded s' ∧ s.Keeps s')
  · exact ⟨h, fun _ => List.prefix_rfl⟩
  · intro s' user f _ hs'
    have hnext : Rewarded (s'.touch user referee f) ∧ s'.Keeps (s'.touch user referee f) :=
      hs'.1.congr hs'.1.available rfl (length_getUserReferrals_touch referee f) rfl
    exact ⟨hnext.1, fun user => (hs'.2 user).trans (hnext.2 user)⟩

/-- The referrer has what its referrals earn. -/
theorem checkReferralAchievements_has (havailable : s.availableAchievements = achievements)
    (hexists : s.userExists user = true) (now : ℤ) :
    (1 ≤ (s.getUserReferrals user).length →
      (s.checkReferralAchievements now user).HasAchievement user "first_referral") ∧
    (10 ≤ (s.getUserReferrals user).length →
      (s.checkReferralAchievements now user).HasAchievement user "super_referrer") := by
  unfold checkReferralAchievements
  dsimp only
  have hfirst := unlockIf_unlocks (s := s) now user
    (decide (1 ≤ (s.getUserReferrals user).length)) "first_referral"
  constructor
  · intro hcount
    apply (unlockIf_unlocks now user _ _).keeps.has
    exact unlockIf_has now (decide_eq_true hcount) hexists
      (known_achievement havailable (by decide))
  · intro hcount
    refine unlockIf_has now (decide_eq_true hcount) ?_
      (known_achievement (hfirst.available.trans havailable) (by decide))
    unfold userExists
    rw [hfirst.profiles]
    exact hexists

theorem createReferral_rewarded (h : Rewarded s) (now : ℤ) (referrer referee : CPubKey) :
    Rewarded (s.createReferral now referrer referee).2 ∧
      s.Keeps (s.createReferral now referrer referee).2 := by
  have hsame : Rewarded s ∧ s.Keeps s := ⟨h, fun _ => List.prefix_rfl⟩
  unfold createReferral
  split_ifs with henabled hexist hreferred
  · exact hsame
  · exact hsame
  · exact hsame
  rw [not_or, Bool.not_eq_false] at hexist
  have hexists : (s.addReferral now referrer referee).userExists referrer = true := by
    rw [userExists_addReferral]
    exact hexist.1
  have hunlocks := checkReferralAchievements_unlocks
    (s := s.addReferral now referrer referee) now referrer
  have hhas := checkReferralAchievements_has (s := s.addReferral now referrer referee)
    h.available hexists now
  have hkeeps : s.Keeps ((s.addReferral now referrer referee).checkReferralAchievements now
    referrer) := hunlocks.keeps
  have hcounts : ∀ user, referrer ≠ user →
      ((s.addReferral now referrer referee).checkReferralAchievements now
        referrer).getUserReferrals user = s.getUserReferrals user := by
    intro user huser
    rw [getUserReferrals, hunlocks.referrals]
    change (s.addReferral now referrer referee).getUserReferrals user = _
    rw [getUserReferrals_addReferral, if_neg huser]
  have hown : ((s.addReferral now referrer referee).checkReferralAchievements now
      referrer).getUserReferrals referrer =
        (s.addReferral now referrer referee).getUserReferrals referrer := by
    rw [getUserReferrals, hunlocks.referrals]
    rfl
  refine ⟨⟨hunlocks.available.trans h.available, hunlocks.once h.available h.once,
    fun user => ?_, fun user => ?_, fun user => ?_⟩, hkeeps⟩
  · by_cases huser : referrer = user
    · subst huser
      rw [hown]
      exact hhas.1
    · rw [hcounts user huser]
      exact fun hcount => hkeeps.has (h.complete.firstReferral user hcount)
  · by_cases huser : referrer = user
    · subst huser
      rw [hown]
      exact hhas.2
    · rw [hcounts user huser]
      exact fun hcount => hkeeps.has (h.complete.superReferrer user hcount)
  · rw [getUserShares, hunlocks.shares]
    exact fun hcount => hkeeps.has (h.complete.socialButterfly user hcount)

theorem getUserShares_addShare (share : SocialShare) (other : CPubKey) :
    (s.addShare user share).getUserShares other =
      if user = other then s.getUserShares user ++ [share] else s.getUserShares other := by
  unfold addShare getUserShares
  rw [getElem?_insert]
  split_ifs
  · rfl
  · rfl

/-- A share keeps what has been earned, unless it earns the achievement for sharing. -/
theorem addShare_rewarded (h : Rewarded s) (share : SocialShare)
    (hearned : 9 ≤ (s.getUserShares user).length → s.HasAchievement user "social_butterfly") :
    Rewarded (s.addShare user share) where
  available := h.available
  once := h.once
  complete :=
    { firstReferral := h.complete.firstReferral
      superReferrer := h.complete.superReferrer
      socialButterfly := by
        intro other hcount
        rw [getUserShares_addShare] at hcount
        split_ifs at hcount with hother
        · subst hother
          rw [List.length_append, List.length_singleton] at hcount
          exact hearned (by omega)
        · exact h.complete.socialButterfly other hcount }

theorem shareAchievement_rewarded (h : Rewarded s) (now : ℤ) (user : CPubKey)
    (achievementId platform : String) :
    Rewarded (s.shareAchievement now user achievementId platform).2 ∧
      s.Keeps (s.shareAchievement now user achievementId platform).2 := by
  have hsame : Rewarded s ∧ s.Keeps s := ⟨h, fun _ => List.prefix_rfl⟩
  unfold shareAchievement
  split_ifs with hallowed hhas
  · exact hsame
  · dsimp only
    generalize SocialShare.mk user platform achievementId 0 now = share
    rw [Bool.or_eq_true, not_or, Bool.not_eq_true', Bool.not_eq_true', Bool.not_eq_false,
      Bool.not_eq_false] at hallowed
    have hunlocks := checkSocialAchievements_unlocks (s := s.addShare user share) now user
    have hkeeps : s.Keeps ((s.addShare user share).checkSocialAchievements now user) :=
      hunlocks.keeps
    refine ⟨⟨hunlocks.available.trans h.available, hunlocks.once h.available h.once,
      fun other => ?_, fun other => ?_, fun other hcount => ?_⟩, hkeeps⟩
    · rw [getUserReferrals, hunlocks.referrals]
      exact fun hcount => hkeeps.has (h.complete.firstReferral other hcount)
    · rw [getUserReferrals, hunlocks.referrals]
      exact fun hcount => hkeeps.has (h.complete.superReferrer other hcount)
    · rw [getUserShares, hunlocks.shares] at hcount
      change 10 ≤ ((s.addShare user share).getUserShares other).length at hcount
      by_cases hother : user = other
      · subst hother
        exact unlockIf_has now (decide_eq_true hcount) hallowed.2
          (known_achievement (s := s.addShare user share) h.available (by decide))
      · rw [getUserShares_addShare, if_neg hother] at hcount
        exact hkeeps.has (h.complete.socialButterfly other hcount)
  · exact hsame

/-- A staking milestone that is shared does not earn the achievement for sharing. -/
def Earned (s : CSocialFeatures) (call : ℤ × Call) : Prop :=
  match call.2 with
  | .shareStakingMilestone user _ _ => s.socialFeaturesEnabled = true →
      s.userExists user = true → 9 ≤ (s.getUserShares user).length →
        s.HasAchievement user "social_butterfly"
  | _ => True

theorem step_rewarded (h : Rewarded s) (call : ℤ × Call) (hearned : Earned s call) :
    Rewarded (step s call).2 ∧ s.Keeps (step s call).2 := by
  have hsame : Rewarded s ∧ s.Keeps s := ⟨h, fun _ => List.prefix_rfl⟩
  obtain ⟨now, call⟩ := call
  unfold step
  cases call with
  | createUserProfile pubkey username =>
    dsimp only [createUserProfile]
    split_ifs
    · exact hsame
    · exact hsame
    · exact hsame
    · exact h.congr h.available rfl (fun _ => rfl) rfl
  | updateUserProfile pubkey profile =>
    dsimp only [updateUserProfile]
    cases s.userProfiles[pubkey]? with
    | none => exact hsame
    | some old => exact h.congr h.available rfl (fun _ => rfl) rfl
  | createReferral referrer referee => exact createReferral_rewarded h now referrer referee
  | processReferralBonus referee bonus => exact processReferralBonus_rewarded h now referee bonus
  | initializeAchievements => exact h.congr rfl rfl (fun _ => rfl) rfl
  | unlockAchievement user achievementId =>
    have hunlocks := unlockAchievement_unlocks (s := s) now user achievementId
    exact ⟨h.unlocks hunlocks, hunlocks.keeps⟩
  | checkForNewAchievements user =>
    have hunlocks := checkForNewAchievements_unlocks (s := s) now user
    exact ⟨h.unlocks hunlocks, hunlocks.keeps⟩
  | shareAchievement user achievementId platform =>
    exact shareAchievement_rewarded h now user achievementId platform
  | shareStakingMilestone user amount platform =>
    dsimp only [shareStakingMilestone]
    split_ifs with hallowed
    · exact hsame
    · rw [Bool.or_eq_true, not_or, Bool.not_eq_true', Bool.not_eq_true', Bool.not_eq_false,
        Bool.not_eq_false] at hallowed
      exact ⟨addShare_rewarded h _ (hearned hallowed.1 hallowed.2), fun _ => List.prefix_rfl⟩
  | setSocialFeaturesEnabled enabled => exact h.congr h.available rfl (fun _ => rfl) rfl

theorem step_incomplete (call : ℤ × Call) (hnot : ¬Earned s call) :
    ¬(step s call).2.Complete := by
  obtain ⟨now, call⟩ := call
  unfold Earned at hnot
  cases call with
  | shareStakingMilestone user amount platform =>
    dsimp only at hnot
    push Not at hnot
    obtain ⟨henabled, hexists, hmany, hhas⟩ := hnot
    intro hcomplete
    apply hhas
    unfold step at hcomplete
    dsimp only [shareStakingMilestone] at hcomplete
    rw [henabled, hexists, if_neg Bool.noConfusion] at hcomplete
    apply hcomplete.socialButterfly user
    rw [getUserShares_addShare, if_pos rfl, List.length_append, List.length_singleton]
    omega
  | _ => exact absurd trivial hnot

theorem init_rewarded : Rewarded CSocialFeatures.init := by
  have hnone : ∀ user, (CSocialFeatures.init.getUserReferrals user).length = 0 ∧
      (CSocialFeatures.init.getUserShares user).length = 0 ∧
      CSocialFeatures.init.getUserAchievements user = [] := by
    intro user
    unfold getUserReferrals getUserShares getUserAchievements
    exact ⟨rfl, rfl, rfl⟩
  refine ⟨rfl, fun user id => ?_, fun user hcount => ?_, fun user hcount => ?_,
    fun user hcount => ?_⟩
  · rw [(hnone user).2.2]
    exact Nat.zero_le 1
  · have hzero := (hnone user).1
    omega
  · have hzero := (hnone user).1
    omega
  · have hzero := (hnone user).2.1
    omega

/-- Over a run no achievement is lost or unlocked twice, and each is there as soon as it is earned,
exactly when no shared staking milestone earns one. -/
theorem achievements_iff (calls : List (ℤ × Call)) :
    Runs.EveryStep step (fun s call =>
        (step s call).2.Once ∧ s.Keeps (step s call).2 ∧ (step s call).2.Complete)
        CSocialFeatures.init calls ↔
      Runs.EveryStep step Earned CSocialFeatures.init calls := by
  apply Runs.everyStep_iff Rewarded ?_ ?_ init_rewarded
  · intro s call h hearned
    obtain ⟨hnext, hkeeps⟩ := step_rewarded h call hearned
    exact ⟨⟨hnext.once, hkeeps, hnext.complete⟩, hnext⟩
  · intro s call _ hfine
    by_contra hnot
    exact step_incomplete call hnot hfine.2.2

/-- Ten staking milestones are shared, and nothing is unlocked. -/
theorem achievements_late :
    ¬∀ calls, Runs.EveryStep step (fun s call =>
      (step s call).2.Once ∧ s.Keeps (step s call).2 ∧ (step s call).2.Complete)
        CSocialFeatures.init calls := by
  intro hall
  let user := CPubKey.invalid
  let calls : List (ℤ × Call) :=
    (0, .createUserProfile user [97, 98, 99]) ::
      List.replicate 9 (0, .shareStakingMilestone user COIN "web")
  have hrun := hall (calls ++ [(0, .shareStakingMilestone user COIN "web")])
  rw [Runs.everyStep_append] at hrun
  refine step_incomplete _ (fun hearned => ?_) hrun.2.1.2.2
  obtain ⟨ach, hach, -⟩ := hearned (by decide) (by decide) (by decide)
  have hnone : ((Runs.final step CSocialFeatures.init calls).getUserAchievements user) = [] := by
    decide
  rw [hnone] at hach
  exact List.not_mem_nil hach

end BabaChain.Social
