import BabaChain.SocialAchievements
import BabaChain.Lib.Forests

/-! Profiles and referrals over whole runs: usernames, the counts of referrals, and whether the
referrals form a forest. -/
namespace BabaChain.Social
open Std OrdMap Relation

namespace CSocialFeatures

variable (s : CSocialFeatures)

def referees (user : CPubKey) : List CPubKey :=
  (s.getUserReferrals user).map ReferralInfo.referee

def Refers (referrer referee : CPubKey) : Prop := referee ∈ s.referees referrer

structure Consistent : Prop where
  valid : ∀ (user : CPubKey) (profile : UserProfile), s.userProfiles[user]? = some profile →
    isValidUsername profile.username = true
  distinct : ∀ (user other : CPubKey) (profile profile' : UserProfile),
    s.userProfiles[user]? = some profile → s.userProfiles[other]? = some profile' →
      profile.username = profile'.username → user = other
  /-- A referee occurs once in the referrals of a referrer, and of one referrer only. -/
  once : ∀ user, (s.referees user).Nodup
  oneReferrer : ∀ user other referee, s.Refers user referee → s.Refers other referee → user = other
  counted : ∀ (user : CPubKey) (profile : UserProfile), s.userProfiles[user]? = some profile →
    profile.referralCount = (s.getUserReferrals user).length
  forest : Forests.Acyclic s.Refers

end CSocialFeatures

open CSocialFeatures

variable {s s' : CSocialFeatures} {user referrer referee : CPubKey}

/-- Only users with a profile have referrals. -/
structure Sound (s : CSocialFeatures) : Prop extends s.Consistent where
  absent : ∀ user, s.userProfiles[user]? = none → s.getUserReferrals user = []

theorem length_referees (s : CSocialFeatures) (user : CPubKey) :
    (s.referees user).length = (s.getUserReferrals user).length :=
  List.length_map _

theorem userExists_iff :
    s.userExists user = true ↔ ∃ profile, s.userProfiles[user]? = some profile :=
  Option.isSome_iff_exists

theorem isReferred_eq_false_iff :
    s.isReferred referee = false ↔ ∀ user, ¬s.Refers user referee := by
  unfold isReferred Refers referees getUserReferrals
  rw [List.any_eq_false]
  constructor
  · intro h user hmem
    cases huser : s.userReferrals[user]? with
    | none =>
      rw [huser] at hmem
      exact List.not_mem_nil hmem
    | some referrals =>
      rw [huser, Option.getD_some, List.mem_map] at hmem
      obtain ⟨referral, hreferral, hreferee⟩ := hmem
      apply h (user, referrals) (ExtTreeMap.mem_toList_iff_getElem?_eq_some.mpr huser)
      exact List.any_eq_true.mpr ⟨referral, hreferral, decide_eq_true hreferee⟩
  · rintro h ⟨user, referrals⟩ hmem hany
    obtain ⟨referral, hreferral, hreferee⟩ := List.any_eq_true.mp hany
    apply h user
    rw [ExtTreeMap.mem_toList_iff_getElem?_eq_some.mp hmem]
    exact List.mem_map.mpr ⟨referral, hreferral, of_decide_eq_true hreferee⟩

/-! ### What is left as it is -/

/-- The same profiles, and referrals of the same users. -/
theorem Sound.congr (h : Sound s) (hprofiles : s'.userProfiles = s.userProfiles)
    (hreferees : ∀ user, s'.referees user = s.referees user) : Sound s' := by
  have hlength : ∀ user, (s'.getUserReferrals user).length = (s.getUserReferrals user).length := by
    intro user
    rw [← length_referees, hreferees, length_referees]
  have hrefers : s'.Refers = s.Refers := by
    funext a b
    unfold Refers
    rw [hreferees]
  refine ⟨⟨?_, ?_, fun user => ?_, ?_, fun user => ?_, ?_⟩, fun user => ?_⟩
  · rw [hprofiles]
    exact h.valid
  · rw [hprofiles]
    exact h.distinct
  · rw [hreferees]
    exact h.once user
  · rw [hrefers]
    exact h.oneReferrer
  · rw [hprofiles, hlength]
    exact h.counted user
  · rw [hrefers]
    exact h.forest
  · rw [hprofiles, ← List.length_eq_zero_iff, hlength, List.length_eq_zero_iff]
    exact h.absent user

theorem Sound.unlocks (h : Sound s) (hunlocks : s.Unlocks s') : Sound s' := by
  apply h.congr hunlocks.profiles
  intro user
  rw [referees, getUserReferrals, hunlocks.referrals]
  rfl

theorem map_referee_touchReferral {f : ReferralInfo → ReferralInfo}
    (hf : ∀ r, (f r).referee = r.referee) (referee : CPubKey) (referrals : List ReferralInfo) :
    (touchReferral f referee referrals).map ReferralInfo.referee =
      referrals.map ReferralInfo.referee := by
  induction referrals with
  | nil => rfl
  | cons referral referrals ih =>
    rw [touchReferral]
    split_ifs
    · rw [List.map_cons, List.map_cons, hf]
    · rw [List.map_cons, List.map_cons, ih]

theorem processReferralBonus_sound (h : Sound s) (now : ℤ) (referee : CPubKey) (bonus : ℤ) :
    Sound (s.processReferralBonus now referee bonus) := by
  apply processReferralBonus_induction h
  intro s user f hf hs
  have hprofiles : (s.touch user referee f).userProfiles = s.userProfiles := rfl
  apply hs.congr hprofiles
  intro other
  rw [referees, getUserReferrals_touch]
  split_ifs
  · exact map_referee_touchReferral hf referee _
  · rfl

/-! ### Profiles -/

/-- A user may take a name that is valid and that nobody else has. -/
def Fits (s : CSocialFeatures) (user : CPubKey) (username : List UInt8) : Prop :=
  isValidUsername username = true ∧
    ∀ (other : CPubKey) (profile : UserProfile), s.userProfiles[other]? = some profile →
      profile.username = username → other = user

theorem getElem?_setProfile (s : CSocialFeatures) (user other : CPubKey) (profile : UserProfile) :
    (s.userProfiles.insert user profile)[other]? =
      if user = other then some profile else s.userProfiles[other]? :=
  getElem?_insert _ _ _ _

theorem Fits.sound (h : Sound s) {profile : UserProfile} (hfits : Fits s user profile.username)
    (hcount : profile.referralCount = (s.getUserReferrals user).length) :
    Sound {s with userProfiles := s.userProfiles.insert user profile} := by
  obtain ⟨hvalid, hfree⟩ := hfits
  refine ⟨⟨fun other p hp => ?_, fun a b p q hp hq hname => ?_, h.once, h.oneReferrer,
    fun other p hp => ?_, h.forest⟩, fun other hother => ?_⟩
  · rw [getElem?_setProfile] at hp
    split_ifs at hp
    · rw [← Option.some.inj hp]
      exact hvalid
    · exact h.valid other p hp
  · rw [getElem?_setProfile] at hp hq
    by_cases ha : user = a
    · by_cases hb : user = b
      · exact ha.symm.trans hb
      · rw [if_pos ha] at hp
        rw [if_neg hb] at hq
        rw [← Option.some.inj hp] at hname
        exact ha.symm.trans (hfree b q hq hname.symm).symm
    · rw [if_neg ha] at hp
      by_cases hb : user = b
      · rw [if_pos hb] at hq
        rw [← Option.some.inj hq] at hname
        exact (hfree a p hp hname).trans hb
      · rw [if_neg hb] at hq
        exact h.distinct a b p q hp hq hname
  · rw [getElem?_setProfile] at hp
    split_ifs at hp with hother
    · rw [← Option.some.inj hp, ← hother]
      exact hcount
    · exact h.counted other p hp
  · rw [getElem?_setProfile] at hother
    split_ifs at hother
    exact h.absent other hother

theorem fits_of_consistent {profile : UserProfile}
    (hnext : Consistent {s with userProfiles := s.userProfiles.insert user profile}) :
    Fits s user profile.username := by
  have hself := getElem?_setProfile s user user profile
  rw [if_pos rfl] at hself
  refine ⟨hnext.valid user profile hself, fun other profile' hother hname => ?_⟩
  by_contra hne
  refine hne (hnext.distinct other user profile' profile ?_ hself hname)
  rw [getElem?_setProfile, if_neg (Ne.symm hne), hother]

theorem createUserProfile_sound (h : Sound s) (now : ℤ) (pubkey : CPubKey)
    (username : List UInt8) : Sound (s.createUserProfile now pubkey username).2 := by
  unfold createUserProfile
  split_ifs with hvalid hexists htaken
  · exact h
  · exact h
  · exact h
  have hnone : s.userProfiles[pubkey]? = none := by
    rw [Bool.not_eq_true, userExists, Option.isSome_eq_false_iff] at hexists
    exact Option.isNone_iff_eq_none.mp hexists
  have hfits : Fits s pubkey username := by
    refine ⟨eq_true_of_ne_false hvalid, fun other p hp hname => ?_⟩
    refine absurd (List.any_eq_true.mpr ⟨(other, p), ?_, decide_eq_true hname⟩) htaken
    exact ExtTreeMap.mem_toList_iff_getElem?_eq_some.mpr hp
  have hcount : (0 : ℤ) = (s.getUserReferrals pubkey).length := by
    rw [h.absent pubkey hnone]
    rfl
  exact Fits.sound h hfits hcount

theorem updateUserProfile_of_exists (hexists : s.userExists user = true) (profile : UserProfile) :
    ∃ updated old : UserProfile, s.userProfiles[user]? = some old ∧
      updated.username = profile.username ∧ updated.referralCount = old.referralCount ∧
      (s.updateUserProfile user profile).2 =
        {s with userProfiles := s.userProfiles.insert user updated} := by
  obtain ⟨old, hold⟩ := userExists_iff.mp hexists
  unfold updateUserProfile
  rw [hold]
  refine ⟨{profile with
    pubkey := user
    joinDate := old.joinDate
    referralCount := old.referralCount}, old, rfl, rfl, rfl, rfl⟩

theorem updateUserProfile_sound (h : Sound s) (profile : UserProfile)
    (hfits : s.userExists user = true → Fits s user profile.username) :
    Sound (s.updateUserProfile user profile).2 := by
  cases hexists : s.userExists user with
  | false =>
    rw [userExists, Option.isSome_eq_false_iff, Option.isNone_iff_eq_none] at hexists
    unfold updateUserProfile
    rw [hexists]
    exact h
  | true =>
    obtain ⟨updated, old, hold, hname, hcount, hupdate⟩ :=
      updateUserProfile_of_exists hexists profile
    rw [hupdate]
    apply Fits.sound h
    · rw [hname]
      exact hfits hexists
    · rw [hcount]
      exact h.counted user old hold

/-! ### Referrals -/

theorem referees_addReferral (now : ℤ) (referrer referee other : CPubKey) :
    (s.addReferral now referrer referee).referees other =
      if referrer = other then s.referees referrer ++ [referee] else s.referees other := by
  unfold referees
  rw [getUserReferrals_addReferral]
  split_ifs
  · rw [List.map_append]
    rfl
  · rfl

theorem refers_addReferral (now : ℤ) (referrer referee : CPubKey) :
    (s.addReferral now referrer referee).Refers = Forests.addEdge s.Refers referrer referee := by
  funext a b
  unfold Refers Forests.addEdge
  rw [referees_addReferral]
  split_ifs with ha
  · subst ha
    rw [List.mem_append, List.mem_singleton]
    exact propext (or_congr_right (and_iff_right rfl).symm)
  · exact propext (or_iff_left fun hnew => ha hnew.1.symm).symm

/-- A first referral, where the referee does not lead back to the referrer. -/
theorem addReferral_sound (h : Sound s) (now : ℤ) (hreferrer : s.userExists referrer = true)
    (hnew : ∀ user, ¬s.Refers user referee) (hback : ¬ReflTransGen s.Refers referee referrer) :
    Sound (s.addReferral now referrer referee) := by
  have hrefers := refers_addReferral (s := s) now referrer referee
  have hlook : ∀ user, (s.addReferral now referrer referee).userProfiles[user]? =
      if referrer = user then
        (s.userProfiles[user]?).map fun profile =>
          {profile with referralCount := profile.referralCount+1}
      else s.userProfiles[user]? := by
    intro user
    unfold addReferral
    rw [ExtTreeMap.getElem?_modify]
    simp only [LawfulEqCmp.compare_eq_iff_eq]
    split_ifs with huser
    · rw [huser]
    · rfl
  -- a profile keeps its name
  have hname : ∀ (user : CPubKey) (profile : UserProfile),
      (s.addReferral now referrer referee).userProfiles[user]? = some profile →
        ∃ old : UserProfile, s.userProfiles[user]? = some old ∧
          old.username = profile.username := by
    intro user profile hprofile
    rw [hlook] at hprofile
    split_ifs at hprofile
    · obtain ⟨old, hold, rfl⟩ := Option.map_eq_some_iff.mp hprofile
      exact ⟨old, hold, rfl⟩
    · exact ⟨profile, hprofile, rfl⟩
  refine ⟨⟨fun user p hp => ?_, fun a b p q hp hq hsame => ?_, fun user => ?_,
    fun a b r ha hb => ?_, fun user p hp => ?_, ?_⟩, fun user hnone => ?_⟩
  · obtain ⟨old, hold, holdname⟩ := hname user p hp
    rw [← holdname]
    exact h.valid user old hold
  · obtain ⟨old, hold, holdname⟩ := hname a p hp
    obtain ⟨old', hold', holdname'⟩ := hname b q hq
    exact h.distinct a b old old' hold hold' (holdname.trans (hsame.trans holdname'.symm))
  · rw [referees_addReferral]
    split_ifs
    · rw [List.nodup_append]
      refine ⟨h.once referrer, List.nodup_singleton referee, fun r hr r' hr' hsame => ?_⟩
      rw [List.mem_singleton] at hr'
      exact hnew referrer (hr' ▸ hsame ▸ hr)
    · exact h.once user
  · rw [hrefers] at ha hb
    rcases ha with ha | ⟨rfl, rfl⟩
    · rcases hb with hb | ⟨-, rfl⟩
      · exact h.oneReferrer a b r ha hb
      · exact absurd ha (hnew a)
    · rcases hb with hb | ⟨rfl, -⟩
      · exact absurd hb (hnew b)
      · rfl
  · rw [getUserReferrals_addReferral]
    rw [hlook] at hp
    split_ifs at hp ⊢ with huser
    · subst huser
      obtain ⟨old, hold, rfl⟩ := Option.map_eq_some_iff.mp hp
      rw [List.length_append, List.length_singleton, Nat.cast_succ]
      exact congrArg (·+1) (h.counted referrer old hold)
    · exact h.counted user p hp
  · rw [hrefers, Forests.acyclic_addEdge_iff]
    exact ⟨h.forest, hback⟩
  · rw [hlook] at hnone
    rw [getUserReferrals_addReferral]
    split_ifs at hnone ⊢ with huser
    · subst huser
      obtain ⟨profile, hprofile⟩ := userExists_iff.mp hreferrer
      rw [hprofile] at hnone
      exact absurd hnone (Option.some_ne_none _)
    · exact h.absent user hnone

/-! ### Runs -/

/-- A profile is replaced by one with a valid name that nobody else has, and nobody is referred by
someone that they lead to themselves. -/
def Orderly (s : CSocialFeatures) (call : ℤ × Call) : Prop :=
  match call.2 with
  | .updateUserProfile pubkey profile =>
    s.userExists pubkey = true → Fits s pubkey profile.username
  | .createReferral referrer referee => s.socialFeaturesEnabled = true →
      s.userExists referrer = true → s.userExists referee = true →
        s.isReferred referee = false → ¬ReflTransGen s.Refers referee referrer
  | _ => True

theorem createReferral_of_new (now : ℤ) (henabled : s.socialFeaturesEnabled = true)
    (hreferrer : s.userExists referrer = true) (hreferee : s.userExists referee = true)
    (hnew : s.isReferred referee = false) :
    (s.createReferral now referrer referee).2 =
      (s.addReferral now referrer referee).checkReferralAchievements now referrer := by
  unfold createReferral
  rw [henabled, hreferrer, hreferee, hnew, if_neg Bool.noConfusion,
    if_neg (not_or.mpr ⟨Bool.noConfusion, Bool.noConfusion⟩), if_neg Bool.noConfusion]

theorem createReferral_sound (h : Sound s) (now : ℤ)
    (hback : s.socialFeaturesEnabled = true → s.userExists referrer = true →
      s.userExists referee = true → s.isReferred referee = false →
        ¬ReflTransGen s.Refers referee referrer) :
    Sound (s.createReferral now referrer referee).2 := by
  unfold createReferral
  split_ifs with henabled hexist hreferred
  · exact h
  · exact h
  · exact h
  rw [not_or, Bool.not_eq_false, Bool.not_eq_false] at hexist
  have hnew := eq_false_of_ne_true hreferred
  have hadded : Sound (s.addReferral now referrer referee) :=
    addReferral_sound h now hexist.1 (isReferred_eq_false_iff.mp hnew)
      (hback (eq_true_of_ne_false henabled) hexist.1 hexist.2 hnew)
  exact hadded.unlocks (checkReferralAchievements_unlocks now referrer)

theorem step_sound (h : Sound s) (call : ℤ × Call) (horderly : Orderly s call) :
    Sound (step s call).2 := by
  obtain ⟨now, call⟩ := call
  unfold step
  cases call with
  | createUserProfile pubkey username => exact createUserProfile_sound h now pubkey username
  | updateUserProfile pubkey profile => exact updateUserProfile_sound h profile horderly
  | createReferral referrer referee => exact createReferral_sound h now horderly
  | processReferralBonus referee bonus => exact processReferralBonus_sound h now referee bonus
  | initializeAchievements => exact h.congr rfl fun _ => rfl
  | unlockAchievement user achievementId =>
    exact h.unlocks (unlockAchievement_unlocks now user achievementId)
  | checkForNewAchievements user => exact h.unlocks (checkForNewAchievements_unlocks now user)
  | shareAchievement user achievementId platform =>
    dsimp only [shareAchievement]
    split_ifs
    · exact h
    · have hshared : ∀ share, Sound (s.addShare user share) := fun _ => h.congr rfl fun _ => rfl
      exact (hshared _).unlocks (checkSocialAchievements_unlocks now user)
    · exact h
  | shareStakingMilestone user amount platform =>
    dsimp only [shareStakingMilestone]
    split_ifs
    · exact h
    · exact h.congr rfl fun _ => rfl
  | setSocialFeaturesEnabled enabled => exact h.congr rfl fun _ => rfl

theorem step_inconsistent (call : ℤ × Call) (hnot : ¬Orderly s call) :
    ¬(step s call).2.Consistent := by
  obtain ⟨now, call⟩ := call
  intro hnext
  unfold step at hnext
  cases call with
  | updateUserProfile pubkey profile =>
    unfold Orderly at hnot
    dsimp only at hnot
    push Not at hnot
    obtain ⟨hexists, hunfit⟩ := hnot
    obtain ⟨updated, old, -, hname, -, hupdate⟩ := updateUserProfile_of_exists hexists profile
    dsimp only at hnext
    rw [hupdate] at hnext
    exact hunfit (hname ▸ fits_of_consistent hnext)
  | createReferral referrer referee =>
    unfold Orderly at hnot
    dsimp only at hnot
    push Not at hnot
    obtain ⟨henabled, hreferrer, hreferee, hnew, hback⟩ := hnot
    dsimp only at hnext
    rw [createReferral_of_new now henabled hreferrer hreferee hnew] at hnext
    have hunlocks := checkReferralAchievements_unlocks
      (s := s.addReferral now referrer referee) now referrer
    have hforest := hnext.forest
    have hrefers : ((s.addReferral now referrer referee).checkReferralAchievements now
        referrer).Refers = (s.addReferral now referrer referee).Refers := by
      funext a b
      rw [Refers, referees, getUserReferrals, hunlocks.referrals]
      rfl
    rw [hrefers, refers_addReferral, Forests.acyclic_addEdge_iff] at hforest
    exact hforest.2 hback
  | _ => exact hnot trivial

theorem init_sound : Sound CSocialFeatures.init := by
  have hnone : ∀ user, CSocialFeatures.init.getUserReferrals user = [] := by
    intro user
    unfold getUserReferrals
    rfl
  have hrefers : ∀ a b, ¬CSocialFeatures.init.Refers a b := by
    intro a b
    rw [Refers, referees, hnone]
    exact List.not_mem_nil
  have hprofiles : ∀ (user : CPubKey) (profile : UserProfile),
      CSocialFeatures.init.userProfiles[user]? ≠ some profile := by
    intro user profile hprofile
    exact nomatch (show none = some profile from hprofile)
  refine ⟨⟨fun a p hp => ?_, fun a _ p _ hp => ?_, fun user => ?_, fun a _ r ha => ?_,
    fun a p hp => ?_, fun a hcycle => ?_⟩, fun user _ => hnone user⟩
  · exact absurd hp (hprofiles a p)
  · exact absurd hp (hprofiles a p)
  · rw [referees, hnone]
    exact List.nodup_nil
  · exact absurd ha (hrefers a r)
  · exact absurd hp (hprofiles a p)
  · obtain ⟨b, hb, -⟩ := TransGen.head'_iff.mp hcycle
    exact hrefers a b hb

/-- Over a run the profiles and referrals are consistent in every state exactly when all calls are
orderly. -/
theorem consistent_iff (calls : List (ℤ × Call)) :
    (∀ past, past <+: calls → (Runs.final step CSocialFeatures.init past).Consistent) ↔
      Runs.EveryStep step Orderly CSocialFeatures.init calls := by
  apply Runs.forall_prefix_iff Sound Consistent (fun _ h => h.toConsistent) ?_ ?_ init_sound
  · intro s call h horderly
    exact step_sound h call horderly
  · intro s call _ hnot
    exact step_inconsistent call hnot

/-- An update takes an empty name, and a user refers itself. -/
theorem not_consistent :
    ∃ rename refer : List (ℤ × Call),
      ¬(Runs.final step CSocialFeatures.init rename).Consistent ∧
        ¬(Runs.final step CSocialFeatures.init refer).Consistent := by
  let user := CPubKey.invalid
  let create : ℤ × Call := (0, .createUserProfile user [97, 98, 99])
  refine ⟨[create, (0, .updateUserProfile user {pubkey := user, username := []})],
    [create, (0, .createReferral user user)], fun h => ?_, fun h => ?_⟩
  · have hvalid := h.valid user {pubkey := user, username := []} rfl
    exact nomatch hvalid
  · have hself : user ∈ (Runs.final step CSocialFeatures.init
        [create, (0, .createReferral user user)]).referees user := by decide
    exact h.forest user (TransGen.single hself)

end BabaChain.Social
