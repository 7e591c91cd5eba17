import BabaChain.Lib.ByteWriter
import BabaChain.Lib.Runs
import Mathlib.Data.List.ReduceOption
import Mathlib.Data.Set.Card

/-! The airdrop contract: campaigns, the claims on them and the referrals that claims bring. -/
namespace BabaChain.Airdrop

abbrev address := BitVec 160
abbrev uint256 := BitVec 256

instance : Finite address :=
  Finite.of_injective BitVec.toFin fun _ _ h => BitVec.eq_of_toFin_eq h

/-! ### State -/

variable {Hash Token : Type}

structure AirdropCampaign (Hash : Type) where
  merkleRoot : Hash
  totalAllocation : ℕ
  claimedAmount : ℕ
  startTime : ℕ
  endTime : ℕ
  active : Bool

/-- The contracts and functions that are called: the token, which moves the amount that it is
given or reverts, and the hashes. -/
structure External (Hash Token : Type) where
  transfer : Token → address → ℕ → Option Token
  balanceOf : Token → ℕ
  keccak256 : List UInt8 → Hash
  verify : List Hash → Hash → Hash → Bool
  -- the value of a storage slot that was never written
  zeroHash : Hash

/-- The storage of the contract, with the token that it holds. A mapping has a value for every
key. -/
structure BabaChainAirdrop (Hash Token : Type) where
  owner : address
  babaChainToken : Token
  campaigns : ℕ → AirdropCampaign Hash
  hasClaimed : ℕ → address → Bool := fun _ _ => false
  referralRewards : address → ℕ := fun _ => 0
  referrers : address → address := fun _ => 0
  referralCount : address → ℕ := fun _ => 0
  currentCampaignId : ℕ := 0

def REFERRAL_BONUS : ℕ := 50*10^18
def REFEREE_BONUS : ℕ := 25*10^18

variable (env : External Hash Token)

def External.deploy (owner : address) (token : Token) : BabaChainAirdrop Hash Token where
  owner := owner
  babaChainToken := token
  campaigns _ := ⟨env.zeroHash, 0, 0, 0, 0, false⟩

/-! ### Functions -/

/-- Sums revert when they do not fit. -/
def checkedAdd (a b : ℕ) : Option ℕ := if a+b < 2^256 then some (a+b) else none

/-- `abi.encodePacked` of an address and an amount. -/
def encodePacked (user : address) (amount : uint256) : List UInt8 :=
  ByteWriter.writeBE 20 user.toNat ++ ByteWriter.writeBE 32 amount.toNat

/-- What a claim that succeeds does: its base amount, and the transfers that are made for it. -/
structure Receipt where
  campaignId : ℕ
  user : address
  amount : uint256
  transfers : List (address × ℕ)
deriving DecidableEq

variable (s : BabaChainAirdrop Hash Token) (sender : address)

def createCampaign (merkleRoot : Hash) (totalAllocation startTime endTime : uint256) :
    Option (BabaChainAirdrop Hash Token) := do
  guard (sender = s.owner)
  guard (startTime.toNat < endTime.toNat)
  guard (0 < totalAllocation.toNat)
  let currentCampaignId ← checkedAdd s.currentCampaignId 1
  return {s with
    campaigns := Function.update s.campaigns s.currentCampaignId
      { merkleRoot := merkleRoot
        totalAllocation := totalAllocation.toNat
        claimedAmount := 0
        startTime := startTime.toNat
        endTime := endTime.toNat
        active := true }
    currentCampaignId := currentCampaignId}

/-- The referral of a claim and the transfers, once the claim has been noted. -/
def payClaim (campaignId : ℕ) (amount : uint256) (referrer : address) :
    Option (Receipt × BabaChainAirdrop Hash Token) :=
  if referrer ≠ 0 ∧ referrer ≠ sender ∧ s.referrers sender = 0 then do
    let count ← checkedAdd (s.referralCount referrer) 1
    let rewards ← checkedAdd (s.referralRewards referrer) REFERRAL_BONUS
    let token ← env.transfer s.babaChainToken referrer REFERRAL_BONUS
    let paid ← checkedAdd amount.toNat REFEREE_BONUS
    let token ← env.transfer token sender paid
    return (⟨campaignId, sender, amount, [(referrer, REFERRAL_BONUS), (sender, paid)]⟩,
      { s with
        referrers := Function.update s.referrers sender referrer
        referralCount := Function.update s.referralCount referrer count
        referralRewards := Function.update s.referralRewards referrer rewards
        babaChainToken := token })
  else do
    let token ← env.transfer s.babaChainToken sender amount.toNat
    return (⟨campaignId, sender, amount, [(sender, amount.toNat)]⟩,
      {s with babaChainToken := token})

def claimAirdrop (timestamp : ℕ) (campaignId amount : uint256) (merkleProof : List Hash)
    (referrer : address) : Option (Receipt × BabaChainAirdrop Hash Token) := do
  let id := campaignId.toNat
  guard (id < s.currentCampaignId)
  guard (s.hasClaimed id sender = false)
  let campaign := s.campaigns id
  guard (campaign.active = true)
  guard (campaign.startTime ≤ timestamp)
  guard (timestamp ≤ campaign.endTime)
  let claimedAmount ← checkedAdd campaign.claimedAmount amount.toNat
  guard (claimedAmount ≤ campaign.totalAllocation)
  let leaf := env.keccak256 (encodePacked sender amount)
  guard (env.verify merkleProof campaign.merkleRoot leaf = true)
  payClaim env
    { s with
      hasClaimed := Function.update s.hasClaimed id
        (Function.update (s.hasClaimed id) sender true)
      campaigns := Function.update s.campaigns id {campaign with claimedAmount := claimedAmount} }
    sender id amount referrer

def emergencyWithdraw : Option (BabaChainAirdrop Hash Token) := do
  guard (sender = s.owner)
  let token ← env.transfer s.babaChainToken s.owner (env.balanceOf s.babaChainToken)
  return {s with babaChainToken := token}

/-! ### Runs -/

inductive Call (Hash : Type)
  | createCampaign (merkleRoot : Hash) (totalAllocation startTime endTime : uint256)
  | claimAirdrop (campaignId amount : uint256) (merkleProof : List Hash) (referrer : address)
  | emergencyWithdraw

structure Transaction (Hash : Type) where
  sender : address
  timestamp : ℕ
  call : Call Hash

/-- A transaction with what it leaves. One that reverts leaves everything as it is. -/
def execute (s : BabaChainAirdrop Hash Token) (tx : Transaction Hash) :
    Option Receipt × BabaChainAirdrop Hash Token :=
  match tx.call with
  | .createCampaign merkleRoot totalAllocation startTime endTime =>
    (none, (createCampaign s tx.sender merkleRoot totalAllocation startTime endTime).getD s)
  | .claimAirdrop campaignId amount merkleProof referrer =>
    match claimAirdrop env s tx.sender tx.timestamp campaignId amount merkleProof referrer with
    | some (receipt, s) => (some receipt, s)
    | none => (none, s)
  | .emergencyWithdraw => (none, (emergencyWithdraw env s tx.sender).getD s)

variable {env : External Hash Token} {s : BabaChainAirdrop Hash Token} {sender : address}

/-! ### What the functions do -/

theorem checkedAdd_eq_some {a b c : ℕ} : checkedAdd a b = some c ↔ a+b < 2^256 ∧ a+b = c := by
  unfold checkedAdd
  split_ifs with h
  · rw [Option.some.injEq, and_iff_right h]
  · exact iff_of_false nofun fun hc => h hc.1

/-- What a claim makes of the referrals, if it brings one. -/
structure Refers (s s' : BabaChainAirdrop Hash Token) (user referrer : address) : Prop where
  ne_zero : referrer ≠ 0
  ne_user : referrer ≠ user
  unset : s.referrers user = 0
  referrers : s'.referrers = Function.update s.referrers user referrer
  count : s'.referralCount = Function.update s.referralCount referrer (s.referralCount referrer+1)
  rewards : s'.referralRewards =
    Function.update s.referralRewards referrer (s.referralRewards referrer+REFERRAL_BONUS)

/-- The referrals are as they were. -/
structure SameReferrals (s s' : BabaChainAirdrop Hash Token) : Prop where
  referrers : s'.referrers = s.referrers
  count : s'.referralCount = s.referralCount
  rewards : s'.referralRewards = s.referralRewards

/-- Campaigns and claims are as they were. -/
structure SameCampaigns (s s' : BabaChainAirdrop Hash Token) : Prop where
  campaigns : s'.campaigns = s.campaigns
  hasClaimed : s'.hasClaimed = s.hasClaimed
  current : s'.currentCampaignId = s.currentCampaignId

/-- Everything that was paid for a claim, and whether it brought a referral. -/
def Receipt.paid (r : Receipt) : ℕ := (r.transfers.map Prod.snd).sum

def Receipt.referred (r : Receipt) : Bool := decide (1 < r.transfers.length)

theorem createCampaign_eq_some {merkleRoot : Hash}
    {totalAllocation startTime endTime : uint256} {s' : BabaChainAirdrop Hash Token}
    (h : createCampaign s sender merkleRoot totalAllocation startTime endTime = some s') :
    SameReferrals s s' ∧ s'.hasClaimed = s.hasClaimed ∧
      s'.currentCampaignId = s.currentCampaignId+1 ∧
      ∃ campaign, campaign.claimedAmount = 0 ∧
        s'.campaigns = Function.update s.campaigns s.currentCampaignId campaign := by
  unfold createCampaign at h
  simp only [Option.bind_eq_bind, Option.bind_eq_some_iff, Option.guard_eq_some',
    checkedAdd_eq_some, Option.pure_def, Option.some.injEq, exists_and_left, exists_const] at h
  obtain ⟨-, -, -, current, ⟨-, rfl⟩, rfl⟩ := h
  exact ⟨⟨rfl, rfl, rfl⟩, rfl, rfl, _, rfl, rfl⟩

theorem emergencyWithdraw_eq_some {s' : BabaChainAirdrop Hash Token}
    (h : emergencyWithdraw env s sender = some s') : SameReferrals s s' ∧ SameCampaigns s s' := by
  unfold emergencyWithdraw at h
  simp only [Option.bind_eq_bind, Option.bind_eq_some_iff, Option.guard_eq_some',
    Option.pure_def, Option.some.injEq, exists_and_left, exists_const] at h
  obtain ⟨-, token, -, rfl⟩ := h
  exact ⟨⟨rfl, rfl, rfl⟩, rfl, rfl, rfl⟩

/-- What is paid for a claim, with or without a referral. -/
def Pays (s s' : BabaChainAirdrop Hash Token) (r : Receipt) : Prop :=
  (SameReferrals s s' ∧ r.transfers = [(r.user, r.amount.toNat)]) ∨
    ∃ referrer, Refers s s' r.user referrer ∧ r.transfers =
      [(referrer, REFERRAL_BONUS), (r.user, r.amount.toNat+REFEREE_BONUS)]

theorem payClaim_eq_some {campaignId : ℕ} {amount : uint256} {referrer : address} {r : Receipt}
    {s' : BabaChainAirdrop Hash Token}
    (h : payClaim env s sender campaignId amount referrer = some (r, s')) :
    (r.campaignId = campaignId ∧ r.user = sender ∧ r.amount = amount) ∧ SameCampaigns s s' ∧
      Pays s s' r := by
  unfold payClaim at h
  split_ifs at h with hrefers
  · simp only [Option.bind_eq_bind, Option.bind_eq_some_iff, checkedAdd_eq_some,
      Option.pure_def, Option.some.injEq, Prod.mk.injEq] at h
    obtain ⟨count, ⟨-, rfl⟩, rewards, ⟨-, rfl⟩, token, -, paid, ⟨-, rfl⟩, token', -, rfl, rfl⟩ := h
    exact ⟨⟨rfl, rfl, rfl⟩, ⟨rfl, rfl, rfl⟩, Or.inr ⟨referrer,
      ⟨hrefers.1, hrefers.2.1, hrefers.2.2, rfl, rfl, rfl⟩, rfl⟩⟩
  · simp only [Option.bind_eq_bind, Option.bind_eq_some_iff, Option.pure_def,
      Option.some.injEq, Prod.mk.injEq] at h
    obtain ⟨token, -, rfl, rfl⟩ := h
    exact ⟨⟨rfl, rfl, rfl⟩, ⟨rfl, rfl, rfl⟩, Or.inl ⟨⟨rfl, rfl, rfl⟩, rfl⟩⟩

/-- A claim that succeeds, with its receipt. -/
structure Claimed (env : External Hash Token) (s s' : BabaChainAirdrop Hash Token)
    (r : Receipt) : Prop where
  known : r.campaignId < s.currentCampaignId
  unclaimed : s.hasClaimed r.campaignId r.user = false
  fits : (s.campaigns r.campaignId).claimedAmount+r.amount.toNat ≤
    (s.campaigns r.campaignId).totalAllocation
  verified : ∃ merkleProof, env.verify merkleProof (s.campaigns r.campaignId).merkleRoot
    (env.keccak256 (encodePacked r.user r.amount)) = true
  campaigns : s'.campaigns = Function.update s.campaigns r.campaignId
    { s.campaigns r.campaignId with
      claimedAmount := (s.campaigns r.campaignId).claimedAmount+r.amount.toNat }
  hasClaimed : s'.hasClaimed = Function.update s.hasClaimed r.campaignId
    (Function.update (s.hasClaimed r.campaignId) r.user true)
  current : s'.currentCampaignId = s.currentCampaignId
  pays : Pays s s' r

theorem claimAirdrop_eq_some {timestamp : ℕ} {campaignId amount : uint256}
    {merkleProof : List Hash} {referrer : address} {r : Receipt}
    {s' : BabaChainAirdrop Hash Token}
    (h : claimAirdrop env s sender timestamp campaignId amount merkleProof referrer =
      some (r, s')) : Claimed env s s' r := by
  unfold claimAirdrop at h
  simp only [Option.bind_eq_bind, Option.bind_eq_some_iff, Option.guard_eq_some',
    checkedAdd_eq_some, exists_and_left, exists_const] at h
  obtain ⟨hknown, hunclaimed, -, -, -, claimed, ⟨-, rfl⟩, hfits, hverified, hpay⟩ := h
  obtain ⟨⟨hid, huser, hamount⟩, hsame, hpays⟩ := payClaim_eq_some hpay
  subst huser hamount
  rw [← hid] at hknown hunclaimed hfits hverified hsame hpays
  exact
    { known := hknown
      unclaimed := hunclaimed
      fits := hfits
      verified := ⟨merkleProof, hverified⟩
      campaigns := hsame.campaigns
      hasClaimed := hsame.hasClaimed
      current := hsame.current
      pays := by
        rcases hpays with ⟨hkept, htransfers⟩ | ⟨referrer, hrefers, htransfers⟩
        · exact Or.inl ⟨⟨hkept.referrers, hkept.count, hkept.rewards⟩, htransfers⟩
        · exact Or.inr ⟨referrer, ⟨hrefers.ne_zero, hrefers.ne_user, hrefers.unset,
            hrefers.referrers, hrefers.count, hrefers.rewards⟩, htransfers⟩ }

/-! ### The ledger -/

/-- The receipts of a campaign. -/
def receiptsOf (campaignId : ℕ) (receipts : List Receipt) : List Receipt :=
  receipts.filter fun r => r.campaignId = campaignId

/-- How the storage follows from the claims that have succeeded. -/
structure Ledger (env : External Hash Token) (receipts : List Receipt)
    (s : BabaChainAirdrop Hash Token) : Prop where
  known : ∀ r ∈ receipts, r.campaignId < s.currentCampaignId
  claimed : ∀ c, (s.campaigns c).claimedAmount =
    ((receiptsOf c receipts).map fun r => r.amount.toNat).sum
  allocated : ∀ c, (s.campaigns c).claimedAmount ≤ (s.campaigns c).totalAllocation
  hasClaimed : ∀ c user, s.hasClaimed c user = true ↔
    ∃ r ∈ receipts, r.campaignId = c ∧ r.user = user
  once : (receipts.map fun r => (r.campaignId, r.user)).Nodup
  verified : ∀ r ∈ receipts, ∃ merkleProof,
    env.verify merkleProof (s.campaigns r.campaignId).merkleRoot
      (env.keccak256 (encodePacked r.user r.amount)) = true
  paid : ∀ r ∈ receipts, r.paid =
    r.amount.toNat + if r.referred then REFERRAL_BONUS+REFEREE_BONUS else 0
  rewards : ∀ a, s.referralRewards a = REFERRAL_BONUS*s.referralCount a
  count : ∀ a ≠ 0, s.referralCount a = {u | s.referrers u = a}.ncard
  other : ∀ u ≠ 0, s.referrers u ≠ u

theorem ledger_deploy (owner : address) (token : Token) :
    Ledger env [] (env.deploy owner token) where
  known r hr := absurd hr List.not_mem_nil
  claimed c := rfl
  allocated c := le_refl 0
  hasClaimed c user := iff_of_false Bool.false_ne_true fun ⟨r, hr, _⟩ => List.not_mem_nil hr
  once := List.nodup_nil
  verified r hr := absurd hr List.not_mem_nil
  paid r hr := absurd hr List.not_mem_nil
  rewards a := rfl
  count a ha := by
    have hnone : {u | (env.deploy owner token).referrers u = a} = ∅ :=
      Set.eq_empty_of_forall_notMem fun u hu => ha (Eq.symm hu)
    rw [hnone, Set.ncard_empty]
    rfl
  other u hu := Ne.symm hu

variable {receipts : List Receipt} {s' : BabaChainAirdrop Hash Token} {r : Receipt}

/-- A payment without a referral, or with one, keeps the referrals in order. -/
theorem Ledger.referrals (h : Ledger env receipts s) (hpays : Pays s s' r) :
    (∀ a, s'.referralRewards a = REFERRAL_BONUS*s'.referralCount a) ∧
    (∀ a ≠ 0, s'.referralCount a = {u | s'.referrers u = a}.ncard) ∧
    ∀ u ≠ 0, s'.referrers u ≠ u := by
  rcases hpays with ⟨hsame, -⟩ | ⟨referrer, hrefers, -⟩
  · rw [hsame.referrers, hsame.count, hsame.rewards]
    exact ⟨h.rewards, h.count, h.other⟩
  · rw [hrefers.referrers, hrefers.count, hrefers.rewards]
    refine ⟨fun a => ?_, fun a ha => ?_, fun u hu => ?_⟩
    · by_cases haref : a = referrer
      · subst haref
        rw [Function.update_self, Function.update_self, h.rewards, Nat.mul_add, Nat.mul_one]
      · rw [Function.update_of_ne haref, Function.update_of_ne haref, h.rewards]
    · by_cases haref : a = referrer
      · subst haref
        have hinsert : {u | Function.update s.referrers r.user a u = a} =
            insert r.user {u | s.referrers u = a} := by
          ext u
          by_cases hu : u = r.user
          · subst hu
            simp only [Set.mem_ofPred_eq, Function.update_self, Set.mem_insert_iff, true_or]
          · simp only [Set.mem_ofPred_eq, Function.update_of_ne hu, Set.mem_insert_iff, hu,
              false_or]
        have hnew : r.user ∉ {u | s.referrers u = a} := fun hmem =>
          hrefers.ne_zero (hmem.symm.trans hrefers.unset)
        rw [Function.update_self, hinsert, Set.ncard_insert_of_notMem hnew, h.count a ha]
      · have hsame : {u | Function.update s.referrers r.user referrer u = a} =
            {u | s.referrers u = a} := by
          ext u
          by_cases hu : u = r.user
          · subst hu
            rw [Set.mem_ofPred_eq, Set.mem_ofPred_eq, Function.update_self, hrefers.unset]
            exact iff_of_false (Ne.symm haref) (Ne.symm ha)
          · rw [Set.mem_ofPred_eq, Set.mem_ofPred_eq, Function.update_of_ne hu]
        rw [Function.update_of_ne haref, hsame, h.count a ha]
    · by_cases huser : u = r.user
      · subst huser
        rw [Function.update_self]
        exact hrefers.ne_user
      · rw [Function.update_of_ne huser]
        exact h.other u hu

theorem paid_of_pays (hpays : Pays s s' r) :
    r.paid = r.amount.toNat + if r.referred then REFERRAL_BONUS+REFEREE_BONUS else 0 := by
  unfold Receipt.paid Receipt.referred
  rcases hpays with ⟨-, htransfers⟩ | ⟨referrer, -, htransfers⟩
  · have hone : decide (1 < r.transfers.length) = false := by
      rw [htransfers]
      exact decide_eq_false (lt_irrefl 1)
    rw [hone, if_neg Bool.false_ne_true, htransfers, List.map_singleton, List.sum_singleton,
      Nat.add_zero]
  · have htwo : decide (1 < r.transfers.length) = true := by
      rw [htransfers]
      exact decide_eq_true one_lt_two
    rw [htwo, if_pos rfl, htransfers, List.map_cons, List.map_singleton, List.sum_cons,
      List.sum_singleton, Nat.add_left_comm]

theorem receiptsOf_append (c : ℕ) :
    receiptsOf c (receipts ++ [r]) =
      receiptsOf c receipts ++ if r.campaignId = c then [r] else [] := by
  rw [receiptsOf, receiptsOf, List.filter_append, List.filter_singleton, Bool.cond_decide]

theorem entered_iff {p : Receipt → Prop} (hr : ¬p r) :
    (∃ r' ∈ receipts, p r') ↔ ∃ r' ∈ receipts ++ [r], p r' := by
  simp only [List.mem_append, List.mem_singleton]
  constructor
  · rintro ⟨r', hr', hp⟩
    exact ⟨r', Or.inl hr', hp⟩
  · rintro ⟨r', hr' | rfl, hp⟩
    · exact ⟨r', hr', hp⟩
    · exact absurd hp hr

/-- A claim that succeeds is entered. -/
theorem Ledger.claim (h : Ledger env receipts s) (hclaim : Claimed env s s' r) :
    Ledger env (receipts ++ [r]) s' := by
  obtain ⟨hrewards, hcount, hother⟩ := h.referrals hclaim.pays
  have hroot : ∀ c, (s'.campaigns c).merkleRoot = (s.campaigns c).merkleRoot := by
    intro c
    rw [hclaim.campaigns]
    by_cases hc : c = r.campaignId
    · subst hc
      rw [Function.update_self]
    · rw [Function.update_of_ne hc]
  have hnew : (r.campaignId, r.user) ∉ receipts.map fun r => (r.campaignId, r.user) := by
    intro hmem
    obtain ⟨r', hr', heq⟩ := List.mem_map.mp hmem
    rw [Prod.mk.injEq] at heq
    have hclaimed := (h.hasClaimed r.campaignId r.user).mpr ⟨r', hr', heq⟩
    rw [hclaim.unclaimed] at hclaimed
    exact Bool.false_ne_true hclaimed
  exact
    { known := by
        rw [hclaim.current, List.forall_mem_append, List.forall_mem_singleton]
        exact ⟨h.known, hclaim.known⟩
      claimed := by
        intro c
        rw [hclaim.campaigns, receiptsOf_append]
        by_cases hc : c = r.campaignId
        · subst hc
          rw [Function.update_self, if_pos rfl, List.map_append, List.sum_append, ← h.claimed]
          rfl
        · rw [Function.update_of_ne hc, if_neg (Ne.symm hc), List.append_nil, h.claimed]
      allocated := by
        intro c
        rw [hclaim.campaigns]
        by_cases hc : c = r.campaignId
        · subst hc
          rw [Function.update_self]
          exact hclaim.fits
        · rw [Function.update_of_ne hc]
          exact h.allocated c
      hasClaimed := by
        intro c user
        rw [hclaim.hasClaimed]
        by_cases hc : c = r.campaignId
        · subst hc
          rw [Function.update_self]
          by_cases huser : user = r.user
          · subst huser
            rw [Function.update_self]
            exact iff_of_true rfl ⟨r, List.mem_append_right _ List.mem_cons_self, rfl, rfl⟩
          · rw [Function.update_of_ne huser, h.hasClaimed]
            exact entered_iff fun hr => huser hr.2.symm
        · rw [Function.update_of_ne hc, h.hasClaimed]
          exact entered_iff fun hr => hc hr.1.symm
      once := by
        rw [List.map_append, List.map_singleton]
        exact List.nodup_append.mpr ⟨h.once, List.nodup_singleton _,
          fun a ha b hb hab => hnew (List.mem_singleton.mp hb ▸ hab ▸ ha)⟩
      verified := by
        rw [List.forall_mem_append, List.forall_mem_singleton]
        simp only [hroot]
        exact ⟨h.verified, hclaim.verified⟩
      paid := by
        rw [List.forall_mem_append, List.forall_mem_singleton]
        exact ⟨h.paid, paid_of_pays hclaim.pays⟩
      rewards := hrewards
      count := hcount
      other := hother }

theorem Ledger.withdraw (h : Ledger env receipts s) (hreferrals : SameReferrals s s')
    (hcampaigns : SameCampaigns s s') : Ledger env receipts s' where
  known := by
    rw [hcampaigns.current]
    exact h.known
  claimed := by
    rw [hcampaigns.campaigns]
    exact h.claimed
  allocated := by
    rw [hcampaigns.campaigns]
    exact h.allocated
  hasClaimed := by
    rw [hcampaigns.hasClaimed]
    exact h.hasClaimed
  once := h.once
  verified := by
    rw [hcampaigns.campaigns]
    exact h.verified
  paid := h.paid
  rewards := by
    rw [hreferrals.rewards, hreferrals.count]
    exact h.rewards
  count := by
    rw [hreferrals.referrers, hreferrals.count]
    exact h.count
  other := by
    rw [hreferrals.referrers]
    exact h.other

/-- A new campaign has no claims. -/
theorem Ledger.create (h : Ledger env receipts s) (hreferrals : SameReferrals s s')
    (hclaimed : s'.hasClaimed = s.hasClaimed)
    (hcurrent : s'.currentCampaignId = s.currentCampaignId+1)
    {campaign : AirdropCampaign Hash} (hzero : campaign.claimedAmount = 0)
    (hcampaigns : s'.campaigns = Function.update s.campaigns s.currentCampaignId campaign) :
    Ledger env receipts s' where
  known := by
    rw [hcurrent]
    exact fun r hr => Nat.lt_succ_of_lt (h.known r hr)
  claimed := by
    intro c
    rw [hcampaigns]
    by_cases hc : c = s.currentCampaignId
    · subst hc
      have hnone : receiptsOf s.currentCampaignId receipts = [] :=
        List.filter_eq_nil_iff.mpr fun r hr heq =>
          (h.known r hr).ne (of_decide_eq_true heq)
      rw [Function.update_self, hnone, hzero, List.map_nil, List.sum_nil]
    · rw [Function.update_of_ne hc]
      exact h.claimed c
  allocated := by
    intro c
    rw [hcampaigns]
    by_cases hc : c = s.currentCampaignId
    · subst hc
      rw [Function.update_self, hzero]
      exact Nat.zero_le _
    · rw [Function.update_of_ne hc]
      exact h.allocated c
  hasClaimed := by
    rw [hclaimed]
    exact h.hasClaimed
  once := h.once
  verified := by
    intro r hr
    rw [hcampaigns, Function.update_of_ne (h.known r hr).ne]
    exact h.verified r hr
  paid := h.paid
  rewards := by
    rw [hreferrals.rewards, hreferrals.count]
    exact h.rewards
  count := by
    rw [hreferrals.referrers, hreferrals.count]
    exact h.count
  other := by
    rw [hreferrals.referrers]
    exact h.other

/-- Whatever is called, the receipt is entered if there is one. -/
theorem Ledger.execute (h : Ledger env receipts s) (tx : Transaction Hash) :
    Ledger env (receipts ++ (execute env s tx).1.toList) (execute env s tx).2 := by
  obtain ⟨sender, timestamp, call⟩ := tx
  unfold Airdrop.execute
  cases call with
  | createCampaign merkleRoot totalAllocation startTime endTime =>
    rw [Option.toList_none, List.append_nil]
    dsimp only
    cases hs' : createCampaign s sender merkleRoot totalAllocation startTime endTime with
    | none => exact h
    | some s' =>
      obtain ⟨hreferrals, hclaimed, hcurrent, campaign, hzero, hcampaigns⟩ :=
        createCampaign_eq_some hs'
      exact h.create hreferrals hclaimed hcurrent hzero hcampaigns
  | claimAirdrop campaignId amount merkleProof referrer =>
    dsimp only
    cases hclaim : claimAirdrop env s sender timestamp campaignId amount merkleProof referrer with
    | none =>
      rw [Option.toList_none, List.append_nil]
      exact h
    | some p => exact h.claim (claimAirdrop_eq_some hclaim)
  | emergencyWithdraw =>
    rw [Option.toList_none, List.append_nil]
    dsimp only
    cases hs' : emergencyWithdraw env s sender with
    | none => exact h
    | some s' =>
      obtain ⟨hreferrals, hcampaigns⟩ := emergencyWithdraw_eq_some hs'
      exact h.withdraw hreferrals hcampaigns

/-- The claims that succeed in a run from the deployment, and the storage after it. -/
def External.succeeded (env : External Hash Token) (owner : address) (token : Token)
    (txs : List (Transaction Hash)) : List Receipt :=
  (Runs.outputs (execute env) (env.deploy owner token) txs).reduceOption

def External.storage (env : External Hash Token) (owner : address) (token : Token)
    (txs : List (Transaction Hash)) : BabaChainAirdrop Hash Token :=
  Runs.final (execute env) (env.deploy owner token) txs

theorem ledger_run (env : External Hash Token) (owner : address) (token : Token)
    (txs : List (Transaction Hash)) :
    Ledger env (env.succeeded owner token txs) (env.storage owner token txs) := by
  have hstart : Ledger env ([] : List (Option Receipt)).reduceOption (env.deploy owner token) :=
    ledger_deploy owner token
  refine Runs.outputs_invariant (fun past s => Ledger env past.reduceOption s)
    (fun past s tx h => ?_) hstart txs
  rw [List.reduceOption_append]
  have hnext := h.execute tx
  cases hout : (execute env s tx).1 with
  | none =>
    rw [hout] at hnext
    exact hnext
  | some r =>
    rw [hout] at hnext
    exact hnext

/-! ### Accounting -/

/-- What is paid for a campaign exceeds the base amounts, which its allocation covers, by a fixed
amount for each claim that brought a referral. -/
theorem claimAirdrop_paid (env : External Hash Token) (owner : address) (token : Token)
    (txs : List (Transaction Hash)) (c : ℕ) :
    ((receiptsOf c (env.succeeded owner token txs)).map Receipt.paid).sum =
      ((env.storage owner token txs).campaigns c).claimedAmount +
        (REFERRAL_BONUS+REFEREE_BONUS) *
          (receiptsOf c (env.succeeded owner token txs)).countP Receipt.referred ∧
    ((env.storage owner token txs).campaigns c).claimedAmount ≤
      ((env.storage owner token txs).campaigns c).totalAllocation := by
  have h := ledger_run env owner token txs
  refine ⟨?_, h.allocated c⟩
  have hpaid : ∀ r ∈ receiptsOf c (env.succeeded owner token txs), r.paid =
      r.amount.toNat + if r.referred then REFERRAL_BONUS+REFEREE_BONUS else 0 :=
    fun r hr => h.paid r (List.mem_of_mem_filter hr)
  rw [h.claimed c]
  generalize receiptsOf c (env.succeeded owner token txs) = receipts at hpaid
  induction receipts with
  | nil => rw [List.map_nil, List.map_nil, List.sum_nil, List.countP_nil, Nat.mul_zero,
    Nat.add_zero]
  | cons r receipts ih =>
    rw [List.forall_mem_cons] at hpaid
    rw [List.map_cons, List.sum_cons, ih hpaid.2, hpaid.1, List.map_cons, List.sum_cons,
      List.countP_cons, Nat.mul_add]
    cases r.referred with
    | true =>
      rw [if_pos rfl, if_pos rfl, Nat.mul_one]
      omega
    | false =>
      rw [if_neg Bool.false_ne_true, if_neg Bool.false_ne_true]
      omega

/-- A token that is always transferred, and trees of a single leaf without a proof. -/
def oneLeaf : External (List UInt8) Unit where
  transfer _ _ _ := some ()
  balanceOf _ := 0
  keccak256 := id
  verify merkleProof root leaf := decide (merkleProof = [] ∧ leaf = root)
  zeroHash := []

/-- A campaign whose whole allocation is claimed, with a referral. -/
def claimAll : List (Transaction (List UInt8)) :=
  [ ⟨1, 0, .createCampaign (encodePacked 2 (100*10^18)) (100*10^18) 0 10⟩,
    ⟨2, 5, .claimAirdrop 0 (100*10^18) [] 3⟩ ]

theorem claimAll_paid :
    ((oneLeaf.storage 1 () claimAll).campaigns 0).totalAllocation <
      ((receiptsOf 0 (oneLeaf.succeeded 1 () claimAll)).map Receipt.paid).sum := by
  decide

/-! ### Bookkeeping -/

theorem encodePacked_injective {user user' : address} {amount amount' : uint256}
    (h : encodePacked user amount = encodePacked user' amount') :
    user = user' ∧ amount = amount' := by
  obtain ⟨huser, hamount⟩ := List.append_inj h (by
    rw [ByteWriter.length_writeBE, ByteWriter.length_writeBE])
  have haddress : ∀ a : address, a.toNat < 256^20 := fun a => a.isLt
  have hword : ∀ a : uint256, a.toNat < 256^32 := fun a => a.isLt
  exact ⟨BitVec.eq_of_toNat_eq
      (ByteWriter.writeBE_injOn 20 (haddress user) (haddress user') huser),
    BitVec.eq_of_toNat_eq
      (ByteWriter.writeBE_injOn 32 (hword amount) (hword amount') hamount)⟩

/-- A referrer that is set stays. -/
theorem execute_referrers {u referrer : address} (hne : referrer ≠ 0)
    (hu : s.referrers u = referrer) (tx : Transaction Hash) : (execute env s tx).2.referrers u = referrer := by
  obtain ⟨sender, timestamp, call⟩ := tx
  unfold execute
  cases call with
  | createCampaign merkleRoot totalAllocation startTime endTime =>
    dsimp only
    cases hs' : createCampaign s sender merkleRoot totalAllocation startTime endTime with
    | none => exact hu
    | some s' =>
      rw [Option.getD_some, (createCampaign_eq_some hs').1.referrers]
      exact hu
  | claimAirdrop campaignId amount merkleProof other =>
    dsimp only
    cases hclaim : claimAirdrop env s sender timestamp campaignId amount merkleProof other with
    | none => exact hu
    | some p =>
      obtain ⟨r, s'⟩ := p
      change s'.referrers u = referrer
      rcases (claimAirdrop_eq_some hclaim).pays with ⟨hsame, -⟩ | ⟨_, hrefers, -⟩
      · rw [hsame.referrers]
        exact hu
      · have huser : u ≠ r.user := by
          rintro rfl
          exact hne (hu.symm.trans hrefers.unset)
        rw [hrefers.referrers, Function.update_of_ne huser]
        exact hu
  | emergencyWithdraw =>
    dsimp only
    cases hs' : emergencyWithdraw env s sender with
    | none => exact hu
    | some s' =>
      rw [Option.getD_some, (emergencyWithdraw_eq_some hs').1.referrers]
      exact hu

/-- The leaf of an address and an amount. -/
def External.leaf (env : External Hash Token) (e : address × uint256) : Hash :=
  env.keccak256 (encodePacked e.1 e.2)

end BabaChain.Airdrop
