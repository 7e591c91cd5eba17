import BabaChain.Airdrop

/-! What a claim on the airdrop pays, where the token says of each transfer whether it was made. -/
namespace BabaChain.Airdrop

/-- A token. A transfer moves the amount and returns true, or moves nothing and returns false, or
reverts. -/
structure IERC20 (Token : Type) where
  transfer : Token → address → ℕ → Option (Bool × Token)
  balanceOf : Token → address → ℕ
  /-- The address of the airdrop contract, from which the transfers are made. -/
  this : address
  moves : ∀ token dest amount token', transfer token dest amount = some (true, token') →
    ∀ a ≠ this, balanceOf token' a = balanceOf token a + if a = dest then amount else 0
  refuses : ∀ token dest amount token', transfer token dest amount = some (false, token') →
    token' = token

variable {Hash Token : Type}

namespace IERC20

/-- The contracts that the airdrop calls, which does not look at what a transfer returns. -/
def external (erc20 : IERC20 Token) (keccak256 : List UInt8 → Hash)
    (verify : List Hash → Hash → Hash → Bool) (zeroHash : Hash) : External Hash Token where
  transfer token dest amount := (erc20.transfer token dest amount).map Prod.snd
  balanceOf token := erc20.balanceOf token erc20.this
  keccak256 := keccak256
  verify := verify
  zeroHash := zeroHash

/-- The transfers return true one after the other, save those that have nothing to move. -/
def Honours (erc20 : IERC20 Token) : Token → List (address × ℕ) → Prop
  | _, [] => True
  | token, (dest, amount) :: transfers =>
    ∀ returned token', erc20.transfer token dest amount = some (returned, token') →
      (returned = true ∨ amount = 0 ∨ dest = erc20.this) ∧ erc20.Honours token' transfers

end IERC20

/-- A claim brings a referral. -/
def Referral (s : BabaChainAirdrop Hash Token) (sender referrer : address) : Prop :=
  referrer ≠ 0 ∧ referrer ≠ sender ∧ s.referrers sender = 0

instance (s : BabaChainAirdrop Hash Token) (sender referrer : address) :
    Decidable (Referral s sender referrer) := inferInstanceAs (Decidable (_ ∧ _))

/-- The transfers that a claim makes. -/
def transfersOf (s : BabaChainAirdrop Hash Token) (sender referrer : address) (amount : ℕ) :
    List (address × ℕ) :=
  if Referral s sender referrer then
    [(referrer, REFERRAL_BONUS), (sender, amount+REFEREE_BONUS)]
  else [(sender, amount)]

/-- The caller has received its amount, and where the claim brings a referral both have received
their bonuses. What the contract would pay to itself does not count. -/
structure Received (erc20 : IERC20 Token) (s s' : BabaChainAirdrop Hash Token)
    (sender referrer : address) (amount : ℕ) : Prop where
  user : sender ≠ erc20.this → erc20.balanceOf s'.babaChainToken sender =
    erc20.balanceOf s.babaChainToken sender+amount +
      if Referral s sender referrer then REFEREE_BONUS else 0
  referrer : Referral s sender referrer → referrer ≠ erc20.this →
    erc20.balanceOf s'.babaChainToken referrer =
      erc20.balanceOf s.babaChainToken referrer+REFERRAL_BONUS

/-- All or nothing: a claim that returns has paid everything, and one that does not has left the
storage as it was, so that the caller can claim again. -/
def AllOrNothing (erc20 : IERC20 Token) (env : External Hash Token)
    (s : BabaChainAirdrop Hash Token) (sender : address) (timestamp : ℕ)
    (campaignId amount : uint256) (merkleProof : List Hash) (referrer : address) : Prop :=
  match execute env s ⟨sender, timestamp, .claimAirdrop campaignId amount merkleProof referrer⟩ with
  | (some _, s') => Received erc20 s s' sender referrer amount.toNat
  | (none, s') => s' = s

variable {erc20 : IERC20 Token} {token token' : Token} {dest a : address} {amount : ℕ}
  {returned : Bool}

namespace IERC20

/-- One transfer, seen by any account but the contract. -/
theorem balance_after (h : erc20.transfer token dest amount = some (returned, token'))
    (ha : a ≠ erc20.this) :
    erc20.balanceOf token' a =
      erc20.balanceOf token a + if a = dest ∧ returned = true then amount else 0 := by
  cases returned with
  | true =>
    rw [erc20.moves _ _ _ _ h a ha]
    simp only [and_true]
  | false =>
    rw [erc20.refuses _ _ _ _ h]
    simp

/-- The amount arrives where the transfer returns true or has nothing to move. -/
theorem received_iff (h : erc20.transfer token dest amount = some (returned, token')) :
    (dest ≠ erc20.this → erc20.balanceOf token' dest = erc20.balanceOf token dest+amount) ↔
      returned = true ∨ amount = 0 ∨ dest = erc20.this := by
  by_cases hdest : dest = erc20.this
  · exact iff_of_true (absurd hdest) (Or.inr (Or.inr hdest))
  · rw [imp_iff_right hdest, balance_after h hdest, or_iff_left hdest]
    cases returned with
    | true => simp
    | false => simp

end IERC20

theorem IERC20.honours_cons {transfers : List (address × ℕ)}
    (h : erc20.transfer token dest amount = some (returned, token')) :
    erc20.Honours token ((dest, amount) :: transfers) ↔
      (returned = true ∨ amount = 0 ∨ dest = erc20.this) ∧ erc20.Honours token' transfers := by
  rw [IERC20.Honours, h]
  constructor
  · intro hall
    exact hall returned token' rfl
  · intro hhere returned' token'' heq
    cases heq
    exact hhere

/-- What a claim pays arrives exactly where the token takes its transfers. -/
theorem payClaim_received {env : External Hash Token} {s s' : BabaChainAirdrop Hash Token}
    {sender referrer : address} {campaignId : ℕ} {amount : uint256} {r : Receipt}
    (htransfer : env.transfer = fun token dest amount =>
      (erc20.transfer token dest amount).map Prod.snd)
    (h : payClaim env s sender campaignId amount referrer = some (r, s')) :
    Received erc20 s s' sender referrer amount.toNat ↔
      erc20.Honours s.babaChainToken (transfersOf s sender referrer amount.toNat) := by
  unfold payClaim at h
  rw [htransfer] at h
  split_ifs at h with hrefers
  · change Referral s sender referrer at hrefers
    simp only [Option.bind_eq_bind, Option.bind_eq_some_iff, checkedAdd_eq_some,
      Option.pure_def, Option.some.injEq, Prod.mk.injEq, Option.map_eq_some_iff] at h
    obtain ⟨count, -, rewards, -, token₁, ⟨first, hfirst, rfl⟩, paid, ⟨-, rfl⟩, token₂,
      ⟨second, hsecond, rfl⟩, -, rfl⟩ := h
    -- neither transfer changes the balance of the other account
    have huser : sender ≠ erc20.this → erc20.balanceOf first.2 sender =
        erc20.balanceOf s.babaChainToken sender := by
      intro hthis
      rw [IERC20.balance_after hfirst hthis, if_neg fun heq => hrefers.2.1 heq.1.symm]
      rfl
    have hreferrer : referrer ≠ erc20.this → erc20.balanceOf second.2 referrer =
        erc20.balanceOf first.2 referrer := by
      intro hthis
      rw [IERC20.balance_after hsecond hthis, if_neg fun heq => hrefers.2.1 heq.1]
      rfl
    rw [transfersOf, if_pos hrefers, IERC20.honours_cons hfirst, IERC20.honours_cons hsecond,
      ← IERC20.received_iff hfirst, ← IERC20.received_iff hsecond, IERC20.Honours, and_true]
    constructor
    · intro hreceived
      constructor
      · intro hthis
        rw [← hreferrer hthis]
        exact hreceived.referrer hrefers hthis
      · intro hthis
        have hbalance := hreceived.user hthis
        rw [if_pos hrefers] at hbalance
        rw [huser hthis, ← Nat.add_assoc]
        exact hbalance
    · intro hboth
      constructor
      · intro hthis
        have hbalance := hboth.2 hthis
        rw [huser hthis, ← Nat.add_assoc] at hbalance
        rw [if_pos hrefers]
        exact hbalance
      · intro _ hthis
        exact (hreferrer hthis).trans (hboth.1 hthis)
  · change ¬Referral s sender referrer at hrefers
    simp only [Option.bind_eq_bind, Option.bind_eq_some_iff, Option.pure_def,
      Option.some.injEq, Prod.mk.injEq, Option.map_eq_some_iff] at h
    obtain ⟨token₁, ⟨first, hfirst, rfl⟩, -, rfl⟩ := h
    rw [transfersOf, if_neg hrefers, IERC20.honours_cons hfirst, ← IERC20.received_iff hfirst,
      IERC20.Honours, and_true]
    constructor
    · intro hreceived hthis
      have hbalance := hreceived.user hthis
      rwa [if_neg hrefers] at hbalance
    · intro hbalance
      refine ⟨fun hthis => ?_, fun href => absurd href hrefers⟩
      rw [if_neg hrefers]
      exact hbalance hthis

/-- Only the token and the referrers of the state before matter. -/
theorem received_congr {s₀ s s' : BabaChainAirdrop Hash Token} {sender referrer : address}
    (htoken : s.babaChainToken = s₀.babaChainToken) (hreferrers : s.referrers = s₀.referrers) :
    Received erc20 s₀ s' sender referrer amount ↔ Received erc20 s s' sender referrer amount := by
  have hreferral : Referral s sender referrer ↔ Referral s₀ sender referrer := by
    unfold Referral
    rw [hreferrers]
  constructor
  · intro h
    refine ⟨?_, ?_⟩
    · simp only [hreferral, htoken]
      exact h.user
    · rw [hreferral, htoken]
      exact h.referrer
  · intro h
    refine ⟨?_, ?_⟩
    · simp only [← hreferral, ← htoken]
      exact h.user
    · rw [← hreferral, ← htoken]
      exact h.referrer

/-- A claim is all or nothing exactly where, if it returns, no transfer of it returned false. -/
theorem claim_all_or_nothing_iff (erc20 : IERC20 Token) (keccak256 : List UInt8 → Hash)
    (verify : List Hash → Hash → Hash → Bool) (zeroHash : Hash) (s : BabaChainAirdrop Hash Token)
    (sender : address) (timestamp : ℕ) (campaignId amount : uint256) (merkleProof : List Hash)
    (referrer : address) :
    AllOrNothing erc20 (erc20.external keccak256 verify zeroHash) s sender timestamp campaignId
        amount merkleProof referrer ↔
      ((claimAirdrop (erc20.external keccak256 verify zeroHash) s sender timestamp campaignId
          amount merkleProof referrer).isSome →
        erc20.Honours s.babaChainToken (transfersOf s sender referrer amount.toNat)) := by
  unfold AllOrNothing execute
  dsimp only
  cases hclaim : claimAirdrop (erc20.external keccak256 verify zeroHash) s sender timestamp
      campaignId amount merkleProof referrer with
  | none => exact iff_of_true rfl fun hsome => absurd hsome Bool.false_ne_true
  | some result =>
    obtain ⟨r, s'⟩ := result
    rw [Option.isSome_some, imp_iff_right rfl]
    unfold claimAirdrop at hclaim
    simp only [Option.bind_eq_bind, Option.bind_eq_some_iff, Option.guard_eq_some',
      exists_and_left, exists_const] at hclaim
    obtain ⟨-, -, -, -, -, claimed, -, -, -, hpay⟩ := hclaim
    have htransfer : (erc20.external keccak256 verify zeroHash).transfer =
        fun token dest amount => (erc20.transfer token dest amount).map Prod.snd := rfl
    have hpaid := payClaim_received htransfer hpay
    refine Iff.trans ?_ hpaid
    exact received_congr rfl rfl

/-- A token that refuses every transfer. -/
def refusing : IERC20 Unit where
  transfer _ _ _ := some (false, ())
  balanceOf _ _ := 0
  this := 9
  moves _ _ _ _ h := nomatch h
  refuses _ _ _ _ _ := rfl

/-- A campaign with one claim in it. -/
def oneCampaign : BabaChainAirdrop (List UInt8) Unit :=
  (execute oneLeaf (oneLeaf.deploy 1 ()) ⟨1, 0, .createCampaign (encodePacked 2 100) 100 0 10⟩).2

/-- The claim is marked as made, and nothing is received. -/
theorem claim_not_paid :
    ¬∀ sender timestamp campaignId amount merkleProof referrer,
      AllOrNothing refusing (refusing.external id oneLeaf.verify []) oneCampaign sender timestamp
        campaignId amount merkleProof referrer := by
  intro hall
  have h := hall 2 5 0 100 [] 0
  unfold AllOrNothing execute at h
  dsimp only at h
  have hsome : (claimAirdrop (refusing.external id oneLeaf.verify []) oneCampaign 2 5 0 100 []
      0).isSome := by decide
  obtain ⟨result, hresult⟩ := Option.isSome_iff_exists.mp hsome
  rw [hresult] at h
  have hreferral : ¬Referral oneCampaign 2 0 := fun hrefers => hrefers.1 rfl
  have huser := h.user (by decide)
  rw [if_neg hreferral] at huser
  have hzero : (0 : ℕ) = 0+100+0 := huser
  exact absurd hzero (by decide)

end BabaChain.Airdrop
