import BabaChain.Subsidy

/-! The supply issued by the block subsidies, against its closed form. -/
namespace BabaChain
open MachineInt
open scoped BigOperators

/-- The amount the schedule has issued after block `n`: one block reward each
block, cut at the maximum. -/
def issuedSupply (p : Params) (n : ℤ) : ℤ :=
  min (p.nMaxSupply : ℤ) (p.nPremineAmount+n*p.nInitialBlockReward)

variable {p : Params}

theorem issuedSupply_le (p : Params) (n : ℤ) : issuedSupply p n ≤ p.nMaxSupply :=
  min_le_left _ _

theorem issuedSupply_zero (hp : p.SupplyBounds) : issuedSupply p 0 = p.nPremineAmount := by
  simp only [issuedSupply, zero_mul, add_zero]
  exact min_eq_right hp.premine_le

theorem issuedSupply_succ (hp : p.SupplyBounds) (n : ℤ) :
    issuedSupply p (n+1) = min (p.nMaxSupply : ℤ) (issuedSupply p n+p.nInitialBlockReward) := by
  have hr := hp.reward_nonneg
  have hmul : (n+1)*(p.nInitialBlockReward : ℤ) =
      n*p.nInitialBlockReward+p.nInitialBlockReward := by ring
  unfold issuedSupply
  rw [hmul]
  omega

theorem issuedSupply_mono (hp : p.SupplyBounds) {m n : ℤ} (hmn : m ≤ n) :
    issuedSupply p m ≤ issuedSupply p n := by
  have hmul := mul_le_mul_of_nonneg_right hmn hp.reward_nonneg
  unfold issuedSupply
  omega

theorem issuedSupply_nonneg (hp : p.SupplyBounds) {n : ℤ} (hn : 0 ≤ n) :
    0 ≤ issuedSupply p n := by
  have hmono := issuedSupply_mono hp hn
  rw [issuedSupply_zero hp] at hmono
  exact hp.premine_nonneg.trans hmono

theorem issuedSupply_eq_max_of_le (hp : p.SupplyBounds) {m n : ℤ} (hmn : m ≤ n)
    (hm : issuedSupply p m = p.nMaxSupply) : issuedSupply p n = p.nMaxSupply :=
  le_antisymm (issuedSupply_le p n) (hm ▸ issuedSupply_mono hp hmn)

theorem issued_add_reward_inRange (hp : p.SupplyBounds) {n : ℤ} (hn : 0 ≤ n) :
    InRange 64 (issuedSupply p n+p.nInitialBlockReward) := by
  have h0 := issuedSupply_nonneg hp hn
  have hle := issuedSupply_le p n
  have hr := hp.reward_nonneg
  have hs := hp.sum_lt
  constructor <;> omega

/-- The replay stops at a full supply and otherwise adds one reward. -/
theorem circulatingSupplyBody_spec (hp : p.SupplyBounds) {i : ℤ} (hi : 1 ≤ i) :
    circulatingSupplyBody p i (issuedSupply p (i-1)) =
      if issuedSupply p (i-1) = p.nMaxSupply ∨
          (p.nMaxSupply : ℤ) < issuedSupply p (i-1)+p.nInitialBlockReward then
        some (.stop p.nMaxSupply)
      else
        some (.next (issuedSupply p i)) := by
  have hle := issuedSupply_le p (i-1)
  have hsucc := issuedSupply_succ hp (i-1)
  rw [sub_add_cancel] at hsucc
  unfold circulatingSupplyBody calculateStakingReward calculateBaseStakingReward
  rw [checked_of_inRange (issued_add_reward_inRange hp (by omega)), Option.map_some]
  by_cases hfull : (p.nMaxSupply : ℤ) ≤ issuedSupply p (i-1)
  · have heq : issuedSupply p (i-1) = p.nMaxSupply := le_antisymm hle hfull
    simp only [heq, le_refl, if_true, true_or]
  · by_cases hover : (p.nMaxSupply : ℤ) < issuedSupply p (i-1)+p.nInitialBlockReward
    · rw [if_neg hfull, if_pos hover, if_pos (Or.inr hover)]
    · have hne : ¬(issuedSupply p (i-1) = p.nMaxSupply ∨
          (p.nMaxSupply : ℤ) < issuedSupply p (i-1)+p.nInitialBlockReward) := by
        rintro (h | h)
        · exact hfull h.ge
        · exact hover h
      rw [if_neg hfull, if_neg hover, if_neg hne, hsucc]
      rw [min_eq_right (by omega)]

/-- The replay's counter stays an `int` when the loop leaves before `INT_MAX`. -/
def ReplayLeaves (p : Params) (h : ℤ) : Prop :=
  h < intMax 32 ∨ (p.nPremineAmount : ℤ) = p.nMaxSupply ∨
    (p.nMaxSupply : ℤ) < p.nPremineAmount+intMax 32*p.nInitialBlockReward

instance (p : Params) (h : ℤ) : Decidable (ReplayLeaves p h) :=
  inferInstanceAs (Decidable (_ ∨ _ ∨ _))

/-- Whether the replay's last turn, at `INT_MAX`, is cut short. -/
theorem replay_stops_at_intMax_iff (hp : p.SupplyBounds) :
    (issuedSupply p (intMax 32-1) = p.nMaxSupply ∨
      (p.nMaxSupply : ℤ) < issuedSupply p (intMax 32-1)+p.nInitialBlockReward) ↔
    ((p.nPremineAmount : ℤ) = p.nMaxSupply ∨
      (p.nMaxSupply : ℤ) < p.nPremineAmount+intMax 32*p.nInitialBlockReward) := by
  have hr := hp.reward_nonneg
  have hle := hp.premine_le
  unfold issuedSupply
  rw [intMax_32]
  omega

theorem circulatingSupply_eq_issued (hp : p.SupplyBounds) {h : ℤ} (h0 : 0 ≤ h)
    (hmax : h ≤ intMax 32) (hl : ReplayLeaves p h) :
    getBabaChainCirculatingSupply h p = some (issuedSupply p h) := by
  unfold getBabaChainCirculatingSupply
  by_cases hz : h ≤ 0
  · have heq : h = 0 := le_antisymm hz h0
    rw [if_pos hz, heq, issuedSupply_zero hp]
  rw [if_neg hz]
  have htotal := @forLoop_total ℤ 32 h _ (circulatingSupplyBody p)
    (fun i s => 1 ≤ i ∧ i ≤ h+1 ∧ s = issuedSupply p (i-1)) (fun s => s = issuedSupply p h)
    one_pos
    (by
      rintro i s hle ⟨h1, _, rfl⟩
      rw [circulatingSupplyBody_spec hp h1]
      by_cases hstop : issuedSupply p (i-1) = p.nMaxSupply ∨
          (p.nMaxSupply : ℤ) < issuedSupply p (i-1)+p.nInitialBlockReward
      · -- a full supply stays full up to the height asked for
        rw [if_pos hstop]
        refine Or.inl ⟨_, rfl, ?_⟩
        have hsucc := issuedSupply_succ hp (i-1)
        rw [sub_add_cancel] at hsucc
        have hr := hp.reward_nonneg
        have hi : issuedSupply p i = p.nMaxSupply := by omega
        exact (issuedSupply_eq_max_of_le hp hle hi).symm
      · rw [if_neg hstop]
        refine Or.inr ⟨_, rfl, ?_, by omega, by omega, by rw [add_sub_cancel_right]⟩
        -- the counter is incremented, so this turn is not the one at `INT_MAX`
        have hne : i ≠ intMax 32 := by
          rintro rfl
          rcases hl with hl | hl
          · omega
          · exact hstop ((replay_stops_at_intMax_iff hp).mpr hl)
        exact inRange_of_between (by omega) (by omega))
    (by
      rintro i s hlt ⟨_, hi, rfl⟩
      have heq : i-1 = h := by omega
      rw [heq])
  obtain ⟨s, hs, rfl⟩ := htotal (h.toNat+1) 1 p.nPremineAmount
    ⟨le_refl _, by omega, by rw [sub_self, issuedSupply_zero hp]⟩ (by omega) (by omega)
  exact hs

/-- Otherwise the counter overflows: the replay never returns. -/
theorem circulatingSupply_overflow (hp : p.SupplyBounds) {h : ℤ} (hmax : h ≤ intMax 32)
    (hl : ¬ReplayLeaves p h) : getBabaChainCirculatingSupply h p = none := by
  unfold ReplayLeaves at hl
  push Not at hl
  obtain ⟨hge, hne, hfit⟩ := hl
  have heq : h = intMax 32 := le_antisymm hmax hge
  subst heq
  unfold getBabaChainCirculatingSupply
  rw [if_neg (by decide)]
  apply forLoop_diverges (fun i s => 1 ≤ i ∧ i ≤ intMax 32 ∧ s = issuedSupply p (i-1))
  · rintro i s ⟨h1, hi, rfl⟩
    refine ⟨hi, issuedSupply p i, ?_, fun hr => ⟨by omega, ?_, by rw [add_sub_cancel_right]⟩⟩
    · rw [circulatingSupplyBody_spec hp h1, if_neg]
      intro hstop
      have hlast : issuedSupply p (intMax 32-1) = p.nMaxSupply ∨
          (p.nMaxSupply : ℤ) < issuedSupply p (intMax 32-1)+p.nInitialBlockReward := by
        have hmono := issuedSupply_mono hp (show i-1 ≤ intMax 32-1 by omega)
        have hle := issuedSupply_le p (intMax 32-1)
        rcases hstop with hstop | hstop
        · exact Or.inl (by omega)
        · exact Or.inr (by omega)
      rcases (replay_stops_at_intMax_iff hp).mp hlast with h | h
      · exact hne h
      · omega
    · exact (inRange_iff_le_intMax.mp hr).2
  · exact ⟨le_refl _, by decide, by rw [sub_self, issuedSupply_zero hp]⟩

/-- A block pays what the issued supply grows by. -/
theorem posSubsidy_eq_issued_diff (hp : p.SupplyBounds) {h : ℤ} (h0 : 0 < h)
    (hmax : h ≤ intMax 32) :
    getBabaChainPoSSubsidy h p = some (issuedSupply p h-issuedSupply p (h-1)) := by
  have hprev : InRange 32 (h-1) := inRange_of_between (by omega) (by omega)
  have hcirc := circulatingSupply_eq_issued hp (show 0 ≤ h-1 by omega) (by omega)
    (Or.inl (by omega))
  have hadd := issued_add_reward_inRange hp (show 0 ≤ h-1 by omega)
  have hsucc := issuedSupply_succ hp (h-1)
  rw [sub_add_cancel] at hsucc
  have hle := issuedSupply_le p (h-1)
  have hnn := issuedSupply_nonneg hp (show 0 ≤ h-1 by omega)
  have hr := hp.reward_nonneg
  have hs := hp.sum_lt
  unfold getBabaChainPoSSubsidy calculateStakingReward calculateBaseStakingReward
  rw [if_neg (by omega), checked_of_inRange hprev]
  simp only [Option.bind_eq_bind, Option.bind_some, hcirc, checked_of_inRange hadd]
  by_cases hfull : (p.nMaxSupply : ℤ) ≤ issuedSupply p (h-1)
  · have heq : issuedSupply p h-issuedSupply p (h-1) = 0 := by omega
    rw [if_pos hfull, heq]
    rfl
  · rw [if_neg hfull]
    by_cases hover : (p.nMaxSupply : ℤ) < issuedSupply p (h-1)+p.nInitialBlockReward
    · have hsub : InRange 64 ((p.nMaxSupply : ℤ)-issuedSupply p (h-1)) := by
        constructor <;> omega
      have heq : issuedSupply p h = p.nMaxSupply := by omega
      rw [if_pos hover, checked_of_inRange hsub, heq]
    · have heq : issuedSupply p h-issuedSupply p (h-1) = p.nInitialBlockReward := by omega
      rw [if_neg hover, heq]
      rfl

/-- What the cap demands of the blocks up to height `h`: the subsidies and the
replayed total exist without overflow, agree, stay below the maximum, and stop
there with the block that reaches it paying the remaining amount. -/
structure SupplyCapRespected (p : Params) (h : ℤ) : Prop where
  sum_eq : ∃ (subsidy : ℕ → ℤ) (nTotal : ℤ),
    (∀ i : ℕ, (i : ℤ) ≤ h → getBabaChainPoSSubsidy i p = some (subsidy i)) ∧
    getBabaChainCirculatingSupply h p = some nTotal ∧
    ∑ i ∈ Finset.range (h.toNat+1), subsidy i = nTotal ∧ nTotal ≤ p.nMaxSupply
  capped : getBabaChainCirculatingSupply h p = some ↑p.nMaxSupply →
    ∀ j, h < j → j ≤ intMax 32 → getBabaChainPoSSubsidy j p = some 0
  boundary : ∀ i nPrev, 0 < i → i ≤ h → getBabaChainCirculatingSupply (i-1) p = some nPrev →
    nPrev < p.nMaxSupply → getBabaChainCirculatingSupply i p = some ↑p.nMaxSupply →
    getBabaChainPoSSubsidy i p = some (p.nMaxSupply-nPrev)

theorem sum_issued_diff (hp : p.SupplyBounds) (n : ℕ) :
    ∑ i ∈ Finset.range (n+1),
      (if i = 0 then (p.nPremineAmount : ℤ) else issuedSupply p i-issuedSupply p ((i:ℤ)-1)) =
    issuedSupply p n := by
  induction n with
  | zero =>
    rw [Finset.sum_range_one, if_pos rfl, Nat.cast_zero, issuedSupply_zero hp]
  | succ n ih =>
    rw [Finset.sum_range_succ, ih, if_neg (Nat.succ_ne_zero n)]
    push_cast
    rw [add_sub_cancel_right]
    ring

/-- The supply cap holds at a height exactly when the replay loop leaves before
its counter would pass `INT_MAX`. -/
theorem supply_cap_respected_iff (hp : p.SupplyBounds) (h : ℤ) (h0 : 0 ≤ h)
    (hmax : h ≤ intMax 32) : SupplyCapRespected p h ↔ ReplayLeaves p h := by
  constructor
  · intro hc
    by_contra hl
    obtain ⟨_, nTotal, _, htotal, _⟩ := hc.sum_eq
    rw [circulatingSupply_overflow hp hmax hl] at htotal
    contradiction
  -- the block at genesis pays the premine, every later one what the supply grows by
  intro hl
  have hcirc := circulatingSupply_eq_issued hp h0 hmax hl
  refine ⟨⟨fun i => if i = 0 then (p.nPremineAmount : ℤ) else
      issuedSupply p i-issuedSupply p ((i:ℤ)-1), issuedSupply p h, ?_, hcirc, ?_,
      issuedSupply_le p h⟩, ?_, ?_⟩
  · intro i hi
    rcases Nat.eq_zero_or_pos i with rfl | hpos
    · rfl
    · dsimp only
      rw [if_neg hpos.ne', posSubsidy_eq_issued_diff hp (by omega) (by omega)]
  · rw [sum_issued_diff hp, Int.toNat_of_nonneg h0]
  · intro hfull j hj hjmax
    rw [hcirc, Option.some.injEq] at hfull
    rw [posSubsidy_eq_issued_diff hp (by omega) hjmax,
      issuedSupply_eq_max_of_le hp (show h ≤ j by omega) hfull,
      issuedSupply_eq_max_of_le hp (show h ≤ j-1 by omega) hfull, sub_self]
  · intro i nPrev hi hih hprev _ hreach
    have hli : ReplayLeaves p i := by
      rcases hl with hl | hl
      · exact Or.inl (by omega)
      · exact Or.inr hl
    rw [circulatingSupply_eq_issued hp hi.le (by omega) hli, Option.some.injEq] at hreach
    rw [circulatingSupply_eq_issued hp (by omega) (by omega) (Or.inl (by omega)),
      Option.some.injEq] at hprev
    rw [posSubsidy_eq_issued_diff hp hi (by omega), hreach, hprev]

theorem supply_cap_respected_main : SupplyCapRespected mainParams 1 ↔ ReplayLeaves mainParams 1 :=
  supply_cap_respected_iff mainParams_supplyBounds 1 (by decide) (by decide)

/-- Parameters with room for a longer schedule than an `int` can count. -/
def slowParams : Params :=
  { mainParams with
    nPremineAmount := ⟨0, by decide⟩
    nMaxSupply := ⟨2^62, by decide⟩
    nInitialBlockReward := ⟨1, by decide⟩ }

/-- At `INT_MAX` the replay of a slow schedule overflows its counter. -/
theorem supply_cap_fails_at_int_max :
    slowParams.SupplyBounds ∧ ¬SupplyCapRespected slowParams 2147483647 := by
  have hp : slowParams.SupplyBounds := by constructor <;> decide
  refine ⟨hp, fun hc => ?_⟩
  obtain ⟨_, nTotal, _, htotal, _⟩ := hc.sum_eq
  rw [circulatingSupply_overflow hp (by decide) (by decide)] at htotal
  contradiction

end BabaChain
