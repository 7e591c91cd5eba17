import Mathlib.Data.List.GetD
import BabaChain.RewardSharing

/-! What each of the two `DistributeStakingRewards` gives out in all. -/
namespace BabaChain.Staking
open MachineInt Shares
open CreditPool (MAX_MONEY moneyRange)

variable {R T : ℤ} {stakes : List ℤ}

/-! ### By amounts -/

theorem mem_positives {s : ℤ} : s ∈ positives stakes ↔ s ∈ stakes ∧ 0 < s := by
  rw [positives, List.mem_filter, decide_eq_true_iff]

theorem positives_nonneg : ∀ s ∈ positives stakes, 0 ≤ s :=
  fun _ hs => (mem_positives.mp hs).2.le

/-- The loop gives each positive stake its share, and the rest of the reward to the last
entry of the list, if that is positive. -/
theorem Distribution.share_spec (hR : 0 ≤ R) (hfit : R ≤ intMax 64) (hT : 0 < T)
    (hproducts : ∀ s ∈ stakes, InRange 64 (R*s)) {d : Distribution}
    (h0 : 0 ≤ d.nDistributedRewards) (hleft : d.nRemainingReward = R-d.nDistributedRewards)
    (hsum : d.nDistributedRewards+((positives stakes).map (Shares.share R T)).sum ≤ R)
    (hcredited : ∀ r ∈ d.credited, 0 ≤ r) :
    ∃ d', d.share R T stakes = some d' ∧ (∀ r ∈ d'.credited, 0 ≤ r) ∧
      ((∃ s ∈ stakes.getLast?, 0 < s) → d'.nDistributedRewards = R) ∧
      ((¬∃ s ∈ stakes.getLast?, 0 < s) → d'.nDistributedRewards =
        d.nDistributedRewards+((positives stakes).map (Shares.share R T)).sum) := by
  induction stakes generalizing d with
  | nil =>
    refine ⟨d, rfl, hcredited, ?_, fun _ => (add_zero _).symm⟩
    rintro ⟨s, hs, -⟩
    exact absurd hs (Option.not_mem_none s)
  | cons s stakes ih =>
    have hrest : ∀ s' ∈ stakes, InRange 64 (R*s') := fun s' hs' =>
      hproducts s' (List.mem_cons_of_mem s hs')
    rw [intMax_64] at hfit
    by_cases hs : s ≤ 0
    · have hpositives : positives (s :: stakes) = positives stakes :=
        List.filter_cons_of_neg (by simpa using hs)
      have hlast : (∃ s' ∈ (s :: stakes).getLast?, 0 < s') ↔ ∃ s' ∈ stakes.getLast?, 0 < s' := by
        cases stakes with
        | nil =>
          refine iff_of_false ?_ ?_
          · rintro ⟨s', hs', hpos⟩
            have heq : s = s' := Option.some.inj hs'
            exact absurd (heq ▸ hpos) (not_lt.mpr hs)
          · rintro ⟨s', hs', -⟩
            exact absurd hs' (Option.not_mem_none s')
        | cons s' stakes => rw [List.getLast?_cons_cons]
      rw [hpositives] at hsum ⊢
      rw [hlast, share, if_pos hs]
      exact ih hrest h0 hleft hsum hcredited
    · have hpositives : positives (s :: stakes) = s :: positives stakes :=
        List.filter_cons_of_pos (by simpa using hs)
      have hq := share_nonneg hR hT.le (not_le.mp hs).le
      have hqs := sum_shares_nonneg hR hT.le (@positives_nonneg stakes)
      rw [hpositives, List.map_cons, List.sum_cons] at hsum
      rw [hpositives, List.map_cons, List.sum_cons, share, if_neg hs]
      cases stakes with
      | nil =>
        -- what is left goes to the last entry
        have hall : d.nDistributedRewards+d.nRemainingReward = R := by rw [hleft]; ring
        rw [if_pos rfl, hall, checked_of_inRange (inRange_of_between hR (by rw [intMax_64]; omega))]
        refine ⟨_, rfl, ?_, fun _ => rfl, fun hnot => absurd ⟨s, rfl, not_le.mp hs⟩ hnot⟩
        intro r hr
        rcases List.mem_append.mp hr with hr | hr
        · exact hcredited r hr
        · rw [List.mem_singleton.mp hr, hleft]
          omega
      | cons s' stakes =>
        have hdiv : checkedDiv 64 (R*s) T = some (Shares.share R T s) :=
          checkedDiv_eq_some_iff.mpr
            ⟨hT.ne', inRange_of_between hq (by rw [intMax_64]; omega), rfl⟩
        rw [if_neg (List.cons_ne_nil _ _), checked_of_inRange (hproducts s List.mem_cons_self)]
        dsimp only [Option.bind_eq_bind, Option.bind_some]
        rw [hdiv, Option.bind_some,
          checked_of_inRange (inRange_of_between (by omega) (by rw [intMax_64]; omega)),
          Option.bind_some,
          checked_of_inRange (inRange_of_between (by omega) (by rw [intMax_64]; omega)),
          Option.bind_some]
        have hcredited' : ∀ r ∈ d.credited++[Shares.share R T s], 0 ≤ r := by
          intro r hr
          rcases List.mem_append.mp hr with hr | hr
          · exact hcredited r hr
          · rwa [List.mem_singleton.mp hr]
        obtain ⟨d', hrun, hnonneg, hpos, hnot⟩ := ih
          (d := ⟨d.nDistributedRewards+Shares.share R T s,
            d.nRemainingReward-Shares.share R T s, d.credited++[Shares.share R T s]⟩)
          hrest (by dsimp only; omega) (by dsimp only; omega) (by dsimp only; omega) hcredited'
        rw [List.getLast?_cons_cons]
        exact ⟨d', hrun, hnonneg, hpos, fun hlast => (hnot hlast).trans (add_assoc _ _ _)⟩

theorem sum_positives_pos (hpos : ∃ s ∈ stakes, 0 < s) : 0 < (positives stakes).sum := by
  obtain ⟨s, hs, h0⟩ := hpos
  exact h0.trans_le (List.single_le_sum positives_nonneg s (mem_positives.mpr ⟨hs, h0⟩))

theorem checkedSum_positives :
    checkedSum 64 (positives stakes) 0 = checked 64 (positives stakes).sum := by
  rw [checkedSum_of_nonneg positives_nonneg le_rfl (inRange_of_between le_rfl (by decide)), zero_add]

/-- The whole reward is distributed exactly when the last entry of the list is a stake, to
take what the divisions leave, or they leave nothing. -/
theorem conserved_by_amount_iff (hR : 0 ≤ R) (hfit : R ≤ intMax 64)
    (hproducts : ∀ s ∈ stakes, InRange 64 (R*s)) (hpos : ∃ s ∈ stakes, 0 < s) :
    (∃ d, Distribution.distributeStakingRewards stakes R = some d ∧ d.nDistributedRewards = R ∧
        ∀ r ∈ d.credited, 0 ≤ r) ↔
      R = 0 ∨ (positives stakes).sum ≤ intMax 64 ∧ ((∃ s ∈ stakes.getLast?, 0 < s) ∨
        ∀ s ∈ positives stakes, (positives stakes).sum ∣ R*s) := by
  have hne : stakes ≠ [] := by
    rintro rfl
    obtain ⟨s, hs, -⟩ := hpos
    exact absurd hs List.not_mem_nil
  have hT := sum_positives_pos hpos
  unfold Distribution.distributeStakingRewards
  rcases hR.eq_or_lt with rfl | hR'
  · rw [if_pos (Or.inr le_rfl)]
    exact iff_of_true ⟨_, rfl, rfl, fun r hr => absurd hr List.not_mem_nil⟩ (Or.inl rfl)
  rw [if_neg (not_or.mpr ⟨hne, not_le.mpr hR'⟩), checkedSum_positives]
  by_cases hsum : (positives stakes).sum ≤ intMax 64
  · rw [checked_of_inRange (inRange_of_between hT.le hsum)]
    dsimp only [Option.bind_eq_bind, Option.bind_some]
    rw [if_neg (not_le.mpr hT)]
    obtain ⟨d, hrun, hnonneg, hlast, hnot⟩ := Distribution.share_spec (d := {nRemainingReward := R})
      hR hfit hT hproducts le_rfl (sub_zero R).symm
      (by rw [zero_add]; exact sum_shares_le hR hT positives_nonneg le_rfl)
      (fun r hr => absurd hr List.not_mem_nil)
    rw [hrun]
    have hall : d.nDistributedRewards = R ↔ (∃ s ∈ stakes.getLast?, 0 < s) ∨
        ∀ s ∈ positives stakes, (positives stakes).sum ∣ R*s := by
      by_cases h : ∃ s ∈ stakes.getLast?, 0 < s
      · exact iff_of_true (hlast h) (Or.inl h)
      · rw [hnot h, or_iff_right h, zero_add]
        exact sum_shares_eq_iff hR positives_nonneg hT
    constructor
    · rintro ⟨_, hd, heq, -⟩
      exact Or.inr ⟨hsum, hall.mp (Option.some.inj hd ▸ heq)⟩
    · intro h
      exact ⟨d, rfl, hall.mpr (h.resolve_left hR'.ne').2, hnonneg⟩
  · rw [checked_eq_none fun hin => hsum (inRange_iff_le_intMax.mp hin).2]
    refine iff_of_false ?_ ?_
    · rintro ⟨_, hd, -⟩
      cases hd
    · rintro (rfl | ⟨h, -⟩)
      · exact lt_irrefl _ hR'
      · exact hsum h

/-! ### By stake inputs -/

variable {validators : List CStakeInput}

theorem largestIndex_spec (stakes : List ℤ) (k : ℕ) : largestIndex stakes k ≤ k ∧
    ∀ i ≤ k, stakes.getD i 0 ≤ stakes.getD (largestIndex stakes k) 0 := by
  induction k with
  | zero =>
    refine ⟨le_rfl, fun i hi => ?_⟩
    rw [Nat.le_zero.mp hi]
    exact le_rfl
  | succ k ih =>
    obtain ⟨hle, hmax⟩ := ih
    have hstep : largestIndex stakes (k+1) =
        if stakes.getD (largestIndex stakes k) 0 < stakes.getD (k+1) 0 then k+1
        else largestIndex stakes k := by
      rw [largestIndex, List.range'_concat, List.foldl_append, Nat.one_mul, Nat.add_comm 1 k]
      rfl
    rw [hstep]
    split_ifs with hlt
    · refine ⟨le_rfl, fun i hi => ?_⟩
      rcases Nat.le_succ_iff.mp hi with hi | rfl
      · exact (hmax i hi).trans hlt.le
      · exact le_rfl
    · refine ⟨Nat.le_succ_of_le hle, fun i hi => ?_⟩
      rcases Nat.le_succ_iff.mp hi with hi | rfl
      · exact hmax i hi
      · exact not_lt.mp hlt

theorem largestStakeIndex_spec (hne : validators ≠ []) :
    ∃ h : largestStakeIndex validators < (validators.map CStakeInput.nValue).length,
      ∀ s ∈ validators.map CStakeInput.nValue,
        s ≤ (validators.map CStakeInput.nValue)[largestStakeIndex validators] := by
  obtain ⟨hle, hmax⟩ := largestIndex_spec (validators.map CStakeInput.nValue) (validators.length-1)
  have hpos : 0 < validators.length := List.length_pos_of_ne_nil hne
  have hindex : largestStakeIndex validators < (validators.map CStakeInput.nValue).length := by
    rw [List.length_map, largestStakeIndex]
    omega
  refine ⟨hindex, fun s hs => ?_⟩
  obtain ⟨i, hi, rfl⟩ := List.mem_iff_getElem.mp hs
  have hstake := hmax i (by rw [List.length_map] at hi; omega)
  rw [List.getD_eq_getElem _ _ hi] at hstake
  exact hstake.trans_eq (List.getD_eq_getElem _ 0 hindex)

theorem shareOut_some {s t : List ℤ × ℤ} (h : shareOut R T validators s = some t) :
    t = (s.1++(validators.map CStakeInput.nValue).map (share R T),
      s.2+((validators.map CStakeInput.nValue).map (share R T)).sum) := by
  induction validators generalizing s with
  | nil =>
    rw [shareOut, Option.some.injEq] at h
    rw [← h, List.map_nil, List.map_nil, List.append_nil, List.sum_nil, add_zero]
  | cons v validators ih =>
    simp only [shareOut, Option.bind_eq_bind, Option.bind_eq_some_iff, checked_eq_some_iff,
      checkedDiv_eq_some_iff] at h
    obtain ⟨_, ⟨-, rfl⟩, _, ⟨-, -, rfl⟩, _, ⟨-, rfl⟩, h⟩ := h
    rw [ih h, List.map_cons, List.map_cons, List.sum_cons, List.append_assoc, add_assoc]
    rfl

theorem shareOut_fits (hT : T ≠ 0) {s : List ℤ × ℤ}
    (hproducts : ∀ v ∈ validators, InRange 64 (R*v.nValue))
    (hshares : ∀ v ∈ validators, InRange 64 (share R T v.nValue))
    (hsums : ∀ k, InRange 64
      (s.2+(((validators.map CStakeInput.nValue).map (share R T)).take k).sum)) :
    (shareOut R T validators s).isSome = true := by
  induction validators generalizing s with
  | nil => rfl
  | cons v validators ih =>
    have hdiv : checkedDiv 64 (R*v.nValue) T = some (share R T v.nValue) :=
      checkedDiv_eq_some_iff.mpr ⟨hT, hshares v List.mem_cons_self, rfl⟩
    have hfirst := hsums 1
    rw [List.map_cons, List.map_cons, List.take_succ_cons, List.take_zero, List.sum_cons,
      List.sum_nil, add_zero] at hfirst
    rw [shareOut, checked_of_inRange (hproducts v List.mem_cons_self)]
    dsimp only [Option.bind_eq_bind, Option.bind_some]
    rw [hdiv, Option.bind_some, checked_of_inRange hfirst, Option.bind_some]
    refine ih (fun v' hv' => hproducts v' (List.mem_cons_of_mem v hv'))
      (fun v' hv' => hshares v' (List.mem_cons_of_mem v hv')) fun k => ?_
    have hnext := hsums (k+1)
    rw [List.map_cons, List.map_cons, List.take_succ_cons, List.sum_cons, ← add_assoc] at hnext
    exact hnext

/-- What it takes for the truncated shares to come to the reward: the divisions leave nothing
of the opposite sign in all, no share but that of the largest stake is below zero, nor is that
one with what is left of the reward. -/
structure Spreads (R : ℤ) (stakes : List ℤ) (largest : ℕ) : Prop where
  total : stakes.sum ≠ 0
  left : 0 ≤ stakes.sum.sign*(stakes.map (rest R stakes.sum)).sum
  others : ∀ i (hi : i < stakes.length), i ≠ largest →
    -|stakes.sum| < stakes.sum.sign*(R*stakes[i])
  largest : ∀ hi : largest < stakes.length, 0 ≤ stakes.sum.sign*(R*stakes[largest]+
    ((stakes.map (rest R stakes.sum)).sum-rest R stakes.sum stakes[largest]))

/-- The same of the truncated shares themselves. -/
theorem spreads_iff {largest : ℕ} (hT : stakes.sum ≠ 0) : Spreads R stakes largest ↔
    (stakes.map (share R stakes.sum)).sum ≤ R ∧
    (∀ i (hi : i < stakes.length), i ≠ largest → 0 ≤ share R stakes.sum stakes[i]) ∧
    ∀ hi : largest < stakes.length,
      0 ≤ share R stakes.sum stakes[largest]+(R-(stakes.map (share R stakes.sum)).sum) := by
  have habs : 0 < |stakes.sum| := abs_pos.mpr hT
  have hleft : 0 ≤ stakes.sum.sign*(stakes.map (rest R stakes.sum)).sum ↔
      (stakes.map (share R stakes.sum)).sum ≤ R := by
    rw [sign_mul_sum_rests, mul_nonneg_iff_of_pos_left habs, sub_nonneg]
  have hlargest : ∀ hi : largest < stakes.length, 0 ≤ stakes.sum.sign*(R*stakes[largest]+
      ((stakes.map (rest R stakes.sum)).sum-rest R stakes.sum stakes[largest])) ↔
      0 ≤ share R stakes.sum stakes[largest]+(R-(stakes.map (share R stakes.sum)).sum) := by
    intro hi
    have hsplit : stakes.sum.sign*(R*stakes[largest]+
        ((stakes.map (rest R stakes.sum)).sum-rest R stakes.sum stakes[largest])) =
        |stakes.sum| * (share R stakes.sum stakes[largest]+
          (R-(stakes.map (share R stakes.sum)).sum)) := by
      rw [mul_add, mul_sub, sign_mul_eq, sign_mul_sum_rests]
      ring
    rw [hsplit, mul_nonneg_iff_of_pos_left habs]
  constructor
  · intro h
    exact ⟨hleft.mp h.left, fun i hi hne => (share_nonneg_iff hT).mpr (h.others i hi hne),
      fun hi => (hlargest hi).mp (h.largest hi)⟩
  · rintro ⟨hle, hothers, hpos⟩
    exact ⟨hT, hleft.mpr hle, fun i hi hne => (share_nonneg_iff hT).mp (hothers i hi hne),
      fun hi => (hlargest hi).mpr (hpos hi)⟩

/-- Stakes that are not negative spread whatever the reward is. -/
theorem spreads_of_nonneg (hR : 0 ≤ R) (hstakes : ∀ s ∈ stakes, 0 ≤ s) (hT : 0 < stakes.sum)
    (largest : ℕ) : Spreads R stakes largest := by
  have hle := sum_shares_le hR hT hstakes le_rfl
  refine (spreads_iff hT.ne').mpr ⟨hle, fun i hi _ => ?_, fun hi => ?_⟩
  · exact share_nonneg hR hT.le (hstakes _ (List.getElem_mem hi))
  · exact add_nonneg (share_nonneg hR hT.le (hstakes _ (List.getElem_mem hi))) (sub_nonneg.mpr hle)

theorem spreads_zero (hT : stakes.sum ≠ 0) (largest : ℕ) : Spreads 0 stakes largest := by
  have hzero : ∀ s, share 0 stakes.sum s = 0 := fun s => by
    rw [share, zero_mul, Int.zero_tdiv]
  have hsum : (stakes.map (share 0 stakes.sum)).sum = 0 := by
    refine List.sum_eq_zero fun q hq => ?_
    obtain ⟨s, -, rfl⟩ := List.mem_map.mp hq
    exact hzero s
  refine (spreads_iff hT).mpr ⟨hsum.le, fun i hi _ => (hzero _).ge, fun hi => ?_⟩
  rw [hzero, hsum, sub_zero, add_zero]

/-- The shares are not negative, but for that of the largest stake. -/
theorem Spreads.nonnegBut {largest : ℕ} (h : Spreads R stakes largest) :
    NonnegBut (stakes.map (share R stakes.sum)) largest := by
  intro j hj hne
  rw [List.getElem_map]
  exact ((spreads_iff h.total).mp h).2.1 j (by rwa [List.length_map] at hj) hne

/-- Where the shares spread, what is left for the largest stake fits 64 bits. -/
theorem remainder_fits (hR : 0 ≤ R) (hfit : R ≤ intMax 64) {largest : ℕ}
    (hi : largest < stakes.length) (hpos : 0 < stakes[largest])
    (hproduct : InRange 64 (R*stakes[largest])) (h : Spreads R stakes largest) :
    InRange 64 (R-(stakes.map (share R stakes.sum)).sum) := by
  have hnonneg := h.nonnegBut
  have hi' : largest < (stakes.map (share R stakes.sum)).length := by rwa [List.length_map]
  refine inRange_of_between (sub_nonneg.mpr ((spreads_iff h.total).mp h).1) ?_
  have htotal := mul_sum_add_rests R stakes.sum stakes
  have hq := hnonneg.min_le_sum hi'
  rw [List.getElem_map] at hq
  generalize hD : (stakes.map (share R stakes.sum)).sum = D at *
  rcases le_or_gt 0 D with h0 | hneg
  · linarith
  -- a sum below zero is below zero because of the largest stake, with a total below zero
  have hqneg : share R stakes.sum stakes[largest] < 0 := by omega
  have hT : stakes.sum < 0 := by
    by_contra hnot
    exact absurd (share_nonneg hR (not_lt.mp hnot) hpos.le) (not_le.mpr hqneg)
  have hunit : stakes.sum ≠ -1 := by
    intro hone
    have hrests : (stakes.map (rest R stakes.sum)).sum = 0 := by
      refine List.sum_eq_zero fun m hm => ?_
      obtain ⟨s, -, rfl⟩ := List.mem_map.mp hm
      rw [rest, hone, Int.tmod_neg, Int.tmod_one]
    rw [hrests, hone] at htotal
    omega
  rcases le_or_gt 2 stakes[largest] with htwo | hone
  · -- the product bounds the reward and the share by its half
    have hsigned := sign_mul_eq R stakes.sum stakes[largest]
    rw [Int.sign_eq_neg_one_of_neg hT, abs_of_neg hT] at hsigned
    have hrest := rest_nonneg (T := stakes.sum) hR hpos.le
    have hshare : 2 * -share R stakes.sum stakes[largest] ≤ R*stakes[largest] := by
      have hmul : 2 * -share R stakes.sum stakes[largest] ≤
          -stakes.sum * -share R stakes.sum stakes[largest] :=
        mul_le_mul_of_nonneg_right (by omega) (by omega)
      linarith
    have hreward : R*2 ≤ R*stakes[largest] := mul_le_mul_of_nonneg_left htwo hR
    have hfits := (inRange_iff_le_intMax.mp hproduct).2
    omega
  · -- some stake is as far below zero, and its share outweighs that of the largest
    obtain ⟨s, hs, hsneg⟩ : ∃ s ∈ stakes, s < 0 := by
      by_contra hall
      push Not at hall
      exact absurd (List.sum_nonneg hall) (not_le.mpr hT)
    obtain ⟨j, hj, rfl⟩ := List.mem_iff_getElem.mp hs
    have hne : j ≠ largest := by
      rintro rfl
      omega
    have hj' : j < (stakes.map (share R stakes.sum)).length := by rwa [List.length_map]
    have hother := neg_share_le hR hT hpos.le (show stakes[largest] ≤ -stakes[j] by omega)
    have hle := hnonneg.getElem_le_of_ne hi' hj' hne
    rw [List.getElem_map, List.getElem_map, hD] at hle
    omega

/-- What the largest stake gets besides its share comes from the rests of the others. -/
theorem abs_largest_lt {largest : ℕ} (hi : largest < stakes.length) (hT : stakes.sum ≠ 0) :
    |stakes.sum*(share R stakes.sum stakes[largest]+(R-(stakes.map (share R stakes.sum)).sum))-
      R*stakes[largest]| < stakes.length * |stakes.sum| := by
  have htotal := mul_sum_add_rests R stakes.sum stakes
  have hone := mul_share_add_rest R stakes.sum stakes[largest]
  have hrests : stakes.sum*(share R stakes.sum stakes[largest]+
      (R-(stakes.map (share R stakes.sum)).sum))-R*stakes[largest] =
      ((stakes.map (rest R stakes.sum)).set largest 0).sum := by
    rw [List.sum_set', dif_pos (by rwa [List.length_map]), List.getElem_map]
    linarith
  have hle : ∀ m ∈ (stakes.map (rest R stakes.sum)).set largest 0, |m| ≤ |stakes.sum|-1 := by
    intro m hm
    rcases List.mem_or_eq_of_mem_set hm with hm | rfl
    · obtain ⟨s, -, rfl⟩ := List.mem_map.mp hm
      exact Int.le_sub_one_of_lt (abs_rest_lt hT)
    · rw [abs_zero]
      linarith [Int.one_le_abs hT]
  have hsum := abs_sum_le hle
  rw [List.length_set, List.length_map] at hsum
  rw [hrests]
  refine hsum.trans_lt ?_
  have hlength : (0 : ℤ) < stakes.length := by exact_mod_cast Nat.zero_lt_of_lt hi
  nlinarith

theorem abs_share_lt (hT : T ≠ 0) {s : ℤ} {n : ℕ} (hn : 0 < n) :
    |T*share R T s-R*s| < n * |T| := by
  have hone := mul_share_add_rest R T s
  have hrest := abs_rest_lt (R := R) (s := s) hT
  have hle : |T| ≤ n * |T| := le_mul_of_one_le_left (abs_nonneg T) (by exact_mod_cast hn)
  rw [show T*share R T s-R*s = -rest R T s by linarith, abs_neg]
  exact hrest.trans_le hle

/-- An amount next to the exact share of a stake. -/
def Near (validators : List CStakeInput) (R : ℤ) (v : CStakeInput) (r : ℤ) : Prop :=
  0 ≤ r ∧ |(r : ℚ)-R*v.nValue/((validators.map CStakeInput.nValue).sum : ℤ)| < validators.length

/-- The answer where all of the reward goes out in shares that are near the exact ones. -/
theorem distribute_of_spreads (rewards : List ℤ) (hR : 0 ≤ R) (hfit : R ≤ intMax 64)
    (hproducts : ∀ v ∈ validators, InRange 64 (R*v.nValue)) (hpos : ∃ v ∈ validators, 0 < v.nValue)
    (hsum : checkedSum 64 (validators.map CStakeInput.nValue) 0 =
      some (validators.map CStakeInput.nValue).sum)
    (h : Spreads R (validators.map CStakeInput.nValue) (largestStakeIndex validators)) :
    ∃ answer rewards', distributeStakingRewards validators R rewards = some (answer, rewards') ∧
      rewards'.sum = R ∧ List.Forall₂ (Near validators R) validators rewards' := by
  have hne : validators ≠ [] := by
    rintro rfl
    obtain ⟨v, hv, -⟩ := hpos
    exact absurd hv List.not_mem_nil
  obtain ⟨hi, hmax⟩ := largestStakeIndex_spec hne
  generalize hstakes : validators.map CStakeInput.nValue = stakes at *
  generalize hlargest : largestStakeIndex validators = largest at *
  have hlength : stakes.length = validators.length := by rw [← hstakes, List.length_map]
  have hmem : ∀ s ∈ stakes, InRange 64 (R*s) := by
    intro s hs
    rw [← hstakes] at hs
    obtain ⟨v, hv, rfl⟩ := List.mem_map.mp hs
    exact hproducts v hv
  have hi' : largest < (stakes.map (share R stakes.sum)).length := by rwa [List.length_map]
  have hstake : 0 < stakes[largest] := by
    obtain ⟨v, hv, h0⟩ := hpos
    exact h0.trans_le (hmax _ (hstakes ▸ List.mem_map_of_mem hv))
  have hnonneg := h.nonnegBut
  obtain ⟨hle, -, hend⟩ := (spreads_iff h.total).mp h
  have hq := hend hi
  have hqle := hnonneg.getElem_le hi'
  have hqge : -2^63 ≤ share R stakes.sum stakes[largest] := by
    have hproduct := inRange_iff_le_intMax.mp (hmem _ (List.getElem_mem hi))
    have hsmall := Int.natAbs_tdiv_le_natAbs (R*stakes[largest]) stakes.sum
    rw [intMax_64] at hproduct
    unfold share
    omega
  rw [List.getElem_map] at hqle
  -- every share and every sum of the loop lies in these bounds
  have hfits : ∀ x, min 0 (share R stakes.sum stakes[largest]) ≤ x →
      x ≤ (stakes.map (share R stakes.sum)).sum-min 0 (share R stakes.sum stakes[largest]) →
      InRange 64 x := by
    intro x hlo hhi
    rw [inRange_iff_le_intMax]
    rw [intMax_64] at hfit ⊢
    omega
  have hshares : ∀ v ∈ validators, InRange 64 (share R stakes.sum v.nValue) := by
    intro v hv
    obtain ⟨j, hj, hget⟩ := List.mem_iff_getElem.mp
      (hstakes ▸ List.mem_map_of_mem hv : v.nValue ∈ stakes)
    have hj' : j < (stakes.map (share R stakes.sum)).length := by rwa [List.length_map]
    rw [← hget]
    by_cases hjl : j = largest
    · subst hjl
      exact hfits _ (min_le_right _ _) (by omega)
    · have hother := hnonneg.getElem_le_of_ne hi' hj' hjl
      have hlow := hnonneg j hj' hjl
      rw [List.getElem_map] at hlow
      rw [List.getElem_map, List.getElem_map] at hother
      exact hfits _ ((min_le_left _ _).trans hlow) hother
  have hrun := shareOut_fits (s := ([], 0)) h.total hproducts hshares fun k => by
    have hbounds := hnonneg.sum_take_bounds hi' k
    rw [List.getElem_map] at hbounds
    rw [hstakes, zero_add]
    exact hfits _ hbounds.1 hbounds.2
  obtain ⟨t, hrun⟩ := Option.isSome_iff_exists.mp hrun
  have ht := shareOut_some hrun
  rw [hstakes, List.nil_append, zero_add] at ht
  unfold distributeStakingRewards
  rw [if_neg hne, hstakes, hsum]
  dsimp only [Option.bind_eq_bind, Option.bind_some]
  rw [if_neg h.total, hrun, ht, Option.bind_some]
  dsimp only
  have hnear : ∀ j (hj : j < validators.length) (hj' : j < stakes.length) (r : ℤ), 0 ≤ r →
      |stakes.sum*r-R*stakes[j]| < validators.length * |stakes.sum| →
      Near validators R (validators.get ⟨j, hj⟩) r := by
    intro j hj hj' r h0 hlt
    have hvalue : (validators.get ⟨j, hj⟩).nValue = stakes[j] := by
      simp only [← hstakes, List.getElem_map, List.get_eq_getElem]
    rw [Near, hstakes, hvalue]
    exact ⟨h0, abs_sub_exact_lt h.total hlt⟩
  have hshare : ∀ j (hj : j < stakes.length),
      |stakes.sum*share R stakes.sum stakes[j]-R*stakes[j]| < validators.length * |stakes.sum| :=
    fun j hj => abs_share_lt h.total (List.length_pos_of_ne_nil hne)
  split_ifs with hlt
  · have hreward : (stakes.map (share R stakes.sum)).getD largest 0 =
        share R stakes.sum stakes[largest] := by
      rw [List.getD_eq_getElem _ _ hi', List.getElem_map]
    rw [checked_of_inRange (remainder_fits hR hfit hi hstake (hmem _ (List.getElem_mem hi)) h),
      Option.bind_some, hlargest, hreward,
      checked_of_inRange (inRange_of_between hq (by omega)), Option.bind_some]
    refine ⟨true, _, rfl, ?_, List.forall₂_iff_get.mpr ⟨?_, fun j hj hj' => ?_⟩⟩
    · rw [List.sum_set', dif_pos hi', List.getElem_map]
      ring
    · rw [List.length_set, List.length_map, hlength]
    · have hj'' : j < stakes.length := hlength ▸ hj
      refine hnear j hj hj'' _ ?_ ?_
      all_goals
        rw [List.get_eq_getElem, List.getElem_set, List.getElem_map]
        split_ifs with heq
      · exact hq
      · exact (List.getElem_map (share R stakes.sum)).symm ▸
          hnonneg j (by rwa [List.length_map]) (Ne.symm heq)
      · subst heq
        exact hlength ▸ abs_largest_lt hi h.total
      · exact hshare j hj''
  · refine ⟨true, _, rfl, le_antisymm hle (not_lt.mp hlt),
      List.forall₂_iff_get.mpr ⟨?_, fun j hj hj' => ?_⟩⟩
    · rw [List.length_map, hlength]
    · have hj'' : j < stakes.length := hlength ▸ hj
      refine hnear j hj hj'' _ ?_ ?_
      all_goals rw [List.get_eq_getElem, List.getElem_map]
      · by_cases hjl : j = largest
        · subst hjl
          change 0 ≤ share R stakes.sum stakes[j]
          omega
        · exact (List.getElem_map (share R stakes.sum)).symm ▸
            hnonneg j (by rwa [List.length_map]) hjl
      · exact hshare j hj''

theorem spreads_of_distributes {rewards rewards' : List ℤ} {answer : Bool}
    (hpos : ∃ v ∈ validators, 0 < v.nValue)
    (hrun : distributeStakingRewards validators R rewards = some (answer, rewards'))
    (hsum : rewards'.sum = R) (hnear : List.Forall₂ (Near validators R) validators rewards') :
    (checkedSum 64 (validators.map CStakeInput.nValue) 0).isSome = true ∧ (R = 0 ∨
      Spreads R (validators.map CStakeInput.nValue) (largestStakeIndex validators)) := by
  have hne : validators ≠ [] := by
    rintro rfl
    obtain ⟨v, hv, -⟩ := hpos
    exact absurd hv List.not_mem_nil
  obtain ⟨hi, -⟩ := largestStakeIndex_spec hne
  unfold distributeStakingRewards at hrun
  rw [if_neg hne] at hrun
  cases htotal : checkedSum 64 (validators.map CStakeInput.nValue) 0 with
  | none =>
    rw [htotal] at hrun
    cases hrun
  | some totalStake =>
    have hT := checkedSum_some htotal
    rw [zero_add] at hT
    subst hT
    rw [htotal] at hrun
    dsimp only [Option.bind_eq_bind, Option.bind_some] at hrun
    refine ⟨rfl, ?_⟩
    by_cases hzero : (validators.map CStakeInput.nValue).sum = 0
    · rw [if_pos hzero] at hrun
      obtain ⟨-, rfl⟩ := Prod.mk.inj (Option.some.inj hrun)
      rw [List.sum_replicate, smul_zero] at hsum
      exact Or.inl hsum.symm
    rw [if_neg hzero] at hrun
    refine Or.inr ((spreads_iff hzero).mpr ?_)
    obtain ⟨t, hshares, hrun⟩ := Option.bind_eq_some_iff.mp hrun
    have ht := shareOut_some hshares
    rw [List.nil_append, zero_add] at ht
    subst ht
    dsimp only at hrun
    generalize validators.map CStakeInput.nValue = stakes at *
    generalize largestStakeIndex validators = largest at *
    have hi' : largest < (stakes.map (share R stakes.sum)).length := by rwa [List.length_map]
    obtain ⟨hlength, hget⟩ := List.forall₂_iff_get.mp hnear
    split_ifs at hrun with hlt
    · obtain ⟨remainder, hremainder, hrun⟩ := Option.bind_eq_some_iff.mp hrun
      obtain ⟨reward, hreward, hrun⟩ := Option.bind_eq_some_iff.mp hrun
      obtain ⟨-, rfl⟩ := Prod.mk.inj (Option.some.inj hrun)
      obtain ⟨-, rfl⟩ := checked_eq_some_iff.mp hremainder
      obtain ⟨-, rfl⟩ := checked_eq_some_iff.mp hreward
      rw [List.length_set, List.length_map] at hlength
      refine ⟨hlt.le, fun i hj hother => ?_, fun _ => ?_⟩
      · have hnonneg := (hget i (hlength ▸ hj) (by rwa [List.length_set, List.length_map])).1
        rwa [List.get_eq_getElem, List.getElem_set_ne (Ne.symm hother), List.getElem_map] at hnonneg
      · have hnonneg :=
          (hget largest (hlength ▸ hi) (by rwa [List.length_set, List.length_map])).1
        rwa [List.get_eq_getElem, List.getElem_set_self, List.getD_eq_getElem _ _ hi',
          List.getElem_map] at hnonneg
    · obtain ⟨-, rfl⟩ := Prod.mk.inj (Option.some.inj hrun)
      rw [List.length_map] at hlength
      have hall : ∀ i (hj : i < stakes.length), 0 ≤ share R stakes.sum stakes[i] := by
        intro i hj
        have hnonneg := (hget i (hlength ▸ hj) (by rwa [List.length_map])).1
        rwa [List.get_eq_getElem, List.getElem_map] at hnonneg
      refine ⟨hsum.le, fun i hj _ => hall i hj, fun _ => ?_⟩
      rw [hsum, sub_self, add_zero]
      exact hall largest hi

/-- The rewards come to the total and are near the exact shares exactly when the stakes can
be added up, and spread. -/
theorem conserved_by_input_iff (rewards : List ℤ) (hR : 0 ≤ R) (hfit : R ≤ intMax 64)
    (hproducts : ∀ v ∈ validators, InRange 64 (R*v.nValue))
    (hpos : ∃ v ∈ validators, 0 < v.nValue) :
    (∃ answer rewards', distributeStakingRewards validators R rewards = some (answer, rewards') ∧
        rewards'.sum = R ∧ List.Forall₂ (Near validators R) validators rewards') ↔
      (checkedSum 64 (validators.map CStakeInput.nValue) 0).isSome = true ∧ (R = 0 ∨
        Spreads R (validators.map CStakeInput.nValue) (largestStakeIndex validators)) := by
  constructor
  · rintro ⟨answer, rewards', hrun, hsum, hnear⟩
    exact spreads_of_distributes hpos hrun hsum hnear
  · rintro ⟨hsome, h⟩
    obtain ⟨totalStake, htotal⟩ := Option.isSome_iff_exists.mp hsome
    have hT := checkedSum_some htotal
    rw [zero_add] at hT
    subst hT
    by_cases hzero : (validators.map CStakeInput.nValue).sum = 0
    · obtain rfl : R = 0 := h.resolve_right fun hspread => hspread.total hzero
      have hne : validators ≠ [] := by
        rintro rfl
        obtain ⟨v, hv, -⟩ := hpos
        exact absurd hv List.not_mem_nil
      refine ⟨false, List.replicate validators.length 0, ?_, ?_, ?_⟩
      · unfold distributeStakingRewards
        rw [if_neg hne, htotal]
        exact if_pos hzero
      · rw [List.sum_replicate, smul_zero]
      · refine List.forall₂_iff_get.mpr ⟨List.length_replicate.symm, fun j hj hj' => ?_⟩
        simp only [List.get_eq_getElem, List.getElem_replicate, Near]
        refine ⟨le_rfl, ?_⟩
        rw [Int.cast_zero, zero_mul, zero_div, sub_zero, abs_zero]
        exact_mod_cast List.length_pos_of_ne_nil hne
    · refine distribute_of_spreads rewards hR hfit hproducts hpos htotal (h.elim ?_ id)
      rintro rfl
      exact spreads_zero hzero _

/-- Both functions distribute the whole reward exactly when the one finds a stake at the end
of the list or divisions that leave nothing, and the other finds stakes that spread. -/
theorem reward_conserved_iff (validators : List CStakeInput) (totalReward : ℤ) (rewards : List ℤ)
    (hR : 0 ≤ totalReward) (hproducts : ∀ v ∈ validators, InRange 64 (totalReward*v.nValue))
    (hpos : ∃ v ∈ validators, 0 < v.nValue) :
    ((∃ d, Distribution.distributeStakingRewards (validators.map CStakeInput.nValue) totalReward =
          some d ∧ d.nDistributedRewards = totalReward ∧ ∀ r ∈ d.credited, 0 ≤ r) ↔
      totalReward = 0 ∨ (positives (validators.map CStakeInput.nValue)).sum ≤ intMax 64 ∧
        ((∃ v ∈ validators.getLast?, 0 < v.nValue) ∨
          ∀ s ∈ positives (validators.map CStakeInput.nValue),
            (positives (validators.map CStakeInput.nValue)).sum ∣ totalReward*s)) ∧
    ((∃ answer rewards',
        distributeStakingRewards validators totalReward rewards = some (answer, rewards') ∧
          rewards'.sum = totalReward ∧
          List.Forall₂ (Near validators totalReward) validators rewards') ↔
      (checkedSum 64 (validators.map CStakeInput.nValue) 0).isSome = true ∧ (totalReward = 0 ∨
        Spreads totalReward (validators.map CStakeInput.nValue)
          (largestStakeIndex validators))) := by
  have hfit : totalReward ≤ intMax 64 := by
    obtain ⟨v, hv, h0⟩ := hpos
    exact (le_mul_of_one_le_right hR h0).trans (inRange_iff_le_intMax.mp (hproducts v hv)).2
  have hlast : (∃ v ∈ validators.getLast?, 0 < v.nValue) ↔
      ∃ s ∈ (validators.map CStakeInput.nValue).getLast?, 0 < s := by
    rw [List.getLast?_map]
    simp
  have hproducts' : ∀ s ∈ validators.map CStakeInput.nValue, InRange 64 (totalReward*s) := by
    intro s hs
    obtain ⟨v, hv, rfl⟩ := List.mem_map.mp hs
    exact hproducts v hv
  obtain ⟨v, hv, h0⟩ := hpos
  rw [hlast]
  exact ⟨conserved_by_amount_iff hR hfit hproducts' ⟨_, List.mem_map_of_mem hv, h0⟩,
    conserved_by_input_iff rewards hR hfit hproducts ⟨v, hv, h0⟩⟩

/-- Stake inputs of the given values. -/
def inputsOf (values : List ℤ) : List CStakeInput := values.map fun nValue => ⟨⟨1, 0⟩, nValue, 1, 1⟩

theorem reward_conserved_iff_three :
    ((∃ d, Distribution.distributeStakingRewards ((inputsOf [1, 0, 2]).map CStakeInput.nValue) 10 =
          some d ∧ d.nDistributedRewards = 10 ∧ ∀ r ∈ d.credited, 0 ≤ r) ↔
      (10 : ℤ) = 0 ∨ (positives ((inputsOf [1, 0, 2]).map CStakeInput.nValue)).sum ≤ intMax 64 ∧
        ((∃ v ∈ (inputsOf [1, 0, 2]).getLast?, 0 < v.nValue) ∨
          ∀ s ∈ positives ((inputsOf [1, 0, 2]).map CStakeInput.nValue),
            (positives ((inputsOf [1, 0, 2]).map CStakeInput.nValue)).sum ∣ 10*s)) ∧
    ((∃ answer rewards',
        distributeStakingRewards (inputsOf [1, 0, 2]) 10 [] = some (answer, rewards') ∧
          rewards'.sum = 10 ∧ List.Forall₂ (Near (inputsOf [1, 0, 2]) 10) (inputsOf [1, 0, 2])
            rewards') ↔
      (checkedSum 64 ((inputsOf [1, 0, 2]).map CStakeInput.nValue) 0).isSome = true ∧
        ((10 : ℤ) = 0 ∨ Spreads 10 ((inputsOf [1, 0, 2]).map CStakeInput.nValue)
          (largestStakeIndex (inputsOf [1, 0, 2])))) :=
  reward_conserved_iff (inputsOf [1, 0, 2]) 10 [] (by decide) (by decide) (by decide)

/-- A last entry without a stake loses one of ten in the one function. With stakes below zero
the other gives out two for a reward of one. -/
theorem reward_not_conserved :
    (¬∀ (stakes : List ℤ) (totalReward : ℤ), 0 ≤ totalReward →
      (∀ s ∈ stakes, InRange 64 (totalReward*s)) → (∃ s ∈ stakes, 0 < s) →
      ∃ d, Distribution.distributeStakingRewards stakes totalReward = some d ∧
        d.nDistributedRewards = totalReward ∧ ∀ r ∈ d.credited, 0 ≤ r) ∧
    ¬∀ (validators : List CStakeInput) (totalReward : ℤ) (rewards : List ℤ), 0 ≤ totalReward →
      (∀ v ∈ validators, InRange 64 (totalReward*v.nValue)) → (∃ v ∈ validators, 0 < v.nValue) →
      ∃ answer rewards',
        distributeStakingRewards validators totalReward rewards = some (answer, rewards') ∧
          rewards'.sum = totalReward ∧
          List.Forall₂ (Near validators totalReward) validators rewards' := by
  constructor
  · intro h
    obtain ⟨d, hrun, hsum, -⟩ := h [1, 2, 0] 10 (by decide) (by decide) (by decide)
    have hnine : Distribution.distributeStakingRewards [1, 2, 0] 10 = some ⟨9, 1, [3, 6]⟩ := by
      decide
    rw [hnine, Option.some.injEq] at hrun
    rw [← hrun] at hsum
    exact absurd hsum (by decide)
  · intro h
    obtain ⟨answer, rewards', hrun, hsum, -⟩ :=
      h (inputsOf [4, -1, -1]) 1 [] (by decide) (by decide) (by decide)
    have htwo : distributeStakingRewards (inputsOf [4, -1, -1]) 1 [] = some (true, [2, 0, 0]) := by
      decide
    rw [htwo, Option.some.injEq, Prod.mk.injEq] at hrun
    rw [← hrun.2] at hsum
    exact absurd hsum (by decide)

/-! ### Overflow -/

theorem distributes_by_amount (hR : 0 ≤ R) (hfit : R ≤ intMax 64) (hstakes : ∀ s ∈ stakes, 0 ≤ s)
    (htotal : stakes.sum ≤ intMax 64) (hproducts : ∀ s ∈ stakes, InRange 64 (R*s)) :
    (Distribution.distributeStakingRewards stakes R).isSome = true := by
  have hle : (positives stakes).sum ≤ stakes.sum := List.filter_sublist.sum_le_sum hstakes
  unfold Distribution.distributeStakingRewards
  rw [checkedSum_positives, checked_of_inRange
    (inRange_of_between (List.sum_nonneg positives_nonneg) (hle.trans htotal))]
  dsimp only [Option.bind_eq_bind, Option.bind_some]
  split_ifs with hzero hnone
  · rfl
  · rfl
  · have hT := not_le.mp hnone
    obtain ⟨d, hrun, -⟩ := Distribution.share_spec (d := {nRemainingReward := R}) hR hfit hT
      hproducts le_rfl (sub_zero R).symm
      (by rw [zero_add]; exact sum_shares_le hR hT positives_nonneg le_rfl)
      (fun r hr => absurd hr List.not_mem_nil)
    rw [hrun]
    rfl

theorem distributes_by_input (rewards : List ℤ) (hR : 0 ≤ R) (hfit : R ≤ intMax 64)
    (hstakes : ∀ s ∈ validators.map CStakeInput.nValue, 0 ≤ s)
    (htotal : (validators.map CStakeInput.nValue).sum ≤ intMax 64)
    (hproducts : ∀ v ∈ validators, InRange 64 (R*v.nValue)) :
    (distributeStakingRewards validators R rewards).isSome = true := by
  have hsum := List.sum_nonneg hstakes
  have hadds : checkedSum 64 (validators.map CStakeInput.nValue) 0 =
      some (validators.map CStakeInput.nValue).sum := by
    rw [checkedSum_of_nonneg hstakes le_rfl (inRange_of_between le_rfl (by decide)), zero_add]
    exact checked_of_inRange (inRange_of_between hsum htotal)
  rcases hsum.eq_or_lt with hzero | hT
  · unfold distributeStakingRewards
    split_ifs
    · rfl
    · rw [hadds]
      dsimp only [Option.bind_eq_bind, Option.bind_some]
      rw [if_pos hzero.symm]
      rfl
  · have hpos : ∃ v ∈ validators, 0 < v.nValue := by
      by_contra hnot
      push Not at hnot
      refine hT.ne' (List.sum_eq_zero fun s hs => ?_)
      obtain ⟨v, hv, rfl⟩ := List.mem_map.mp hs
      exact le_antisymm (hnot v hv) (hstakes _ (List.mem_map_of_mem hv))
    obtain ⟨answer, rewards', hrun, -⟩ := distribute_of_spreads rewards hR hfit hproducts hpos hadds
      (spreads_of_nonneg hR hstakes hT _)
    rw [hrun]
    rfl

/-- Stakes and rewards that can occur overflow exactly in the products. -/
theorem sharing_fits_iff (p : Params) (validators : List CStakeInput) (totalReward : ℤ)
    (rewards : List ℤ) (hmoney : ∀ v ∈ validators, moneyRange v.nValue = true)
    (htotal : (validators.map CStakeInput.nValue).sum ≤ MAX_MONEY) (h0 : 0 ≤ totalReward)
    (hmax : totalReward ≤ p.nInitialBlockReward) :
    ((∀ v ∈ validators, (calculateIndividualStakingReward v.nValue
          (validators.map CStakeInput.nValue).sum totalReward).isSome = true) ∧
        (Distribution.distributeStakingRewards (validators.map CStakeInput.nValue)
          totalReward).isSome = true ∧
        (distributeStakingRewards validators totalReward rewards).isSome = true) ↔
      ∀ v ∈ validators, totalReward*v.nValue ≤ intMax 64 := by
  have hrange : ∀ v ∈ validators, 0 ≤ v.nValue ∧ v.nValue ≤ MAX_MONEY := fun v hv =>
    of_decide_eq_true (hmoney v hv)
  have hint : MAX_MONEY ≤ intMax 64 := by decide
  have hfit : totalReward ≤ intMax 64 :=
    hmax.trans (inRange_iff_le_intMax.mp p.nInitialBlockReward.2).2
  have hstakes : ∀ s ∈ validators.map CStakeInput.nValue, 0 ≤ s := by
    intro s hs
    obtain ⟨v, hv, rfl⟩ := List.mem_map.mp hs
    exact (hrange v hv).1
  constructor
  · rintro ⟨hall, -, -⟩ v hv
    obtain ⟨hv0, hvmax⟩ := hrange v hv
    rcases hv0.eq_or_lt with hzero | hpos
    · rw [← hzero, mul_zero]
      decide
    have hsome := hall v hv
    have hle : v.nValue ≤ _ := List.single_le_sum hstakes _ (List.mem_map_of_mem hv)
    rw [calculateIndividualStakingReward_eq h0 hpos (hpos.trans_le hle) (hvmax.trans hint)] at hsome
    by_contra hlarge
    rw [checked_eq_none fun hin => hlarge (inRange_iff_le_intMax.mp hin).2] at hsome
    cases hsome
  · intro hproducts
    have hproducts' : ∀ v ∈ validators, InRange 64 (totalReward*v.nValue) := fun v hv =>
      inRange_of_between (mul_nonneg h0 (hrange v hv).1) (hproducts v hv)
    refine ⟨fun v hv => ?_, ?_, ?_⟩
    · obtain ⟨hv0, hvmax⟩ := hrange v hv
      rcases hv0.eq_or_lt with hzero | hpos
      · rw [calculateIndividualStakingReward, if_pos hzero.ge]
        rfl
      · have hle : v.nValue ≤ _ := List.single_le_sum hstakes _ (List.mem_map_of_mem hv)
        rw [calculateIndividualStakingReward_fits h0 hpos hle (hvmax.trans hint) (hproducts v hv)]
        rfl
    · exact distributes_by_amount h0 hfit hstakes (htotal.trans hint) (by
        intro s hs
        obtain ⟨v, hv, rfl⟩ := List.mem_map.mp hs
        exact hproducts' v hv)
    · exact distributes_by_input rewards h0 hfit hstakes (htotal.trans hint) hproducts'

theorem sharing_fits_iff_two :
    ((∀ v ∈ inputsOf [1*COIN, 2*COIN], (calculateIndividualStakingReward v.nValue
          ((inputsOf [1*COIN, 2*COIN]).map CStakeInput.nValue).sum 40).isSome = true) ∧
        (Distribution.distributeStakingRewards ((inputsOf [1*COIN, 2*COIN]).map CStakeInput.nValue)
          40).isSome = true ∧
        (distributeStakingRewards (inputsOf [1*COIN, 2*COIN]) 40 []).isSome = true) ↔
      ∀ v ∈ inputsOf [1*COIN, 2*COIN], 40*v.nValue ≤ intMax 64 :=
  sharing_fits_iff mainParams (inputsOf [1*COIN, 2*COIN]) 40 [] (by decide) (by decide) (by decide)
    (by decide)

/-- Stakes of a thousand coins and more, and the initial reward. -/
theorem sharing_overflows :
    ¬∀ (p : Params) (validators : List CStakeInput) (totalReward : ℤ) (rewards : List ℤ),
      (∀ v ∈ validators, moneyRange v.nValue = true) →
      (validators.map CStakeInput.nValue).sum ≤ MAX_MONEY → 0 ≤ totalReward →
      totalReward ≤ p.nInitialBlockReward →
      (∀ v ∈ validators, (calculateIndividualStakingReward v.nValue
          (validators.map CStakeInput.nValue).sum totalReward).isSome = true) ∧
        (Distribution.distributeStakingRewards (validators.map CStakeInput.nValue)
          totalReward).isSome = true ∧
        (distributeStakingRewards validators totalReward rewards).isSome = true := by
  intro h
  obtain ⟨-, hdistributes, -⟩ := h mainParams
    (inputsOf [1000*COIN, 10000*COIN, 100000*COIN]) (200*COIN) [] (by decide) (by decide)
    (by decide) (by decide)
  revert hdistributes
  decide

end BabaChain.Staking
