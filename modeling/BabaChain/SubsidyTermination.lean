import BabaChain.SupplyCap

/-! When the two subsidy entry points return: the yearly decline loop is counted
in steps of a consensus parameter. -/
namespace BabaChain
open MachineInt

/-- The first multiple of the interval above the height is still an `int`. -/
def YearlyDeclineEnds (p : Params) (nPrevHeight : ℤ) : Prop :=
  0 < (p.nSubsidyHalvingInterval : ℤ) ∧
    (nPrevHeight/p.nSubsidyHalvingInterval+1)*p.nSubsidyHalvingInterval ≤ intMax 32

instance (p : Params) (nPrevHeight : ℤ) : Decidable (YearlyDeclineEnds p nPrevHeight) :=
  inferInstanceAs (Decidable (_ ∧ _))

variable {p : Params} {h : ℤ}

theorem yearlyDecline_returns (hd : YearlyDeclineEnds p h) (nSubsidy : ℤ) :
    ∃ fuel r, yearlyDecline fuel h p nSubsidy = some r := by
  obtain ⟨hpos, hfit⟩ := hd
  obtain ⟨r, hr, _⟩ := @forLoop_total ℤ 32 h _
    (fun _ n => some (.next (n-n.tdiv 14)))
    (fun i _ => ∃ k : ℤ, 1 ≤ k ∧ i = k*p.nSubsidyHalvingInterval) (fun _ => True) hpos
    (by
      rintro i s hle ⟨k, hk, rfl⟩
      have hkh : k ≤ h/p.nSubsidyHalvingInterval := (Int.le_ediv_iff_mul_le hpos).mpr hle
      have hmul : (k+1)*(p.nSubsidyHalvingInterval : ℤ) ≤
          (h/p.nSubsidyHalvingInterval+1)*p.nSubsidyHalvingInterval :=
        mul_le_mul_of_nonneg_right (by omega) hpos.le
      have hnext : k*(p.nSubsidyHalvingInterval : ℤ)+p.nSubsidyHalvingInterval =
          (k+1)*p.nSubsidyHalvingInterval := by ring
      refine Or.inr ⟨s-s.tdiv 14, rfl, ?_, k+1, by omega, hnext⟩
      rw [hnext]
      exact inRange_of_between (by positivity) (hmul.trans hfit))
    (fun _ _ _ _ => trivial) ((h-p.nSubsidyHalvingInterval+1).toNat+1)
    p.nSubsidyHalvingInterval nSubsidy ⟨1, le_rfl, (one_mul _).symm⟩ (by omega) (by omega)
  exact ⟨_, r, hr⟩

/-- An interval that is not positive, or whose multiples pass `INT_MAX`, keeps
the loop below the height until the counter overflows. -/
theorem yearlyDecline_diverges (h0 : 0 ≤ h) (hd : ¬YearlyDeclineEnds p h) (fuel : ℕ)
    (nSubsidy : ℤ) : yearlyDecline fuel h p nSubsidy = none := by
  unfold yearlyDecline
  rcases le_or_gt (p.nSubsidyHalvingInterval : ℤ) 0 with hneg | hpos
  · refine forLoop_diverges (fun i _ => i ≤ 0)
      (fun i s hi => ⟨by omega, s-s.tdiv 14, rfl, fun _ => ?_⟩) fuel _ nSubsidy hneg
    omega
  · refine forLoop_diverges
      (fun i _ => InRange 32 i ∧ ∃ k : ℤ, 1 ≤ k ∧ i = k*p.nSubsidyHalvingInterval) ?_
      fuel _ nSubsidy ⟨p.nSubsidyHalvingInterval.2, 1, le_rfl, (one_mul _).symm⟩
    rintro i s ⟨hr, k, hk, rfl⟩
    refine ⟨?_, s-s.tdiv 14, rfl, fun hr' => ⟨hr', k+1, by omega, by ring⟩⟩
    have hle := (inRange_iff_le_intMax.mp hr).2
    have hlt : intMax 32 < (h/p.nSubsidyHalvingInterval+1)*p.nSubsidyHalvingInterval := by
      by_contra hc
      exact hd ⟨hpos, not_lt.mp hc⟩
    have hk' : k < h/p.nSubsidyHalvingInterval+1 :=
      lt_of_mul_lt_mul_right (hle.trans_lt hlt) hpos.le
    exact (Int.le_ediv_iff_mul_le hpos).mp (by omega)

variable {network : Network} {nPrevBits : BitVec 32} {fV20Active : Bool}

theorem applyHighSubsidy_returns_iff (nSubsidy : ℤ) :
    (∃ r, applyHighSubsidy network h p nSubsidy = some r) ↔
      (h < p.nHighSubsidyBlocks → network = .devnet) := by
  unfold applyHighSubsidy
  by_cases hlt : h < p.nHighSubsidyBlocks
  · by_cases hnet : network = .devnet
    · simp only [hlt, hnet, if_true, Option.some.injEq, exists_eq', imp_self]
    · simp only [hlt, hnet, if_true, if_false, reduceCtorEq, exists_false, imp_false, not_true]
  · simp only [hlt, if_false, Option.some.injEq, exists_eq', false_imp_iff]

theorem blockSubsidyHelper_returns_iff (h0 : 0 ≤ h) :
    (∃ fuel r, getBlockSubsidyHelper network fuel nPrevBits h p fV20Active = some r) ↔
      YearlyDeclineEnds p h ∧ (h < p.nHighSubsidyBlocks → network = .devnet) := by
  simp only [getBlockSubsidyHelper, Option.bind_eq_bind, Option.bind_eq_some_iff]
  constructor
  · rintro ⟨fuel, r, nSubsidy, hdecl, nHigh, hhigh, _⟩
    refine ⟨?_, (applyHighSubsidy_returns_iff nSubsidy).mp ⟨nHigh, hhigh⟩⟩
    by_contra hd
    rw [yearlyDecline_diverges h0 hd] at hdecl
    contradiction
  · rintro ⟨hd, hnet⟩
    obtain ⟨fuel, nSubsidy, hdecl⟩ := yearlyDecline_returns hd
      (wrap 64 (subsidyBase network nPrevBits h p fV20Active*COIN))
    obtain ⟨nHigh, hhigh⟩ := (applyHighSubsidy_returns_iff nSubsidy).mpr hnet
    exact ⟨fuel, _, nSubsidy, hdecl, nHigh, hhigh, rfl⟩

theorem superblockSubsidy_returns_iff (h0 : 0 ≤ h) :
    (∃ fuel r, getSuperblockSubsidyInner network fuel nPrevBits h p fV20Active = some r) ↔
      YearlyDeclineEnds p h ∧ (h < p.nHighSubsidyBlocks → network = .devnet) := by
  have hblock : (∃ fuel r, getBlockSubsidyHelper network fuel nPrevBits h p fV20Active = some r) ↔ _ :=
    blockSubsidyHelper_returns_iff h0
  rw [← hblock]
  simp only [getSuperblockSubsidyInner, Option.map_eq_some_iff]
  constructor
  · rintro ⟨fuel, _, r, hr, _⟩
    exact ⟨fuel, r, hr⟩
  · rintro ⟨fuel, r, hr⟩
    exact ⟨fuel, r.2, r, hr, rfl⟩

/-- Without halving the block subsidy is the supply schedule's, which returns. -/
theorem blockSubsidy_returns_without_halving (hp : p.SupplyBounds) (h0 : 0 ≤ h)
    (hmax : h < intMax 32) (hz : (p.nSubsidyHalvingInterval : ℤ) = 0) (fuel : ℕ) :
    getBlockSubsidyInner network fuel nPrevBits h p fV20Active =
      some (issuedSupply p (h+1)-issuedSupply p h) := by
  unfold getBlockSubsidyInner
  rw [if_pos hz, checked_of_inRange (inRange_of_between (by omega) (by omega)), Option.bind_some,
    posSubsidy_eq_issued_diff hp (by omega) (by omega), add_sub_cancel_right]

theorem blockSubsidy_returns_of_helper (hz : (p.nSubsidyHalvingInterval : ℤ) ≠ 0)
    (hr : ∃ fuel r, getBlockSubsidyHelper network fuel nPrevBits h p fV20Active = some r) :
    ∃ fuel v, getBlockSubsidyInner network fuel nPrevBits h p fV20Active = some v := by
  obtain ⟨fuel, r, hr⟩ := hr
  refine ⟨fuel, r.1, ?_⟩
  rw [getBlockSubsidyInner, if_neg hz, hr, Option.map_some]

/-- Both entry points return, for some number of turns of the decline loop. -/
def SubsidiesReturn (network : Network) (nPrevBits : BitVec 32) (nPrevHeight : ℤ) (p : Params)
    (fV20Active : Bool) : Prop :=
  (∃ fuel v, getBlockSubsidyInner network fuel nPrevBits nPrevHeight p fV20Active = some v) ∧
    ∃ fuel v, getSuperblockSubsidyInner network fuel nPrevBits nPrevHeight p fV20Active = some v

/-- Both subsidies return exactly when the interval is positive, its multiples
stay an `int`, and early high subsidies are on devnet. -/
theorem subsidies_return_iff (network : Network) (nPrevBits : BitVec 32) (nPrevHeight : ℤ)
    (p : Params) (fV20Active : Bool) (h0 : 0 ≤ nPrevHeight) :
    SubsidiesReturn network nPrevBits nPrevHeight p fV20Active ↔
      YearlyDeclineEnds p nPrevHeight ∧
        (nPrevHeight < p.nHighSubsidyBlocks → network = .devnet) := by
  unfold SubsidiesReturn
  rw [superblockSubsidy_returns_iff h0, and_iff_right_iff_imp]
  intro hr
  exact blockSubsidy_returns_of_helper hr.1.1.ne' ((blockSubsidyHelper_returns_iff h0).mpr hr)

theorem subsidies_return_main :
    SubsidiesReturn .main 0x1e0ffff0#32 0 mainParams true ↔
      YearlyDeclineEnds mainParams 0 ∧
        ((0:ℤ) < mainParams.nHighSubsidyBlocks → Network.main = .devnet) :=
  subsidies_return_iff .main 0x1e0ffff0#32 0 mainParams true le_rfl

/-- On the main network the guarded entry point pays the first block and the
other one never ends. -/
theorem superblock_subsidy_never_ends_main :
    (∀ fuel, getBlockSubsidyInner .main fuel 0x1e0ffff0#32 0 mainParams true = some (200*COIN)) ∧
      (∀ fuel, getSuperblockSubsidyInner .main fuel 0x1e0ffff0#32 0 mainParams true = none) ∧
      ¬SubsidiesReturn .main 0x1e0ffff0#32 0 mainParams true := by
  have hd : ¬YearlyDeclineEnds mainParams 0 := by decide
  have hnone (fuel : ℕ) :
      getSuperblockSubsidyInner .main fuel 0x1e0ffff0#32 0 mainParams true = none := by
    rw [getSuperblockSubsidyInner, getBlockSubsidyHelper, yearlyDecline_diverges le_rfl hd]
    rfl
  refine ⟨fun fuel => ?_, hnone, ?_⟩
  · rw [blockSubsidy_returns_without_halving mainParams_supplyBounds le_rfl (by decide) rfl]
    decide
  · rintro ⟨_, fuel, v, hv⟩
    rw [hnone fuel] at hv
    contradiction

end BabaChain
