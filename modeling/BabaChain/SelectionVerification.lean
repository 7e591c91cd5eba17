import BabaChain.SelectionShares

/-! Whether the chosen validator is the one that a verifier accepts. -/
namespace BabaChain.PoS
open OrdMap Runs Std arith_uint256 CValidatorManager

/-- `CValidatorSelector::VerifyValidatorSelection`. -/
def verifyValidatorSelection (Hash : List UInt8 → uint256) (validator : CValidator)
    (blockHash : uint256) (currentTime : ℤ) (r : CValidatorRegistry) : Except String Bool :=
  if !validator.isEligible currentTime then .ok false
  else
    let eligibleValidators := getEligibleValidators currentTime r
    if eligibleValidators.isEmpty then .ok false
    else
      let validatorHash := getValidatorHash Hash validator.pubkey
      let found := eligibleValidators.any fun v =>
        decide (getValidatorHash Hash v.pubkey = validatorHash)
      if !found then .ok false
      else
        match selectValidator Hash blockHash currentTime r with
        | .error e => .error e
        | .ok none => .ok false
        | .ok (some selectedValidator) =>
          .ok (decide (getValidatorHash Hash selectedValidator.pubkey = validatorHash))

/-- The stake of all registered validators. -/
def registeredStake (r : CValidatorRegistry) : ℤ := totalStake (r.mapValidators.toList.map Prod.snd)

/-- The weighted scores of two validators among the eligible ones, both without a division by
zero, are in order. -/
def ScoreLe (Hash : List UInt8 → uint256) (blockHash : uint256) (validators : List CValidator)
    (w v : CValidator) : Prop :=
  ∃ x y, weightedScore (totalStake validators) w.nStakeAmount
      (getSelectionHash Hash blockHash w.pubkey) = .ok x ∧
    weightedScore (totalStake validators) v.nStakeAmount
      (getSelectionHash Hash blockHash v.pubkey) = .ok y ∧ x.toNat ≤ y.toNat

/-- The selection finds an eligible validator whose weighted score is greatest, and verification
accepts it and no other eligible one. -/
def SelectsVerifiably (Hash : List UInt8 → uint256) (blockHash : uint256) (currentTime : ℤ)
    (r : CValidatorRegistry) : Prop :=
  ∃ v ∈ getEligibleValidators currentTime r,
    selectValidator Hash blockHash currentTime r = .ok (some v) ∧
    (∀ w ∈ getEligibleValidators currentTime r,
      ScoreLe Hash blockHash (getEligibleValidators currentTime r) w v) ∧
    ∀ w ∈ getEligibleValidators currentTime r,
      verifyValidatorSelection Hash w blockHash currentTime r = .ok (decide (w = v))

section Eligible

variable {Hash : List UInt8 → uint256} {r : CValidatorRegistry} {currentTime : ℤ}

/-- The eligible validators are among the registered ones, each once. -/
theorem eligible_subperm (hr : Consistent Hash r) :
    (getEligibleValidators currentTime r).Subperm (r.mapValidators.toList.map Prod.snd) := by
  apply List.subperm_of_subset
  · exact (eligible_pubkeys_nodup hr currentTime).of_map _
  · intro v hv
    obtain ⟨h, -, hget, -⟩ := mem_getEligibleValidators.mp hv
    exact List.mem_map.mpr ⟨(h, v), ExtTreeMap.mem_toList_iff_getElem?_eq_some.mpr hget, rfl⟩

theorem totalStake_eligible_le (hr : Consistent Hash r)
    (hmin : ∀ (h : uint256) v, r.mapValidators[h]? = some v →
      MIN_VALIDATOR_STAKE ≤ v.nStakeAmount) :
    totalStake (getEligibleValidators currentTime r) ≤ registeredStake r := by
  obtain ⟨l, hperm, hsub⟩ := @eligible_subperm _ _ currentTime hr
  have hsum : totalStake l = totalStake (getEligibleValidators currentTime r) :=
    (hperm.map CValidator.nStakeAmount).sum_eq
  rw [← hsum]
  apply (hsub.map CValidator.nStakeAmount).sum_le_sum
  intro a ha
  obtain ⟨v, hv, rfl⟩ := List.mem_map.mp ha
  obtain ⟨p, hp, rfl⟩ := List.mem_map.mp hv
  have hstake := hmin p.1 p.2 (mem_toList hp)
  have hpos : (0 : ℤ) ≤ MIN_VALIDATOR_STAKE := by decide
  omega

theorem eligible_of_mem {v : CValidator} (hv : v ∈ getEligibleValidators currentTime r) :
    v.isEligible currentTime = true := by
  obtain ⟨h, -, -, he⟩ := mem_getEligibleValidators.mp hv
  exact he

/-- Two registered validators with one key hash are the same. -/
theorem eq_of_validatorHash (hr : Consistent Hash r) {v w : CValidator}
    (hv : v ∈ getEligibleValidators currentTime r) (hw : w ∈ getEligibleValidators currentTime r)
    (h : getValidatorHash Hash v.pubkey = getValidatorHash Hash w.pubkey) : v = w := by
  obtain ⟨hv', -, hgetv, -⟩ := mem_getEligibleValidators.mp hv
  obtain ⟨hw', -, hgetw, -⟩ := mem_getEligibleValidators.mp hw
  have hkeys : hv' = hw' := by
    rw [← hr.key _ v hgetv, h, hr.key _ w hgetw]
  rw [hkeys, hgetw, Option.some.injEq] at hgetv
  exact hgetv.symm

/-- Verification of an eligible validator compares it with the selected one. -/
theorem verify_eq (hr : Consistent Hash r) {blockHash : uint256} {v w : CValidator}
    (hv : v ∈ getEligibleValidators currentTime r)
    (hselect : selectValidator Hash blockHash currentTime r = .ok (some v))
    (hw : w ∈ getEligibleValidators currentTime r) :
    verifyValidatorSelection Hash w blockHash currentTime r = .ok (decide (w = v)) := by
  have hfound : ((getEligibleValidators currentTime r).any fun u =>
      decide (getValidatorHash Hash u.pubkey = getValidatorHash Hash w.pubkey)) = true :=
    List.any_eq_true.mpr ⟨w, hw, decide_eq_true rfl⟩
  have hempty : (getEligibleValidators currentTime r).isEmpty = false := by
    rw [List.isEmpty_eq_false_iff]
    exact List.ne_nil_of_mem hw
  unfold verifyValidatorSelection
  dsimp only
  rw [eligible_of_mem hw, Bool.not_true, if_neg Bool.false_ne_true, hempty,
    if_neg Bool.false_ne_true, hfound, Bool.not_true, if_neg Bool.false_ne_true, hselect]
  refine congrArg Except.ok (decide_eq_decide.mpr ?_)
  constructor
  · exact fun h => (eq_of_validatorHash hr hv hw h).symm
  · rintro rfl
    rfl

end Eligible

section Selected

variable {Hash : List UInt8 → uint256} {blockHash : uint256} {validators : List CValidator}

/-- The scores that the loop compares, as numbers. -/
theorem scoreLe_iff (hpos : ∀ v ∈ validators, 0 < v.nStakeAmount)
    (hsum : totalStake validators < 2^63) {w v : CValidator} (hw : w ∈ validators)
    (hv : v ∈ validators) :
    ScoreLe Hash blockHash validators w v ↔
      (getSelectionHash Hash blockHash w.pubkey).toNat/stakeQuotient validators w ≤
        (getSelectionHash Hash blockHash v.pubkey).toNat/stakeQuotient validators v := by
  obtain ⟨x, hx, hxv⟩ := weightedScore_eq (hpos w hw) (nStakeAmount_le_totalStake hpos hw) hsum
    (getSelectionHash Hash blockHash w.pubkey)
  obtain ⟨y, hy, hyv⟩ := weightedScore_eq (hpos v hv) (nStakeAmount_le_totalStake hpos hv) hsum
    (getSelectionHash Hash blockHash v.pubkey)
  unfold ScoreLe stakeQuotient
  rw [← hxv, ← hyv]
  constructor
  · rintro ⟨x', y', hx', hy', hle⟩
    rw [hx] at hx'
    rw [hy] at hy'
    cases hx'
    cases hy'
    exact hle
  · exact fun hle => ⟨x, y, hx, hy, hle⟩

theorem stakeQuotient_pos (hpos : ∀ v ∈ validators, 0 < v.nStakeAmount) {v : CValidator}
    (hv : v ∈ validators) : 0 < stakeQuotient validators v := by
  have hle := nStakeAmount_le_totalStake hpos hv
  have hstake := hpos v hv
  exact Nat.div_pos (by omega) (by omega)

end Selected

/-- The selection is total, of greatest score and verifiable exactly when the selection hash of
some eligible validator reaches the quotient of the total stake and its own. -/
theorem selection_verifiable_iff (Hash : List UInt8 → uint256) (ops : List RegistryOp)
    (blockHash : uint256) (currentTime : ℤ)
    (hmin : ∀ (h : uint256) v, (final (registryStep Hash) {} ops).mapValidators[h]? = some v →
      MIN_VALIDATOR_STAKE ≤ v.nStakeAmount)
    (hfits : registeredStake (final (registryStep Hash) {} ops) < 2^63) :
    SelectsVerifiably Hash blockHash currentTime (final (registryStep Hash) {} ops) ↔
      ∃ v ∈ getEligibleValidators currentTime (final (registryStep Hash) {} ops),
        stakeQuotient (getEligibleValidators currentTime (final (registryStep Hash) {} ops)) v ≤
          (getSelectionHash Hash blockHash v.pubkey).toNat := by
  have hr := consistent_final Hash ops
  generalize final (registryStep Hash) {} ops = r at *
  have hpos : ∀ v ∈ getEligibleValidators currentTime r, 0 < v.nStakeAmount := by
    intro v hv
    obtain ⟨h, -, hget, -⟩ := mem_getEligibleValidators.mp hv
    have hstake := hmin h v hget
    have hzero : (0 : ℤ) < MIN_VALIDATOR_STAKE := by decide
    omega
  have hsum := (@totalStake_eligible_le _ _ currentTime hr hmin).trans_lt hfits
  have hselect : selectValidator Hash blockHash currentTime r = .ok (Contest.firstMax
      (fun v => (getSelectionHash Hash blockHash v.pubkey).toNat/
        stakeQuotient (getEligibleValidators currentTime r) v)
      (getEligibleValidators currentTime r) none 0) := selectFrom_eq hpos hsum
  rcases @Contest.firstMax_cases _ (fun v => (getSelectionHash Hash blockHash v.pubkey).toNat/
      stakeQuotient (getEligibleValidators currentTime r) v)
      (getEligibleValidators currentTime r) none 0 with ⟨hnone, hzero⟩ | ⟨v, hv, hsome, hmore, hle⟩
  · -- every score is zero and nobody is selected
    rw [hnone] at hselect
    refine iff_of_false ?_ ?_
    · rintro ⟨v, -, hv, -⟩
      rw [hselect] at hv
      cases hv
    · rintro ⟨v, hv, hreach⟩
      have hscore := Nat.div_pos hreach (stakeQuotient_pos hpos hv)
      have hz := hzero v hv
      omega
  · rw [hsome] at hselect
    refine iff_of_true ⟨v, hv, hselect, ?_, ?_⟩ ⟨v, hv, ?_⟩
    · exact fun w hw => (scoreLe_iff hpos hsum hw hv).mpr (hle w hw)
    · exact fun w hw => verify_eq hr hv hselect hw
    · by_contra hlt
      rw [Nat.div_eq_of_lt (Nat.not_le.mp hlt)] at hmore
      exact absurd hmore (Nat.lt_irrefl 0)

/-- Registrations of two validators, with a thousand and three thousand coins. -/
def sampleOps : List RegistryOp :=
  [.register (sampleValidator 1 1000), .register (sampleValidator 2 3000)]

theorem sampleOps_stakes (h : uint256) (v : CValidator)
    (hv : (final (registryStep lowHash) {} sampleOps).mapValidators[h]? = some v) :
    MIN_VALIDATOR_STAKE ≤ v.nStakeAmount := by
  have hall : ∀ p ∈ (final (registryStep lowHash) {} sampleOps).mapValidators.toList,
      MIN_VALIDATOR_STAKE ≤ p.2.nStakeAmount := by decide +kernel
  exact hall (h, v) (ExtTreeMap.mem_toList_iff_getElem?_eq_some.mpr hv)

/-- The two with a selection hash of seven. -/
theorem selection_verifiable_iff_two :
    SelectsVerifiably lowHash (7 <<< 248) 40000 (final (registryStep lowHash) {} sampleOps) :=
  (selection_verifiable_iff lowHash sampleOps (7 <<< 248) 40000 sampleOps_stakes
    (by decide +kernel)).mpr ⟨sampleValidator 2 3000, by decide +kernel, by decide +kernel⟩

/-- A selection hash of zero lets nobody be selected. -/
theorem zero_hash_selects_nobody :
    selectValidator lowHash 0 40000 (final (registryStep lowHash) {} sampleOps) = .ok none ∧
      (getEligibleValidators 40000 (final (registryStep lowHash) {} sampleOps)).length = 2 ∧
      ¬∀ (Hash : List UInt8 → uint256) (ops : List RegistryOp) (blockHash : uint256)
        (currentTime : ℤ),
        (∀ (h : uint256) v, (final (registryStep Hash) {} ops).mapValidators[h]? = some v →
          MIN_VALIDATOR_STAKE ≤ v.nStakeAmount) →
        registeredStake (final (registryStep Hash) {} ops) < 2^63 →
        getEligibleValidators currentTime (final (registryStep Hash) {} ops) ≠ [] →
        SelectsVerifiably Hash blockHash currentTime (final (registryStep Hash) {} ops) := by
  have hnone : selectValidator lowHash 0 40000 (final (registryStep lowHash) {} sampleOps) =
      .ok none := by decide +kernel
  refine ⟨hnone, by decide +kernel, fun h => ?_⟩
  obtain ⟨v, -, hv, -⟩ := h lowHash sampleOps 0 40000 sampleOps_stakes (by decide +kernel)
    (by decide +kernel)
  rw [hnone] at hv
  cases hv

end BabaChain.PoS
