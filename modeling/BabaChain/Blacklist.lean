import BabaChain.Lib.OrdMap
import BabaChain.Lib.Runs
import BabaChain.Slashing

/-! What the blacklist and the slashing of double signers guarantee over a run of
the registry's operations. -/
namespace BabaChain.Staking
open MachineInt Runs Std OrdMap

/-- The two activity flags of a registered validator agree, and a blacklisted
one is inactive. -/
structure Consistent (s : State) : Prop where
  entry : ∀ (k : CPubKey) (v : CValidator), s.mapValidators[k]? = some v →
    v.pubkey = k ∧ s.mapValidatorStatus[k]? = some v.fActive
  banned : ∀ (k : CPubKey) (v : CValidator), k ∈ s.setBlacklistedValidators → s.mapValidators[k]? = some v →
    v.fActive = false

theorem consistent_initial : Consistent {} := by
  refine ⟨fun k v h => ?_, fun k v h _ => ?_⟩
  · simp at h
  · simp at h

variable {s : State} {k : CPubKey}

theorem mem_activeEntries {v : CValidator} :
    (k, v) ∈ activeEntries s ↔
      s.mapValidators[k]? = some v ∧ v.fActive = true ∧ isValidatorActive k s = true := by
  unfold activeEntries
  rw [List.mem_filter, ExtTreeMap.mem_toList_iff_getElem?_eq_some, Bool.and_eq_true]

theorem isValidatorRegistered_iff :
    isValidatorRegistered k s = true ↔ ∃ v, s.mapValidators[k]? = some v := by
  unfold isValidatorRegistered
  rw [decide_eq_true_iff, mem_iff_exists]

theorem Consistent.isValidatorActive_eq (h : Consistent s) {v : CValidator}
    (hv : s.mapValidators[k]? = some v) : isValidatorActive k s = v.fActive := by
  unfold isValidatorActive
  rw [(h.entry k v hv).2, Option.getD_some]

/-- Replacing one validator's entry and status together. -/
theorem Consistent.setEntry (h : Consistent s) (v : CValidator) (hk : v.pubkey = k)
    (hb : k ∈ s.setBlacklistedValidators → v.fActive = false) :
    Consistent {s with
      mapValidators := s.mapValidators.insert k v
      mapValidatorStatus := s.mapValidatorStatus.insert k v.fActive} := by
  refine ⟨fun k' v' hv => ?_, fun k' v' hk' hv => ?_⟩
  · simp only [getElem?_insert] at hv ⊢
    by_cases he : k = k'
    · rw [if_pos he, Option.some.injEq] at hv
      rw [if_pos he, ← hv]
      exact ⟨hk.trans he, rfl⟩
    · rw [if_neg he] at hv
      rw [if_neg he]
      exact h.entry k' v' hv
  · simp only [getElem?_insert] at hv
    by_cases he : k = k'
    · rw [if_pos he, Option.some.injEq] at hv
      rw [← hv]
      exact hb (he ▸ hk')
    · rw [if_neg he] at hv
      exact h.banned k' v' hk' hv

theorem Consistent.register (h : Consistent s) (nNow n : ℤ) (rs sd : List UInt8)
    (hb : k ∉ s.mapValidators → k ∉ s.setBlacklistedValidators) :
    Consistent (registerValidator nNow k n rs sd s).2 := by
  unfold registerValidator
  by_cases hm : k ∈ s.mapValidators
  · rw [if_pos hm]
    exact h
  · rw [if_neg hm]
    exact h.setEntry ⟨k, n, nNow, true⟩ rfl (fun hk => absurd hk (hb hm))

theorem Consistent.setStatus (h : Consistent s) (fActive : Bool)
    (hb : fActive = true → k ∈ s.mapValidators → k ∉ s.setBlacklistedValidators) :
    Consistent (setValidatorStatus k fActive s).2 := by
  unfold setValidatorStatus
  cases hv : s.mapValidators[k]? with
  | none => exact h
  | some v =>
    apply h.setEntry {v with fActive := fActive} (h.entry k v hv).1
    intro hk
    rw [← Bool.not_eq_true]
    exact fun ht => hb ht (mem_iff_exists.mpr ⟨v, hv⟩) hk

theorem Consistent.updateStake (h : Consistent s) (n : ℤ) :
    Consistent (updateValidatorStake k n s).2 := by
  unfold updateValidatorStake
  cases hv : s.mapValidators[k]? with
  | none => exact h
  | some v =>
    refine ⟨fun k' v' hv' => ?_, fun k' v' hk' hv' => ?_⟩
    · simp only [getElem?_insert] at hv'
      by_cases he : k = k'
      · rw [if_pos he, Option.some.injEq] at hv'
        rw [← hv', ← he]
        exact h.entry k v hv
      · rw [if_neg he] at hv'
        exact h.entry k' v' hv'
    · simp only [getElem?_insert] at hv'
      by_cases he : k = k'
      · rw [if_pos he, Option.some.injEq] at hv'
        rw [← hv']
        exact h.banned k v (he ▸ hk') hv
      · rw [if_neg he] at hv'
        exact h.banned k' v' hk' hv'

theorem Consistent.remove (h : Consistent s) : Consistent (removeValidator k s).2 := by
  unfold removeValidator
  by_cases hm : k ∈ s.mapValidators
  · -- both maps lose the one key, the others keep their entries
    rw [if_pos hm]
    refine ⟨fun k' v' hv => ?_, fun k' v' hk' hv => ?_⟩
    · simp only [getElem?_erase] at hv ⊢
      by_cases he : k = k'
      · rw [if_pos he] at hv
        contradiction
      · rw [if_neg he] at hv
        rw [if_neg he]
        exact h.entry k' v' hv
    · simp only [getElem?_erase] at hv
      by_cases he : k = k'
      · rw [if_pos he] at hv
        contradiction
      · rw [if_neg he] at hv
        exact h.banned k' v' hk' hv
  · rw [if_neg hm]
    exact h

theorem Consistent.blacklist (h : Consistent s)
    (hk : ∀ v, s.mapValidators[k]? = some v → v.fActive = false) :
    Consistent {s with setBlacklistedValidators := s.setBlacklistedValidators.insert k} := by
  refine ⟨h.entry, fun k' v' hk' hv => ?_⟩
  rcases mem_set_insert.mp hk' with he | hk'
  · exact hk v' (he ▸ hv)
  · exact h.banned k' v' hk' hv

theorem Consistent.unblacklist (h : Consistent s) : Consistent (removeFromBlacklist k s).2 := by
  unfold removeFromBlacklist
  split
  · exact ⟨h.entry, fun k' v' hk' hv => h.banned k' v' (mem_set_erase.mp hk').2 hv⟩
  · exact h

theorem setValidatorStatus_inactive {v : CValidator}
    (hv : (setValidatorStatus k false s).2.mapValidators[k]? = some v) : v.fActive = false := by
  unfold setValidatorStatus at hv
  cases hs : s.mapValidators[k]? with
  | none =>
    rw [hs] at hv
    dsimp only at hv
    rw [hs] at hv
    contradiction
  | some v' =>
    rw [hs] at hv
    simp only [getElem?_insert, if_true, Option.some.injEq] at hv
    rw [← hv]

/-- What a slashing does: nothing to an unregistered or already slashed
validator or for a zero penalty; otherwise it deactivates the validator, and
blacklists it for a severe offense. -/
theorem slashValidator_cases (nNow : ℤ) (k : CPubKey) (condition : SlashingCondition) (s : State) :
    (slashValidator nNow k condition s = (false, s) ∧
      ((∀ v, s.mapValidators[k]? ≠ some v) ∨ k ∈ s.mapSlashedValidators ∨
        calculateSlashingPenalty k condition s = 0)) ∨
    ∃ v, s.mapValidators[k]? = some v ∧ k ∉ s.mapSlashedValidators ∧
      calculateSlashingPenalty k condition s ≠ 0 ∧
      slashValidator nNow k condition s =
        (true, if severe condition then
          {applyPenalty nNow k (calculateSlashingPenalty k condition s) v.nStakeAmount s with
            setBlacklistedValidators := (applyPenalty nNow k (calculateSlashingPenalty k condition s)
              v.nStakeAmount s).setBlacklistedValidators.insert k}
          else applyPenalty nNow k (calculateSlashingPenalty k condition s) v.nStakeAmount s) := by
  unfold slashValidator
  by_cases hr : isValidatorRegistered k s = true
  · obtain ⟨v, hv⟩ := isValidatorRegistered_iff.mp hr
    rw [hr, Bool.not_true, if_neg Bool.false_ne_true]
    by_cases hm : k ∈ s.mapSlashedValidators
    · rw [if_pos hm]
      exact Or.inl ⟨rfl, Or.inr (Or.inl hm)⟩
    · rw [if_neg hm]
      by_cases hp : calculateSlashingPenalty k condition s = 0
      · simp only [if_pos hp]
        exact Or.inl ⟨trivial, Or.inr (Or.inr hp)⟩
      · refine Or.inr ⟨v, hv, hm, hp, ?_⟩
        simp only [if_neg hp, getValidator, hv]
  · have hn : ∀ v, s.mapValidators[k]? ≠ some v :=
      fun v hv => hr (isValidatorRegistered_iff.mpr ⟨v, hv⟩)
    rw [Bool.not_eq_true] at hr
    rw [hr, Bool.not_false, if_pos rfl]
    exact Or.inl ⟨rfl, Or.inl hn⟩

theorem Consistent.applyPenalty (h : Consistent s) (nNow penalty n : ℤ) :
    Consistent (applyPenalty nNow k penalty n s) := by
  have hu := h.updateStake (k := k) (max 0 (wrap 64 (n-penalty)))
  unfold Staking.applyPenalty
  apply Consistent.setStatus
  · exact ⟨hu.entry, hu.banned⟩
  · exact fun hc => absurd hc Bool.false_ne_true

theorem Consistent.slash (h : Consistent s) (nNow : ℤ) (condition : SlashingCondition) :
    Consistent (slashValidator nNow k condition s).2 := by
  rcases slashValidator_cases nNow k condition s with ⟨heq, _⟩ | ⟨v, _, _, _, heq⟩
  · rw [heq]
    exact h
  · rw [heq]
    dsimp only
    split
    · apply (h.applyPenalty nNow _ _).blacklist
      exact fun v' hv' => setValidatorStatus_inactive hv'
    · exact h.applyPenalty nNow _ _

/-- A registered validator's penalty for double signing rounds to zero exactly
for a stake of nothing or of one unit. -/
theorem doubleSigning_penalty_zero_iff {v : CValidator} (hv : s.mapValidators[k]? = some v) :
    calculateSlashingPenalty k .doubleSigning s = 0 ↔ v.nStakeAmount = 0 ∨ v.nStakeAmount = 1 := by
  unfold calculateSlashingPenalty getValidator
  rw [hv]
  dsimp only
  -- the division of the source rounds towards zero on both sides
  rcases le_or_gt 0 v.nStakeAmount with hn | hn
  · have hdiv : basePenalty v.nStakeAmount .doubleSigning = v.nStakeAmount/2 :=
      Int.tdiv_eq_ediv_of_nonneg hn
    split <;> omega
  · have hdiv : basePenalty v.nStakeAmount .doubleSigning = -((-v.nStakeAmount)/2) := by
      rw [← Int.tdiv_eq_ediv_of_nonneg (by omega), Int.neg_tdiv, neg_neg]
      rfl
    split <;> omega

/-- The validator is on the blacklist and neither flag calls it active. -/
def Punished (k : CPubKey) (s : State) : Prop :=
  k ∈ s.setBlacklistedValidators ∧ isValidatorActive k s = false ∧
    ∀ v, s.mapValidators[k]? = some v → v.fActive = false

/-- No active validator is blacklisted, and the active stake is that of the
validators off the blacklist. -/
structure BlacklistEffective (s : State) : Prop where
  validators : ∀ v ∈ getActiveValidators s, v.pubkey ∉ s.setBlacklistedValidators
  stake : getTotalActiveStake s =
    ((activeEntries s).filter fun kv => decide (kv.1 ∉ s.setBlacklistedValidators)).foldl
      (fun totalStake kv => wrap 64 (totalStake+kv.2.nStakeAmount)) 0

/-- What every call is to achieve. -/
def CallEffective (s : State) (c : Call) : Prop :=
  BlacklistEffective (call s c).2 ∧
    match c with
    | .detectDoubleSigning _ k h1 h2 =>
      h1 ≠ h2 → isValidatorRegistered k s = true → Punished k (call s c).2
    | _ => True

/-- The calls that do: none brings a blacklisted validator back, and double
signing is detected on a validator that can still be slashed, unless it is on
the blacklist already. -/
def CallAdmissible (s : State) : Call → Prop
  | .registerValidator _ k _ _ _ => k ∉ s.mapValidators → k ∉ s.setBlacklistedValidators
  | .setValidatorStatus k fActive =>
    fActive = true → k ∈ s.mapValidators → k ∉ s.setBlacklistedValidators
  | .detectDoubleSigning _ k h1 h2 => h1 ≠ h2 → ∀ v, s.mapValidators[k]? = some v →
    k ∈ s.setBlacklistedValidators ∨
      (k ∉ s.mapSlashedValidators ∧ v.nStakeAmount ≠ 0 ∧ v.nStakeAmount ≠ 1)
  | _ => True

theorem Consistent.blacklistEffective (h : Consistent s) : BlacklistEffective s := by
  -- a blacklisted entry is inactive by the invariant, so it is not listed
  have hoff : ∀ kv ∈ activeEntries s, kv.1 ∉ s.setBlacklistedValidators := by
    rintro ⟨k, v⟩ hkv hk
    obtain ⟨hv, hact, _⟩ := mem_activeEntries.mp hkv
    rw [h.banned k v hk hv] at hact
    contradiction
  constructor
  · intro v hv
    obtain ⟨⟨k, v'⟩, hkv, rfl⟩ := List.mem_map.mp hv
    rw [(h.entry k v' (mem_activeEntries.mp hkv).1).1]
    exact hoff _ hkv
  · rw [List.filter_eq_self.mpr (fun kv hkv => decide_eq_true (hoff kv hkv))]
    rfl

theorem Consistent.punished (h : Consistent s) (hr : isValidatorRegistered k s = true)
    (hk : k ∈ s.setBlacklistedValidators) : Punished k s := by
  obtain ⟨v, hv⟩ := isValidatorRegistered_iff.mp hr
  refine ⟨hk, ?_, fun v' hv' => h.banned k v' hk hv'⟩
  rw [h.isValidatorActive_eq hv, h.banned k v hk hv]

theorem Consistent.call (h : Consistent s) {c : Call} (hc : CallAdmissible s c) :
    Consistent (call s c).2 := by
  cases c with
  | registerValidator nNow k n rs sd => exact h.register nNow n rs sd hc
  | updateValidatorStake k n => exact h.updateStake n
  | setValidatorStatus k fActive => exact h.setStatus fActive hc
  | removeValidator k => exact h.remove
  | slashValidator nNow k condition => exact h.slash nNow condition
  | detectDoubleSigning nNow k h1 h2 =>
    unfold Staking.call detectDoubleSigning
    dsimp only
    split
    · exact h
    · -- two different blocks: the slashing goes on
      exact h.slash nNow .doubleSigning
  | detectUnavailability nNow k missed total =>
    unfold Staking.call detectUnavailability
    dsimp only
    split
    · exact h
    · exact h.slash nNow .unavailability
  | removeFromBlacklist k => exact h.unblacklist

theorem applyPenalty_registered (nNow penalty n : ℤ) {v : CValidator}
    (hv : s.mapValidators[k]? = some v) :
    ∃ v', (applyPenalty nNow k penalty n s).mapValidators[k]? = some v' := by
  simp only [applyPenalty, updateValidatorStake, setValidatorStatus, hv, getElem?_insert, if_true,
    Option.some.injEq, exists_eq']

theorem detectDoubleSigning_punishes (h : Consistent s) (nNow : ℤ) {h1 h2 : uint256}
    (hne : h1 ≠ h2) {v : CValidator} (hv : s.mapValidators[k]? = some v)
    (hc : k ∈ s.setBlacklistedValidators ∨
      (k ∉ s.mapSlashedValidators ∧ v.nStakeAmount ≠ 0 ∧ v.nStakeAmount ≠ 1)) :
    Punished k (detectDoubleSigning nNow k h1 h2 s).2 := by
  have hcons : Consistent (slashValidator nNow k .doubleSigning s).2 := h.slash nNow .doubleSigning
  unfold detectDoubleSigning
  rw [if_neg hne]
  rcases slashValidator_cases nNow k .doubleSigning s with ⟨heq, hwhy⟩ | ⟨v', hv', _, _, heq⟩
  · -- nothing was done, so the validator had to be on the list before
    rw [heq]
    apply h.punished (isValidatorRegistered_iff.mpr ⟨v, hv⟩)
    rcases hc with hc | ⟨hs, h0, h1⟩
    · exact hc
    · rcases hwhy with hwhy | hwhy | hwhy
      · exact absurd hv (hwhy v)
      · exact absurd hwhy hs
      · rcases (doubleSigning_penalty_zero_iff hv).mp hwhy with hz | hz
        · exact absurd hz h0
        · exact absurd hz h1
  · apply hcons.punished
    · rw [heq]
      exact isValidatorRegistered_iff.mpr (applyPenalty_registered _ _ _ hv')
    · rw [heq]
      exact mem_set_insert.mpr (Or.inl rfl)

/-- A call that is not admissible breaks the guarantee at once. -/
theorem not_effective_of_not_admissible (h : Consistent s) {c : Call} (hc : CallEffective s c) :
    CallAdmissible s c := by
  obtain ⟨heff, hds⟩ := hc
  cases c with
  | registerValidator nNow k n rs sd =>
    -- a new entry starts as an active one, blacklisted or not
    intro hm hk
    simp only [Staking.call, registerValidator, if_neg hm] at heff
    refine heff.validators ⟨k, n, nNow, true⟩ ?_ hk
    refine List.mem_map.mpr ⟨(k, ⟨k, n, nNow, true⟩), mem_activeEntries.mpr ⟨?_, rfl, ?_⟩, rfl⟩
    · simp only [getElem?_insert, if_true]
    · simp only [isValidatorActive, getElem?_insert, if_true, Option.getD_some]
  | setValidatorStatus k fActive =>
    -- the call sets both flags without a look at the blacklist
    rintro rfl hm hk
    obtain ⟨v, hv⟩ := mem_iff_exists.mp hm
    unfold Staking.call setValidatorStatus at heff
    simp only [hv] at heff
    refine heff.validators {v with fActive := true} ?_ ((h.entry k v hv).1.symm ▸ hk)
    refine List.mem_map.mpr ⟨(k, {v with fActive := true}), mem_activeEntries.mpr ⟨?_, rfl, ?_⟩, rfl⟩
    · simp only [getElem?_insert, if_true]
    · simp only [isValidatorActive, getElem?_insert, if_true, Option.getD_some]
  | detectDoubleSigning nNow k h1 h2 =>
    intro hne v hv
    by_contra hno
    push Not at hno
    obtain ⟨hb, hno⟩ := hno
    have hp := hds hne (isValidatorRegistered_iff.mpr ⟨v, hv⟩)
    unfold Staking.call detectDoubleSigning at hp
    simp only [if_neg hne] at hp
    -- the slashing went through, against what makes the call inadmissible
    rcases slashValidator_cases nNow k .doubleSigning s with ⟨heq, _⟩ | ⟨v', hv', hs, hz, _⟩
    · rw [heq] at hp
      exact hb hp.1
    · rw [ne_eq, doubleSigning_penalty_zero_iff hv, not_or] at hz
      exact hz.2 (hno hs hz.1)
  | updateValidatorStake k n => trivial
  | removeValidator k => trivial
  | slashValidator nNow k condition => trivial
  | detectUnavailability nNow k missed total => trivial
  | removeFromBlacklist k => trivial

theorem effective_of_admissible (h : Consistent s) {c : Call} (hc : CallAdmissible s c) :
    CallEffective s c ∧ Consistent (call s c).2 := by
  have hcons := h.call hc
  refine ⟨⟨hcons.blacklistEffective, ?_⟩, hcons⟩
  cases c with
  | detectDoubleSigning nNow k h1 h2 =>
    intro hne hr
    obtain ⟨v, hv⟩ := isValidatorRegistered_iff.mp hr
    exact detectDoubleSigning_punishes h nNow hne hv (hc hne v hv)
  | _ => trivial

/-- Over a run from the empty registry the blacklist is effective and double
signers are punished exactly when every call is admissible where it is made. -/
theorem blacklist_effective_iff (calls : List Call) :
    EveryStep call CallEffective {} calls ↔ EveryStep call CallAdmissible {} calls := by
  apply everyStep_iff Consistent
  · exact fun s c h hc => effective_of_admissible h hc
  · exact fun s c h hc => not_effective_of_not_admissible h hc
  · exact consistent_initial

def sampleValidator : CPubKey := ⟨2, List.replicate 32 7, rfl⟩

/-- A double signer is set active again. -/
def reactivated : List Call :=
  [.registerValidator 0 sampleValidator (100*COIN) [] [],
    .detectDoubleSigning 0 sampleValidator 1 2,
    .setValidatorStatus sampleValidator true]

/-- A validator slashed for unavailability goes on to double sign. -/
def slashedBefore : List Call :=
  [.registerValidator 0 sampleValidator (100*COIN) [] [],
    .slashValidator 0 sampleValidator .unavailability,
    .detectDoubleSigning 0 sampleValidator 1 2]

theorem blacklist_not_effective :
    sampleValidator ∈ (final call {} reactivated).setBlacklistedValidators ∧
      (getActiveValidators (final call {} reactivated)).map CValidator.pubkey = [sampleValidator] ∧
      sampleValidator ∉ (final call {} slashedBefore).setBlacklistedValidators ∧
      ¬EveryStep call CallEffective {} reactivated ∧
      ¬EveryStep call CallEffective {} slashedBefore := by
  have hb : sampleValidator ∈ (final call {} reactivated).setBlacklistedValidators := by decide
  have ha : (getActiveValidators (final call {} reactivated)).map CValidator.pubkey =
      [sampleValidator] := by decide
  have hs : sampleValidator ∉ (final call {} slashedBefore).setBlacklistedValidators := by decide
  refine ⟨hb, ha, hs, ?_, ?_⟩
  · rintro ⟨_, _, ⟨heff, _⟩, _⟩
    have hm : sampleValidator ∈
        (getActiveValidators (final call {} reactivated)).map CValidator.pubkey := by
      rw [ha]
      exact List.mem_singleton_self _
    obtain ⟨v, hv, heq⟩ := List.mem_map.mp hm
    have hoff := heff.validators v hv
    rw [heq] at hoff
    exact hoff hb
  · rintro ⟨_, _, ⟨_, hds⟩, _⟩
    exact hs (hds (by decide) (by decide)).1

end BabaChain.Staking
