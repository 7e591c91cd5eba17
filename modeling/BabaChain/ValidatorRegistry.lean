import BabaChain.Consensus
import BabaChain.Primitives
import BabaChain.Lib.OrdMap
import BabaChain.Lib.Runs

/-! The registry of validators: the validators under the hashes of their keys, the
outpoints they stake, and the set of those that are active. -/
namespace BabaChain.PoS
open Std (ExtTreeMap ExtTreeSet LawfulEqCmp)
open OrdMap Runs

def MIN_VALIDATOR_STAKE : ℤ := 1000*COIN
def MIN_STAKE_AGE : ℤ := 8*60*60
def MAX_STAKE_AGE : ℤ := 30*24*60*60

inductive ValidatorStatus where
  | INACTIVE
  | ACTIVE
  | SLASHED
  | DEREGISTERED
deriving DecidableEq, Repr

/-- `COutPoint::IsNull`. -/
def isNull (o : COutPoint) : Bool := decide (o.hash = 0 ∧ o.n = 0xFFFFFFFF)

structure CStakeInput where
  prevout : COutPoint
  nValue : ℤ
  nTime : ℤ
  hashBlock : uint256
deriving DecidableEq

namespace CStakeInput

def isValid (s : CStakeInput) : Bool :=
  !isNull s.prevout && decide (MIN_VALIDATOR_STAKE ≤ s.nValue) && decide (0 < s.nTime)

def getAge (s : CStakeInput) (currentTime : ℤ) : ℤ := currentTime-s.nTime

def isEligible (s : CStakeInput) (currentTime : ℤ) : Bool :=
  let age := s.getAge currentTime
  decide (MIN_STAKE_AGE ≤ age ∧ age ≤ MAX_STAKE_AGE)

end CStakeInput

/-- A BLS public key, as the bytes it is stored with. -/
abbrev CBLSPublicKey := Vector UInt8 48

structure CValidator where
  pubkey : CPubKey
  blsPubkey : CBLSPublicKey
  nStakeAmount : ℤ
  nRegistrationTime : ℤ
  status : ValidatorStatus
  stakeInput : CStakeInput
  nSlashingCount : ℤ
  nLastActiveTime : ℤ
deriving DecidableEq

namespace CValidator

/-- The constructor, which reads the clock twice within one second. -/
def create (now : ℤ) (pubkey : CPubKey) (blsPubkey : CBLSPublicKey) (stakeInput : CStakeInput) :
    CValidator where
  pubkey := pubkey
  blsPubkey := blsPubkey
  nStakeAmount := stakeInput.nValue
  nRegistrationTime := now
  status := .ACTIVE
  stakeInput := stakeInput
  nSlashingCount := 0
  nLastActiveTime := now

def isActive (v : CValidator) : Bool := decide (v.status = .ACTIVE)

def isEligible (v : CValidator) (currentTime : ℤ) : Bool :=
  v.isActive && v.stakeInput.isEligible currentTime

end CValidator

structure CValidatorRegistry where
  mapValidators : ExtTreeMap uint256 CValidator := ∅
  mapStakeToValidator : ExtTreeMap COutPoint uint256 := ∅
  setActiveValidators : ExtTreeSet uint256 := ∅
deriving DecidableEq

/-- The bytes between `begin()` and `end()` of a key; an invalid one has none. -/
def keyBytes (pubkey : CPubKey) : List UInt8 :=
  if pubkey.isValid then pubkey.header :: pubkey.tail else []

section Operations

variable (Hash : List UInt8 → uint256)

def getValidatorHash (pubkey : CPubKey) : uint256 := Hash (keyBytes pubkey)

/-- The validator enters the maps, and the active set where it is active. -/
def addValidator (validator : CValidator) (r : CValidatorRegistry) : CValidatorRegistry :=
  let validatorHash := getValidatorHash Hash validator.pubkey
  {mapValidators := r.mapValidators.insert validatorHash validator
   mapStakeToValidator := r.mapStakeToValidator.insert validator.stakeInput.prevout validatorHash
   setActiveValidators :=
     if validator.isActive then r.setActiveValidators.insert validatorHash
     else r.setActiveValidators}

def registerValidator (validator : CValidator) (r : CValidatorRegistry) :
    Bool × CValidatorRegistry :=
  let validatorHash := getValidatorHash Hash validator.pubkey
  if validatorHash ∈ r.mapValidators then
    (false, r)
  else if validator.stakeInput.prevout ∈ r.mapStakeToValidator then
    (false, r)
  else if !validator.stakeInput.isValid then
    (false, r)
  else
    (true, addValidator Hash validator r)

/-- The entry leaves the three maps. -/
def dropValidator (validatorHash : uint256) (validator : CValidator) (r : CValidatorRegistry) :
    CValidatorRegistry where
  mapValidators := r.mapValidators.erase validatorHash
  mapStakeToValidator := r.mapStakeToValidator.erase validator.stakeInput.prevout
  setActiveValidators := r.setActiveValidators.erase validatorHash

def deregisterValidator (validatorHash : uint256) (r : CValidatorRegistry) :
    Bool × CValidatorRegistry :=
  match r.mapValidators[validatorHash]? with
  | none => (false, r)
  | some validator => (true, dropValidator validatorHash validator r)

/-- Whether the stake map has the outpoint under another validator. -/
def usedByOther (validatorHash : uint256) (prevout : COutPoint) (r : CValidatorRegistry) : Bool :=
  match r.mapStakeToValidator[prevout]? with
  | none => false
  | some owner => decide (owner ≠ validatorHash)

def updateValidatorStake (validatorHash : uint256) (newStake : CStakeInput)
    (r : CValidatorRegistry) : Bool × CValidatorRegistry :=
  match r.mapValidators[validatorHash]? with
  | none => (false, r)
  | some validator =>
    if !newStake.isValid then
      (false, r)
    else if usedByOther validatorHash newStake.prevout r then
      (false, r)
    else
      -- the old outpoint goes first: the new one may be the same
      let mapStakeToValidator := r.mapStakeToValidator.erase validator.stakeInput.prevout
      (true, {r with
        mapValidators := r.mapValidators.insert validatorHash
          {validator with stakeInput := newStake, nStakeAmount := newStake.nValue}
        mapStakeToValidator := mapStakeToValidator.insert newStake.prevout validatorHash})

def slashValidator (validatorHash : uint256) (r : CValidatorRegistry) :
    Bool × CValidatorRegistry :=
  match r.mapValidators[validatorHash]? with
  | none => (false, r)
  | some validator =>
    (true, {r with
      mapValidators := r.mapValidators.insert validatorHash
        {validator with nSlashingCount := validator.nSlashingCount+1, status := .SLASHED}
      setActiveValidators := r.setActiveValidators.erase validatorHash})

def hasValidator (validatorHash : uint256) (r : CValidatorRegistry) : Bool :=
  decide (validatorHash ∈ r.mapValidators)

def isStakeUsed (stakeInput : COutPoint) (r : CValidatorRegistry) : Bool :=
  decide (stakeInput ∈ r.mapStakeToValidator)

/-- The active set in the order of its hashes, looked up in the main map. -/
def getEligibleValidators (currentTime : ℤ) (r : CValidatorRegistry) : List CValidator :=
  r.setActiveValidators.toList.filterMap fun validatorHash =>
    match r.mapValidators[validatorHash]? with
    | none => none
    | some validator => if validator.isEligible currentTime then some validator else none

/-- A call of one of the mutating operations. -/
inductive RegistryOp where
  | register (validator : CValidator)
  | deregister (validatorHash : uint256)
  | updateStake (validatorHash : uint256) (newStake : CStakeInput)
  | slash (validatorHash : uint256)
  | clear
deriving DecidableEq

def registryStep (r : CValidatorRegistry) : RegistryOp → Bool × CValidatorRegistry
  | .register validator => registerValidator Hash validator r
  | .deregister validatorHash => deregisterValidator validatorHash r
  | .updateStake validatorHash newStake => updateValidatorStake validatorHash newStake r
  | .slash validatorHash => slashValidator validatorHash r
  | .clear => (true, {})

end Operations

section Specs

variable {Hash : List UInt8 → uint256} {r r' : CValidatorRegistry} {h : uint256}

theorem registerValidator_cases (Hash : List UInt8 → uint256) (v : CValidator)
    (r : CValidatorRegistry) :
    registerValidator Hash v r = (false, r) ∨
      r.mapValidators[getValidatorHash Hash v.pubkey]? = none ∧
      r.mapStakeToValidator[v.stakeInput.prevout]? = none ∧ v.stakeInput.isValid = true ∧
      registerValidator Hash v r = (true, addValidator Hash v r) := by
  unfold registerValidator
  by_cases hm : getValidatorHash Hash v.pubkey ∈ r.mapValidators
  · exact Or.inl (if_pos hm)
  by_cases hs : v.stakeInput.prevout ∈ r.mapStakeToValidator
  · exact Or.inl ((if_neg hm).trans (if_pos hs))
  cases hv : v.stakeInput.isValid with
  | false => exact Or.inl ((if_neg hm).trans ((if_neg hs).trans rfl))
  | true => exact Or.inr ⟨notMem_iff.mp hm, notMem_iff.mp hs, rfl, (if_neg hm).trans (if_neg hs)⟩

theorem registerValidator_eq_true {v : CValidator}
    (hm : r.mapValidators[getValidatorHash Hash v.pubkey]? = none)
    (hs : r.mapStakeToValidator[v.stakeInput.prevout]? = none) (hv : v.stakeInput.isValid = true) :
    registerValidator Hash v r = (true, addValidator Hash v r) := by
  unfold registerValidator
  rw [if_neg (notMem_iff.mpr hm), if_neg (notMem_iff.mpr hs), hv]
  rfl

theorem deregisterValidator_none (hv : r.mapValidators[h]? = none) :
    deregisterValidator h r = (false, r) := by
  unfold deregisterValidator
  rw [hv]

theorem deregisterValidator_some {v : CValidator} (hv : r.mapValidators[h]? = some v) :
    deregisterValidator h r = (true, dropValidator h v r) := by
  unfold deregisterValidator
  rw [hv]

theorem updateValidatorStake_cases (h : uint256) (s : CStakeInput) (r : CValidatorRegistry) :
    updateValidatorStake h s r = (false, r) ∨
      ∃ v, r.mapValidators[h]? = some v ∧ s.isValid = true ∧
      (∀ owner, r.mapStakeToValidator[s.prevout]? = some owner → owner = h) ∧
      updateValidatorStake h s r = (true, {r with
        mapValidators := r.mapValidators.insert h {v with stakeInput := s, nStakeAmount := s.nValue}
        mapStakeToValidator :=
          (r.mapStakeToValidator.erase v.stakeInput.prevout).insert s.prevout h}) := by
  unfold updateValidatorStake
  cases hv : r.mapValidators[h]? with
  | none => exact Or.inl rfl
  | some v =>
    cases hs : s.isValid with
    | false => exact Or.inl rfl
    | true =>
      cases hu : usedByOther h s.prevout r with
      | true => exact Or.inl rfl
      | false =>
        refine Or.inr ⟨v, rfl, rfl, fun owner ho => ?_, rfl⟩
        unfold usedByOther at hu
        rw [ho] at hu
        simpa using hu

theorem slashValidator_none (hv : r.mapValidators[h]? = none) :
    slashValidator h r = (false, r) := by
  unfold slashValidator
  rw [hv]

theorem slashValidator_some {v : CValidator} (hv : r.mapValidators[h]? = some v) :
    slashValidator h r = (true, {r with
      mapValidators := r.mapValidators.insert h
        {v with nSlashingCount := v.nSlashingCount+1, status := .SLASHED}
      setActiveValidators := r.setActiveValidators.erase h}) := by
  unfold slashValidator
  rw [hv]

/-- What the loop of `GetEligibleValidators` takes for a hash. -/
theorem eligible_entry {t : ℤ} {h : uint256} {v : CValidator} :
    (match r.mapValidators[h]? with
      | none => none
      | some validator => if validator.isEligible t then some validator else none) = some v ↔
      r.mapValidators[h]? = some v ∧ v.isEligible t = true := by
  cases hl : r.mapValidators[h]? with
  | none => exact iff_of_false (Option.some_ne_none v).symm fun hv => Option.some_ne_none v hv.1.symm
  | some w =>
    dsimp only
    rw [Option.some.injEq]
    constructor
    · intro hv
      split_ifs at hv with he
      rw [Option.some.injEq] at hv
      exact ⟨hv, hv ▸ he⟩
    · rintro ⟨rfl, he⟩
      exact if_pos he

theorem mem_getEligibleValidators {t : ℤ} {v : CValidator} :
    v ∈ getEligibleValidators t r ↔
      ∃ h, h ∈ r.setActiveValidators ∧ r.mapValidators[h]? = some v ∧ v.isEligible t = true := by
  unfold getEligibleValidators
  rw [List.mem_filterMap]
  refine exists_congr fun h => and_congr ExtTreeSet.mem_toList ?_
  exact eligible_entry

end Specs

/-- The stake map and the active set say what the validators' own entries say,
which lie under the hashes of their keys and stake validly. -/
structure Consistent (Hash : List UInt8 → uint256) (r : CValidatorRegistry) : Prop where
  key : ∀ (h : uint256) (v : CValidator), r.mapValidators[h]? = some v →
    getValidatorHash Hash v.pubkey = h
  valid : ∀ (h : uint256) (v : CValidator), r.mapValidators[h]? = some v → v.stakeInput.isValid = true
  stake : ∀ (o : COutPoint) (h : uint256), r.mapStakeToValidator[o]? = some h ↔
    ∃ v, r.mapValidators[h]? = some v ∧ v.stakeInput.prevout = o
  active : ∀ h : uint256, h ∈ r.setActiveValidators ↔
    ∃ v, r.mapValidators[h]? = some v ∧ v.status = .ACTIVE

section Invariant

variable {Hash : List UInt8 → uint256} {r : CValidatorRegistry}

theorem consistent_empty (Hash : List UInt8 → uint256) : Consistent Hash {} := by
  constructor <;> intros <;> simp_all

/-- An outpoint that no entry stakes is not in the stake map. -/
theorem Consistent.stake_none (hr : Consistent Hash r) {o : COutPoint}
    (ho : r.mapStakeToValidator[o]? = none) {h : uint256} {v : CValidator}
    (hv : r.mapValidators[h]? = some v) : v.stakeInput.prevout ≠ o := by
  intro he
  have hs := (hr.stake o h).mpr ⟨v, hv, he⟩
  rw [ho] at hs
  contradiction

/-- Two validators never stake one outpoint. -/
theorem Consistent.prevout_injective (hr : Consistent Hash r) {h h' : uint256} {v v' : CValidator}
    (hv : r.mapValidators[h]? = some v) (hv' : r.mapValidators[h']? = some v')
    (he : v.stakeInput.prevout = v'.stakeInput.prevout) : h = h' := by
  have hs := (hr.stake v.stakeInput.prevout h).mpr ⟨v, hv, rfl⟩
  have hs' := (hr.stake v.stakeInput.prevout h').mpr ⟨v', hv', he.symm⟩
  rw [hs, Option.some.injEq] at hs'
  exact hs'

/-- The entries determine the stake map and the active set. -/
theorem Consistent.eq_of_mapValidators {r' : CValidatorRegistry} (hr : Consistent Hash r)
    (hr' : Consistent Hash r') (he : r.mapValidators = r'.mapValidators) : r = r' := by
  have hstakes : r.mapStakeToValidator = r'.mapStakeToValidator := by
    apply ExtTreeMap.ext_getElem?
    intro o
    apply Option.ext
    intro h
    rw [hr.stake, hr'.stake, he]
  have hactives : r.setActiveValidators = r'.setActiveValidators := by
    apply ExtTreeSet.ext_mem
    intro h
    rw [hr.active, hr'.active, he]
  cases r
  cases r'
  congr

theorem Consistent.add (hr : Consistent Hash r) {v : CValidator}
    (hm : r.mapValidators[getValidatorHash Hash v.pubkey]? = none)
    (hs : r.mapStakeToValidator[v.stakeInput.prevout]? = none) (hv : v.stakeInput.isValid = true) :
    Consistent Hash (addValidator Hash v r) := by
  unfold addValidator
  generalize hk : getValidatorHash Hash v.pubkey = k at hm
  -- the new key, the new stake, the owner of an outpoint, the active set
  refine ⟨fun h w hw => ?_, fun h w hw => ?_, fun o h => ?_, fun h => ?_⟩
  · rw [getElem?_insert] at hw
    split_ifs at hw with he
    · rw [Option.some.injEq] at hw
      exact hw ▸ hk.trans he
    · exact hr.key h w hw
  · rw [getElem?_insert] at hw
    split_ifs at hw with he
    · rw [Option.some.injEq] at hw
      exact hw ▸ hv
    · exact hr.valid h w hw
  · simp only [getElem?_insert]
    by_cases ho : v.stakeInput.prevout = o
    · rw [if_pos ho, Option.some.injEq]
      constructor
      · intro he
        exact ⟨v, if_pos he, ho⟩
      · -- nobody else stakes the outpoint, for it was unused
        rintro ⟨w, hw, hwo⟩
        by_contra he
        rw [if_neg he] at hw
        exact hr.stake_none hs hw (hwo.trans ho.symm)
    · rw [if_neg ho, hr.stake]
      by_cases he : k = h
      · subst he
        simp only [hm, reduceCtorEq, false_and, exists_false, ↓reduceIte, Option.some.injEq,
          exists_eq_left', ho]
      · rw [if_neg he]
  · have hset : h ∈ (if v.isActive then r.setActiveValidators.insert k else r.setActiveValidators) ↔
        (v.isActive = true ∧ k = h) ∨ h ∈ r.setActiveValidators := by
      cases v.isActive <;> simp
    have hact : v.isActive = true ↔ v.status = .ACTIVE := decide_eq_true_iff
    refine hset.trans ?_
    dsimp only
    rw [hr.active, hact, getElem?_insert]
    by_cases he : k = h
    · subst he
      simp only [hm, and_true, reduceCtorEq, false_and, exists_false, or_false, ↓reduceIte,
        Option.some.injEq, exists_eq_left']
    · simp only [he, and_false, false_or, ↓reduceIte]

theorem Consistent.drop (hr : Consistent Hash r) {h : uint256} {v : CValidator}
    (hv : r.mapValidators[h]? = some v) :
    Consistent Hash (dropValidator h v r) := by
  unfold dropValidator
  refine ⟨fun k w hw => ?_, fun k w hw => ?_, fun o k => ?_, fun k => ?_⟩
  · rw [getElem?_erase] at hw
    split_ifs at hw
    exact hr.key k w hw
  · rw [getElem?_erase] at hw
    split_ifs at hw
    exact hr.valid k w hw
  · simp only [getElem?_erase]
    by_cases ho : v.stakeInput.prevout = o
    · rw [if_pos ho]
      refine iff_of_false (by simp) ?_
      rintro ⟨w, hw, hwo⟩
      split_ifs at hw with he
      -- the entry that stakes the outpoint is the one that went
      exact he (hr.prevout_injective hv hw (ho.trans hwo.symm))
    · rw [if_neg ho, hr.stake]
      by_cases he : h = k
      · subst he
        simp only [hv, Option.some.injEq, exists_eq_left', ho, ↓reduceIte, reduceCtorEq, false_and,
          exists_false]
      · rw [if_neg he]
  · rw [mem_set_erase, hr.active, getElem?_erase]
    by_cases he : h = k
    · simp [he]
    · simp only [ne_eq, he, not_false_eq_true, true_and, ↓reduceIte]

/-- Replacing an entry by one with the same key that stakes an outpoint of its
own, while the active set follows the new status. -/
theorem Consistent.replace (hr : Consistent Hash r) {h : uint256} {v w : CValidator}
    (hv : r.mapValidators[h]? = some v) (hkey : w.pubkey = v.pubkey)
    (hvalid : w.stakeInput.isValid = true)
    (hown : ∀ owner, r.mapStakeToValidator[w.stakeInput.prevout]? = some owner → owner = h)
    {stakes : ExtTreeMap COutPoint uint256} {actives : ExtTreeSet uint256}
    (hstakes : ∀ o : COutPoint, stakes[o]? = if w.stakeInput.prevout = o then some h
      else if v.stakeInput.prevout = o then none else r.mapStakeToValidator[o]?)
    (hactives : ∀ k : uint256, k ∈ actives ↔
      if h = k then w.status = .ACTIVE else k ∈ r.setActiveValidators) :
    Consistent Hash {
      mapValidators := r.mapValidators.insert h w
      mapStakeToValidator := stakes
      setActiveValidators := actives} := by
  refine ⟨fun k u hu => ?_, fun k u hu => ?_, fun o k => ?_, fun k => ?_⟩
  · rw [getElem?_insert] at hu
    split_ifs at hu with he
    · rw [Option.some.injEq] at hu
      rw [← hu, hkey, ← he]
      exact hr.key h v hv
    · exact hr.key k u hu
  · rw [getElem?_insert] at hu
    split_ifs at hu with he
    · rw [Option.some.injEq] at hu
      exact hu ▸ hvalid
    · exact hr.valid k u hu
  · rw [hstakes, getElem?_insert]
    by_cases hw : w.stakeInput.prevout = o
    · rw [if_pos hw, Option.some.injEq]
      constructor
      · intro he
        exact ⟨w, if_pos he, hw⟩
      · -- another owner of the new outpoint would be this entry's
        rintro ⟨u, hu, huo⟩
        by_contra he
        rw [if_neg he] at hu
        exact he (hown k ((hr.stake _ k).mpr ⟨u, hu, huo.trans hw.symm⟩)).symm
    rw [if_neg hw]
    by_cases ho : v.stakeInput.prevout = o
    · rw [if_pos ho]
      refine iff_of_false (by simp) ?_
      rintro ⟨u, hu, huo⟩
      split_ifs at hu with he
      · -- the entry has left its old outpoint
        rw [Option.some.injEq] at hu
        exact hw (hu ▸ huo)
      · exact he (hr.prevout_injective hv hu (ho.trans huo.symm))
    · rw [if_neg ho, hr.stake]
      by_cases he : h = k
      · subst he
        simp only [hv, Option.some.injEq, exists_eq_left', ho, ↓reduceIte, hw]
      · rw [if_neg he]
  · rw [hactives, getElem?_insert]
    by_cases he : h = k
    · simp only [he, ↓reduceIte, Option.some.injEq, exists_eq_left']
    · rw [if_neg he, if_neg he]
      exact hr.active k

theorem Consistent.register (hr : Consistent Hash r) (v : CValidator) :
    Consistent Hash (registerValidator Hash v r).2 := by
  rcases registerValidator_cases Hash v r with he | ⟨hm, hs, hv, he⟩
  · rw [he]
    exact hr
  · rw [he]
    exact hr.add hm hs hv

theorem Consistent.deregister (hr : Consistent Hash r) (h : uint256) :
    Consistent Hash (deregisterValidator h r).2 := by
  cases hv : r.mapValidators[h]? with
  | none =>
    rw [deregisterValidator_none hv]
    exact hr
  | some v =>
    rw [deregisterValidator_some hv]
    exact hr.drop hv

theorem Consistent.updateStake (hr : Consistent Hash r) (h : uint256) (s : CStakeInput) :
    Consistent Hash (updateValidatorStake h s r).2 := by
  rcases updateValidatorStake_cases h s r with he | ⟨v, hv, hs, hown, he⟩
  · rw [he]
    exact hr
  rw [he]
  refine hr.replace (w := {v with stakeInput := s, nStakeAmount := s.nValue}) hv rfl hs hown
    (fun o => ?_) (fun k => ?_)
  · rw [getElem?_insert, getElem?_erase]
  · by_cases hk : h = k
    · rw [if_pos hk, hr.active, ← hk, hv]
      simp only [Option.some.injEq, exists_eq_left']
    · rw [if_neg hk]

theorem Consistent.slash (hr : Consistent Hash r) (h : uint256) :
    Consistent Hash (slashValidator h r).2 := by
  cases hv : r.mapValidators[h]? with
  | none =>
    rw [slashValidator_none hv]
    exact hr
  | some v =>
    rw [slashValidator_some hv]
    have hself := (hr.stake v.stakeInput.prevout h).mpr ⟨v, hv, rfl⟩
    refine hr.replace (w := {v with nSlashingCount := v.nSlashingCount+1, status := .SLASHED}) hv
      rfl (hr.valid h v hv) (fun owner ho => ?_) (fun o => ?_) (fun k => ?_)
    · rw [hself, Option.some.injEq] at ho
      exact ho.symm
    · by_cases ho : v.stakeInput.prevout = o
      · rw [if_pos ho, ← ho, hself]
      · rw [if_neg ho, if_neg ho]
    · rw [mem_set_erase]
      by_cases hk : h = k <;> simp [hk]

/-- Registering validators with keys and outpoints of their own, none of them
there yet, enters each of them. -/
theorem mapValidators_foldl_register (l : List CValidator) {r : CValidatorRegistry}
    (hl : ∀ v ∈ l, v.stakeInput.isValid = true ∧
      r.mapValidators[getValidatorHash Hash v.pubkey]? = none ∧
      r.mapStakeToValidator[v.stakeInput.prevout]? = none)
    (hd : l.Pairwise fun v w => getValidatorHash Hash v.pubkey ≠ getValidatorHash Hash w.pubkey ∧
      v.stakeInput.prevout ≠ w.stakeInput.prevout) :
    (l.foldl (fun r v => (registerValidator Hash v r).2) r).mapValidators =
      l.foldl (fun m v => m.insert (getValidatorHash Hash v.pubkey) v) r.mapValidators := by
  induction l generalizing r with
  | nil => rfl
  | cons v l ih =>
    obtain ⟨hv, hl⟩ := List.forall_mem_cons.mp hl
    obtain ⟨hne, hd⟩ := List.pairwise_cons.mp hd
    rw [List.foldl_cons, List.foldl_cons, registerValidator_eq_true hv.2.1 hv.2.2 hv.1]
    apply ih _ hd
    intro w hw
    obtain ⟨hwv, hwm, hws⟩ := hl w hw
    refine ⟨hwv, ?_, ?_⟩
    · unfold addValidator
      rw [getElem?_insert, if_neg (hne w hw).1, hwm]
    · unfold addValidator
      rw [getElem?_insert, if_neg (hne w hw).2, hws]

theorem Consistent.foldl_register_snd (hr : Consistent Hash r) (l : List (uint256 × CValidator)) :
    Consistent Hash (l.foldl (fun registry p => (registerValidator Hash p.2 registry).2) r) := by
  induction l generalizing r with
  | nil => exact hr
  | cons p l ih => exact ih (hr.register p.2)

/-- Registering the validators of a registry afresh gives the registry back. -/
theorem Consistent.foldl_register_toList (hr : Consistent Hash r) :
    r.mapValidators.toList.foldl (fun registry p => (registerValidator Hash p.2 registry).2) {} =
      r := by
  have hmap : (r.mapValidators.toList.map Prod.snd).foldl
      (fun registry v => (registerValidator Hash v registry).2) {} = _ := List.foldl_map
  refine ((consistent_empty Hash).foldl_register_snd _).eq_of_mapValidators hr ?_
  rw [← hmap]
  have hkey (v : CValidator) (hv : v ∈ r.mapValidators.toList.map Prod.snd) :
      r.mapValidators[getValidatorHash Hash v.pubkey]? = some v := by
    obtain ⟨p, hp, rfl⟩ := List.mem_map.mp hv
    have hget := mem_toList hp
    rw [hr.key _ _ hget]
    exact hget
  rw [mapValidators_foldl_register]
  · apply ExtTreeMap.ext_getElem?
    intro a
    rcases foldl_insert_cases (fun v : CValidator => getValidatorHash Hash v.pubkey)
      (r.mapValidators.toList.map Prod.snd) ∅ a with ⟨v, hv, ha, he⟩ | ⟨hne, he⟩
    · rw [he, ← ha, hkey v hv]
    · rw [he, ExtTreeMap.getElem?_empty]
      symm
      by_contra hsome
      obtain ⟨v, hv⟩ := Option.ne_none_iff_exists'.mp hsome
      exact hne v (List.mem_map.mpr ⟨(a, v), ExtTreeMap.mem_toList_iff_getElem?_eq_some.mpr hv, rfl⟩)
        (hr.key a v hv)
  · intro v hv
    exact ⟨hr.valid _ v (hkey v hv), ExtTreeMap.getElem?_empty, ExtTreeMap.getElem?_empty⟩
  · rw [List.pairwise_map]
    apply ExtTreeMap.distinct_keys_toList.imp_of_mem
    intro p q hp hq hne
    have hp' := mem_toList hp
    have hq' := mem_toList hq
    rw [LawfulEqCmp.compare_eq_iff_eq] at hne
    rw [hr.key _ _ hp', hr.key _ _ hq']
    exact ⟨hne, fun he => hne (hr.prevout_injective hp' hq' he)⟩

theorem Consistent.step (hr : Consistent Hash r) (op : RegistryOp) :
    Consistent Hash (registryStep Hash r op).2 := by
  cases op with
  | register v => exact hr.register v
  | deregister h => exact hr.deregister h
  | updateStake h s => exact hr.updateStake h s
  | slash h => exact hr.slash h
  | clear => exact consistent_empty Hash

theorem consistent_final (Hash : List UInt8 → uint256) (ops : List RegistryOp) :
    Consistent Hash (final (registryStep Hash) {} ops) :=
  final_invariant (Consistent Hash) (fun _ op hr _ => hr.step op) (consistent_empty Hash)
    (everyStep_true _ ops)

end Invariant

/-- The stake map is the inverse of the validators' outpoints, and the active set
is the set of the active entries, after any calls of the registry's operations. -/
theorem registry_representation (Hash : List UInt8 → uint256) (ops : List RegistryOp) :
    let r := final (registryStep Hash) {} ops
    (∀ (o : COutPoint) (h : uint256), r.mapStakeToValidator[o]? = some h ↔
      ∃ v, r.mapValidators[h]? = some v ∧ v.stakeInput.prevout = o) ∧
    (∀ (h h' : uint256) (v v' : CValidator), r.mapValidators[h]? = some v →
      r.mapValidators[h']? = some v' → v.stakeInput.prevout = v'.stakeInput.prevout → h = h') ∧
    ∀ h : uint256, h ∈ r.setActiveValidators ↔
      ∃ v, r.mapValidators[h]? = some v ∧ v.status = .ACTIVE := by
  have hr := consistent_final Hash ops
  exact ⟨hr.stake, fun _ _ _ _ hv hv' he => hr.prevout_injective hv hv' he, hr.active⟩

end BabaChain.PoS
