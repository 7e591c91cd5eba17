import BabaChain.ArithUint256
import BabaChain.Lib.Contest
import BabaChain.ValidatorManager

/-! The choice of the next validator among the eligible ones. -/
namespace BabaChain
open Limbs (ofValue length_ofValue bounded_ofValue value_ofValue value_injective)

namespace arith_uint256

@[ext] theorem ext {x y : arith_uint256} (h : x.toNat = y.toNat) : x = y := by
  have hpn : x.pn = y.pn := value_injective (by decide) (x.length_pn.trans y.length_pn.symm)
    x.bounded_pn y.bounded_pn h
  cases x
  cases y
  rwa [mk.injEq]

/-- Every number below `2^256` is the value of exactly one. -/
def equivFin : arith_uint256 ≃ Fin (2^256) where
  toFun x := ⟨x.toNat, x.toNat_lt⟩
  invFun v := ⟨ofValue 32 8 v, length_ofValue 8 v, bounded_ofValue 8 v⟩
  left_inv x := by
    apply ext
    exact (value_ofValue 8 x.toNat).trans (Nat.mod_eq_of_lt x.toNat_lt)
  right_inv v := by
    apply Fin.ext
    exact (value_ofValue 8 v).trans (Nat.mod_eq_of_lt v.isLt)

theorem toNat_equivFin_symm (v : Fin (2^256)) : (equivFin.symm v).toNat = v :=
  (value_ofValue 8 v).trans (Nat.mod_eq_of_lt v.isLt)

instance : Fintype arith_uint256 := Fintype.ofEquiv _ equivFin.symm

end arith_uint256

namespace PoS
open arith_uint256 CValidatorManager

/-- `CValidatorSelector::GetSelectionHash`. -/
def getSelectionHash (Hash : List UInt8 → uint256) (blockHash : uint256)
    (validatorPubkey : CPubKey) : arith_uint256 :=
  ofUint256 (Hash (writeUint256 blockHash++writeVarBytes (keyBytes validatorPubkey)))

/-- The hash divided by the quotient of the stakes, which are read as their low 64
bits. -/
def weightedScore (totalStake nStakeAmount : ℤ) (selectionHash : arith_uint256) :
    Except String arith_uint256 :=
  let stakeWeight := BitVec.ofInt 64 nStakeAmount
  if stakeWeight = 0 then .error "integer division by zero"
  else selectionHash.div (ofUInt64 (BitVec.ofInt 64 totalStake/stakeWeight))

section Selection

variable (selectionHash : CPubKey → arith_uint256)

/-- The loop over the eligible validators. -/
def selectLoop (totalStake : ℤ) :
    List CValidator → Option CValidator → arith_uint256 → Except String (Option CValidator)
  | [], selectedValidator, _ => .ok selectedValidator
  | validator :: rest, selectedValidator, highestScore =>
    match weightedScore totalStake validator.nStakeAmount (selectionHash validator.pubkey) with
    | .error e => .error e
    | .ok score =>
      if score.compareTo highestScore = .gt then selectLoop totalStake rest (some validator) score
      else selectLoop totalStake rest selectedValidator highestScore

def selectFrom (eligibleValidators : List CValidator) : Except String (Option CValidator) :=
  if eligibleValidators.isEmpty then .ok none
  else
    let totalStake := eligibleValidators.foldl (fun sum v => sum+v.nStakeAmount) 0
    if totalStake ≤ 0 then .ok none
    else selectLoop selectionHash totalStake eligibleValidators none (ofUInt64 0)

end Selection

def selectValidator (Hash : List UInt8 → uint256) (blockHash : uint256) (currentTime : ℤ)
    (r : CValidatorRegistry) : Except String (Option CValidator) :=
  selectFrom (getSelectionHash Hash blockHash) (getEligibleValidators currentTime r)

/-- `CalculateSelectionProbability`, as an exact fraction. -/
def calculateSelectionProbability (validator : CValidator) (totalStake : ℤ) : ℚ :=
  if totalStake ≤ 0 ∨ validator.nStakeAmount ≤ 0 then 0
  else validator.nStakeAmount/totalStake

def totalStake (validators : List CValidator) : ℤ := (validators.map CValidator.nStakeAmount).sum

/-- What the validators' hashes are divided by. -/
def stakeQuotient (validators : List CValidator) (v : CValidator) : ℕ :=
  (totalStake validators).toNat/v.nStakeAmount.toNat

/-- The hashes given to the validators of a list, by their keys. -/
def hashOf (validators : List CValidator) (h : Fin validators.length → arith_uint256)
    (key : CPubKey) : arith_uint256 :=
  match (List.finRange validators.length).find? fun i => decide ((validators.get i).pubkey = key) with
  | some i => h i
  | none => ofUInt64 0

/-- The number of assignments of hashes for which the validator is selected. -/
def picks (validators : List CValidator) (i : Fin validators.length) : ℕ :=
  Finset.card {h : Fin validators.length → arith_uint256 |
    selectFrom (hashOf validators h) validators = .ok (some (validators.get i))}

section Loop

variable {selectionHash : CPubKey → arith_uint256} {validators : List CValidator}

theorem totalStake_eq_foldl (validators : List CValidator) :
    validators.foldl (fun sum v => sum+v.nStakeAmount) 0 = totalStake validators := by
  rw [totalStake, List.sum_eq_foldl, List.foldl_map]

theorem nStakeAmount_le_totalStake (hpos : ∀ v ∈ validators, 0 < v.nStakeAmount) {v : CValidator}
    (hv : v ∈ validators) : v.nStakeAmount ≤ totalStake validators := by
  apply List.single_le_sum
  · intro x hx
    obtain ⟨u, hu, rfl⟩ := List.mem_map.mp hx
    exact (hpos u hu).le
  · exact List.mem_map_of_mem hv

theorem weightedScore_eq {S s : ℤ} (hs : 0 < s) (hle : s ≤ S) (hS : S < 2^63)
    (x : arith_uint256) :
    ∃ score, weightedScore S s x = .ok score ∧ score.toNat = x.toNat/(S.toNat/s.toNat) := by
  have hweight : BitVec.ofInt 64 s ≠ 0 := by
    intro h
    have hzero := congrArg BitVec.toNat h
    rw [toNat_ofInt_of_lt hs.le (by omega)] at hzero
    change s.toNat = 0 at hzero
    omega
  have hquot : (ofUInt64 (BitVec.ofInt 64 S/BitVec.ofInt 64 s)).toNat = S.toNat/s.toNat := by
    rw [toNat_ofUInt64, BitVec.toNat_udiv, toNat_ofInt_of_lt hs.le (by omega),
      toNat_ofInt_of_lt (by omega) (by omega)]
  have hpos : 0 < S.toNat/s.toNat := Nat.div_pos (by omega) (by omega)
  obtain ⟨score, hdiv, hvalue⟩ :=
    @div_of_pos x (ofUInt64 (BitVec.ofInt 64 S/BitVec.ofInt 64 s)) (hquot ▸ hpos)
  refine ⟨score, ?_, hquot ▸ hvalue⟩
  rw [weightedScore, if_neg hweight, hdiv]

/-- The loop keeps the first validator with the greatest score. -/
theorem selectLoop_eq {S : ℤ} (hS : S < 2^63) {l : List CValidator}
    (hl : ∀ v ∈ l, 0 < v.nStakeAmount ∧ v.nStakeAmount ≤ S) (best : Option CValidator)
    (highest : arith_uint256) :
    selectLoop selectionHash S l best highest =
      .ok (Contest.firstMax (fun v => (selectionHash v.pubkey).toNat/(S.toNat/v.nStakeAmount.toNat))
        l best highest.toNat) := by
  induction l generalizing best highest with
  | nil => rfl
  | cons v l ih =>
    obtain ⟨⟨hpos, hle⟩, hl⟩ := List.forall_mem_cons.mp hl
    obtain ⟨score, hscore, hvalue⟩ :=
      weightedScore_eq hpos hle hS (selectionHash v.pubkey)
    have hgreater : score.compareTo highest = .gt ↔ highest.toNat < score.toNat := by
      rw [compareTo_eq, Nat.compare_eq_gt]
    rw [selectLoop, hscore, Contest.firstMax, ← hvalue]
    dsimp only
    by_cases h : highest.toNat < score.toNat
    · rw [if_pos (hgreater.mpr h), if_pos h, ih hl]
    · rw [if_neg (mt hgreater.mp h), if_neg h, ih hl]

theorem selectFrom_eq (hpos : ∀ v ∈ validators, 0 < v.nStakeAmount)
    (hsum : totalStake validators < 2^63) :
    selectFrom selectionHash validators = .ok (Contest.firstMax
      (fun v => (selectionHash v.pubkey).toNat/stakeQuotient validators v) validators none 0) := by
  cases validators with
  | nil => rfl
  | cons v l =>
    have htotal : 0 < totalStake (v :: l) :=
      (hpos v List.mem_cons_self).trans_le (nStakeAmount_le_totalStake hpos List.mem_cons_self)
    rw [selectFrom, totalStake_eq_foldl]
    dsimp only [List.isEmpty_cons]
    rw [if_neg Bool.false_ne_true, if_neg (not_le.mpr htotal),
      selectLoop_eq hsum fun u hu => ⟨hpos u hu, nStakeAmount_le_totalStake hpos hu⟩, toNat_ofUInt64]
    rfl

theorem hashOf_eq (hkeys : (validators.map CValidator.pubkey).Nodup)
    (h : Fin validators.length → arith_uint256) (i : Fin validators.length) :
    hashOf validators h (validators.get i).pubkey = h i := by
  have hfind : (List.finRange validators.length).find?
      (fun j => decide ((validators.get j).pubkey = (validators.get i).pubkey)) = some i := by
    cases hf : (List.finRange validators.length).find?
        (fun j => decide ((validators.get j).pubkey = (validators.get i).pubkey)) with
    | none =>
      have hnone := List.find?_eq_none.mp hf i (List.mem_finRange i)
      exact absurd (decide_eq_true rfl) hnone
    | some j =>
      have hsame : (validators.get j).pubkey = (validators.get i).pubkey := by
        have hdecide := List.find?_some hf
        exact of_decide_eq_true hdecide
      have hinj := List.nodup_iff_injective_getElem.mp hkeys
      have hij : (⟨j, by rw [List.length_map]; exact j.isLt⟩ :
          Fin (validators.map CValidator.pubkey).length) =
            ⟨i, by rw [List.length_map]; exact i.isLt⟩ := by
        apply hinj
        simpa using hsame
      rw [Option.some.injEq]
      exact Fin.ext (Fin.mk.inj hij)
  rw [hashOf, hfind]

end Loop

section Picks

variable {validators : List CValidator}

/-- The draws that an assignment of hashes stands for. -/
def drawsEquiv (n : ℕ) : (Fin n → arith_uint256) ≃ (Fin n → Fin (2^256)) :=
  Equiv.piCongrRight fun _ => equivFin

theorem picks_le_leading (hkeys : (validators.map CValidator.pubkey).Nodup)
    (hpos : ∀ v ∈ validators, 0 < v.nStakeAmount) (hsum : totalStake validators < 2^63)
    (i : Fin validators.length) :
    picks validators i ≤
      (Contest.leading (2^256) (fun j => stakeQuotient validators (validators.get j)) i).card := by
  apply Finset.card_le_card_of_injOn (drawsEquiv validators.length) _
    (drawsEquiv validators.length).injective.injOn
  intro h hh
  have hselected := (Finset.mem_filter.mp hh).2
  rw [selectFrom_eq hpos hsum, Except.ok.injEq] at hselected
  have hle := Contest.le_of_firstMax hselected
  refine Contest.mem_leading.mpr fun j _ => ?_
  have hj := hle _ (List.get_mem validators j)
  rwa [hashOf_eq hkeys h j, hashOf_eq hkeys h i] at hj

theorem winning_le_picks (hkeys : (validators.map CValidator.pubkey).Nodup)
    (hpos : ∀ v ∈ validators, 0 < v.nStakeAmount) (hsum : totalStake validators < 2^63)
    (i : Fin validators.length) :
    (Contest.winning (2^256) (fun j => stakeQuotient validators (validators.get j)) i).card ≤
      picks validators i := by
  apply Finset.card_le_card_of_injOn (drawsEquiv validators.length).symm _
    (drawsEquiv validators.length).symm.injective.injOn
  intro d hd
  obtain ⟨hpositive, hahead⟩ := Contest.mem_winning.mp hd
  have hscore (j : Fin validators.length) :
      ((drawsEquiv validators.length).symm d j).toNat = (d j : ℕ) :=
    toNat_equivFin_symm (d j)
  refine Finset.mem_filter.mpr ⟨Finset.mem_univ _, ?_⟩
  rw [selectFrom_eq hpos hsum]
  refine congrArg Except.ok (Contest.firstMax_of_lt (List.get_mem validators i) ?_ fun u hu hne => ?_)
  · rw [hashOf_eq hkeys _ i, hscore]
    exact hpositive
  · obtain ⟨j, hj, rfl⟩ := List.getElem_of_mem hu
    have hji : (⟨j, hj⟩ : Fin validators.length) ≠ i := fun heq => hne (by rw [← heq]; rfl)
    have hlt := hahead ⟨j, hj⟩ hji
    have hkey := hashOf_eq hkeys ((drawsEquiv validators.length).symm d) ⟨j, hj⟩
    rw [List.get_eq_getElem] at hkey
    rw [hashOf_eq hkeys _ i, hscore, hkey, hscore]
    exact hlt

end Picks

end PoS

end BabaChain
