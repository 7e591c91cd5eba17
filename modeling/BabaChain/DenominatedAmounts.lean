import BabaChain.TransactionBuilder

/-! The transaction that makes denominations of what the wallet has at one address. -/
namespace BabaChain.CoinJoin
namespace Denominations
open Checked

def COINJOIN_DENOM_OUTPUTS_THRESHOLD : ℕ := 500

def nLargestDenomValue : ℤ := 10*COIN+10000

/-- A loop that goes on, and the other ways out before there is a transaction. -/
inductive Exit
  | goesOn
  | returnsFalse
  | invalidArgument
deriving DecidableEq

structure Options where
  denomsGoal : ℤ
  denomsHardCap : ℤ

structure State where
  txBuilder : CTransactionBuilder
  mapDenomCount : ℤ → ℤ
  nBalanceToDenominate : ℤ
  fAddFinal : Bool := true

namespace State
variable (s : State)

def countOutputs : ℕ := s.txBuilder.vecOutputs.length

/-- What `CouldAddOutputs` computes for amounts that are not negative, where the fee is in range. -/
def couldAddOutputs (vecOutputAmounts : List ℤ) : Bool :=
  decide (0 ≤ s.txBuilder.room (s.txBuilder.vecOutputs ++ vecOutputAmounts))

theorem couldAddOutputs_txBuilder {vecOutputAmounts : List ℤ} (hpos : ∀ a ∈ vecOutputAmounts, 0 ≤ a)
    (hfit : s.txBuilder.OutputsFit (s.txBuilder.vecOutputs ++ vecOutputAmounts).length) :
    s.txBuilder.couldAddOutputs vecOutputAmounts = .ok (s.couldAddOutputs vecOutputAmounts) :=
  CTransactionBuilder.couldAddOutputs_eq hpos hfit

/-- One more output, where it could be added. -/
def add (nDenomValue : ℤ) : State :=
  { s with
    txBuilder := s.txBuilder.withOutputs (s.txBuilder.vecOutputs ++ [nDenomValue])
    mapDenomCount := Function.update s.mapDenomCount nDenomValue (s.mapDenomCount nDenomValue+1)
    nBalanceToDenominate := s.nBalanceToDenominate-nDenomValue }

def spent : State := { s with fAddFinal := false }

/-- The condition of the inner loop, which spends the final denomination. -/
def needMoreOutputs (nDenomValue : ℤ) : Bool × State :=
  if s.couldAddOutputs [nDenomValue] then
    if s.fAddFinal = true ∧ 0 < s.nBalanceToDenominate ∧ s.nBalanceToDenominate < nDenomValue then
      (true, s.spent)
    else (decide (nDenomValue ≤ s.nBalanceToDenominate), s)
  else (false, s)

end State

variable (options : Options)

/-- The inner loop, where `nOutputs` is counted down from 11. -/
def fill (nDenomValue : ℤ) : ℕ → State → Except Exit State
  | 0, s => .ok (s.needMoreOutputs nDenomValue).2
  | n+1, s =>
    let more := s.needMoreOutputs nDenomValue
    if more.1 = true ∧ more.2.mapDenomCount nDenomValue < options.denomsGoal then
      if more.2.couldAddOutputs [nDenomValue] then fill nDenomValue n (more.2.add nDenomValue)
      else .error .returnsFalse
    else .ok more.2

/-- A round over the denominations, of which 11 are made of each at most. -/
def visit : List ℤ → State → Except Exit State
  | [], s => .ok s
  | nDenomValue :: denoms, s => do
    let s ← fill options nDenomValue 11 s
    if s.txBuilder.room s.txBuilder.vecOutputs = 0 ∨ s.nBalanceToDenominate ≤ 0 then return s
    else visit denoms s

def smallToBig : List ℤ := vecStandardDenominations.reverse

def finished (s : State) : Bool :=
  !vecStandardDenominations.any fun denom =>
    decide (s.mapDenomCount denom < options.denomsGoal) && s.couldAddOutputs [denom] &&
      decide (0 < s.nBalanceToDenominate)

def goesOn (s : State) : Bool :=
  s.couldAddOutputs [getSmallestDenomination] &&
    decide (s.countOutputs < COINJOIN_DENOM_OUTPUTS_THRESHOLD)

/-- The first phase. The fuel is for its rounds. -/
def rounds : ℕ → State → Except Exit State
  | 0, _ => .error .goesOn
  | fuel+1, s =>
    if goesOn s then do
      let s ← visit options smallToBig s
      if finished options s then return s
      rounds fuel s
    else .ok s

/-- The potential outputs are counted up to the first that is too many. -/
def countPossibleOutputs (s : State) (nAmount : ℤ) : ℕ :=
  ((List.range (COINJOIN_DENOM_OUTPUTS_THRESHOLD+1)).takeWhile fun n =>
    s.couldAddOutputs (List.replicate (n+1) nAmount) &&
      decide (s.countOutputs+(n+1) ≤ COINJOIN_DENOM_OUTPUTS_THRESHOLD)).length

def denomsToCreate (s : State) (nDenomValue : ℤ) : ℤ :=
  let denomsToCreateValue : ℤ := countPossibleOutputs s nDenomValue
  let denomsToCreateBal := Int.bmod (s.nBalanceToDenominate/nDenomValue+1) (2^32)
  if denomsToCreateBal < denomsToCreateValue then denomsToCreateBal else denomsToCreateValue

def addUpTo (nDenomValue : ℤ) : ℕ → State → State
  | 0, s => s
  | n+1, s =>
    if nDenomValue ≠ nLargestDenomValue ∧
        options.denomsHardCap ≤ s.mapDenomCount nDenomValue then s
    else if s.couldAddOutputs [nDenomValue] then
      if COINJOIN_DENOM_OUTPUTS_THRESHOLD ≤ (s.add nDenomValue).countOutputs then s.add nDenomValue
      else addUpTo nDenomValue n (s.add nDenomValue)
    else s

def bigToSmall : List ℤ → State → Except Exit State
  | [], s => .ok s
  | nDenomValue :: denoms, s =>
    if s.nBalanceToDenominate ≤ 0 then .ok s
    else if denomsToCreate s nDenomValue < 0 then .error .invalidArgument
    else
      let s := addUpTo options nDenomValue (denomsToCreate s nDenomValue).toNat s
      if COINJOIN_DENOM_OUTPUTS_THRESHOLD ≤ s.countOutputs then .ok s else bigToSmall denoms s

/-- The second phase, for the remainder. -/
def processRemainder (s : State) : Except Exit State :=
  if s.couldAddOutputs [getSmallestDenomination] = true ∧
      getSmallestDenomination ≤ s.nBalanceToDenominate ∧
      s.countOutputs < COINJOIN_DENOM_OUTPUTS_THRESHOLD then
    bigToSmall options vecStandardDenominations s
  else .ok s

/-- What the function is called with, and what it reads of the wallet. -/
structure Call where
  fEnabled : Bool
  wallet : FeeSettings
  tallyItem : CompactTallyItem
  nBytesBase : ℕ
  countInputsWithAmount : ℤ → ℤ
  nBalanceToDenominate : ℤ
  fCreateMixingCollaterals : Bool

namespace Call
variable (call : Call)

/-- The state before the first phase. -/
def start : Except Exit State :=
  let txBuilder : CTransactionBuilder :=
    { wallet := call.wallet, tallyItem := call.tallyItem, nBytesBase := call.nBytesBase }
  let s : State :=
    { txBuilder, mapDenomCount := call.countInputsWithAmount,
      nBalanceToDenominate := call.nBalanceToDenominate }
  if !call.fEnabled then .error .returnsFalse
  else if call.tallyItem.outpoints.length = 1 ∧ isDenominatedAmount call.tallyItem.nAmount then
    .error .returnsFalse
  else if call.fCreateMixingCollaterals then
    if s.couldAddOutputs [getMaxCollateralAmount] then
      .ok { s with txBuilder := txBuilder.withOutputs [getMaxCollateralAmount] }
    else .error .returnsFalse
  else .ok s

/-- `CreateDenominated`, up to the transaction that is committed: the states after the first phase
and at the end. -/
def createDenominated (fuel : ℕ) : Except Exit (State × State) := do
  let start ← call.start
  let first ← rounds options fuel start
  let last ← processRemainder options first
  if (call.fCreateMixingCollaterals = true ∧ last.countOutputs = 1) ∨ last.countOutputs = 0 then
    throw .returnsFalse
  return (first, last)

end Call

/-! ### What is added -/

section Adds
variable {options} {May : State → ℤ → Prop} {s t u : State} {nDenomValue : ℤ}

/-- Outputs are added one by one, each of which may and could be, and the final denomination may be
spent. -/
inductive Adds (May : State → ℤ → Prop) (s : State) : State → Prop
  | refl : Adds May s s
  | spend {t : State} (h : Adds May s t) : Adds May s t.spent
  | add {t : State} {d : ℤ} (h : Adds May s t) (hd : d ∈ vecStandardDenominations)
    (hcould : t.couldAddOutputs [d] = true) (hmay : May t d) : Adds May s (t.add d)

theorem Adds.trans (h : Adds May s t) (h' : Adds May t u) : Adds May s u := by
  induction h' with
  | refl => exact h
  | spend h' ih => exact ih.spend
  | add h' hd hcould hmay ih => exact ih.add hd hcould hmay

theorem smallest_le {d : ℤ} (hd : d ∈ vecStandardDenominations) : getSmallestDenomination ≤ d := by
  revert d
  decide

theorem denomination_positive {d : ℤ} (hd : d ∈ vecStandardDenominations) : 0 < d :=
  lt_of_lt_of_le (by decide) (smallest_le hd)

theorem countOutputs_add (d : ℤ) : (s.add d).countOutputs = s.countOutputs+1 :=
  List.length_append

/-- What has been added is in the outputs, the balance and the counts, and the last of it was
allowed with the balance that the ones before had left. -/
theorem Adds.history (h : Adds May s t) : ∃ added : List ℤ,
    t.txBuilder = s.txBuilder.withOutputs (s.txBuilder.vecOutputs ++ added) ∧
      t.nBalanceToDenominate = s.nBalanceToDenominate-added.sum ∧
      (∀ d, t.mapDenomCount d = s.mapDenomCount d+added.count d) ∧
      (added = [] ∨ ∃ u d, May u d ∧
        u.nBalanceToDenominate = s.nBalanceToDenominate-added.dropLast.sum) := by
  induction h with
  | refl =>
    refine ⟨[], ?_, ?_, fun d => ?_, Or.inl rfl⟩
    · rw [List.append_nil]
      rfl
    · rw [List.sum_nil, sub_zero]
    · rw [List.count_nil, Nat.cast_zero, add_zero]
  | spend h ih => exact ih
  | @add t d h hd hcould hmay ih =>
    obtain ⟨added, hbuilder, hbalance, hcount, -⟩ := ih
    refine ⟨added ++ [d], ?_, ?_, fun d' => ?_, Or.inr ⟨t, d, hmay, ?_⟩⟩
    · dsimp only [State.add]
      rw [hbuilder, ← List.append_assoc]
      rfl
    · dsimp only [State.add]
      rw [hbalance, List.sum_append, List.sum_singleton]
      ring
    · dsimp only [State.add]
      rw [List.count_append, List.count_singleton, Function.update_apply]
      by_cases hd' : d' = d
      · subst hd'
        rw [if_pos rfl, hcount, if_pos (beq_self_eq_true _)]
        push_cast
        ring
      · rw [if_neg hd', hcount, if_neg (by simpa using Ne.symm hd'), Nat.add_zero]
    · rw [List.dropLast_concat, hbalance]

theorem Adds.countOutputs_le (h : Adds May s t) : s.countOutputs ≤ t.countOutputs := by
  induction h with
  | refl => exact le_rfl
  | spend h ih => exact ih
  | add h hd hcould hmay ih =>
    rw [countOutputs_add]
    omega

theorem Adds.balance_le (h : Adds May s t) : t.nBalanceToDenominate ≤ s.nBalanceToDenominate := by
  induction h with
  | refl => exact le_rfl
  | spend h ih => exact ih
  | @add t d h hd hcould hmay ih =>
    have hpos := denomination_positive hd
    dsimp only [State.add]
    omega

/-- The outputs do not exceed what there is after the fee. -/
theorem Adds.room_nonneg (h : Adds May s t) (hs : 0 ≤ s.txBuilder.room s.txBuilder.vecOutputs ∨
      s.txBuilder.vecOutputs = []) :
    0 ≤ t.txBuilder.room t.txBuilder.vecOutputs ∨ t.txBuilder.vecOutputs = [] := by
  induction h with
  | refl => exact hs
  | spend h ih => exact ih
  | add h hd hcould hmay ih => exact Or.inl (of_decide_eq_true hcould)

theorem Adds.count_le {limit d : ℤ} (h : Adds May s t)
    (hmay : ∀ u, May u d → u.mapDenomCount d < limit) :
    t.mapDenomCount d ≤ max (s.mapDenomCount d) limit := by
  induction h with
  | refl => exact le_max_left _ _
  | spend h ih => exact ih
  | @add t d' h hd hcould hmay' ih =>
    dsimp only [State.add]
    rw [Function.update_apply]
    split_ifs with heq
    · subst heq
      have hlt := hmay t hmay'
      omega
    · exact ih

end Adds

/-! ### The first phase -/

section FirstPhase
variable {options} {s t : State} {nDenomValue d : ℤ} {denoms : List ℤ}

/-- What the first phase asks of an output. -/
def MayFill (options : Options) (s : State) (nDenomValue : ℤ) : Prop :=
  s.mapDenomCount nDenomValue < options.denomsGoal ∧ 0 < s.nBalanceToDenominate

theorem needMoreOutputs_state (s : State) (nDenomValue : ℤ) :
    (s.needMoreOutputs nDenomValue).2 = s ∨ (s.needMoreOutputs nDenomValue).2 = s.spent := by
  unfold State.needMoreOutputs
  split_ifs
  · exact Or.inr rfl
  · exact Or.inl rfl
  · exact Or.inl rfl

@[simp] theorem needMoreOutputs_txBuilder :
    (s.needMoreOutputs d).2.txBuilder = s.txBuilder := by
  rcases needMoreOutputs_state s d with h | h
  · rw [h]
  · rw [h]
    rfl

@[simp] theorem needMoreOutputs_mapDenomCount :
    (s.needMoreOutputs d).2.mapDenomCount = s.mapDenomCount := by
  rcases needMoreOutputs_state s d with h | h
  · rw [h]
  · rw [h]
    rfl

@[simp] theorem needMoreOutputs_nBalanceToDenominate :
    (s.needMoreOutputs d).2.nBalanceToDenominate = s.nBalanceToDenominate := by
  rcases needMoreOutputs_state s d with h | h
  · rw [h]
  · rw [h]
    rfl

@[simp] theorem needMoreOutputs_countOutputs :
    (s.needMoreOutputs d).2.countOutputs = s.countOutputs := by
  rw [State.countOutputs, needMoreOutputs_txBuilder, State.countOutputs]

theorem Adds.needMoreOutputs (s : State) (nDenomValue : ℤ) :
    Adds (MayFill options) s (s.needMoreOutputs nDenomValue).2 := by
  rcases needMoreOutputs_state s nDenomValue with h | h
  · rw [h]
    exact .refl
  · rw [h]
    exact .spend .refl

theorem needMoreOutputs_iff : (s.needMoreOutputs d).1 = true ↔
    s.couldAddOutputs [d] = true ∧
      ((s.fAddFinal = true ∧ 0 < s.nBalanceToDenominate ∧ s.nBalanceToDenominate < d) ∨
        d ≤ s.nBalanceToDenominate) := by
  unfold State.needMoreOutputs
  split_ifs with hcould hfinal
  · exact iff_of_true rfl ⟨hcould, Or.inl hfinal⟩
  · rw [decide_eq_true_iff, or_iff_right hfinal, and_iff_right hcould]
  · exact iff_of_false id fun h => hcould h.1

/-- An output is needed only where it can be added and balance is left. -/
theorem needMoreOutputs_true (hd : d ∈ vecStandardDenominations)
    (h : (s.needMoreOutputs d).1 = true) :
    (s.needMoreOutputs d).2.couldAddOutputs [d] = true ∧
      0 < (s.needMoreOutputs d).2.nBalanceToDenominate := by
  have hpos := denomination_positive hd
  obtain ⟨hcould, hbalance⟩ := needMoreOutputs_iff.mp h
  rw [State.couldAddOutputs, needMoreOutputs_txBuilder, needMoreOutputs_nBalanceToDenominate]
  refine ⟨hcould, ?_⟩
  rcases hbalance with hfinal | hle
  · exact hfinal.2.1
  · omega

theorem fill_spec (hd : d ∈ vecStandardDenominations) (n : ℕ) (s : State) :
    Succeeds (fill options d n s) fun t =>
      Adds (MayFill options) s t ∧ t.countOutputs ≤ s.countOutputs+n := by
  induction n generalizing s with
  | zero =>
    exact succeeds_ok ⟨Adds.needMoreOutputs s d, needMoreOutputs_countOutputs.le⟩
  | succ n ih =>
    have hadds : Adds (MayFill options) s (s.needMoreOutputs d).2 := Adds.needMoreOutputs s d
    have hcount := needMoreOutputs_countOutputs (s := s) (d := d)
    rw [fill]
    split_ifs with hmore hcould
    · obtain ⟨-, hbalance⟩ := needMoreOutputs_true hd hmore.1
      refine (ih _).mono fun t ht => ⟨?_, ?_⟩
      · exact (hadds.add hd hcould ⟨hmore.2, hbalance⟩).trans ht.1
      · have hle := ht.2
        rw [countOutputs_add] at hle
        omega
    · exact absurd (needMoreOutputs_true hd hmore.1).1 hcould
    · exact succeeds_ok ⟨hadds, by omega⟩

variable (options) in
theorem visit_spec (hdenoms : ∀ d ∈ denoms, d ∈ vecStandardDenominations) (s : State) :
    Succeeds (visit options denoms s) fun t =>
      Adds (MayFill options) s t ∧ t.countOutputs ≤ s.countOutputs+11*denoms.length := by
  induction denoms generalizing s with
  | nil => exact succeeds_ok ⟨.refl, by omega⟩
  | cons d denoms ih =>
    rw [List.forall_mem_cons] at hdenoms
    rw [visit, List.length_cons]
    refine (fill_spec hdenoms.1 11 s).bind fun t ht => ?_
    obtain ⟨hadds, hcount⟩ := ht
    split_ifs
    · exact succeeds_pure ⟨hadds, by omega⟩
    · exact (ih hdenoms.2 t).mono fun u hu => ⟨hadds.trans hu.1, by omega⟩

/-- Going through the denominations adds no output: any that is needed has reached its goal. -/
def idle (options : Options) : List ℤ → State → Prop
  | [], _ => True
  | nDenomValue :: denoms, s =>
    ((s.needMoreOutputs nDenomValue).1 = true →
        options.denomsGoal ≤ s.mapDenomCount nDenomValue) ∧
      idle options denoms (s.needMoreOutputs nDenomValue).2

instance idleDecidable (options : Options) : ∀ denoms s, Decidable (idle options denoms s)
  | [], _ => .isTrue trivial
  | nDenomValue :: denoms, s =>
    have : Decidable (idle options denoms (s.needMoreOutputs nDenomValue).2) :=
      idleDecidable options denoms _
    inferInstanceAs (Decidable ((_ → _) ∧ idle options denoms (s.needMoreOutputs nDenomValue).2))

/-- A round starts, adds nothing and is not the last. -/
structure Stuck (options : Options) (s : State) : Prop where
  starts : goesOn s = true
  goal : finished options s = false
  idle : idle options smallToBig s

theorem stuck_iff : Stuck options s ↔
    goesOn s = true ∧ finished options s = false ∧ idle options smallToBig s :=
  ⟨fun h => ⟨h.starts, h.goal, h.idle⟩, fun h => ⟨h.1, h.2.1, h.2.2⟩⟩

instance : Decidable (Stuck options s) := decidable_of_iff _ stuck_iff.symm

/-- Where no output is needed with the final denomination, none is without it. -/
theorem idle_spent (h : idle options denoms s) : idle options denoms s.spent := by
  induction denoms generalizing s with
  | nil => trivial
  | cons d denoms ih =>
    obtain ⟨hgoal, hrest⟩ := h
    have hstate : (s.spent.needMoreOutputs d).2 = s.spent := by
      rcases needMoreOutputs_state s.spent d with h | h <;> exact h
    refine ⟨fun hneed => hgoal ?_, ?_⟩
    · obtain ⟨hcould, hbalance⟩ := needMoreOutputs_iff.mp hneed
      apply needMoreOutputs_iff.mpr
      exact ⟨hcould, Or.inr (hbalance.resolve_left fun hfinal => Bool.false_ne_true hfinal.1)⟩
    · rw [hstate]
      rcases needMoreOutputs_state s d with h | h <;> rw [h] at hrest
      · exact ih hrest
      · exact hrest

theorem room_ne_zero (h : goesOn s = true) : s.txBuilder.room s.txBuilder.vecOutputs ≠ 0 := by
  rw [goesOn, Bool.and_eq_true] at h
  have hroom : 0 ≤ s.txBuilder.room (s.txBuilder.vecOutputs ++ [getSmallestDenomination]) :=
    of_decide_eq_true h.1
  have hsmallest : getSmallestDenomination = 100001 := rfl
  have hfee : s.txBuilder.outputsFee s.txBuilder.vecOutputs.length ≤
      s.txBuilder.outputsFee (s.txBuilder.vecOutputs.length+1) :=
    CTransactionBuilder.outputsFee_mono (by omega)
  rw [CTransactionBuilder.room, List.sum_append, List.sum_singleton, List.length_append,
    List.length_singleton] at hroom
  rw [CTransactionBuilder.room]
  omega

theorem balance_pos (h : finished options s = false) : 0 < s.nBalanceToDenominate := by
  rw [finished, Bool.not_eq_false', List.any_eq_true] at h
  obtain ⟨denom, -, h⟩ := h
  rw [Bool.and_eq_true] at h
  exact of_decide_eq_true h.2

theorem fill_idle (n : ℕ) (hgoal : (s.needMoreOutputs d).1 = true →
    options.denomsGoal ≤ s.mapDenomCount d) :
    fill options d n s = .ok (s.needMoreOutputs d).2 := by
  cases n with
  | zero => rfl
  | succ n =>
    rw [fill, if_neg]
    intro hmore
    have hcount := hgoal hmore.1
    rw [needMoreOutputs_mapDenomCount] at hmore
    exact absurd hmore.2 (not_lt.mpr hcount)

/-- With balance left the round goes on to the next denomination. -/
theorem round_goes_on (hstarts : goesOn s = true) (hbalance : 0 < s.nBalanceToDenominate) (d : ℤ) :
    ¬((s.needMoreOutputs d).2.txBuilder.room (s.needMoreOutputs d).2.txBuilder.vecOutputs = 0 ∨
      (s.needMoreOutputs d).2.nBalanceToDenominate ≤ 0) := by
  rw [needMoreOutputs_txBuilder, needMoreOutputs_nBalanceToDenominate]
  exact not_or.mpr ⟨room_ne_zero hstarts, not_le.mpr hbalance⟩

/-- A round without outputs changes nothing but the final denomination. -/
theorem visit_idle (hstarts : goesOn s = true) (hbalance : 0 < s.nBalanceToDenominate)
    (hidle : idle options denoms s) :
    visit options denoms s = .ok s ∨ visit options denoms s = .ok s.spent := by
  induction denoms generalizing s with
  | nil => exact Or.inl rfl
  | cons d denoms ih =>
    have hrest := hidle.2
    rw [visit, fill_idle 11 hidle.1, ok_bind, if_neg (round_goes_on hstarts hbalance d)]
    rcases needMoreOutputs_state s d with h | h
    · rw [h] at hrest ⊢
      exact ih hstarts hbalance hrest
    · rw [h] at hrest ⊢
      rcases ih (s := s.spent) hstarts hbalance hrest with hvisit | hvisit
      · exact Or.inr hvisit
      · exact Or.inr hvisit

/-- A round with an output that is needed adds one. -/
theorem visit_busy (hdenoms : ∀ d ∈ denoms, d ∈ vecStandardDenominations)
    (hstarts : goesOn s = true) (hbalance : 0 < s.nBalanceToDenominate)
    (hbusy : ¬idle options denoms s) :
    Succeeds (visit options denoms s) fun t => s.countOutputs < t.countOutputs := by
  induction denoms generalizing s with
  | nil => exact absurd trivial hbusy
  | cons d denoms ih =>
    rw [List.forall_mem_cons] at hdenoms
    rw [visit]
    by_cases hgoal : (s.needMoreOutputs d).1 = true → options.denomsGoal ≤ s.mapDenomCount d
    · have hrest : ¬idle options denoms (s.needMoreOutputs d).2 := fun h => hbusy ⟨hgoal, h⟩
      rw [fill_idle 11 hgoal, ok_bind, if_neg (round_goes_on hstarts hbalance d)]
      rcases needMoreOutputs_state s d with h | h
      · rw [h] at hrest ⊢
        exact ih hdenoms.2 hstarts hbalance hrest
      · rw [h] at hrest ⊢
        exact ih (s := s.spent) hdenoms.2 hstarts hbalance hrest
    · rw [Classical.not_imp, not_le] at hgoal
      have hcount : (s.needMoreOutputs d).2.mapDenomCount d < options.denomsGoal := by
        rw [needMoreOutputs_mapDenomCount]
        exact hgoal.2
      have hlen := needMoreOutputs_countOutputs (s := s) (d := d)
      have hcould := (needMoreOutputs_true hdenoms.1 hgoal.1).1
      rw [fill, if_pos ⟨hgoal.1, hcount⟩, if_pos hcould]
      refine (fill_spec hdenoms.1 10 _).bind fun t ht => ?_
      have hgrown := ht.1.countOutputs_le
      rw [countOutputs_add] at hgrown
      split_ifs
      · exact succeeds_pure (by omega)
      · refine (visit_spec options hdenoms.2 t).mono fun u hu => ?_
        have hle := hu.1.countOutputs_le
        omega

theorem smallToBig_mem : ∀ d ∈ smallToBig, d ∈ vecStandardDenominations := by
  intro d hd
  exact List.mem_reverse.mp hd

/-- The states in which rounds start. -/
inductive Reached (options : Options) : State → State → Prop
  | refl (s : State) : Reached options s s
  | round {s t u : State} (hstarts : goesOn s = true) (hround : visit options smallToBig s = .ok t)
    (hgoal : finished options t = false) (h : Reached options t u) : Reached options s u

theorem rounds_stuck (h : Stuck options s) (fuel : ℕ) : rounds options fuel s = .error .goesOn := by
  induction fuel generalizing s with
  | zero => rfl
  | succ fuel ih =>
    rw [rounds, if_pos h.starts]
    rcases visit_idle h.starts (balance_pos h.goal) h.idle with hvisit | hvisit
    · rw [hvisit, ok_bind, h.goal]
      exact ih h
    · have hgoal : finished options s.spent = false := h.goal
      rw [hvisit, ok_bind, hgoal]
      exact ih ⟨h.starts, h.goal, idle_spent h.idle⟩

/-- Rounds that get stuck go on forever. -/
theorem rounds_reached (h : Reached options s t) (hstuck : Stuck options t) (fuel : ℕ) :
    rounds options fuel s = .error .goesOn := by
  induction h generalizing fuel with
  | refl s => exact rounds_stuck hstuck fuel
  | round hstarts hround hgoal h ih =>
    cases fuel with
    | zero => rfl
    | succ fuel =>
      rw [rounds, if_pos hstarts, hround, ok_bind, hgoal]
      exact ih hstuck fuel

/-- Each round that is not stuck adds an output, of which there are fewer than the threshold when it
starts. -/
theorem rounds_spec (hbalance : 0 < s.nBalanceToDenominate)
    (hstuck : ∀ t, Reached options s t → ¬Stuck options t) :
    ∃ fuel, Succeeds (rounds options fuel s) fun t => Adds (MayFill options) s t ∧
      t.countOutputs < max (s.countOutputs+1) (COINJOIN_DENOM_OUTPUTS_THRESHOLD+55) := by
  have hrounds : ∀ m s, COINJOIN_DENOM_OUTPUTS_THRESHOLD-s.countOutputs ≤ m →
      0 < s.nBalanceToDenominate → (∀ t, Reached options s t → ¬Stuck options t) →
      Succeeds (rounds options (m+1) s) fun t => Adds (MayFill options) s t ∧
        t.countOutputs < max (s.countOutputs+1) (COINJOIN_DENOM_OUTPUTS_THRESHOLD+55) := by
    intro m
    induction m with
    | zero =>
      intro s hm hbalance hstuck
      have hstop : ¬goesOn s = true := by
        intro hstarts
        rw [goesOn, Bool.and_eq_true] at hstarts
        have hlt := of_decide_eq_true hstarts.2
        omega
      rw [rounds, if_neg hstop]
      exact succeeds_ok ⟨.refl, by omega⟩
    | succ m ih =>
      intro s hm hbalance hstuck
      rw [rounds]
      by_cases hstarts : goesOn s = true
      swap
      · rw [if_neg hstarts]
        exact succeeds_ok ⟨.refl, by omega⟩
      have hlen : smallToBig.length = 5 := rfl
      obtain ⟨t, hround, hadds, hcount⟩ := visit_spec options smallToBig_mem s
      have hlt : s.countOutputs < COINJOIN_DENOM_OUTPUTS_THRESHOLD := by
        rw [goesOn, Bool.and_eq_true] at hstarts
        exact of_decide_eq_true hstarts.2
      rw [if_pos hstarts, hround, ok_bind]
      cases hgoal : finished options t with
      | true => exact succeeds_pure ⟨hadds, by omega⟩
      | false =>
        have hbusy : ¬idle options smallToBig s := by
          intro hidle
          refine hstuck s (.refl s) ⟨hstarts, ?_, hidle⟩
          rcases visit_idle hstarts hbalance hidle with hvisit | hvisit
          · rw [hvisit] at hround
            cases hround
            exact hgoal
          · rw [hvisit] at hround
            cases hround
            exact hgoal
        obtain ⟨t', hround', hgrown⟩ := visit_busy smallToBig_mem hstarts hbalance hbusy
        rw [hround] at hround'
        cases hround'
        refine (ih t (by omega) (balance_pos hgoal)
          fun u hu => hstuck u (.round hstarts hround hgoal hu)).mono fun u hu => ?_
        exact ⟨hadds.trans hu.1, by omega⟩
  exact ⟨_, hrounds _ s le_rfl hbalance hstuck⟩

end FirstPhase

/-! ### The second phase -/

section SecondPhase
variable {options} {s t : State} {d : ℤ} {denoms : List ℤ}

/-- What the second phase asks of an output. -/
def MayAdd (options : Options) (s : State) (nDenomValue : ℤ) : Prop :=
  (nDenomValue ≠ nLargestDenomValue → s.mapDenomCount nDenomValue < options.denomsHardCap) ∧
    s.countOutputs < COINJOIN_DENOM_OUTPUTS_THRESHOLD

/-- The balances for which the number of outputs that they take is an `int`. -/
def IntBalance (nBalanceToDenominate : ℤ) : Prop :=
  nBalanceToDenominate < (2^31-1)*getSmallestDenomination

instance (nBalanceToDenominate : ℤ) : Decidable (IntBalance nBalanceToDenominate) :=
  inferInstanceAs (Decidable (_ < _))

theorem denomsToCreate_nonneg (hd : d ∈ vecStandardDenominations)
    (hpos : 0 < s.nBalanceToDenominate) (hint : IntBalance s.nBalanceToDenominate) :
    0 ≤ denomsToCreate s d := by
  have hdpos := denomination_positive hd
  have hquot : 0 ≤ s.nBalanceToDenominate/d := Int.ediv_nonneg hpos.le hdpos.le
  have hlt : s.nBalanceToDenominate/d < 2^31-1 :=
    Int.ediv_lt_of_lt_mul hdpos
      (lt_of_lt_of_le hint (mul_le_mul_of_nonneg_left (smallest_le hd) (by decide)))
  have hbmod : Int.bmod (s.nBalanceToDenominate/d+1) (2^32) = s.nBalanceToDenominate/d+1 := by
    apply Int.bmod_eq_of_le
    · omega
    · omega
  rw [denomsToCreate, hbmod]
  split_ifs
  · omega
  · omega

variable (options) in
theorem addUpTo_spec (hd : d ∈ vecStandardDenominations) (n : ℕ)
    (hs : s.countOutputs < COINJOIN_DENOM_OUTPUTS_THRESHOLD) :
    Adds (MayAdd options) s (addUpTo options d n s) ∧
      (addUpTo options d n s).countOutputs ≤ COINJOIN_DENOM_OUTPUTS_THRESHOLD := by
  induction n generalizing s with
  | zero => exact ⟨.refl, hs.le⟩
  | succ n ih =>
    rw [addUpTo]
    split_ifs with hcap hcould hfull
    · exact ⟨.refl, hs.le⟩
    · have hmay : MayAdd options s d := ⟨fun hne => not_le.mp fun hle => hcap ⟨hne, hle⟩, hs⟩
      refine ⟨Adds.refl.add hd hcould hmay, ?_⟩
      rw [countOutputs_add]
      omega
    · have hmay : MayAdd options s d := ⟨fun hne => not_le.mp fun hle => hcap ⟨hne, hle⟩, hs⟩
      obtain ⟨hadds, hcount⟩ := ih (not_le.mp hfull)
      exact ⟨(Adds.refl.add hd hcould hmay).trans hadds, hcount⟩
    · exact ⟨.refl, hs.le⟩

theorem bigToSmall_spec (hdenoms : ∀ d ∈ denoms, d ∈ vecStandardDenominations)
    (hs : s.countOutputs < COINJOIN_DENOM_OUTPUTS_THRESHOLD)
    (hint : IntBalance s.nBalanceToDenominate) :
    Succeeds (bigToSmall options denoms s) fun t => Adds (MayAdd options) s t ∧
      t.countOutputs ≤ COINJOIN_DENOM_OUTPUTS_THRESHOLD := by
  induction denoms generalizing s with
  | nil => exact succeeds_ok ⟨.refl, hs.le⟩
  | cons d denoms ih =>
    rw [List.forall_mem_cons] at hdenoms
    rw [bigToSmall]
    split_ifs with hbalance hcreate
    · exact succeeds_ok ⟨.refl, hs.le⟩
    · exact absurd (denomsToCreate_nonneg hdenoms.1 (not_le.mp hbalance) hint) (not_le.mpr hcreate)
    · obtain ⟨hadds, hcount⟩ :=
        addUpTo_spec options hdenoms.1 (denomsToCreate s d).toNat hs
      dsimp only
      split_ifs with hfull
      · exact succeeds_ok ⟨hadds, hcount⟩
      · have hint' := lt_of_le_of_lt hadds.balance_le hint
        exact (ih hdenoms.2 (not_le.mp hfull) hint').mono fun t ht => ⟨hadds.trans ht.1, ht.2⟩

variable (options) in
theorem processRemainder_spec (hint : IntBalance s.nBalanceToDenominate) :
    Succeeds (processRemainder options s) fun t => Adds (MayAdd options) s t ∧
      t.countOutputs ≤ max s.countOutputs COINJOIN_DENOM_OUTPUTS_THRESHOLD := by
  rw [processRemainder]
  split_ifs with hstarts
  · refine (bigToSmall_spec (fun d hd => hd) hstarts.2.2 hint).mono fun t ht => ?_
    exact ⟨ht.1, le_max_of_le_right ht.2⟩
  · exact succeeds_ok ⟨.refl, le_max_left _ _⟩

end SecondPhase

/-! ### The whole function -/

section Whole
variable {options} {start first last : State}

/-- The limits of a transaction: all but the last output of the first phase are within the balance,
no denomination but the largest is made beyond the goal or the cap, the outputs do not exceed what
there is after the fee, and they are no more than the threshold and a round. -/
structure Limits (options : Options) (start first last : State) : Prop where
  outputs : ∃ denominated remainder : List ℤ,
    first.txBuilder.vecOutputs = start.txBuilder.vecOutputs ++ denominated ∧
      last.txBuilder.vecOutputs = first.txBuilder.vecOutputs ++ remainder ∧
      denominated.dropLast.sum ≤ start.nBalanceToDenominate ∧
      ∀ d ∈ denominated ++ remainder, d ≠ nLargestDenomValue →
        start.mapDenomCount d+(denominated ++ remainder).count d ≤
          max options.denomsGoal options.denomsHardCap
  amount : last.txBuilder.vecOutputs.sum+last.txBuilder.outputsFee last.countOutputs ≤
    last.txBuilder.tallyItem.nAmount
  count : last.countOutputs < COINJOIN_DENOM_OUTPUTS_THRESHOLD+55

theorem limits_of_adds (hpos : 0 < start.nBalanceToDenominate)
    (hstart : 0 ≤ start.txBuilder.room start.txBuilder.vecOutputs ∨
      start.txBuilder.vecOutputs = [])
    (hfirst : Adds (MayFill options) start first) (hlast : Adds (MayAdd options) first last)
    (hcount : last.countOutputs < COINJOIN_DENOM_OUTPUTS_THRESHOLD+55)
    (hsome : last.countOutputs ≠ 0) : Limits options start first last := by
  obtain ⟨denominated, hbuilder, -, hmade, hover⟩ := hfirst.history
  obtain ⟨remainder, hbuilder', -, hmade', -⟩ := hlast.history
  refine ⟨⟨denominated, remainder, ?_, ?_, ?_, fun d hd hne => ?_⟩, ?_, hcount⟩
  · rw [hbuilder]
    rfl
  · rw [hbuilder']
    rfl
  · rcases hover with rfl | ⟨u, d, hmay, hbalance⟩
    · exact hpos.le
    · have hleft := hmay.2
      omega
  · have hgoal := hfirst.count_le (d := d) fun u hu => hu.1
    have hcap := hlast.count_le (d := d) fun u hu => hu.1 hne
    have hcreated := List.count_pos_iff.mpr hd
    have htotal : (denominated ++ remainder).count d = denominated.count d+remainder.count d :=
      List.count_append
    have hd1 := hmade d
    have hd2 := hmade' d
    omega
  · have hroom := (hlast.room_nonneg (hfirst.room_nonneg hstart)).resolve_right
      fun hnil => hsome (congrArg List.length hnil)
    rw [CTransactionBuilder.room] at hroom
    rw [State.countOutputs]
    omega

/-- The first output, if there is one at the start, is the collateral, for which there is room. -/
theorem start_room {call : Call} (h : call.start = .ok start) :
    start.nBalanceToDenominate = call.nBalanceToDenominate ∧ start.countOutputs ≤ 1 ∧
      (0 ≤ start.txBuilder.room start.txBuilder.vecOutputs ∨
        start.txBuilder.vecOutputs = []) := by
  unfold Call.start at h
  dsimp only at h
  split_ifs at h with henabled hsingle hcreate hcould
  · cases h
    exact ⟨rfl, le_rfl, Or.inl (of_decide_eq_true hcould)⟩
  · cases h
    exact ⟨rfl, Nat.zero_le 1, Or.inr rfl⟩

/-- A wallet with the settings that it has by default and 50 of each of the two smallest
denominations, which is to make some of two outputs of half a coin. -/
def halves (nBalanceToDenominate : ℤ) : Call where
  fEnabled := true
  wallet := ⟨⟨1000⟩, ⟨0⟩, 10000000, ⟨10000⟩⟩
  tallyItem := ⟨payToPublicKeyHash (List.replicate 20 0), COIN, [⟨1, 0⟩, ⟨2, 0⟩]⟩
  nBytesBase := 306
  countInputsWithAmount denom := if denom ≤ COIN/100+10 then 50 else 0
  nBalanceToDenominate := nBalanceToDenominate
  fCreateMixingCollaterals := false

end Whole
end Denominations
end BabaChain.CoinJoin
