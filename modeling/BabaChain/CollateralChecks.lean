import BabaChain.CoinJoin
import BabaChain.Lib.Checked

/-! The check of a collateral, with what it can run into on transactions from the network. -/
namespace BabaChain.CoinJoin
namespace CollateralCheck

/-- An index past the end of a transaction's outputs, and a sum outside of `int64_t`. -/
inductive Fault
  | outOfRange
  | overflow
deriving DecidableEq

/-- What the node knows of the coins when it checks a collateral. -/
structure Coins where
  mempool : uint256 → Option CMutableTransaction
  isSpent : COutPoint → Bool
  isLocked : uint256 → Bool
  getUTXOCoin : COutPoint → Option CTxOut
  aTMPIfSaneFee : CMutableTransaction → Bool
  /-- The log is on, so that what it prints is computed. -/
  logs : Bool

def InRange (n : ℤ) : Prop := -2^63 ≤ n ∧ n < 2^63

instance (n : ℤ) : Decidable (InRange n) := inferInstanceAs (Decidable (_ ∧ _))

/-- A sum or a difference of type `CAmount`. -/
def amount (n : ℤ) : Except Fault ℤ := if InRange n then .ok n else .error .overflow

/-- The script of an output that a collateral may have. -/
def allowed (txout : CTxOut) : Bool :=
  isPayToPublicKeyHash txout.scriptPubKey || isUnspendable txout.scriptPubKey

/-- The outputs, as far as their scripts are allowed. -/
def addOutputs : ℤ → List CTxOut → Except Fault (Option ℤ)
  | nValueOut, [] => .ok (some nValueOut)
  | nValueOut, txout :: vout => do
    let nValueOut ← amount (nValueOut+txout.nValue)
    if !allowed txout then return none
    addOutputs nValueOut vout

variable (coins : Coins)

/-- The value of the coin that an input spends, if it may be spent. -/
def inputValue (txin : CTxIn) : Except Fault (Option ℤ) :=
  match coins.mempool txin.prevout.hash with
  | some mempoolTx =>
    if coins.isSpent txin.prevout || !coins.isLocked txin.prevout.hash then .ok none
    else
      match mempoolTx.vout[txin.prevout.n.toNat]? with
      | some txout => .ok (some txout.nValue)
      | none => .error .outOfRange
  | none => .ok ((coins.getUTXOCoin txin.prevout).map CTxOut.nValue)

/-- The inputs, as far as they may be spent. -/
def addInputs : ℤ → List CTxIn → Except Fault (Option ℤ)
  | nValueIn, [] => .ok (some nValueIn)
  | nValueIn, txin :: vin => do
    match ← inputValue coins txin with
    | none => return none
    | some nValue =>
      let nValueIn ← amount (nValueIn+nValue)
      addInputs nValueIn vin

/-- The fee that a collateral leaves, and whether the mempool would take it. -/
def checkFee (txCollateral : CMutableTransaction) (nValueIn nValueOut : ℤ) : Except Fault Bool := do
  let fee ← amount (nValueIn-nValueOut)
  if fee < getCollateralAmount then
    if coins.logs then
      let _ ← amount (nValueOut-nValueIn)
      return false
    else return false
  else return coins.aTMPIfSaneFee txCollateral

/-- `CoinJoin::IsCollateralValid`. -/
def isCollateralValid (txCollateral : CMutableTransaction) : Except Fault Bool :=
  if txCollateral.vout = [] then .ok false
  else if txCollateral.nLockTime ≠ 0 then .ok false
  else do
    match ← addOutputs 0 txCollateral.vout with
    | none => return false
    | some nValueOut =>
      match ← addInputs coins 0 txCollateral.vin with
      | none => return false
      | some nValueIn => checkFee coins txCollateral nValueIn nValueOut

/-! ### What is summed -/

/-- The value of the coin that an input spends: of an output of a transaction in the mempool, or of
an unspent one. -/
def coinValue (txin : CTxIn) : ℤ :=
  match coins.mempool txin.prevout.hash with
  | some mempoolTx => ((mempoolTx.vout[txin.prevout.n.toNat]?).map CTxOut.nValue).getD 0
  | none => ((coins.getUTXOCoin txin.prevout).map CTxOut.nValue).getD 0

/-- The coin of an input is there, and in the mempool it is locked and not spent. -/
def spendable (txin : CTxIn) : Bool :=
  match coins.mempool txin.prevout.hash with
  | some _ => !coins.isSpent txin.prevout && coins.isLocked txin.prevout.hash
  | none => (coins.getUTXOCoin txin.prevout).isSome

/-- An input that spends a transaction in the mempool is for one of its outputs. -/
def IndexFits (txin : CTxIn) : Prop :=
  ∀ mempoolTx, coins.mempool txin.prevout.hash = some mempoolTx →
    txin.prevout.n.toNat < mempoolTx.vout.length

def valueOut (txCollateral : CMutableTransaction) : ℤ :=
  (txCollateral.vout.map CTxOut.nValue).sum

def valueIn (txCollateral : CMutableTransaction) : ℤ :=
  (txCollateral.vin.map (coinValue coins)).sum

/-- The sums of the outputs are in range, up to the first whose script is not allowed. -/
def OutputsFit : ℤ → List CTxOut → Prop
  | _, [] => True
  | total, txout :: vout =>
    InRange (total+txout.nValue) ∧ (allowed txout = true → OutputsFit (total+txout.nValue) vout)

/-- The indices and the sums of the inputs are in range, up to the first that is not spendable. -/
def InputsFit : ℤ → List CTxIn → Prop
  | _, [] => True
  | total, txin :: vin =>
    spendable coins txin = true → IndexFits coins txin ∧ InRange (total+coinValue coins txin) ∧
      InputsFit (total+coinValue coins txin) vin

/-- The difference is in range, and so is its negation where the log prints it. -/
def FeeFits (fee : ℤ) : Prop :=
  InRange fee ∧ (fee < getCollateralAmount → coins.logs = true → InRange (-fee))

/-- Everything that is computed for a collateral is in range. -/
def Defined (txCollateral : CMutableTransaction) : Prop :=
  txCollateral.vout ≠ [] → txCollateral.nLockTime = 0 → OutputsFit 0 txCollateral.vout ∧
    ((∀ txout ∈ txCollateral.vout, allowed txout = true) → InputsFit coins 0 txCollateral.vin ∧
      ((∀ txin ∈ txCollateral.vin, spendable coins txin = true) →
        FeeFits coins (valueIn coins txCollateral-valueOut txCollateral)))

/-! ### Verdicts -/

variable {coins}

theorem amount_of_inRange {n : ℤ} (h : InRange n) : amount n = .ok n := if_pos h

theorem amount_of_not {n : ℤ} (h : ¬InRange n) : amount n = .error .overflow := if_neg h

theorem addOutputs_fit {vout : List CTxOut} {total : ℤ} (h : OutputsFit total vout) :
    addOutputs total vout = .ok (if ∀ txout ∈ vout, allowed txout = true then
      some (total+(vout.map CTxOut.nValue).sum) else none) := by
  induction vout generalizing total with
  | nil => simp [addOutputs]
  | cons txout vout ih =>
    rw [addOutputs, amount_of_inRange h.1]
    change (if _ then _ else _) = _
    simp only [List.forall_mem_cons, List.map_cons, List.sum_cons]
    cases hallowed : allowed txout with
    | false => simp [pure, Except.pure]
    | true =>
      simp only [Bool.not_true, Bool.false_eq_true, if_false, true_and]
      rw [ih (h.2 hallowed), add_assoc]

theorem addOutputs_error {vout : List CTxOut} {total : ℤ} (h : ¬OutputsFit total vout) :
    ∃ e, addOutputs total vout = .error e := by
  induction vout generalizing total with
  | nil => exact absurd trivial h
  | cons txout vout ih =>
    rw [OutputsFit, not_and] at h
    rw [addOutputs]
    by_cases hrange : InRange (total+txout.nValue)
    · have hrest := h hrange
      push Not at hrest
      obtain ⟨hallowed, hnot⟩ := hrest
      obtain ⟨e, he⟩ := ih hnot
      refine ⟨e, ?_⟩
      rw [amount_of_inRange hrange]
      change (if _ then _ else _) = _
      rw [hallowed]
      exact he
    · exact ⟨.overflow, by rw [amount_of_not hrange]; rfl⟩

theorem inputValue_fit {txin : CTxIn} (h : spendable coins txin = true → IndexFits coins txin) :
    inputValue coins txin =
      .ok (if spendable coins txin = true then some (coinValue coins txin) else none) := by
  unfold IndexFits at h
  unfold spendable at h ⊢
  unfold inputValue coinValue
  cases hmempool : coins.mempool txin.prevout.hash with
  | none =>
    dsimp only
    cases coins.getUTXOCoin txin.prevout with
    | none => rfl
    | some txout => rfl
  | some mempoolTx =>
    rw [hmempool] at h
    dsimp only at h ⊢
    cases hspent : coins.isSpent txin.prevout with
    | true => simp
    | false =>
      cases hlocked : coins.isLocked txin.prevout.hash with
      | false => simp
      | true =>
        rw [hspent, hlocked] at h
        have hlt := h rfl mempoolTx rfl
        simp [List.getElem?_eq_getElem hlt]

theorem inputValue_error {txin : CTxIn} (hspendable : spendable coins txin = true)
    (h : ¬IndexFits coins txin) : inputValue coins txin = .error .outOfRange := by
  unfold IndexFits at h
  push Not at h
  obtain ⟨mempoolTx, hmempool, hlength⟩ := h
  unfold spendable at hspendable
  unfold inputValue
  rw [hmempool] at hspendable ⊢
  dsimp only at hspendable ⊢
  rw [Bool.and_eq_true, Bool.not_eq_true'] at hspendable
  rw [hspendable.1, hspendable.2, List.getElem?_eq_none hlength]
  rfl

theorem addInputs_fit {vin : List CTxIn} {total : ℤ} (h : InputsFit coins total vin) :
    addInputs coins total vin = .ok (if ∀ txin ∈ vin, spendable coins txin = true then
      some (total+(vin.map (coinValue coins)).sum) else none) := by
  induction vin generalizing total with
  | nil => simp [addInputs]
  | cons txin vin ih =>
    rw [addInputs, inputValue_fit fun hspendable => (h hspendable).1]
    simp only [List.forall_mem_cons, List.map_cons, List.sum_cons]
    cases hspendable : spendable coins txin with
    | false => simp [pure, Except.pure, bind, Except.bind]
    | true =>
      obtain ⟨-, hrange, hrest⟩ := h hspendable
      simp only [if_true, true_and, Checked.ok_bind]
      rw [amount_of_inRange hrange, Checked.ok_bind, ih hrest, add_assoc]

theorem addInputs_error {vin : List CTxIn} {total : ℤ} (h : ¬InputsFit coins total vin) :
    ∃ e, addInputs coins total vin = .error e := by
  induction vin generalizing total with
  | nil => exact absurd trivial h
  | cons txin vin ih =>
    rw [InputsFit, Classical.not_imp] at h
    obtain ⟨hspendable, h⟩ := h
    rw [addInputs]
    by_cases hindex : IndexFits coins txin
    · rw [inputValue_fit fun _ => hindex, if_pos hspendable, Checked.ok_bind]
      dsimp only
      by_cases hrange : InRange (total+coinValue coins txin)
      · obtain ⟨e, he⟩ := ih fun hrest => h ⟨hindex, hrange, hrest⟩
        exact ⟨e, by rw [amount_of_inRange hrange, Checked.ok_bind, he]⟩
      · exact ⟨.overflow, by rw [amount_of_not hrange]; rfl⟩
    · exact ⟨.outOfRange, by rw [inputValue_error hspendable hindex]; rfl⟩

theorem checkFee_iff {txCollateral : CMutableTransaction} {nValueIn nValueOut : ℤ} :
    (∃ verdict, checkFee coins txCollateral nValueIn nValueOut = .ok verdict ∧
      (verdict = true → getCollateralAmount ≤ nValueIn-nValueOut)) ↔
        FeeFits coins (nValueIn-nValueOut) := by
  unfold checkFee FeeFits
  rw [neg_sub]
  by_cases hrange : InRange (nValueIn-nValueOut)
  swap
  · rw [amount_of_not hrange]
    exact iff_of_false (fun hok => nomatch hok.choose_spec.1) fun h => hrange h.1
  rw [amount_of_inRange hrange, Checked.ok_bind, and_iff_right hrange]
  by_cases hsmall : nValueIn-nValueOut < getCollateralAmount
  swap
  · rw [if_neg hsmall]
    exact iff_of_true ⟨_, rfl, fun _ => not_lt.mp hsmall⟩ fun h => absurd h hsmall
  rw [if_pos hsmall, imp_iff_right hsmall]
  cases coins.logs with
  | false => exact iff_of_true ⟨false, rfl, nofun⟩ nofun
  | true =>
    rw [imp_iff_right rfl, if_pos rfl]
    by_cases hnegated : InRange (nValueOut-nValueIn)
    · rw [amount_of_inRange hnegated]
      exact iff_of_true ⟨false, rfl, nofun⟩ hnegated
    · rw [amount_of_not hnegated]
      exact iff_of_false (fun hok => nomatch hok.choose_spec.1) hnegated

/-- A collateral gets a verdict, and is accepted only where it leaves the fee, exactly where
everything that is computed for it is in range. -/
theorem collateral_check_iff (coins : Coins) (txCollateral : CMutableTransaction) :
    (∃ verdict, isCollateralValid coins txCollateral = .ok verdict ∧ (verdict = true →
      getCollateralAmount ≤ valueIn coins txCollateral-valueOut txCollateral)) ↔
        Defined coins txCollateral := by
  unfold Defined isCollateralValid
  by_cases hempty : txCollateral.vout = []
  · rw [if_pos hempty]
    exact iff_of_true ⟨false, rfl, nofun⟩ fun hne => absurd hempty hne
  by_cases hlock : txCollateral.nLockTime = 0
  swap
  · rw [if_neg hempty, if_pos hlock]
    exact iff_of_true ⟨false, rfl, nofun⟩ fun _ hzero => absurd hzero hlock
  rw [if_neg hempty, if_neg (not_not.mpr hlock), imp_iff_right hempty, imp_iff_right hlock]
  by_cases houtputs : OutputsFit 0 txCollateral.vout
  swap
  · obtain ⟨e, he⟩ := addOutputs_error houtputs
    rw [he]
    exact iff_of_false (fun hok => nomatch hok.choose_spec.1) fun h => houtputs h.1
  rw [addOutputs_fit houtputs, Checked.ok_bind, and_iff_right houtputs]
  by_cases hallowed : ∀ txout ∈ txCollateral.vout, allowed txout = true
  swap
  · rw [if_neg hallowed]
    exact iff_of_true ⟨false, rfl, nofun⟩ fun h => absurd h hallowed
  rw [if_pos hallowed, imp_iff_right hallowed]
  dsimp only
  by_cases hinputs : InputsFit coins 0 txCollateral.vin
  swap
  · obtain ⟨e, he⟩ := addInputs_error hinputs
    rw [he]
    exact iff_of_false (fun hok => nomatch hok.choose_spec.1) fun h => hinputs h.1
  rw [addInputs_fit hinputs, Checked.ok_bind, and_iff_right hinputs]
  by_cases hspendable : ∀ txin ∈ txCollateral.vin, spendable coins txin = true
  swap
  · rw [if_neg hspendable]
    exact iff_of_true ⟨false, rfl, nofun⟩ fun h => absurd h hspendable
  rw [if_pos hspendable, imp_iff_right hspendable, zero_add, zero_add]
  exact checkFee_iff

/-- A mempool with one transaction, which has one output. -/
def oneOutput : Coins where
  mempool _ := some {vout := [⟨20000, []⟩]}
  isSpent _ := false
  isLocked _ := true
  getUTXOCoin _ := none
  aTMPIfSaneFee _ := true
  logs := false

/-- A collateral that spends some output of a transaction, and has outputs of some values. -/
def spendingOutput (n : BitVec 32) (values : List ℤ) : CMutableTransaction where
  vin := [{prevout := ⟨1, n⟩}]
  vout := values.map fun nValue => ⟨nValue, [OP_RETURN]⟩

example : isCollateralValid oneOutput (spendingOutput 0 [2^62, 2^62]) = .error .overflow := by
  decide

/-- A collateral may get no verdict, as the index of an input is not checked. -/
theorem not_collateral_checked :
    ¬∀ coins txCollateral, ∃ verdict, isCollateralValid coins txCollateral = .ok verdict ∧
      (verdict = true →
        getCollateralAmount ≤ valueIn coins txCollateral-valueOut txCollateral) := by
  intro h
  obtain ⟨verdict, hverdict, -⟩ := h oneOutput (spendingOutput 5 [0])
  have herror : isCollateralValid oneOutput (spendingOutput 5 [0]) = .error .outOfRange := by decide
  rw [herror] at hverdict
  contradiction

end CollateralCheck
end BabaChain.CoinJoin
