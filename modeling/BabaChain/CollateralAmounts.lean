import BabaChain.TransactionBuilder

/-! The transaction that makes collaterals of what the wallet has at one address. -/
namespace BabaChain.CoinJoin
namespace CTransactionBuilder
open Checked

def assert (condition : Bool) : Except Fault Unit :=
  if condition then .ok () else .error .assertion

variable (b : CTransactionBuilder)

/-- The largest collateral, and the rest. If that is denominated one duff goes into the fee. -/
def case1 : Except Fault CTransactionBuilder := do
  let first ← b.addOutput getMaxCollateralAmount
  let out ← first.1.addOutput 0
  let nAmountLeft ← out.1.getAmountLeft
  out.1.updateAmount out.2 (if isDenominatedAmount nAmountLeft then nAmountLeft-1 else nAmountLeft)

/-- Two equal collaterals. -/
def case2 : Except Fault CTransactionBuilder := do
  let out1 ← b.addOutput 0
  let out2 ← out1.1.addOutput 0
  let nAmountLeft ← out2.1.getAmountLeft
  let nAmountOutputs := nAmountLeft.tdiv 2
  assert (isCollateralAmount nAmountOutputs)
  let b ← out2.1.updateAmount out1.2 nAmountOutputs
  b.updateAmount out2.2 nAmountOutputs

/-- One collateral. -/
def case3 : Except Fault CTransactionBuilder := do
  let out ← b.addOutput 0
  let nAmountLeft ← out.1.getAmountLeft
  let b ← out.1.updateAmount out.2 nAmountLeft
  assert (isCollateralAmount (b.vecOutputs.getD (out.2.getD 0) 0))
  return b

def addCollaterals : Except Fault CTransactionBuilder := do
  if ← b.couldAddOutputs [getMaxCollateralAmount, getCollateralAmount] then b.case1
  else if ← b.couldAddOutputs [getCollateralAmount, getCollateralAmount] then b.case2
  else b.case3

/-- The assertion that only dust is left over. -/
def leaveDust : Except Fault (Option CTransactionBuilder) := do
  let nAmountLeft ← b.getAmountLeft
  assert (← b.isDust nAmountLeft)
  return some b

/-- The transaction that is committed, unless it has no room for a collateral. -/
def makeCollaterals : Except Fault (Option CTransactionBuilder) := do
  if !(← b.couldAddOutput getCollateralAmount) then return none
  let b ← b.addCollaterals
  b.leaveDust

/-- What is returned for at once. -/
def returnsEarly (fEnabled fTryDenominated : Bool) (tallyItem : CompactTallyItem) : Bool :=
  !fEnabled ||
  (!fTryDenominated && decide (tallyItem.outpoints.length = 1) &&
    isDenominatedAmount tallyItem.nAmount) ||
  (decide (tallyItem.outpoints.length = 1) && isCollateralAmount tallyItem.nAmount)

/-- `MakeCollateralAmounts`, up to the transaction that is committed. -/
def makeCollateralAmounts (fEnabled fTryDenominated : Bool) (wallet : FeeSettings)
    (tallyItem : CompactTallyItem) (nBytesBase : ℕ) : Except Fault (Option CTransactionBuilder) :=
  if returnsEarly fEnabled fTryDenominated tallyItem then .ok none
  else makeCollaterals { wallet, tallyItem, nBytesBase }

/-- One or two outputs, of which the first is a collateral, with dust left over. With the fee they
are all that there was. -/
structure Collaterals : Prop where
  count : b.vecOutputs.length = 1 ∨ b.vecOutputs.length = 2
  first : isCollateralAmount (b.vecOutputs.getD 0 0) = true
  dust : Succeeds b.getAmountLeft fun nAmountLeft => b.isDust nAmountLeft = .ok true
  balanced : Succeeds b.nFeeCalc fun nFee => b.vecOutputs.sum+nFee = b.tallyItem.nAmount

/-! ### What the cases build -/

/-- The two outputs of the first case, the equal ones of the second, or the one of the third. -/
def collaterals : List ℤ :=
  if 0 ≤ b.room [getMaxCollateralAmount, getCollateralAmount] then
    [getMaxCollateralAmount,
      if isDenominatedAmount (b.room [getMaxCollateralAmount, 0]) then
        b.room [getMaxCollateralAmount, 0]-1
      else b.room [getMaxCollateralAmount, 0]]
  else if 0 ≤ b.room [getCollateralAmount, getCollateralAmount] then
    [b.room [0, 0]/2, b.room [0, 0]/2]
  else [b.room [0]]

/-- The duff that is left over where the rest is denominated or odd. -/
def leftOver : ℤ :=
  if 0 ≤ b.room [getMaxCollateralAmount, getCollateralAmount] then
    if isDenominatedAmount (b.room [getMaxCollateralAmount, 0]) then 1 else 0
  else if 0 ≤ b.room [getCollateralAmount, getCollateralAmount] then b.room [0, 0]%2
  else 0

/-- Where there is no room for two collaterals, all that there is for one output is one. -/
def OneFits : Prop :=
  0 ≤ b.room [getMaxCollateralAmount, getCollateralAmount] ∨
  0 ≤ b.room [getCollateralAmount, getCollateralAmount] ∨
  b.room [0] ≤ getMaxCollateralAmount

instance : Decidable b.OneFits := inferInstanceAs (Decidable (_ ∨ _ ∨ _))

/-- The fees are in range, one output is a collateral where two do not fit, and what is left over is
below the threshold of dust. -/
def Makes : Prop :=
  b.OutputsFit 1 ∧ (0 ≤ b.room [getCollateralAmount] →
    b.OutputsFit 2 ∧ b.OneFits ∧ b.DustFits ∧ b.leftOver < b.dustThreshold)

instance : Decidable b.Makes := inferInstanceAs (Decidable (_ ∧ (_ → _)))

variable {b}

theorem isCollateralAmount_iff {a : ℤ} :
    isCollateralAmount a = true ↔ getCollateralAmount ≤ a ∧ a ≤ getMaxCollateralAmount :=
  decide_eq_true_iff

theorem getCollateralAmount_eq : getCollateralAmount = 10000 := rfl
theorem getMaxCollateralAmount_eq : getMaxCollateralAmount = 40000 := rfl

theorem room_one (x : ℤ) : b.room [x] = b.tallyItem.nAmount-x-b.outputsFee 1 := by
  rw [room, List.sum_singleton, List.length_singleton]

theorem room_two (x y : ℤ) : b.room [x, y] = b.tallyItem.nAmount-(x+y)-b.outputsFee 2 := by
  rw [room, List.sum_cons, List.sum_singleton]
  rfl

theorem case1_eq (hfit : b.OutputsFit 2)
    (hroom : 0 ≤ b.room [getMaxCollateralAmount, getCollateralAmount]) :
    (b.withOutputs []).case1 = .ok (b.withOutputs b.collaterals) := by
  have hfee : b.outputsFee 1 ≤ b.outputsFee 2 := outputsFee_mono (by omega)
  have htwo := room_two (b := b) getMaxCollateralAmount 0
  have hone := room_one (b := b) getMaxCollateralAmount
  rw [collaterals, if_pos hroom]
  rw [room_two, getCollateralAmount_eq] at hroom
  have hpos : 10000 ≤ b.room [getMaxCollateralAmount, 0] := by omega
  have hfirst : (b.withOutputs []).addOutput getMaxCollateralAmount =
      .ok (b.withOutputs [getMaxCollateralAmount], some 0) :=
    addOutput_eq (by decide) (hfit.mono (by decide))
      (show 0 ≤ b.room [getMaxCollateralAmount] by omega)
  have hout : (b.withOutputs [getMaxCollateralAmount]).addOutput 0 =
      .ok (b.withOutputs [getMaxCollateralAmount, 0], some 1) :=
    addOutput_eq le_rfl hfit (show 0 ≤ b.room [getMaxCollateralAmount, 0] by omega)
  have hleft : (b.withOutputs [getMaxCollateralAmount, 0]).getAmountLeft =
      .ok (b.room [getMaxCollateralAmount, 0]) :=
    getAmountLeft_eq hfit
  rw [case1, hfirst, ok_bind, hout, ok_bind, hleft, ok_bind]
  apply updateAmount_eq
  · split_ifs
    · omega
    · omega
  · exact hfit
  · change _-0 ≤ _
    split_ifs
    · omega
    · omega

/-- Half of what there is for two collaterals is one, as there is no room for a larger one. -/
theorem half_collateral (hroom : 0 ≤ b.room [getCollateralAmount, getCollateralAmount])
    (hlarge : ¬0 ≤ b.room [getMaxCollateralAmount, getCollateralAmount]) :
    isCollateralAmount (b.room [0, 0]/2) = true := by
  rw [room_two, getCollateralAmount_eq] at hroom
  rw [room_two, getMaxCollateralAmount_eq, getCollateralAmount_eq] at hlarge
  rw [isCollateralAmount_iff, getCollateralAmount_eq, getMaxCollateralAmount_eq, room_two]
  omega

theorem case2_eq (hfit : b.OutputsFit 2)
    (hroom : 0 ≤ b.room [getCollateralAmount, getCollateralAmount])
    (hlarge : ¬0 ≤ b.room [getMaxCollateralAmount, getCollateralAmount]) :
    (b.withOutputs []).case2 = .ok (b.withOutputs b.collaterals) := by
  have hfee : b.outputsFee 1 ≤ b.outputsFee 2 := outputsFee_mono (by omega)
  have hcollateral := half_collateral hroom hlarge
  have htwo := room_two (b := b) 0 0
  have hone := room_one (b := b) 0
  have hhalf := room_two (b := b) (b.room [0, 0]/2) 0
  rw [collaterals, if_neg hlarge, if_pos hroom]
  rw [room_two, getCollateralAmount_eq] at hroom
  have hpos : 0 ≤ b.room [0, 0] := by omega
  have hout1 : (b.withOutputs []).addOutput 0 = .ok (b.withOutputs [0], some 0) :=
    addOutput_eq le_rfl (hfit.mono (by decide)) (show 0 ≤ b.room [0] by omega)
  have hout2 : (b.withOutputs [0]).addOutput 0 = .ok (b.withOutputs [0, 0], some 1) :=
    addOutput_eq le_rfl hfit hpos
  have hleft : (b.withOutputs [0, 0]).getAmountLeft = .ok (b.room [0, 0]) :=
    getAmountLeft_eq hfit
  have hupdate : (b.withOutputs [0, 0]).updateAmount (some 0) (b.room [0, 0]/2) =
      .ok (b.withOutputs [b.room [0, 0]/2, 0]) := by
    apply updateAmount_eq (by omega) hfit
    change _-0 ≤ _
    omega
  rw [case2, hout1, ok_bind, hout2, ok_bind, hleft, ok_bind]
  dsimp only
  rw [Int.tdiv_eq_ediv_of_nonneg hpos, hcollateral, assert, if_pos rfl, ok_bind, hupdate, ok_bind]
  apply updateAmount_eq (by omega) hfit
  change _-0 ≤ _
  omega

theorem case3_eq (hfit : b.OutputsFit 1) (hroom : 0 ≤ b.room [getCollateralAmount]) :
    (b.withOutputs []).case3 =
      if b.room [0] ≤ getMaxCollateralAmount then .ok (b.withOutputs [b.room [0]])
      else .error .assertion := by
  rw [room_one, getCollateralAmount_eq] at hroom
  have hone := room_one (b := b) 0
  have hout : (b.withOutputs []).addOutput 0 = .ok (b.withOutputs [0], some 0) :=
    addOutput_eq le_rfl hfit (show 0 ≤ b.room [0] by omega)
  have hleft : (b.withOutputs [0]).getAmountLeft = .ok (b.room [0]) :=
    getAmountLeft_eq hfit
  have hupdate : (b.withOutputs [0]).updateAmount (some 0) (b.room [0]) =
      .ok (b.withOutputs [b.room [0]]) := by
    apply updateAmount_eq (by omega) hfit
    change _-0 ≤ _
    omega
  have hcollateral : isCollateralAmount (b.room [0]) =
      decide (b.room [0] ≤ getMaxCollateralAmount) := by
    rw [isCollateralAmount, getCollateralAmount_eq, decide_eq_decide]
    exact and_iff_right (by omega)
  rw [case3, hout, ok_bind, hleft, ok_bind, hupdate, ok_bind]
  change (assert (isCollateralAmount (b.room [0])) >>= _) = _
  rw [hcollateral, assert]
  split_ifs with hmax hle
  · rfl
  · exact absurd (of_decide_eq_true hmax) hle
  · exact absurd (decide_eq_true ‹_›) hmax
  · rfl

theorem addCollaterals_eq (hfit : b.OutputsFit 2) (hroom : 0 ≤ b.room [getCollateralAmount]) :
    (b.withOutputs []).addCollaterals =
      if b.OneFits then .ok (b.withOutputs b.collaterals) else .error .assertion := by
  have hlarge : (b.withOutputs []).couldAddOutputs [getMaxCollateralAmount, getCollateralAmount] =
      .ok (decide (0 ≤ b.room [getMaxCollateralAmount, getCollateralAmount])) :=
    couldAddOutputs_eq (by decide) hfit
  have hequal : (b.withOutputs []).couldAddOutputs [getCollateralAmount, getCollateralAmount] =
      .ok (decide (0 ≤ b.room [getCollateralAmount, getCollateralAmount])) :=
    couldAddOutputs_eq (by decide) hfit
  rw [addCollaterals, hlarge, ok_bind]
  by_cases h1 : 0 ≤ b.room [getMaxCollateralAmount, getCollateralAmount]
  · have hone : b.OneFits := Or.inl h1
    rw [if_pos (decide_eq_true h1), if_pos hone]
    exact case1_eq hfit h1
  rw [if_neg (by simpa using h1), hequal, ok_bind]
  by_cases h2 : 0 ≤ b.room [getCollateralAmount, getCollateralAmount]
  · have hone : b.OneFits := Or.inr (Or.inl h2)
    rw [if_pos (decide_eq_true h2), if_pos hone]
    exact case2_eq hfit h2 h1
  rw [if_neg (by simpa using h2), case3_eq (hfit.mono (by omega)) hroom, collaterals, if_neg h1,
    if_neg h2]
  exact if_congr (by rw [OneFits, or_iff_right h1, or_iff_right h2]) rfl rfl

theorem addCollaterals_error (hfit : ¬b.OutputsFit 2) :
    (b.withOutputs []).addCollaterals = .error .overflow := by
  have hlarge : (b.withOutputs []).couldAddOutputs [getMaxCollateralAmount, getCollateralAmount] =
      .error .overflow :=
    couldAddOutputs_error (by decide) hfit
  rw [addCollaterals, hlarge]
  rfl

/-! ### What is built -/

theorem collaterals_length : b.collaterals.length = 1 ∨ b.collaterals.length = 2 := by
  unfold collaterals
  split_ifs with h1 hdenom h2
  · exact Or.inr rfl
  · exact Or.inr rfl
  · exact Or.inr rfl
  · exact Or.inl rfl

theorem room_collaterals : b.room b.collaterals = b.leftOver := by
  unfold collaterals leftOver
  split_ifs with h1 hdenom h2
  · rw [room_two, room_two]
    omega
  · rw [room_two, room_two]
    omega
  · rw [room_two, room_two]
    omega
  · rw [room_one, room_one]
    omega

theorem collaterals_first (hroom : 0 ≤ b.room [getCollateralAmount]) (hone : b.OneFits) :
    isCollateralAmount (b.collaterals.getD 0 0) = true := by
  unfold collaterals
  split_ifs with h1 hdenom h2
  · rfl
  · rfl
  · exact half_collateral h2 h1
  · have hmax := (hone.resolve_left h1).resolve_left h2
    change isCollateralAmount (b.room [0]) = true
    rw [isCollateralAmount_iff]
    refine ⟨?_, hmax⟩
    rw [room_one] at hroom ⊢
    omega

theorem getAmountLeft_collaterals (hfit : b.OutputsFit 2) :
    (b.withOutputs b.collaterals).getAmountLeft = .ok b.leftOver := by
  have hlen := collaterals_length (b := b)
  rw [getAmountLeft_eq (hfit.mono (by omega)), room_collaterals]

theorem leaveDust_eq (hfit : b.OutputsFit 2) (hdust : b.DustFits) :
    (b.withOutputs b.collaterals).leaveDust =
      if b.leftOver < b.dustThreshold then .ok (some (b.withOutputs b.collaterals))
      else .error .assertion := by
  have hisDust : (b.withOutputs b.collaterals).isDust b.leftOver =
      .ok (decide (b.leftOver < b.dustThreshold)) := isDust_eq (b := b) hdust _
  rw [leaveDust, getAmountLeft_collaterals hfit, ok_bind, hisDust, ok_bind, assert]
  by_cases hleft : b.leftOver < b.dustThreshold
  · rw [if_pos hleft, decide_eq_true hleft]
    rfl
  · rw [if_neg hleft, decide_eq_false hleft]
    rfl

theorem leaveDust_error (hfit : b.OutputsFit 2) (hdust : ¬b.DustFits) :
    (b.withOutputs b.collaterals).leaveDust = .error .overflow := by
  have hisDust : (b.withOutputs b.collaterals).isDust b.leftOver = .error .overflow :=
    isDust_error (b := b) hdust _
  rw [leaveDust, getAmountLeft_collaterals hfit, ok_bind, hisDust]
  rfl

/-- Outputs that leave dust, of which the first is a collateral, are all that there was with the
fee. -/
theorem collaterals_right (hfit : b.OutputsFit 2) (hroom : 0 ≤ b.room [getCollateralAmount])
    (hone : b.OneFits) (hdust : b.DustFits) (hleft : b.leftOver < b.dustThreshold) :
    (b.withOutputs b.collaterals).Collaterals := by
  have hlen := collaterals_length (b := b)
  have hrest := getAmountLeft_collaterals hfit
  have hisDust : (b.withOutputs b.collaterals).isDust b.leftOver = .ok true := by
    change b.isDust b.leftOver = .ok true
    rw [isDust_eq hdust, decide_eq_true hleft]
  have hfee : (b.withOutputs b.collaterals).wallet.getFee
      (b.withOutputs b.collaterals).getBytesTotal = .ok (b.outputsFee b.collaterals.length) := by
    rw [getBytesTotal_eq]
    exact b.wallet.getFee_eq (hfit.mono (by omega))
  refine ⟨hlen, collaterals_first hroom hone, ⟨b.leftOver, hrest, hisDust⟩, ?_⟩
  refine ⟨b.outputsFee b.collaterals.length+b.leftOver, ?_, ?_⟩
  · rw [nFeeCalc, hrest, ok_bind, hisDust, ok_bind, if_pos rfl, hfee]
    rfl
  · change b.collaterals.sum+_ = b.tallyItem.nAmount
    rw [← room_collaterals, room]
    ring

theorem not_succeeds_error {α : Type} {e : Fault} {P : α → Prop} : ¬Succeeds (.error e) P := by
  intro h
  obtain ⟨a, ha, -⟩ := h
  contradiction

/-- Once one collateral fits, the rest of the function is right under the rest of the condition. -/
theorem succeeds_addCollaterals_iff (hroom : 0 ≤ b.room [getCollateralAmount]) :
    Succeeds ((b.withOutputs []).addCollaterals >>= leaveDust)
        (fun made => ∀ b ∈ made, b.Collaterals) ↔
      b.OutputsFit 2 ∧ b.OneFits ∧ b.DustFits ∧ b.leftOver < b.dustThreshold := by
  by_cases hfit : b.OutputsFit 2
  swap
  · rw [addCollaterals_error hfit]
    exact iff_of_false not_succeeds_error fun h => hfit h.1
  rw [and_iff_right hfit, addCollaterals_eq hfit hroom]
  by_cases hone : b.OneFits
  swap
  · rw [if_neg hone]
    exact iff_of_false not_succeeds_error fun h => hone h.1
  rw [and_iff_right hone, if_pos hone, ok_bind]
  by_cases hdust : b.DustFits
  swap
  · rw [leaveDust_error hfit hdust]
    exact iff_of_false not_succeeds_error fun h => hdust h.1
  rw [and_iff_right hdust, leaveDust_eq hfit hdust]
  by_cases hleft : b.leftOver < b.dustThreshold
  swap
  · rw [if_neg hleft]
    exact iff_of_false not_succeeds_error hleft
  rw [if_pos hleft]
  refine iff_of_true (succeeds_ok fun built hbuilt => ?_) hleft
  rw [← Option.some.inj hbuilt]
  exact collaterals_right hfit hroom hone hdust hleft

theorem succeeds_makeCollaterals_iff :
    Succeeds (b.withOutputs []).makeCollaterals (fun made => ∀ b ∈ made, b.Collaterals) ↔
      b.Makes := by
  rw [makeCollaterals, couldAddOutput, Makes]
  by_cases hfit : b.OutputsFit 1
  swap
  · rw [couldAddOutputs_error (by decide) hfit]
    exact iff_of_false not_succeeds_error fun h => hfit h.1
  rw [and_iff_right hfit, couldAddOutputs_eq (by decide) hfit, ok_bind,
    List.nil_append]
  by_cases hroom : 0 ≤ b.room [getCollateralAmount]
  · rw [decide_eq_true hroom, forall_prop_of_true hroom]
    exact succeeds_addCollaterals_iff hroom
  · rw [decide_eq_false hroom]
    refine iff_of_true (succeeds_ok fun b hb => ?_) fun h => absurd h hroom
    contradiction

/-- No assertion fails and what is built is right exactly where the fees are in range, one output
is a collateral where two do not fit, and what is left over is below the threshold of dust. -/
theorem collateral_assertions_hold (fEnabled fTryDenominated : Bool) (wallet : FeeSettings)
    (tallyItem : CompactTallyItem) (nBytesBase : ℕ) :
    Succeeds (makeCollateralAmounts fEnabled fTryDenominated wallet tallyItem nBytesBase)
        (fun made => ∀ b ∈ made, b.Collaterals) ↔
      returnsEarly fEnabled fTryDenominated tallyItem = true ∨
        Makes { wallet, tallyItem, nBytesBase } := by
  rw [makeCollateralAmounts]
  by_cases hearly : returnsEarly fEnabled fTryDenominated tallyItem = true
  · rw [if_pos hearly]
    refine iff_of_true (succeeds_ok fun b hb => ?_) (Or.inl hearly)
    contradiction
  · rw [if_neg hearly, or_iff_right hearly]
    exact succeeds_makeCollaterals_iff (b := { wallet, tallyItem, nBytesBase })

/-- A rate of a hundredth of a coin, and the other settings as they are by default. -/
def highFee : FeeSettings := ⟨⟨1000⟩, ⟨1000000⟩, 10000000, ⟨10000⟩⟩

/-- What two collaterals leave no room for is too much for one. -/
theorem collateral_assertion_fails :
    ¬∀ (fEnabled fTryDenominated : Bool) (wallet : FeeSettings) (tallyItem : CompactTallyItem)
      (nBytesBase : ℕ),
      Succeeds (makeCollateralAmounts fEnabled fTryDenominated wallet tallyItem nBytesBase)
        fun made => ∀ b ∈ made, b.Collaterals := by
  intro h
  obtain ⟨made, hmade, -⟩ :=
    h true false highFee ⟨payToPublicKeyHash (List.replicate 20 0), 240000, [⟨1, 0⟩]⟩ 158
  have hfault : makeCollateralAmounts true false highFee
      ⟨payToPublicKeyHash (List.replicate 20 0), 240000, [⟨1, 0⟩]⟩ 158 = .error .assertion := by
    decide +kernel
  rw [hfault] at hmade
  contradiction

end CTransactionBuilder
end BabaChain.CoinJoin
