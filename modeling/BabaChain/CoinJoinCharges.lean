import BabaChain.CoinJoinServer

/-! The collaterals that a masternode charges for a session that did not come to its end. -/
namespace BabaChain.CoinJoin
namespace CCoinJoinServer

/-- What is drawn at random: two numbers below a hundred, and an order. -/
structure Draws where
  first : ℕ
  second : ℕ
  shuffle : List CMutableTransaction → List CMutableTransaction
  perm : ∀ l, (shuffle l).Perm l

-- `getHash` is the hash by which two collaterals are compared
variable (getHash : CMutableTransaction → uint256) (s : CCoinJoinServer) (draws : Draws)

/-- The collaterals for which no entry was sent, and those of the entries with an input that is not
signed, one for each such input. -/
def offendersCollaterals : List CMutableTransaction :=
  match s.nState with
  | .ACCEPTING_ENTRIES => s.vecSessionCollaterals.filter fun txCollateral =>
      !s.vecEntries.any fun entry => getHash entry.txCollateral == getHash txCollateral
  | .SIGNING => s.vecEntries.flatMap fun entry =>
      (entry.vecTxDSIn.filter fun txdsin => !txdsin.fHasSig).map fun _ => entry.txCollateral
  | _ => []

/-- `ChargeFees`, with the collateral that is consumed. One less than the number of participants
wraps around where there are none, and then nobody is charged either way. -/
def chargeFees : Option CMutableTransaction :=
  let vecOffendersCollaterals := s.offendersCollaterals getHash
  if 33 < draws.first then none
  else if vecOffendersCollaterals = [] then none
  else if s.vecSessionCollaterals.length-1 ≤ vecOffendersCollaterals.length ∧ 33 < draws.second then
    none
  else if s.vecSessionCollaterals.length ≤ vecOffendersCollaterals.length then none
  else (draws.shuffle vecOffendersCollaterals).head?

/-! ### Offenders -/

/-- A collateral of a participant who did not send an entry, or did not sign all its inputs. -/
def Offender (txCollateral : CMutableTransaction) : Prop :=
  match s.nState with
  | .ACCEPTING_ENTRIES => txCollateral ∈ s.vecSessionCollaterals ∧
      ∀ entry ∈ s.vecEntries, getHash entry.txCollateral ≠ getHash txCollateral
  | .SIGNING => ∃ entry ∈ s.vecEntries, entry.txCollateral = txCollateral ∧
      ∃ txdsin ∈ entry.vecTxDSIn, txdsin.fHasSig = false
  | _ => False

/-- Some participant did send its entry, or sign all its inputs. -/
def SomeoneKept : Prop :=
  match s.nState with
  | .ACCEPTING_ENTRIES => ∃ txCollateral ∈ s.vecSessionCollaterals,
      ∃ entry ∈ s.vecEntries, getHash entry.txCollateral = getHash txCollateral
  | .SIGNING => ∃ entry ∈ s.vecEntries, ∀ txdsin ∈ entry.vecTxDSIn, txdsin.fHasSig = true
  | _ => False

/-- The inputs of the entries that are not signed. -/
def unsignedInputs : ℕ := s.inputs.countP fun txdsin => !txdsin.fHasSig

/-- The two tests that let most offenders off. -/
def Draws.Pass : Prop :=
  draws.first ≤ 33 ∧ (s.vecSessionCollaterals.length-1 ≤ (s.offendersCollaterals getHash).length →
    draws.second ≤ 33)

/-- An offender is charged, and nobody else: one whenever the draws let it, where there are both
offenders and others. -/
structure ChargesOffenders : Prop where
  offender : ∀ draws txCollateral, s.chargeFees getHash draws = some txCollateral →
    s.Offender getHash txCollateral
  charged : (∃ txCollateral, s.Offender getHash txCollateral) → s.SomeoneKept getHash →
    ∀ draws : Draws, draws.Pass getHash s → (s.chargeFees getHash draws).isSome

variable {getHash s draws}

theorem mem_offendersCollaterals {txCollateral : CMutableTransaction} :
    txCollateral ∈ s.offendersCollaterals getHash ↔ s.Offender getHash txCollateral := by
  unfold offendersCollaterals Offender
  cases s.nState with
  | ACCEPTING_ENTRIES => simp
  | SIGNING =>
    simp only [List.mem_flatMap, List.mem_map, List.mem_filter, Bool.not_eq_true']
    refine exists_congr fun entry => and_congr_right fun _ => ?_
    constructor
    · intro h
      obtain ⟨txdsin, hunsigned, htx⟩ := h
      exact ⟨htx, txdsin, hunsigned⟩
    · intro h
      obtain ⟨htx, txdsin, hunsigned⟩ := h
      exact ⟨txdsin, hunsigned, htx⟩
  | _ => simp

theorem offender_of_charged {txCollateral : CMutableTransaction}
    (h : s.chargeFees getHash draws = some txCollateral) : s.Offender getHash txCollateral := by
  unfold chargeFees at h
  dsimp only at h
  split_ifs at h
  have hmem := List.mem_of_head? h
  exact mem_offendersCollaterals.mp ((draws.perm _).mem_iff.mp hmem)

/-- Where the draws pass and somebody has offended, only the number of offences matters. -/
theorem isSome_chargeFees (hpass : draws.Pass getHash s)
    (hoffender : ∃ txCollateral, s.Offender getHash txCollateral) :
    (s.chargeFees getHash draws).isSome ↔
      (s.offendersCollaterals getHash).length < s.vecSessionCollaterals.length := by
  obtain ⟨txCollateral, hoffender⟩ := hoffender
  have hmem := mem_offendersCollaterals.mpr hoffender
  have hne : s.offendersCollaterals getHash ≠ [] := List.ne_nil_of_mem hmem
  have hsecond : ¬(s.vecSessionCollaterals.length-1 ≤ (s.offendersCollaterals getHash).length ∧
      33 < draws.second) := fun h => absurd (hpass.2 h.1) (Nat.not_le.mpr h.2)
  unfold chargeFees
  dsimp only
  rw [if_neg (Nat.not_lt.mpr hpass.1), if_neg hne, if_neg hsecond]
  split_ifs with hall
  · exact iff_of_false Bool.false_ne_true (Nat.not_lt.mpr hall)
  · refine iff_of_true ?_ (Nat.not_le.mp hall)
    have hshuffled : txCollateral ∈ draws.shuffle (s.offendersCollaterals getHash) :=
      (draws.perm _).mem_iff.mpr hmem
    rw [List.isSome_head?]
    exact List.ne_nil_of_mem hshuffled

/-- While entries are accepted, one that was sent leaves fewer offenders than participants. -/
theorem length_offenders_lt (hstate : s.nState = .ACCEPTING_ENTRIES)
    (hkept : s.SomeoneKept getHash) :
    (s.offendersCollaterals getHash).length < s.vecSessionCollaterals.length := by
  unfold SomeoneKept at hkept
  unfold offendersCollaterals
  rw [hstate] at hkept ⊢
  dsimp only at hkept ⊢
  obtain ⟨txCollateral, hmem, entry, hentry, hhash⟩ := hkept
  apply List.length_filter_lt_length_iff_exists.mpr
  refine ⟨txCollateral, hmem, ?_⟩
  simp only [Bool.not_eq_true', Bool.not_eq_false, List.any_eq_true, beq_iff_eq]
  exact ⟨entry, hentry, hhash⟩

variable (getHash) in
theorem length_offenders_signing (hstate : s.nState = .SIGNING) :
    (s.offendersCollaterals getHash).length = s.unsignedInputs := by
  unfold offendersCollaterals unsignedInputs inputs
  rw [hstate]
  dsimp only
  rw [List.length_flatMap, List.countP_flatMap]
  simp only [List.length_map, List.countP_eq_length_filter, Function.comp_def]

/-- Nobody is charged while entries are accepted who is not to be, and while signatures are
collected somebody is unless there are as many inputs without one as participants. -/
theorem charge_fees_iff (hstate : s.nState = .ACCEPTING_ENTRIES ∨ s.nState = .SIGNING) :
    s.ChargesOffenders getHash ↔
      (s.nState = .SIGNING → (∃ txCollateral, s.Offender getHash txCollateral) →
        s.SomeoneKept getHash → s.unsignedInputs < s.vecSessionCollaterals.length) := by
  constructor
  · intro h hsigning hoffender hkept
    let draws : Draws := ⟨0, 0, id, fun l => List.Perm.refl l⟩
    have hpass : draws.Pass getHash s := ⟨Nat.zero_le _, fun _ => Nat.zero_le _⟩
    rw [← length_offenders_signing getHash hsigning]
    exact (isSome_chargeFees hpass hoffender).mp (h.charged hoffender hkept draws hpass)
  · intro h
    refine ⟨fun draws txCollateral => offender_of_charged, ?_⟩
    intro hoffender hkept draws hpass
    rw [isSome_chargeFees hpass hoffender]
    rcases hstate with haccepting | hsigning
    · exact length_offenders_lt haccepting hkept
    · rw [length_offenders_signing getHash hsigning]
      exact h hsigning hoffender hkept

/-! ### Two users -/

/-- A session of two users. The first has signed its input, and the other none of its inputs. -/
def halfSigned (n : ℕ) : CCoinJoinServer where
  nState := .SIGNING
  vecEntries :=
    [ ⟨[{prevout := ⟨1, 0⟩, fHasSig := true}], [], {nVersion := 1}, 1⟩,
      ⟨List.replicate n {prevout := ⟨2, 0⟩}, [], {nVersion := 2}, 2⟩ ]
  vecSessionCollaterals := [{nVersion := 1}, {nVersion := 2}]

theorem charge_fees_iff_one :
    (halfSigned 1).ChargesOffenders fun tx => (tx.nVersion.setWidth 256 : uint256) :=
  (charge_fees_iff (Or.inr rfl)).mpr fun _ _ _ => by decide

/-- Where the other user has two inputs, it is never charged. -/
theorem two_unsigned_not_charged :
    ¬∀ s : CCoinJoinServer, s.nState = .ACCEPTING_ENTRIES ∨ s.nState = .SIGNING →
      2 ≤ s.vecSessionCollaterals.length →
        s.ChargesOffenders fun tx => (tx.nVersion.setWidth 256 : uint256) := by
  intro hall
  have hcharges := hall (halfSigned 2) (Or.inr rfl) (le_refl 2)
  have hoffender : ∃ txCollateral, (halfSigned 2).Offender
      (fun tx => (tx.nVersion.setWidth 256 : uint256)) txCollateral :=
    ⟨_, _, List.mem_cons_of_mem _ List.mem_cons_self, rfl, _, List.mem_cons_self, rfl⟩
  have hkept : (halfSigned 2).SomeoneKept fun tx => (tx.nVersion.setWidth 256 : uint256) :=
    ⟨_, List.mem_cons_self, by decide⟩
  have hcharged := hcharges.charged hoffender hkept ⟨0, 0, id, fun l => List.Perm.refl l⟩
    ⟨Nat.zero_le _, fun _ => Nat.zero_le _⟩
  exact absurd hcharged (by decide)

end CCoinJoinServer
end BabaChain.CoinJoin
