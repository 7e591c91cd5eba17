import BabaChain.GovernanceSigning
import BabaChain.GovernanceTallies

/-! A masternode votes for one trigger at most for each superblock, and is free to vote again when
its superblock has come. -/
namespace BabaChain.Governance.Signing
open MachineInt Runs
open Std (ExtTreeMap)

variable {G : Type*}

/-! ### Superblock heights -/

section Heights
variable (p : SuperblockParams)

theorem isValidBlockHeight_iff {p : SuperblockParams} {nBlockHeight : ℤ} :
    isValidBlockHeight p nBlockHeight = true ↔
      (p.nSuperblockStartBlock : ℤ) ≤ nBlockHeight ∧ (p.nSuperblockCycle : ℤ) ∣ nBlockHeight := by
  unfold isValidBlockHeight
  rw [Bool.and_eq_true_iff, decide_eq_true_eq, beq_iff_eq, Int.dvd_iff_tmod_eq_zero]

/-- The heights of the superblocks after a block. -/
def superblocksAfter (nBlockHeight : ℤ) : Set ℤ :=
  {u | nBlockHeight < u ∧ isValidBlockHeight p u = true}

/-- A multiple of the cycle less than one cycle away from a bound is the least one. -/
theorem le_of_dvd {cycle bound a u : ℤ} (ha : cycle ∣ a) (hu : cycle ∣ u)
    (hnear : a < bound+cycle) (hbound : bound ≤ u) : a ≤ u := by
  by_contra hless
  have hle : cycle ≤ a-u := Int.le_of_dvd (by omega) (Int.dvd_sub ha hu)
  omega

/-- The first superblock. -/
theorem firstSuperblock (start cycle : ℤ) (hcycle : 0 < cycle) :
    let first := start+(cycle-start.tmod cycle).tmod cycle
    cycle ∣ first ∧ start ≤ first ∧ first < start+cycle := by
  intro first
  have hlow := Int.lt_tmod_of_pos start hcycle
  have hhigh := Int.tmod_lt_of_pos start hcycle
  have hrest : (cycle-start.tmod cycle).tmod cycle = (cycle-start.tmod cycle) % cycle :=
    Int.tmod_eq_emod_of_nonneg (by omega)
  have hnonneg := Int.emod_nonneg (cycle-start.tmod cycle) hcycle.ne'
  have hless := Int.emod_lt_of_pos (cycle-start.tmod cycle) hcycle
  have hstart := Int.mul_tdiv_add_tmod start cycle
  have hoffset := Int.mul_ediv_add_emod (cycle-start.tmod cycle) cycle
  refine ⟨⟨start.tdiv cycle+1-(cycle-start.tmod cycle) / cycle, ?_⟩, ?_, ?_⟩
  · show start+(cycle-start.tmod cycle).tmod cycle = _
    rw [hrest]
    linear_combination hoffset-hstart
  · show start ≤ start+(cycle-start.tmod cycle).tmod cycle
    omega
  · show start+(cycle-start.tmod cycle).tmod cycle < start+cycle
    omega

/-- The next superblock is the first one after the block, wherever triggers are made. -/
theorem next_isLeast {nBlockHeight : ℤ} (h : 0 < nBlockHeight.tmod p.nSuperblockCycle) :
    IsLeast (superblocksAfter p nBlockHeight) (getNearestSuperblocksHeights p nBlockHeight).2 := by
  obtain ⟨hdvd, hstart, hnear⟩ :=
    firstSuperblock p.nSuperblockStartBlock p.nSuperblockCycle p.cycle_pos
  have hcycle := p.cycle_pos
  unfold getNearestSuperblocksHeights superblocksAfter
  dsimp only
  by_cases hfirst : nBlockHeight <
      p.nSuperblockStartBlock+(p.nSuperblockCycle-
        (p.nSuperblockStartBlock : ℤ).tmod p.nSuperblockCycle).tmod p.nSuperblockCycle
  · rw [if_pos hfirst]
    refine ⟨⟨hfirst, isValidBlockHeight_iff.mpr ⟨hstart, hdvd⟩⟩, fun u hu => ?_⟩
    obtain ⟨hbound, hmul⟩ := isValidBlockHeight_iff.mp hu.2
    exact le_of_dvd hdvd hmul hnear hbound
  · rw [if_neg hfirst]
    dsimp only
    have hless := Int.tmod_lt_of_pos nBlockHeight hcycle
    have hlast : (p.nSuperblockCycle : ℤ) ∣
        nBlockHeight-nBlockHeight.tmod p.nSuperblockCycle+p.nSuperblockCycle := by
      refine Int.dvd_add ⟨nBlockHeight.tdiv p.nSuperblockCycle, ?_⟩ (Int.dvd_refl _)
      linear_combination -(Int.mul_tdiv_add_tmod nBlockHeight p.nSuperblockCycle)
    refine ⟨⟨by omega, isValidBlockHeight_iff.mpr ⟨by omega, hlast⟩⟩, fun u hu => ?_⟩
    obtain ⟨-, hmul⟩ := isValidBlockHeight_iff.mp hu.2
    have hbound : nBlockHeight ≤ u := hu.1.le
    exact le_of_dvd hlast hmul (by omega) hbound

end Heights

/-! ### One update -/

variable (p : SignerParams G)

/-- The height of a trigger's superblock. -/
def SignerParams.heightOf (trigger : CGovernanceObject) : Option ℤ :=
  p.format.event_block_height trigger.vchData

/-- An object with the data hash of the candidate has its data. -/
def NoCollision (s : Masternode) (tip : Tip G) : Prop :=
  ∀ superblock, createSuperblockCandidate p s.signer tip = some superblock →
    ∀ (nHash : uint256) (govobj : CGovernanceObject),
      tip.atTrigger.mapObjects[nHash]? = some govobj →
        govobj.getDataHash p.checks.sha256d =
            (triggerOf p tip superblock).getDataHash p.checks.sha256d →
          govobj.vchData = strData p.format.encodeScript superblock

variable {p} {signer : GovernanceSigner} {tip : Tip G} {superblock : CSuperblock}

theorem createSuperblockCandidate_spec
    (h : createSuperblockCandidate p signer tip = some superblock) :
    signer.votedFundingYesTrigger = none ∧ 0 < tip.nHeight.tmod p.nSuperblockCycle ∧
      superblock.nBlockHeight =
        (getNearestSuperblocksHeights p.toSuperblockParams tip.nHeight).2 := by
  unfold createSuperblockCandidate at h
  dsimp only at h
  split_ifs at h with hvalid hsynced hwindow hvoted hproposals
  obtain ⟨governanceBudget, -, h⟩ := Option.bind_eq_some_iff.mp h
  split_ifs at h
  obtain rfl := Option.some.inj h
  have hlt := p.window_lt
  refine ⟨?_, by omega, rfl⟩
  rwa [Bool.not_eq_true, GovernanceSigner.hasAlreadyVotedFundingTrigger,
    Option.isSome_eq_false_iff, Option.isNone_iff_eq_none] at hvoted

theorem findGovernanceObjectByDataHash_spec {gov : GovernanceView G} {nDataHash : uint256}
    {govobj : CGovernanceObject}
    (h : gov.findGovernanceObjectByDataHash p nDataHash = some govobj) :
    (∃ nHash : uint256, gov.mapObjects[nHash]? = some govobj) ∧
      govobj.getDataHash p.checks.sha256d = nDataHash := by
  unfold GovernanceView.findGovernanceObjectByDataHash at h
  have hfound := List.find?_some h
  obtain ⟨item, hitem, rfl⟩ := List.mem_map.mp (List.mem_of_find?_eq_some h)
  exact ⟨⟨item.1, OrdMap.mem_toList hitem⟩, of_decide_eq_true hfound⟩

/-- A trigger has the data of the candidate. -/
theorem createGovernanceTrigger_spec {s : Masternode} {trigger : CGovernanceObject} {new : Bool}
    (hdata : NoCollision p s tip)
    (h : createGovernanceTrigger p tip (createSuperblockCandidate p s.signer tip) =
      some (trigger, new)) :
    ∃ superblock, createSuperblockCandidate p s.signer tip = some superblock ∧
      trigger.vchData = strData p.format.encodeScript superblock := by
  unfold createGovernanceTrigger at h
  obtain ⟨superblock, hcandidate, h⟩ := Option.bind_eq_some_iff.mp h
  refine ⟨superblock, hcandidate, ?_⟩
  dsimp only at h
  cases hfind : tip.atTrigger.findGovernanceObjectByDataHash p
      ((triggerOf p tip superblock).getDataHash p.checks.sha256d) with
  | some identical_sb =>
    rw [hfind] at h
    obtain ⟨rfl, -⟩ := Prod.mk.inj (Option.some.inj h)
    obtain ⟨⟨nHash, hget⟩, hhash⟩ := findGovernanceObjectByDataHash_spec hfind
    exact hdata superblock hcandidate nHash _ hget hhash
  | none =>
    rw [hfind] at h
    dsimp only at h
    cases hpayees : tip.mn_payees with
    | nil =>
      rw [hpayees] at h
      cases h
    | cons payee payees =>
      rw [hpayees] at h
      dsimp only at h
      split_ifs at h
      obtain ⟨rfl, -⟩ := Prod.mk.inj (Option.some.inj h)
      rfl

/-- What the votes at a tip do to the signer: nothing, or they set its trigger. -/
theorem voteGovernanceTriggers_cases {trigger_opt : Option CGovernanceObject}
    (hfree : trigger_opt.isSome = true → signer.votedFundingYesTrigger = none) :
    (voteGovernanceTriggers p signer tip trigger_opt).1.assertion = true ∧
      ((voteGovernanceTriggers p signer tip trigger_opt).1.votedYes = none ∧
          (voteGovernanceTriggers p signer tip trigger_opt).2 = signer ∨
        ∃ trigger, trigger_opt = some trigger ∧
          (voteGovernanceTriggers p signer tip trigger_opt).2 = ⟨some trigger⟩ ∧
            ((voteGovernanceTriggers p signer tip trigger_opt).1.votedYes = none ∨
              (voteGovernanceTriggers p signer tip trigger_opt).1.votedYes = some trigger)) := by
  unfold voteGovernanceTriggers
  by_cases hnull : tip.proTxHash = 0
  · rw [if_pos hnull]
    exact ⟨rfl, Or.inl ⟨rfl, rfl⟩⟩
  rw [if_neg hnull]
  cases trigger_opt with
  | none => exact ⟨rfl, Or.inl ⟨rfl, rfl⟩⟩
  | some trigger =>
    have hnot : ¬signer.hasAlreadyVotedFundingTrigger = true := by
      rw [GovernanceSigner.hasAlreadyVotedFundingTrigger, hfree rfl]
      exact Bool.false_ne_true
    dsimp only
    rw [if_neg hnot]
    cases trigger.fundingInstance tip.outpoint with
    | some voteInstance =>
      dsimp only
      split_ifs
      · exact ⟨rfl, Or.inr ⟨trigger, rfl, rfl, Or.inl rfl⟩⟩
      · exact ⟨rfl, Or.inl ⟨rfl, rfl⟩⟩
    | none =>
      dsimp only
      split_ifs
      · exact ⟨rfl, Or.inr ⟨trigger, rfl, rfl, Or.inr rfl⟩⟩
      · exact ⟨rfl, Or.inl ⟨rfl, rfl⟩⟩

/-- Some active trigger for the height of the tip has more votes for it than against it. -/
def HasWinner (p : SignerParams G) (tip : Tip G) : Prop :=
  isValidBlockHeight p.toSuperblockParams tip.nHeight = true ∧
    ∃ pSuperblock ∈ tip.atBest.triggerState.getActiveTriggers,
      TriggerState.isCandidate (tip.atBest.env p) tip.atBest.triggerState.mapObjects tip.nHeight
        pSuperblock = true

theorem getBestSuperblock_isSome :
    (tip.atBest.getBestSuperblock p tip.nHeight).isSome = true ↔ HasWinner p tip := by
  unfold GovernanceView.getBestSuperblock HasWinner
  rw [TriggerState.getBestSuperblock_eq]
  split_ifs with hvalid
  · rw [TriggerState.bestTrigger, Option.isSome_iff_ne_none, ne_eq, List.argmax_eq_none,
      List.filter_eq_nil_iff]
    push Not
    exact (and_iff_right hvalid).symm
  · exact iff_of_false Bool.false_ne_true fun h => hvalid h.1

variable {s : Masternode}

theorem step_signer :
    (step p s tip).2.signer =
      if (tip.atBest.getBestSuperblock p tip.nHeight).isSome then {}
      else (voteGovernanceTriggers p s.signer tip
        ((createGovernanceTrigger p tip (createSuperblockCandidate p s.signer tip)).map
          Prod.fst)).2 := by
  unfold step updatedBlockTip
  dsimp only
  split_ifs <;> rfl

theorem step_votedYes :
    (step p s tip).2.votedYes =
      (voteGovernanceTriggers p s.signer tip
        ((createGovernanceTrigger p tip (createSuperblockCandidate p s.signer tip)).map
          Prod.fst)).1.votedYes.toList ++ s.votedYes := by
  unfold step updatedBlockTip
  dsimp only
  split_ifs <;> rfl

/-- There is a trigger only if none has been voted for. -/
theorem free_of_trigger
    (h : ((createGovernanceTrigger p tip (createSuperblockCandidate p signer tip)).map
      Prod.fst).isSome = true) : signer.votedFundingYesTrigger = none := by
  rw [Option.isSome_map] at h
  obtain ⟨made, hmade⟩ := Option.isSome_iff_exists.mp h
  obtain ⟨superblock, hcandidate, -⟩ := Option.bind_eq_some_iff.mp hmade
  exact (createSuperblockCandidate_spec hcandidate).1

/-- The assertion holds at every tip. -/
theorem step_assertion (s : Masternode) (tip : Tip G) :
    (step p s tip).1.assertion = true := by
  unfold step updatedBlockTip
  dsimp only
  split_ifs
  · exact (voteGovernanceTriggers_cases free_of_trigger).1
  · exact (voteGovernanceTriggers_cases free_of_trigger).1

/-- What a tip does: the trigger stays unless there is a winner, or there was none and one is set,
which is for the next superblock. -/
theorem step_cases (hdata : NoCollision p s tip) :
    ((step p s tip).2.votedYes = s.votedYes ∧
        (HasWinner p tip ∧ (step p s tip).2.signer = {} ∨
          ¬HasWinner p tip ∧ (step p s tip).2.signer = s.signer)) ∨
      (s.signer.votedFundingYesTrigger = none ∧ ∃ trigger nBlockHeight,
        p.heightOf trigger = some nBlockHeight ∧
          IsLeast (superblocksAfter p.toSuperblockParams tip.nHeight) nBlockHeight ∧
            (step p s tip).2.signer = ⟨some trigger⟩ ∧
              ((step p s tip).2.votedYes = s.votedYes ∨
                (step p s tip).2.votedYes = trigger :: s.votedYes)) := by
  rw [step_votedYes, step_signer]
  rcases (voteGovernanceTriggers_cases free_of_trigger).2 with
      ⟨hnone, hsame⟩ | ⟨trigger, hmade, hset, hyes⟩
  · left
    rw [hnone, hsame]
    refine ⟨rfl, ?_⟩
    by_cases hwinner : HasWinner p tip
    · rw [if_pos (getBestSuperblock_isSome.mpr hwinner)]
      exact Or.inl ⟨hwinner, rfl⟩
    · rw [if_neg fun hbest => hwinner (getBestSuperblock_isSome.mp hbest)]
      exact Or.inr ⟨hwinner, rfl⟩
  · right
    obtain ⟨⟨made, new⟩, hnew, rfl⟩ := Option.map_eq_some_iff.mp hmade
    obtain ⟨superblock, hcandidate, htext⟩ := createGovernanceTrigger_spec hdata hnew
    obtain ⟨hnone, hrest, hheight⟩ := createSuperblockCandidate_spec hcandidate
    have hlater : ¬HasWinner p tip := by
      intro hwinner
      have hdvd := (isValidBlockHeight_iff.mp hwinner.1).2
      rw [Int.dvd_iff_tmod_eq_zero] at hdvd
      omega
    rw [if_neg fun hbest => hlater (getBestSuperblock_isSome.mp hbest), hset]
    refine ⟨hnone, made, superblock.nBlockHeight, ?_, ?_, rfl, ?_⟩
    · rw [SignerParams.heightOf, htext]
      exact p.format.reads_back superblock
    · rw [hheight]
      exact next_isLeast p.toSuperblockParams hrest
    · rcases hyes with hyes | hyes
      · rw [hyes]
        exact Or.inl rfl
      · rw [hyes]
        exact Or.inr rfl

/-! ### Runs -/

/-- The triggers voted for are for different superblocks, none of which is after the next one; all
have come if the signer is free. -/
structure Keeps (p : SignerParams G) (s : Masternode) : Prop where
  due : ∀ trigger, (trigger ∈ s.votedYes ∨ s.signer.votedFundingYesTrigger = some trigger) →
    ∃ nBlockHeight, p.heightOf trigger = some nBlockHeight ∧
      nBlockHeight ∈ lowerBounds (superblocksAfter p.toSuperblockParams s.nHeight)
  come : s.signer.votedFundingYesTrigger = none → ∀ trigger ∈ s.votedYes, ∀ nBlockHeight,
    p.heightOf trigger = some nBlockHeight → nBlockHeight ≤ s.nHeight
  different : s.votedYes.Pairwise fun a b => p.heightOf a ≠ p.heightOf b

/-- The superblock of the trigger that the signer has voted for has not come yet. -/
def Pending (p : SignerParams G) (s : Masternode) : Prop :=
  ∀ trigger, s.signer.votedFundingYesTrigger = some trigger →
    ∃ nBlockHeight, p.heightOf trigger = some nBlockHeight ∧ s.nHeight < nBlockHeight

/-- The chain grows, and no other object has the data hash of the candidate. -/
structure Fits (p : SignerParams G) (s : Masternode) (tip : Tip G) : Prop where
  grows : s.nHeight < tip.nHeight
  data : NoCollision p s tip

/-- If the superblock of the signer's trigger has come, there is a winner. -/
def Decided (p : SignerParams G) (s : Masternode) (tip : Tip G) : Prop :=
  ∀ trigger nBlockHeight, s.signer.votedFundingYesTrigger = some trigger →
    p.heightOf trigger = some nBlockHeight → nBlockHeight ≤ tip.nHeight → HasWinner p tip

theorem superblocksAfter_subset {p : SuperblockParams} {a b : ℤ} (h : a < b) :
    superblocksAfter p b ⊆ superblocksAfter p a :=
  fun _ hu => ⟨h.trans hu.1, hu.2⟩

theorem step_nHeight : (step p s tip).2.nHeight = tip.nHeight := rfl

theorem Keeps.step (h : Keeps p s) (hfits : Fits p s tip) : Keeps p (step p s tip).2 := by
  have hsub := superblocksAfter_subset (p := p.toSuperblockParams) hfits.grows
  have hold : ∀ trigger, (trigger ∈ s.votedYes ∨ s.signer.votedFundingYesTrigger = some trigger) →
      ∃ nBlockHeight, p.heightOf trigger = some nBlockHeight ∧
        nBlockHeight ∈ lowerBounds (superblocksAfter p.toSuperblockParams tip.nHeight) := by
    intro trigger htrigger
    obtain ⟨nBlockHeight, hheight, hbound⟩ := h.due trigger htrigger
    exact ⟨nBlockHeight, hheight, lowerBounds_mono_set hsub hbound⟩
  rcases step_cases hfits.data with ⟨hvoted, hsigner⟩ |
      ⟨hfree, trigger, nBlockHeight, hheight, hleast, hsigner, hvoted⟩
  · rcases hsigner with ⟨hwinner, hsigner⟩ | ⟨-, hsigner⟩
    · refine ⟨?_, ?_, hvoted ▸ h.different⟩
      · rw [hvoted, hsigner, step_nHeight]
        exact fun trigger htrigger => hold trigger (Or.inl (htrigger.resolve_right nofun))
      · -- the next superblock after the last tip is not after this one
        rw [hvoted, step_nHeight]
        intro _ trigger hmem nBlockHeight hheight
        obtain ⟨bound, hbound, hlower⟩ := h.due trigger (Or.inl hmem)
        obtain rfl := Option.some.inj (hbound.symm.trans hheight)
        exact hlower ⟨hfits.grows, hwinner.1⟩
    · refine ⟨?_, ?_, hvoted ▸ h.different⟩
      · rw [hvoted, hsigner, step_nHeight]
        exact hold
      · rw [hvoted, hsigner, step_nHeight]
        intro hnone trigger hmem nBlockHeight hheight
        exact (h.come hnone trigger hmem nBlockHeight hheight).trans hfits.grows.le
  · have hnew : ∀ old ∈ s.votedYes, p.heightOf trigger ≠ p.heightOf old := by
      intro old hmem hsame
      have hpast := h.come hfree old hmem nBlockHeight (hsame.symm.trans hheight)
      have hnext := hleast.1.1
      have hgrows := hfits.grows
      omega
    have hself : ∀ other, other = trigger → ∃ nBlockHeight,
        p.heightOf other = some nBlockHeight ∧
          nBlockHeight ∈ lowerBounds (superblocksAfter p.toSuperblockParams tip.nHeight) := by
      rintro other rfl
      exact ⟨nBlockHeight, hheight, hleast.2⟩
    refine ⟨?_, ?_, ?_⟩
    · rw [hsigner, step_nHeight]
      intro other hother
      rcases hother with hmem | hset
      · rcases hvoted with hvoted | hvoted
        · exact hold other (Or.inl (hvoted ▸ hmem))
        · rw [hvoted, List.mem_cons] at hmem
          rcases hmem with hmem | hmem
          · exact hself other hmem
          · exact hold other (Or.inl hmem)
      · exact hself other (Option.some.inj hset).symm
    · rw [hsigner]
      exact nofun
    · rcases hvoted with hvoted | hvoted
      · exact hvoted ▸ h.different
      · rw [hvoted, List.pairwise_cons]
        exact ⟨hnew, h.different⟩

theorem keeps_init : Keeps p {} where
  due _ htrigger := htrigger.elim (fun hmem => absurd hmem List.not_mem_nil) nofun
  come _ _ hmem := absurd hmem List.not_mem_nil
  different := List.Pairwise.nil

theorem Pending.step (h : Pending p s) (hfits : Fits p s tip) (hdecided : Decided p s tip) :
    Pending p (step p s tip).2 := by
  intro trigger hset
  rw [step_nHeight]
  rcases step_cases hfits.data with ⟨-, ⟨-, hsigner⟩ | ⟨hnone, hsigner⟩⟩ |
      ⟨-, made, nBlockHeight, hheight, hleast, hsigner, -⟩
  · rw [hsigner] at hset
    cases hset
  · rw [hsigner] at hset
    obtain ⟨nBlockHeight, hheight, -⟩ := h trigger hset
    refine ⟨nBlockHeight, hheight, ?_⟩
    by_contra hcome
    exact hnone (hdecided trigger nBlockHeight hset hheight (not_lt.mp hcome))
  · rw [hsigner] at hset
    obtain rfl := Option.some.inj hset
    exact ⟨nBlockHeight, hheight, hleast.1.1⟩

theorem pending_init : Pending p {} := by
  intro trigger hset
  cases hset

/-- A trigger whose superblock comes without a winner stays. -/
theorem not_pending_step (hfits : Fits p s tip) (hnot : ¬Decided p s tip) :
    ¬Pending p (step p s tip).2 := by
  unfold Decided at hnot
  push Not at hnot
  obtain ⟨trigger, nBlockHeight, hset, hheight, hcome, hnone⟩ := hnot
  intro hpending
  rcases step_cases hfits.data with ⟨-, ⟨hwinner, -⟩ | ⟨-, hsigner⟩⟩ | ⟨hfree, -⟩
  · exact hnone hwinner
  · obtain ⟨bound, hbound, hless⟩ := hpending trigger (hsigner ▸ hset)
    obtain rfl := Option.some.inj (hbound.symm.trans hheight)
    rw [step_nHeight] at hless
    exact absurd hcome (not_le.mpr hless)
  · rw [hfree] at hset
    cases hset

/-- Along every chain a masternode votes for triggers of different superblocks and its assertion
holds; and it waits only for superblocks to come exactly when each superblock that it waits for has
a winner when it comes. -/
theorem trigger_votes (p : SignerParams G) {tips : List (Tip G)}
    (hrun : EveryStep (step p) (Fits p) {} tips) :
    (final (step p) {} tips).votedYes.Pairwise (fun a b => p.heightOf a ≠ p.heightOf b) ∧
      EveryStep (step p) (fun s tip => (step p s tip).1.assertion = true) {} tips ∧
        ((∀ past, past <+: tips → Pending p (final (step p) {} past)) ↔
          EveryStep (step p) (Decided p) {} tips) := by
  refine ⟨?_, ?_, ?_⟩
  · exact (final_invariant (Keeps p) (fun s tip h hfits => h.step hfits) keeps_init hrun).different
  · exact everyStep_of_invariant (fun _ => True)
      (fun s tip _ _ => ⟨step_assertion s tip, trivial⟩) trivial
      (everyStep_true ({} : Masternode) tips)
  · exact forall_prefix_iff_of (Pending p) (Pending p) (fun _ h => h)
      (fun s tip h hfits hdecided => h.step hfits hdecided)
      (fun s tip _ hfits hnot => not_pending_step hfits hnot) pending_init hrun

/-! ### A trigger without a winner -/

section Samples

def charsOf (bytes : List UInt8) : List Char := bytes.map fun byte => Char.ofNat byte.toNat

def parseDecimal : List Char → ℤ
  | '-' :: digits => -(Nat.ofDigitChars 10 digits 0 : ℕ)
  | digits => (Nat.ofDigitChars 10 digits 0 : ℕ)

/-- The number between the first key and the first comma. -/
def readHeight (data : List UInt8) : Option ℤ :=
  some (parseDecimal (charsOf ((data.drop 23).takeWhile (· ≠ 44))))

theorem isDigit_of_mem {n : ℕ} {c : Char} (hmem : c ∈ Nat.toDigits 10 n) :
    48 ≤ c.toNat ∧ c.toNat ≤ 57 := by
  have hdigit := Nat.isDigit_of_mem_toDigits (by decide) le_rfl hmem
  simpa [Char.isDigit, UInt32.le_iff_toNat_le] using hdigit

theorem small_of_mem_decimal {n : ℤ} {c : Char} (hmem : c ∈ decimal n) :
    c.toNat < 256 ∧ c.toNat ≠ 44 := by
  cases n with
  | ofNat n =>
    have hdigit := isDigit_of_mem hmem
    omega
  | negSucc n =>
    rw [decimal, List.mem_cons] at hmem
    rcases hmem with rfl | hmem
    · decide
    · have hdigit := isDigit_of_mem hmem
      omega

theorem parseDecimal_decimal (n : ℤ) : parseDecimal (decimal n) = n := by
  cases n with
  | ofNat n =>
    rw [decimal]
    unfold parseDecimal
    split
    · rename_i digits hminus
      have hdigit := isDigit_of_mem (hminus ▸ List.mem_cons_self)
      exact absurd hdigit.1 (by decide)
    · rw [Nat.ofDigitChars_ten_toDigits]
      rfl
  | negSucc n =>
    rw [decimal, parseDecimal, Nat.ofDigitChars_ten_toDigits]
    rfl

theorem charsOf_bytesOf {text : List Char} (h : ∀ c ∈ text, c.toNat < 256) :
    charsOf (bytesOf text) = text := by
  induction text with
  | nil => rfl
  | cons c text ih =>
    rw [List.forall_mem_cons] at h
    rw [bytesOf, charsOf, List.map_cons, List.map_cons]
    refine congrArg₂ List.cons ?_ (ih h.2)
    rw [UInt8.toNat_ofNat', Nat.mod_eq_of_lt h.1, Char.ofNat_toNat]

theorem readHeight_strData (encodeScript : List UInt8 → List Char) (superblock : CSuperblock) :
    readHeight (strData encodeScript superblock) = some superblock.nBlockHeight := by
  have hsmall := fun c hmem => small_of_mem_decimal (n := superblock.nBlockHeight) (c := c) hmem
  have htake : ∀ byte ∈ bytesOf (decimal superblock.nBlockHeight), decide (byte ≠ 44) = true := by
    intro byte hmem
    obtain ⟨c, hc, rfl⟩ := List.mem_map.mp hmem
    rw [decide_eq_true_eq]
    intro heq
    have hnat := congrArg UInt8.toNat heq
    rw [UInt8.toNat_ofNat', Nat.mod_eq_of_lt (hsmall c hc).1] at hnat
    exact (hsmall c hc).2 hnat
  have hread : ∀ rest, charsOf (List.takeWhile (fun byte => decide (byte ≠ 44))
      (bytesOf (decimal superblock.nBlockHeight ++ (',' :: rest)))) =
        decimal superblock.nBlockHeight := by
    intro rest
    rw [bytesOf, List.map_append, ← bytesOf, List.takeWhile_append_of_pos htake, List.map_cons,
      List.takeWhile_cons_of_neg (by decide), List.append_nil,
      charsOf_bytesOf fun c hc => (hsmall c hc).1]
  unfold readHeight strData
  dsimp only
  rw [bytesOf, List.map_append, List.drop_left' (by decide), ← bytesOf]
  refine congrArg some ((congrArg parseDecimal ?_).trans (parseDecimal_decimal _))
  exact hread _

def sampleParams : SignerParams Unit where
  toSuperblockParams := halvingSuperblockParams
  network := .main
  nSuperblockMaturityWindow := ⟨1662, by decide⟩
  nGovernanceMinQuorum := 1
  window_lt := by decide
  checks := sampleChecks
  format :=
    { addresses :=
        { decodeDestination := fun _ => some (.Other [0x51])
          getScriptForDestination := fun _ => some [0x51] }
      encodeScript := fun _ => ['X']
      proposal := fun _ => ⟨['X'], ['1'], 0, 10000000000⟩
      event_block_height := readHeight
      reads_back := readHeight_strData _ }
  epochTime time blocks := time+blocks*2*60
  fuel := 2

/-- A proposal with the vote of the masternode. -/
def sampleProposal : CGovernanceObject where
  type := .PROPOSAL
  mapCurrentMNVotes := (∅ : ExtTreeMap COutPoint vote_rec_t).insert sampleOutpoint
    ((∅ : vote_rec_t).insert VOTE_SIGNAL_FUNDING ⟨VOTE_OUTCOME_YES, 100, 100⟩)

def sampleView (nHeight : ℤ) : GovernanceView Unit where
  mapObjects := (∅ : ExtTreeMap uint256 CGovernanceObject).insert 7 sampleProposal
  nCachedBlockHeight := nHeight
  tip_mn_list := sampleChecks.tip_mn_list

/-- A tip when there is a proposal and no trigger of others. -/
def sampleTip (nHeight : ℤ) : Tip Unit where
  nHeight := nHeight
  clock := sampleClock
  proTxHash := 1
  outpoint := sampleOutpoint
  signVote _ := [1]
  signObject _ := [1]
  mn_payees := [1]
  isValidLocally _ := true
  masternodeRateCheck _ := true
  processVoteAndRelay _ := true
  atCandidate := sampleView nHeight
  atTrigger := sampleView nHeight
  atVote := sampleView nHeight
  atBest := sampleView nHeight

theorem sampleTip_fits {s : Masternode} {nHeight : ℤ} (hgrows : s.nHeight < nHeight)
    (hdata : (createSuperblockCandidate sampleParams s.signer (sampleTip nHeight)).all
      (fun superblock => decide (sampleProposal.getDataHash sampleParams.checks.sha256d ≠
        (triggerOf sampleParams (sampleTip nHeight) superblock).getDataHash
          sampleParams.checks.sha256d)) = true) :
    Fits sampleParams s (sampleTip nHeight) := by
  refine ⟨hgrows, fun superblock hcandidate nHash govobj hget hsame => ?_⟩
  rw [hcandidate, Option.all_some, decide_eq_true_eq] at hdata
  have hobject : govobj = sampleProposal := by
    change ((∅ : ExtTreeMap uint256 CGovernanceObject).insert 7 sampleProposal)[nHash]? = _ at hget
    rw [OrdMap.getElem?_insert, ExtTreeMap.getElem?_empty] at hget
    split_ifs at hget
    exact (Option.some.inj hget).symm
  exact absurd (hobject ▸ hsame) hdata

/-- A vote for a trigger that is deleted before its superblock, and the last block before the next
superblock. -/
def sampleTips : List (Tip Unit) := [sampleTip 1993919, sampleTip 1993920, sampleTip 2010535]

theorem sampleTips_fit : EveryStep (step sampleParams) (Fits sampleParams) {} sampleTips :=
  ⟨sampleTip_fits (by decide) (by decide +kernel), sampleTip_fits (by decide) (by decide +kernel),
    sampleTip_fits (by decide) (by decide +kernel), trivial⟩

theorem trigger_votes_sample :
    (final (step sampleParams) {} sampleTips).votedYes.Pairwise
        (fun a b => sampleParams.heightOf a ≠ sampleParams.heightOf b) ∧
      EveryStep (step sampleParams) (fun s tip => (step sampleParams s tip).1.assertion = true) {}
          sampleTips ∧
        ((∀ past, past <+: sampleTips → Pending sampleParams (final (step sampleParams) {} past)) ↔
          EveryStep (step sampleParams) (Decided sampleParams) {} sampleTips) :=
  trigger_votes sampleParams sampleTips_fit

/-- The masternode waits for a superblock that has come without a winner, and does not vote before
the next one. -/
theorem waits_for_deleted :
    EveryStep (step sampleParams) (Fits sampleParams) {} sampleTips ∧
      (final (step sampleParams) {} sampleTips).votedYes.length = 1 ∧
        ¬∀ past, past <+: sampleTips →
          Pending sampleParams (final (step sampleParams) {} past) := by
  refine ⟨sampleTips_fit, by decide +kernel, fun h => ?_⟩
  have hheight : (final (step sampleParams) {} sampleTips).signer.votedFundingYesTrigger.bind
      sampleParams.heightOf = some 1993920 := by decide +kernel
  obtain ⟨trigger, hset, hheight⟩ := Option.bind_eq_some_iff.mp hheight
  obtain ⟨nBlockHeight, hsame, hless⟩ := h sampleTips List.prefix_rfl trigger hset
  obtain rfl := Option.some.inj (hheight.symm.trans hsame)
  exact absurd hless (by decide)

end Samples
end BabaChain.Governance.Signing
