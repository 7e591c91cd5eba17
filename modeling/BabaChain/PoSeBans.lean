import BabaChain.PaymentBookkeeping
import BabaChain.Lib.LeakyBucket

/-! Whether a masternode that fails in three quorum sessions of one payment cycle is banned. Its
penalty is a bucket that leaks a point a block. -/
namespace BabaChain.Evo.ByValue
open BLS OrdMap Guards
open LeakyBucket (Bucket leak pour rounds spaced Fills)
open Std (ExtTreeMap)

variable {G : Type*} [DecidableEq G]

/-- The penalty of a masternode, which is full where the masternode is banned. -/
def scoreOf (dmn : CDeterministicMN G) : Bucket :=
  ⟨dmn.pdmnState.nPoSePenalty, dmn.pdmnState.isBanned⟩

/-- How many of the members that failed in a quorum are the masternode. -/
def failures (h : uint256) (qc : CFinalCommitmentTxPayload) (members : List uint256) : ℕ :=
  (members.zip qc.validMembers).count (h, false)

namespace CDeterministicMNList
variable (codec : KeyCodec G) (sha256d : List UInt8 → uint256)

/-- The list after scores have changed, each by what `g` has for the masternode. -/
structure Rescored (g : uint256 → Bucket → Bucket) (N N' : CDeterministicMNList G) : Prop where
  inv : N'.Inv codec sha256d
  nHeight : N'.nHeight = N.nHeight
  size : N'.mnMap.size = N.mnMap.size
  collateral : ∀ k : uint256, N'.mnMap[k]?.map CDeterministicMN.collateralOutpoint =
    N.mnMap[k]?.map CDeterministicMN.collateralOutpoint
  score : ∀ k : uint256, N'.mnMap[k]?.map scoreOf = N.mnMap[k]?.map fun d => g k (scoreOf d)

variable {codec sha256d} {N N' N'' : CDeterministicMNList G} {dmn : CDeterministicMN G}
  {g g' : uint256 → Bucket → Bucket}

omit [DecidableEq G] in
theorem rescored_refl (hinv : N.Inv codec sha256d) : Rescored codec sha256d (fun _ => id) N N :=
  ⟨hinv, rfl, rfl, fun _ => rfl, fun _ => rfl⟩

omit [DecidableEq G] in
theorem Rescored.trans (h : Rescored codec sha256d g N N') (h' : Rescored codec sha256d g' N' N'') :
    Rescored codec sha256d (fun k => g' k ∘ g k) N N'' where
  inv := h'.inv
  nHeight := h'.nHeight.trans h.nHeight
  size := h'.size.trans h.size
  collateral k := (h'.collateral k).trans (h.collateral k)
  score k := by
    have hcomp := congrArg (Option.map (g' k)) (h.score k)
    rw [Option.map_map, Option.map_map] at hcomp
    exact (h'.score k).trans hcomp

omit [DecidableEq G] in
theorem Changed.size {f : CDeterministicMN G → CDeterministicMN G}
    (h : Changed codec sha256d f N N') : N'.mnMap.size = N.mnMap.size := by
  have hsame (k : uint256) : N'.mnMap[k]?.map (fun _ => ()) = N.mnMap[k]?.map fun _ => () := by
    rw [h.mnMap k, Option.map_map]
  have hlists := map_toList_congr (fun _ : CDeterministicMN G => ())
    (fun _ : CDeterministicMN G => ())
    hsame
  have hlengths := congrArg List.length hlists
  rw [List.length_map, List.length_map, ExtTreeMap.length_toList,
    ExtTreeMap.length_toList] at hlengths
  exact hlengths

omit [DecidableEq G] in
theorem Changed.rescored {f : CDeterministicMN G → CDeterministicMN G}
    (h : Changed codec sha256d f N N')
    (hcollateral : ∀ d, (f d).collateralOutpoint = d.collateralOutpoint)
    (hscore : ∀ (k : uint256) (d : CDeterministicMN G), N.mnMap[k]? = some d →
      scoreOf (f d) = g k (scoreOf d)) : Rescored codec sha256d g N N' where
  inv := h.inv
  nHeight := h.nHeight
  size := h.size
  collateral k := by
    rw [h.mnMap k, Option.map_map]
    exact congrArg (Option.map · _) (funext hcollateral)
  score k := by
    rw [h.mnMap k]
    cases hmn : N.mnMap[k]? with
    | none => rfl
    | some d =>
      rw [Option.map_some, Option.map_some, Option.map_some, hscore k d hmn]

/-- Decreasing the scores takes a point from every masternode that is not banned and has one. -/
theorem decreaseScores_rescored (hinv : N.Inv codec sha256d) :
    ∃ N', N.decreaseScores codec sha256d = .ok N' ∧
      Rescored codec sha256d (fun _ => leak) N N' := by
  obtain ⟨N', hok, hchanged⟩ := decreaseScores_changed hinv
  refine ⟨N', hok, hchanged.rescored (fun d => ?_) fun k d hmn => ?_⟩
  · split_ifs <;> rfl
  have hmem : (d ∈ N.validMNs.filter fun dmn => 0 < dmn.pdmnState.nPoSePenalty) ↔
      d.pdmnState.isBanned = false ∧ 0 < d.pdmnState.nPoSePenalty := by
    have hin : d ∈ N.mns := (mem_mns hinv).mpr ((hinv.key k d hmn).symm ▸ hmn)
    rw [List.mem_filter, validMNs, List.mem_filter]
    simp only [hin, true_and, Bool.not_eq_true', decide_eq_true_eq]
  by_cases hc : d.pdmnState.isBanned = false ∧ 0 < d.pdmnState.nPoSePenalty
  · rw [if_pos (hmem.mpr hc)]
    exact (if_pos hc).symm
  · rw [if_neg fun hmem' => hc (hmem.mp hmem')]
    exact (if_neg hc).symm

/-- The state that `PoSePunish` makes. -/
def punishedState (maxPenalty penalty nHeight : ℤ) (state : CDeterministicMNState G) :
    CDeterministicMNState G :=
  let newState := {state with nPoSePenalty := min maxPenalty (state.nPoSePenalty+penalty)}
  if !state.isBanned && decide (maxPenalty ≤ newState.nPoSePenalty) then
    newState.banIfNotBanned nHeight
  else newState

omit [DecidableEq G] in
theorem punishedState_alike (maxPenalty penalty nHeight : ℤ) (state : CDeterministicMNState G) :
    Alike state (punishedState maxPenalty penalty nHeight state) := by
  simp only [punishedState, CDeterministicMNState.banIfNotBanned]
  split_ifs
  all_goals exact ⟨rfl, rfl, rfl, rfl, rfl, rfl, rfl, rfl, rfl, rfl, rfl⟩

omit [DecidableEq G] in
/-- At a height that is no mark for not being banned. -/
theorem punishedState_score {nHeight : ℤ} (hheight : 0 ≤ nHeight) (maxPenalty penalty : ℤ)
    (dmn : CDeterministicMN G) :
    scoreOf {dmn with pdmnState := punishedState maxPenalty penalty nHeight dmn.pdmnState} =
      pour maxPenalty penalty (scoreOf dmn) := by
  cases hban : dmn.pdmnState.isBanned with
  | true =>
    have hstate : punishedState maxPenalty penalty nHeight dmn.pdmnState =
        {dmn.pdmnState with
          nPoSePenalty := min maxPenalty (dmn.pdmnState.nPoSePenalty+penalty)} := by
      rw [punishedState, hban]
      rfl
    rw [hstate]
    refine Bucket.ext rfl ?_
    have hfull : (scoreOf dmn).full = true := hban
    rw [pour, hfull]
    exact hban
  | false =>
    have hfull : (scoreOf dmn).full = false := hban
    have hmark : dmn.pdmnState.nPoSeBanHeight = -1 := by
      simpa [CDeterministicMNState.isBanned] using hban
    by_cases hmax : maxPenalty ≤ min maxPenalty (dmn.pdmnState.nPoSePenalty+penalty)
    · have hstate : punishedState maxPenalty penalty nHeight dmn.pdmnState =
          {dmn.pdmnState with
            nPoSePenalty := min maxPenalty (dmn.pdmnState.nPoSePenalty+penalty)
            nPoSeBanHeight := nHeight} := by
        simp only [punishedState, hmax, CDeterministicMNState.banIfNotBanned,
          CDeterministicMNState.isBanned, hmark]
        rfl
      rw [hstate]
      refine Bucket.ext rfl ?_
      rw [pour, hfull, Bool.false_or]
      exact (decide_eq_true (by omega : nHeight ≠ -1)).trans (decide_eq_true hmax).symm
    · have hstate : punishedState maxPenalty penalty nHeight dmn.pdmnState =
          {dmn.pdmnState with
            nPoSePenalty := min maxPenalty (dmn.pdmnState.nPoSePenalty+penalty)} := by
        simp only [punishedState, hban, hmax]
        rfl
      rw [hstate]
      refine Bucket.ext rfl ?_
      rw [pour, hfull, Bool.false_or]
      exact hban.trans (decide_eq_false hmax).symm

theorem poSePunish_rescored (hinv : N.Inv codec sha256d) (hheight : 0 ≤ N.nHeight)
    {h : uint256} (hmn : N.mnMap[h]? = some dmn) (penalty : ℤ) :
    ∃ N', N.poSePunish codec sha256d h penalty = .ok N' ∧
      Rescored codec sha256d
        (fun k => if k = h then pour N.calcMaxPoSePenalty penalty else id) N N' := by
  have hkey := hinv.key h dmn hmn
  subst hkey
  obtain ⟨N', hok, hinv', heq⟩ := updateMN_of_alike hinv hmn
    (punishedState_alike N.calcMaxPoSePenalty penalty N.nHeight dmn.pdmnState)
  have hpunish : N.poSePunish codec sha256d dmn.proTxHash penalty = .ok N' := by
    rw [poSePunish, getMN, hmn]
    dsimp only
    rw [updateMNByHash, getMN, hmn]
    exact hok
  have hchanged : Changed codec sha256d (fun d => if d.proTxHash = dmn.proTxHash then
      {d with pdmnState := punishedState N.calcMaxPoSePenalty penalty N.nHeight d.pdmnState} else d)
      N N' := by
    refine ⟨hinv', by rw [heq], fun k => ?_⟩
    rw [heq]
    dsimp only
    rw [getElem?_insert]
    by_cases hk : dmn.proTxHash = k
    · rw [if_pos hk, ← hk, hmn, Option.map_some, if_pos rfl]
    · rw [if_neg hk]
      cases hd : N.mnMap[k]? with
      | none => rfl
      | some d =>
        rw [Option.map_some, if_neg]
        intro hsame
        exact hk (hsame.symm.trans (hinv.key k d hd))
  refine ⟨N', hpunish, hchanged.rescored (fun d => ?_) fun k d hd => ?_⟩
  · split_ifs <;> rfl
  · rw [hinv.key k d hd]
    split_ifs
    · exact punishedState_score hheight _ _ d
    · rfl

theorem punishMember_rescored (hinv : N.Inv codec sha256d) (hheight : 0 ≤ N.nHeight)
    (member : uint256 × Bool) :
    ∃ N', N.punishMember codec sha256d member = .ok N' ∧
      Rescored codec sha256d (fun k => if member = (k, false) then
        pour N.calcMaxPoSePenalty (N.calcPenalty 66) else id) N N' := by
  obtain ⟨h, valid⟩ := member
  rw [punishMember]
  cases hmn : N.mnMap[h]? with
  | none =>
    have hhas : N.hasMN h = false := by rw [hasMN, getMN, hmn]; rfl
    rw [hhas, Bool.not_false, if_pos rfl]
    refine ⟨N, rfl, hinv, rfl, rfl, fun _ => rfl, fun k => ?_⟩
    by_cases hk : h = k
    · rw [← hk, hmn]
      rfl
    · rw [if_neg fun heq => hk (congrArg Prod.fst heq)]
      rfl
  | some dmn =>
    have hhas : N.hasMN h = true := by rw [hasMN, getMN, hmn]; rfl
    rw [hhas, Bool.not_true, if_neg Bool.false_ne_true]
    cases valid with
    | true =>
      refine ⟨N, rfl, hinv, rfl, rfl, fun _ => rfl, fun k => ?_⟩
      rw [if_neg fun heq => Bool.false_ne_true (congrArg Prod.snd heq).symm]
      rfl
    | false =>
      obtain ⟨N', hok, hscored⟩ := poSePunish_rescored hinv hheight hmn (N.calcPenalty 66)
      refine ⟨N', orThrow_ok_iff.mpr hok, ?_⟩
      have hsame : (fun k => if (h, false) = (k, false) then
            pour N.calcMaxPoSePenalty (N.calcPenalty 66) else id) =
          fun k => if k = h then pour N.calcMaxPoSePenalty (N.calcPenalty 66) else id := by
        funext k
        simp only [Prod.mk.injEq, and_true, eq_comm]
      rw [hsame]
      exact hscored

/-- A commitment punishes a masternode once for every time that it failed as a member. -/
theorem handleQuorumCommitment_rescored (hinv : N.Inv codec sha256d) (hheight : 0 ≤ N.nHeight)
    (qc : CFinalCommitmentTxPayload) (members : List uint256) :
    ∃ N', N.handleQuorumCommitment codec sha256d qc members = .ok N' ∧
      Rescored codec sha256d (fun k =>
        (pour N.calcMaxPoSePenalty (N.calcPenalty 66))^[failures k qc members]) N N' := by
  simp only [handleQuorumCommitment, failures]
  induction members.zip qc.validMembers generalizing N with
  | nil => exact ⟨N, rfl, rescored_refl hinv⟩
  | cons member rest ih =>
    obtain ⟨N₁, hone, hscored⟩ := punishMember_rescored hinv hheight member
    obtain ⟨N', hrest, hscored'⟩ := ih hscored.inv (hscored.nHeight.symm ▸ hheight)
    have hmax : N₁.calcMaxPoSePenalty = N.calcMaxPoSePenalty := by
      rw [calcMaxPoSePenalty, calcMaxPoSePenalty, hscored.size]
    have hpenalty : N₁.calcPenalty 66 = N.calcPenalty 66 := by
      rw [calcPenalty, calcPenalty, hmax]
    rw [hmax, hpenalty] at hscored'
    refine ⟨N', ?_, ?_⟩
    · rw [List.foldlM_cons, hone]
      exact hrest
    · have htrans := hscored.trans hscored'
      have hsame : (fun k =>
          (pour N.calcMaxPoSePenalty (N.calcPenalty 66))^[rest.count (k, false)] ∘
            if member = (k, false) then pour N.calcMaxPoSePenalty (N.calcPenalty 66) else id) =
          fun k => (pour N.calcMaxPoSePenalty
            (N.calcPenalty 66))^[(member :: rest).count (k, false)] := by
        funext k
        rw [List.count_cons]
        by_cases hk : member = (k, false)
        · rw [if_pos hk, if_pos (beq_iff_eq.mpr hk), Function.iterate_succ]
        · rw [if_neg hk, if_neg fun heq => hk (beq_iff_eq.mp heq)]
          rfl
      rw [hsame] at htrans
      exact htrans

section Runs
variable (codec sha256d)

/-- The list after the score of one masternode has changed, with as many masternodes as before. -/
structure Scored (h : uint256) (f : Bucket → Bucket) (N N' : CDeterministicMNList G) : Prop where
  inv : N'.Inv codec sha256d
  nHeight : N'.nHeight = N.nHeight
  size : N'.mnMap.size = N.mnMap.size
  score : N'.mnMap[h]?.map scoreOf = (N.mnMap[h]?.map scoreOf).map f

/-- What else a block does, as long as the number of masternodes and the score of one stay. -/
def Elsewhere (h : uint256) (N N' : CDeterministicMNList G) : Prop :=
  N.Inv codec sha256d → Scored codec sha256d h id N N'

/-- The commitments of a block, in whose quorums a masternode fails a number of times. -/
inductive Commitments (h : uint256) (N : CDeterministicMNList G) :
    ℕ → CDeterministicMNList G → Prop
  | start : Commitments h N 0 N
  | commitment {k : ℕ} {N₁ N₂ : CDeterministicMNList G} (qc : CFinalCommitmentTxPayload)
    (members : List uint256) (hbefore : Commitments h N k N₁)
    (hok : N₁.handleQuorumCommitment codec sha256d qc members = .ok N₂) :
    Commitments h N (k+failures h qc members) N₂
  | elsewhere {k : ℕ} {N₁ N₂ : CDeterministicMNList G} (hbefore : Commitments h N k N₁)
    (helse : Elsewhere codec sha256d h N₁ N₂) : Commitments h N k N₂

/-- The list of a block, from the list of the block before it: at its own height the scores are
decreased once, and then come its commitments. -/
def Block (h : uint256) (nHeight : ℤ) (k : ℕ) (N N' : CDeterministicMNList G) : Prop :=
  ∃ N₁ N₂, Elsewhere codec sha256d h {N with nHeight} N₁ ∧
    N₁.decreaseScores codec sha256d = .ok N₂ ∧ Commitments codec sha256d h N₂ k N'

/-- The list of the block at `nHeight`, where the block at `first` builds on the list `N`. The
masternode fails as often in each block as `failed` says. -/
inductive Blocks (h : uint256) (failed : ℤ → ℕ) (N : CDeterministicMNList G) (first : ℤ) :
    ℤ → CDeterministicMNList G → Prop
  | start : Blocks h failed N first (first-1) N
  | block {nHeight : ℤ} {N₁ N₂ : CDeterministicMNList G}
    (hbefore : Blocks h failed N first nHeight N₁)
    (hblock : Block codec sha256d h (nHeight+1) (failed (nHeight+1)) N₁ N₂) :
    Blocks h failed N first (nHeight+1) N₂

variable {codec sha256d} {h : uint256} {f f' : Bucket → Bucket}

omit [DecidableEq G] in
theorem Rescored.scored (hscored : Rescored codec sha256d g N N') (h : uint256) :
    Scored codec sha256d h (g h) N N' where
  inv := hscored.inv
  nHeight := hscored.nHeight
  size := hscored.size
  score := by
    rw [hscored.score h, Option.map_map]
    rfl

omit [DecidableEq G] in
theorem Scored.trans (hscored : Scored codec sha256d h f N N')
    (hscored' : Scored codec sha256d h f' N' N'') : Scored codec sha256d h (f' ∘ f) N N'' where
  inv := hscored'.inv
  nHeight := hscored'.nHeight.trans hscored.nHeight
  size := hscored'.size.trans hscored.size
  score := by
    rw [hscored'.score, hscored.score, Option.map_map]

theorem commitments_scored {k : ℕ} (hinv : N.Inv codec sha256d) (hheight : 0 ≤ N.nHeight)
    (hrun : Commitments codec sha256d h N k N') :
    Scored codec sha256d h (pour N.calcMaxPoSePenalty (N.calcPenalty 66))^[k] N N' := by
  induction hrun with
  | start => exact (rescored_refl hinv).scored h
  | @commitment k N₁ N₂ qc members _ hok ih =>
    obtain ⟨N₂', hok', hscored⟩ :=
      handleQuorumCommitment_rescored ih.inv (ih.nHeight.symm ▸ hheight) qc members
    obtain rfl := Except.ok.inj (hok.symm.trans hok')
    have hmax : N₁.calcMaxPoSePenalty = N.calcMaxPoSePenalty := by
      rw [calcMaxPoSePenalty, calcMaxPoSePenalty, ih.size]
    have hpenalty : N₁.calcPenalty 66 = N.calcPenalty 66 := by
      rw [calcPenalty, calcPenalty, hmax]
    have hlast := hscored.scored h
    rw [hmax, hpenalty] at hlast
    rw [Nat.add_comm, Function.iterate_add]
    exact ih.trans hlast
  | elsewhere _ helse ih => exact ih.trans (helse ih.inv)

omit [DecidableEq G] in
theorem inv_at_height (hinv : N.Inv codec sha256d) (nHeight : ℤ) :
    ({N with nHeight} : CDeterministicMNList G).Inv codec sha256d :=
  ⟨hinv.key, hinv.ids, hinv.registered, hinv.properties⟩

theorem block_scored {nHeight : ℤ} {k : ℕ} (hinv : N.Inv codec sha256d) (hheight : 0 ≤ nHeight)
    (hblock : Block codec sha256d h nHeight k N N') :
    N'.Inv codec sha256d ∧ N'.mnMap.size = N.mnMap.size ∧
      N'.mnMap[h]?.map scoreOf = (N.mnMap[h]?.map scoreOf).map
        (LeakyBucket.round N.calcMaxPoSePenalty (N.calcPenalty 66) k) := by
  obtain ⟨N₁, N₂, helse, hdecrease, hcommitments⟩ := hblock
  have hstart := helse (inv_at_height hinv nHeight)
  obtain ⟨N₂', hdecrease', hdecreased⟩ := decreaseScores_rescored hstart.inv
  obtain rfl := Except.ok.inj (hdecrease.symm.trans hdecrease')
  have hbefore := hstart.trans (hdecreased.scored h)
  have hmax : N₂.calcMaxPoSePenalty = N.calcMaxPoSePenalty := by
    rw [calcMaxPoSePenalty, calcMaxPoSePenalty, hbefore.size]
  have hpenalty : N₂.calcPenalty 66 = N.calcPenalty 66 := by
    rw [calcPenalty, calcPenalty, hmax]
  have hafter := commitments_scored hbefore.inv (hbefore.nHeight.symm ▸ hheight) hcommitments
  rw [hmax, hpenalty] at hafter
  have hall := hbefore.trans hafter
  exact ⟨hall.inv, hall.size, hall.score⟩

/-- From any list, a run of blocks leads to what the bucket holds after as many rounds. -/
theorem blocks_scored {failed : ℤ → ℕ} {first nHeight : ℤ} (hinv : N.Inv codec sha256d)
    (hfirst : 0 ≤ first) (hrun : Blocks codec sha256d h failed N first nHeight N') :
    ∃ n : ℕ, nHeight = first-1+n ∧ N'.Inv codec sha256d ∧ N'.mnMap.size = N.mnMap.size ∧
      N'.mnMap[h]?.map scoreOf = (N.mnMap[h]?.map scoreOf).map fun b =>
        rounds N.calcMaxPoSePenalty (N.calcPenalty 66) (fun i => failed (first+i)) b n := by
  induction hrun with
  | start => exact ⟨0, by omega, hinv, rfl, Option.map_id'.symm⟩
  | @block nHeight N₁ N₂ _ hblock ih =>
    obtain ⟨n, hn, hinv₁, hsize₁, hscore₁⟩ := ih
    obtain ⟨hinv₂, hsize₂, hscore₂⟩ := block_scored hinv₁ (by omega) hblock
    have hmax : N₁.calcMaxPoSePenalty = N.calcMaxPoSePenalty := by
      rw [calcMaxPoSePenalty, calcMaxPoSePenalty, hsize₁]
    have hpenalty : N₁.calcPenalty 66 = N.calcPenalty 66 := by
      rw [calcPenalty, calcPenalty, hmax]
    have hheight : nHeight+1 = first+(n : ℤ) := by omega
    refine ⟨n+1, by push_cast; omega, hinv₂, hsize₂.trans hsize₁, ?_⟩
    rw [hscore₂, hscore₁, Option.map_map, hmax, hpenalty, hheight]
    rfl

/-- Commitments of a block, each with the members of its quorum. -/
abbrev BlockCommitments := List (CFinalCommitmentTxPayload × List uint256)

def totalFailures (h : uint256) (qcs : BlockCommitments) : ℕ :=
  (qcs.map fun qc => failures h qc.1 qc.2).sum

theorem commitments_total {k : ℕ} {N₁ : CDeterministicMNList G} (hinv : N.Inv codec sha256d)
    (hheight : 0 ≤ N.nHeight) (hrun : Commitments codec sha256d h N k N₁) (qcs : BlockCommitments) :
    ∃ N', Commitments codec sha256d h N (k+totalFailures h qcs) N' := by
  induction qcs generalizing k N₁ with
  | nil => exact ⟨N₁, hrun⟩
  | cons qc qcs ih =>
    have hscored := commitments_scored hinv hheight hrun
    obtain ⟨N₂, hok, -⟩ :=
      handleQuorumCommitment_rescored hscored.inv (hscored.nHeight.symm ▸ hheight) qc.1 qc.2
    obtain ⟨N', hrest⟩ := ih (hrun.commitment qc.1 qc.2 hok)
    refine ⟨N', ?_⟩
    rw [totalFailures, List.map_cons, List.sum_cons, ← Nat.add_assoc]
    exact hrest

/-- Whatever commitments the blocks have, decreasing and punishing never throw. -/
theorem blocks_total {first : ℤ} (hinv : N.Inv codec sha256d) (hfirst : 0 ≤ first) (h : uint256)
    (qcs : ℤ → BlockCommitments) (n : ℕ) :
    ∃ N', Blocks codec sha256d h (fun nHeight => totalFailures h (qcs nHeight)) N first
      (first-1+n) N' := by
  induction n with
  | zero =>
    refine ⟨N, ?_⟩
    rw [Nat.cast_zero, Int.add_zero]
    exact .start
  | succ n ih =>
    obtain ⟨N₁, hrun⟩ := ih
    obtain ⟨-, -, hinv₁, -, -⟩ := blocks_scored hinv hfirst hrun
    have hstart := inv_at_height hinv₁ (first-1+n+1)
    obtain ⟨N₂, hdecrease, hdecreased⟩ := decreaseScores_rescored hstart
    have hheight : 0 ≤ N₂.nHeight := by
      rw [hdecreased.nHeight]
      dsimp only
      omega
    obtain ⟨N', hcommitments⟩ :=
      @commitments_total _ _ _ _ _ h 0 _ hdecreased.inv hheight .start (qcs (first-1+n+1))
    rw [Nat.zero_add] at hcommitments
    refine ⟨N', ?_⟩
    have hnext : first-1+((n+1 : ℕ) : ℤ) = first-1+n+1 := by omega
    rw [hnext]
    exact hrun.block ⟨_, N₂, fun hinv => (rescored_refl hinv).scored h, hdecrease, hcommitments⟩

/-- Whether failures at three heights ban a masternode of a list of the given size at the third one
or before: the first failure does, or the first two, or the last two, or all three. -/
def ThirdFailureBans (size : ℕ) (nPoSePenalty h1 h2 h3 : ℤ) : Prop :=
  let maxPenalty : ℤ := max 100 size
  let penalty := maxPenalty*66/100
  -- what the first block leaves of the penalty that the masternode has
  let left := if 0 < nPoSePenalty then nPoSePenalty-1 else nPoSePenalty
  maxPenalty ≤ left+penalty ∨ maxPenalty+(h2-h1) ≤ left+2*penalty ∨
    maxPenalty+(h3-h2) ≤ 2*penalty+min 0 (left+penalty) ∨ maxPenalty+(h3-h1) ≤ left+3*penalty

omit [DecidableEq G] in
theorem calcPenalty_pos (N : CDeterministicMNList G) : 0 < N.calcPenalty 66 := by
  rw [calcPenalty, calcMaxPoSePenalty]
  omega

omit [DecidableEq G] in
theorem calcPenalty_lt (N : CDeterministicMNList G) :
    N.calcPenalty 66 < N.calcMaxPoSePenalty := by
  rw [calcPenalty, calcMaxPoSePenalty]
  omega

omit [DecidableEq G] in
theorem thirdFailureBans_iff_fills (N : CDeterministicMNList G)
    (hban : dmn.pdmnState.isBanned = false) {h1 h2 h3 : ℤ} {d e : ℕ} (hd : h2-h1 = d)
    (he : h3-h2 = e) :
    ThirdFailureBans N.mnMap.size dmn.pdmnState.nPoSePenalty h1 h2 h3 ↔
      Fills N.calcMaxPoSePenalty (N.calcPenalty 66) (leak (scoreOf dmn)).level d e := by
  have hfull : (scoreOf dmn).full = false := hban
  have hsum : h3-h1 = d+e := by omega
  rw [LeakyBucket.leak_level hfull, ThirdFailureBans, Fills, calcPenalty, calcMaxPoSePenalty, hd,
    he, hsum, Int.add_assoc]
  rfl

theorem third_failure_bans_iff {failed : ℤ → ℕ} {h1 h2 h3 : ℤ} (hinv : N.Inv codec sha256d)
    (hmn : N.mnMap[h]? = some dmn) (hban : dmn.pdmnState.isBanned = false) (hheight : 0 ≤ h1)
    (h12 : h1 < h2) (h23 : h2 < h3) (hfailed : 0 < failed h1 ∧ 0 < failed h2 ∧ 0 < failed h3)
    (hrun : Blocks codec sha256d h failed N h1 h3 N') :
    ∃ dmn', N'.mnMap[h]? = some dmn' ∧
      (ThirdFailureBans N.mnMap.size dmn.pdmnState.nPoSePenalty h1 h2 h3 →
        dmn'.pdmnState.isBanned = true) ∧
      ((∀ n, h1 ≤ n → n ≤ h3 → failed n = if n = h1 ∨ n = h2 ∨ n = h3 then 1 else 0) →
        (dmn'.pdmnState.isBanned = true ↔
          ThirdFailureBans N.mnMap.size dmn.pdmnState.nPoSePenalty h1 h2 h3)) := by
  obtain ⟨n, hn, -, -, hscore⟩ := blocks_scored hinv hheight hrun
  obtain ⟨d, hd⟩ : ∃ d : ℕ, h2-h1 = d := ⟨(h2-h1).toNat, by omega⟩
  obtain ⟨e, he⟩ : ∃ e : ℕ, h3-h2 = e := ⟨(h3-h2).toNat, by omega⟩
  obtain rfl : n = d+e+1 := by omega
  rw [hmn, Option.map_some, Option.map_some, Option.map_eq_some_iff] at hscore
  obtain ⟨dmn', hmn', hscore⟩ := hscore
  have hbanned := congrArg Bucket.full hscore
  have hfull : (scoreOf dmn).full = false := hban
  have hpositive := N.calcPenalty_pos
  have hless := N.calcPenalty_lt
  have hfills := thirdFailureBans_iff_fills N hban hd he
  refine ⟨dmn', hmn', fun hcond => ?_, fun honce => ?_⟩
  · rw [hfills] at hcond
    refine hbanned.trans (LeakyBucket.rounds_full_of_fills hpositive hless (by omega) (by omega)
      hfull (fun i hi => ?_) hcond)
    have hat : i = 0 ∨ i = d ∨ i = d+e → 0 < failed (h1+i) := by
      rintro (rfl | rfl | rfl)
      · rw [Nat.cast_zero, Int.add_zero]
        exact hfailed.1
      · rw [← hd, add_sub_cancel]
        exact hfailed.2.1
      · have hthird : h1+((d+e : ℕ) : ℤ) = h3 := by omega
        rw [hthird]
        exact hfailed.2.2
    rw [spaced]
    split_ifs with hi'
    · exact hat hi'
    · exact Nat.zero_le _
  · rw [hfills, ← LeakyBucket.rounds_spaced_full_iff hpositive hless (by omega) (by omega) hfull]
    have hsame := @LeakyBucket.rounds_congr N.calcMaxPoSePenalty (N.calcPenalty 66)
      (fun i => failed (h1+i)) (spaced d e) (scoreOf dmn) (d+e+1) fun i hi => by
        rw [honce (h1+i) (by omega) (by omega), spaced]
        exact if_congr (by omega) rfl rfl
    rw [← hsame, ← hbanned]
    rfl

end Runs

section Samples

/-- A quorum whose one member failed. -/
def failedQuorum : CFinalCommitmentTxPayload where
  nHeight := 0
  isNull := false
  llmqType := 1
  quorumIndex := 0
  quorumHash := 0
  validMembers := [false]

/-- The commitments of blocks in which the first masternode fails at some heights. -/
def failsAt (heights : List ℤ) (nHeight : ℤ) : BlockCommitments :=
  if nHeight ∈ heights then [(failedQuorum, [1])] else []

theorem registered_inv : registered.Inv oneCodec digest := by
  have hgiven : GivenAddresses (registeredMN 0 (readKey true)).pdmnState.netInfo :=
    ⟨trivial, by decide⟩
  have hok : (Operation.addMN (registeredMN 0 (readKey true)) true).perform oneCodec digest {} =
      .ok registered := perform_after (by decide +kernel)
  rw [Operation.perform] at hok
  exact (addMN_step (inv_empty 0 (-1) 0) hgiven hok).1

theorem third_failure_bans_iff_quick :
    ∃ (N' : CDeterministicMNList Unit) (dmn' : CDeterministicMN Unit),
      Blocks oneCodec digest 1 (fun n => totalFailures 1 (failsAt [1, 2, 3] n)) registered 1 3 N' ∧
        N'.mnMap[(1 : uint256)]? = some dmn' ∧ dmn'.pdmnState.isBanned = true := by
  obtain ⟨N', hrun⟩ := blocks_total registered_inv Int.one_nonneg 1 (failsAt [1, 2, 3]) 3
  have hmn : registered.mnMap[(1 : uint256)]? = some (registeredMN 0 (readKey true)) := by
    decide +kernel
  have hsize : registered.mnMap.size = 1 := by decide +kernel
  have h12 : (1 : ℤ) < 2 := by decide
  have h23 : (2 : ℤ) < 3 := by decide
  obtain ⟨dmn', hmn', hbans, -⟩ := third_failure_bans_iff registered_inv hmn (by decide)
    Int.one_nonneg h12 h23 (by decide) hrun
  refine ⟨N', dmn', hrun, hmn', hbans ?_⟩
  rw [hsize]
  exact Or.inr (Or.inl (by decide))

/-- From no penalty at all, failures 50 and then 49 blocks apart leave 99 of 100 points. -/
theorem third_failure_unbanned :
    registered.Inv oneCodec digest ∧ (100-1 : ℤ) < max 100 (registered.mnMap.size : ℤ) ∧
      registered.mnMap[(1 : uint256)]? = some (registeredMN 0 (readKey true)) ∧
      (registeredMN 0 (readKey true)).pdmnState.isBanned = false ∧
      ∃ (N' : CDeterministicMNList Unit) (dmn' : CDeterministicMN Unit),
        Blocks oneCodec digest 1 (fun n => totalFailures 1 (failsAt [1, 51, 100] n)) registered 1
          100 N' ∧
        (∀ n ∈ [(1 : ℤ), 51, 100], 0 < totalFailures 1 (failsAt [1, 51, 100] n)) ∧
        N'.mnMap[(1 : uint256)]? = some dmn' ∧ dmn'.pdmnState.isBanned = false := by
  have hmn : registered.mnMap[(1 : uint256)]? = some (registeredMN 0 (readKey true)) := by
    decide +kernel
  have hsize : registered.mnMap.size = 1 := by decide +kernel
  obtain ⟨N', hrun⟩ := blocks_total registered_inv Int.one_nonneg 1 (failsAt [1, 51, 100]) 100
  obtain ⟨n, hn, -, -, hscore⟩ := blocks_scored registered_inv Int.one_nonneg hrun
  obtain rfl : n = 100 := by omega
  have hmax : registered.calcMaxPoSePenalty = 100 := by
    rw [calcMaxPoSePenalty, hsize]
    rfl
  have hpenalty : registered.calcPenalty 66 = 66 := by
    rw [calcPenalty, hmax]
    rfl
  have hbucket : rounds 100 66 (fun i => totalFailures 1 (failsAt [1, 51, 100] (1+(i : ℤ))))
      (scoreOf (registeredMN 0 (readKey true))) 100 = ⟨99, false⟩ := by
    decide +kernel
  have hscore' : N'.mnMap[(1 : uint256)]?.map scoreOf = some ⟨99, false⟩ := by
    rw [hscore, hmn, hmax, hpenalty]
    exact congrArg some hbucket
  obtain ⟨dmn', hmn', hlast⟩ := Option.map_eq_some_iff.mp hscore'
  refine ⟨registered_inv, by rw [hsize]; decide, hmn, by decide, N', dmn', hrun, by decide,
    hmn', ?_⟩
  exact congrArg Bucket.full hlast

end Samples

end CDeterministicMNList

end BabaChain.Evo.ByValue
