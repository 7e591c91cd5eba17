import BabaChain.CommitmentJustCheck

/-! How many commitments the blocks of a chain hold: one for each quorum that still needs one, and
at most one that is not null for each quorum of the chain. -/
namespace BabaChain.LLMQ.BlockProcessor
open Overlay Triples

variable {G₁ G₂ : Type} {p : ChainParams G₁ G₂} {m : BlockManager} {pindex tip : CBlockIndex}
  {active_chain : CChain} {block : CBlock G₁ G₂} {qcs : List (CFinalCommitment G₁ G₂)}
  {qc : CFinalCommitment G₁ G₂} {mined : Mined} {nHeight : ℕ} {params : LLMQParams}

/-! ### Members -/

/-- How many members `GetAllQuorumMembers` finds, by how many are computed past its checks. -/
def countAllQuorumMembers (p : ChainParams G₁ G₂) (compute : LLMQType → CBlockIndex → ℕ)
    (llmqType : LLMQType) (pQuorumBaseBlockIndex : CBlockIndex) : ℕ :=
  match parent pQuorumBaseBlockIndex, p.consensus.getLLMQ llmqType with
  | some pprev, some llmq_params =>
    let quorumIndex := pQuorumBaseBlockIndex.nHeight%llmq_params.dkgInterval
    if p.isQuorumTypeEnabled llmqType pprev = false then
      0
    else if isQuorumRotationEnabled p.consensus llmq_params pQuorumBaseBlockIndex then
      if llmq_params.signingActiveQuorumCount ≤ quorumIndex then
        0
      else
        compute llmqType pQuorumBaseBlockIndex
    else if llmq_params.useRotation = true ∨ quorumIndex ≠ 0 then
      0
    else
      compute llmqType pQuorumBaseBlockIndex
  | _, _ => 0

/-- The parameters of a node that finds the members of a quorum this way. -/
def ChainParams.withMembers (p : ChainParams G₁ G₂) (compute : LLMQType → CBlockIndex → ℕ) :
    ChainParams G₁ G₂ :=
  {p with countMembers := countAllQuorumMembers p compute}

/-- Only quorums with an index of the cycle have members. -/
def Indexed (p : ChainParams G₁ G₂) : Prop :=
  ∀ t params base, p.consensus.getLLMQ t = some params → p.countMembers t base ≠ 0 →
    base.nHeight%params.dkgInterval <
      if isQuorumRotationEnabled p.consensus params base then params.signingActiveQuorumCount
      else 1

theorem indexed_withMembers (p : ChainParams G₁ G₂) (compute : LLMQType → CBlockIndex → ℕ) :
    Indexed (p.withMembers compute) := by
  intro t params base hparams hcount
  have hget : p.consensus.getLLMQ t = some params := hparams
  change countAllQuorumMembers p compute t base ≠ 0 at hcount
  change _ < if isQuorumRotationEnabled p.consensus params base then _ else _
  unfold countAllQuorumMembers at hcount
  cases hparent : parent base with
  | none =>
    rw [hparent] at hcount
    exact absurd rfl hcount
  | some pprev =>
    rw [hparent, hget] at hcount
    dsimp only at hcount
    split_ifs at hcount ⊢ <;> omega

/-- A commitment that is verified has members. -/
theorem countMembers_ne_zero {base : CBlockIndex} (hmin : 0 < (p.mining qc.llmqType).minSize)
    (hverify : Commitment.verify p qc base = true) : p.countMembers qc.llmqType base ≠ 0 := by
  obtain ⟨params, hverified⟩ := verified_of_verify hverify
  intro hzero
  have hmembers := hverified.members
  rw [hzero, List.drop_zero] at hmembers
  have hvalid := hverified.validMembers
  rw [getLLMQ_type hverified.known] at hvalid
  have hcount : qc.validMembers.count true = 0 := by
    rw [List.count_eq_zero]
    intro hmem
    rw [List.contains_eq_mem, decide_eq_true hmem] at hmembers
    contradiction
  omega

/-! ### Indexes -/

theorem getLLMQ_of_mem {c : Consensus} (hmem : params ∈ c.llmqs) :
    c.getLLMQ params.type = some params := by
  cases hfind : c.getLLMQ params.type with
  | none =>
    have hnot := List.find?_eq_none.mp hfind params hmem
    simp at hnot
  | some params' =>
    have htype := getLLMQ_type hfind
    have hmem' : params' ∈ c.llmqs := List.mem_of_find?_eq_some hfind
    rw [Option.some.injEq]
    exact List.inj_on_of_nodup_map c.nodup hmem' hmem htype

/-- Rotation is switched on for whole cycles. -/
theorem isQuorumRotationEnabled_congr {c : Consensus} {a b : CBlockIndex}
    (hcycle : a.nHeight-a.nHeight%params.dkgInterval = b.nHeight-b.nHeight%params.dkgInterval) :
    isQuorumRotationEnabled c params a = isQuorumRotationEnabled c params b := by
  unfold isQuorumRotationEnabled
  rw [hcycle]

/-- A mining window that does not start with its cycle is seen from the block before it. -/
theorem quorumsNum_eq (hphase : isMiningPhase p params (some tip) nHeight = some true)
    (hstart : 0 < (p.mining params.type).dkgMiningWindowStart) {base : CBlockIndex}
    (hbase : base.nHeight-base.nHeight%params.dkgInterval = nHeight-nHeight%params.dkgInterval) :
    quorumsNum p params tip nHeight =
      if isQuorumRotationEnabled p.consensus params base then params.signingActiveQuorumCount
      else 1 := by
  unfold isMiningPhase at hphase
  have hheight : ¬CChain.height (some tip)+1 < nHeight := by
    intro hlt
    rw [if_pos hlt] at hphase
    contradiction
  rw [if_neg hheight] at hphase
  rw [Option.some.injEq, decide_eq_true_iff] at hphase
  change ¬((tip.nHeight : ℤ)+1 < nHeight) at hheight
  let pindex := if tip.nHeight < nHeight then tip else (tip.getAncestor nHeight).getD tip
  have hcycle : pindex.nHeight-pindex.nHeight%params.dkgInterval =
      base.nHeight-base.nHeight%params.dkgInterval := by
    rw [hbase]
    by_cases hlt : tip.nHeight < nHeight
    · have hpindex : pindex = tip := if_pos hlt
      have hnext : nHeight = tip.nHeight+1 := by omega
      have hmod : 0 < nHeight%params.dkgInterval := by omega
      rw [hpindex]
      rw [hnext] at hmod ⊢
      have hstep := Nat.add_mod tip.nHeight 1 params.dkgInterval
      have hdiv := Nat.div_add_mod tip.nHeight params.dkgInterval
      have hdiv' := Nat.div_add_mod (tip.nHeight+1) params.dkgInterval
      have hsame : (tip.nHeight+1)/params.dkgInterval = tip.nHeight/params.dkgInterval := by
        rw [Nat.succ_div, if_neg fun hdvd => ?_, add_zero]
        rw [Nat.mod_eq_zero_of_dvd hdvd] at hmod
        exact absurd hmod (lt_irrefl 0)
      rw [hsame] at hdiv'
      omega
    · have hpindex : pindex = (tip.getAncestor nHeight).getD tip := if_neg hlt
      rw [hpindex]
      cases hancestor : tip.getAncestor nHeight with
      | some a => rw [Option.getD_some, (getAncestor_eq_some hancestor).2]
      | none =>
        unfold CBlockIndex.getAncestor at hancestor
        rw [if_neg hlt] at hancestor
        split at hancestor
        · rename_i hdrop
          have hlen := congrArg List.length hdrop
          rw [List.length_drop, List.length_cons, List.length_nil] at hlen
          unfold CBlockIndex.nHeight at hlen
          omega
        · contradiction
  have hquorums : quorumsNum p params tip nHeight =
      if isQuorumRotationEnabled p.consensus params pindex then params.signingActiveQuorumCount
      else 1 := rfl
  rw [hquorums, isQuorumRotationEnabled_congr hcycle]

/-- A commitment that is mined fills an index that needs it. -/
theorem Passes.needed (h : Passes p m (some tip) nHeight mined qc params)
    (hnull : qc.isNull = false) (hindexed : Indexed p) (htip : tip ∈ m.blocks)
    (hmin : 0 < (p.mining qc.llmqType).minSize)
    (hstart : 0 < (p.mining qc.llmqType).dkgMiningWindowStart) :
    ∃ i ∈ neededIndexes p params (some tip) nHeight mined, (i : ℤ) = qc.quorumIndex := by
  obtain ⟨base, hlookup, hverify⟩ := h.verified hnull
  have htype := getLLMQ_type h.known
  have hphase := h.phase hnull
  have hhash := h.hash rfl
  obtain ⟨hheight, hindex⟩ := base_of_verified h.known
    (fun _ htip' => Option.some.inj htip' ▸ htip) hhash h.ne_zero hlookup hverify
  have hcycle : base.nHeight-base.nHeight%params.dkgInterval =
      nHeight-nHeight%params.dkgInterval := by
    have hmod := Nat.mod_le nHeight params.dkgInterval
    omega
  have hlt := hindexed qc.llmqType params base h.known (countMembers_ne_zero hmin hverify)
  rw [← quorumsNum_eq hphase (htype ▸ hstart) hcycle] at hlt
  refine ⟨base.nHeight%params.dkgInterval, ?_, hindex⟩
  unfold neededIndexes
  rw [hphase]
  refine List.mem_filter.mpr ⟨List.mem_range.mpr hlt, ?_⟩
  rw [Needed, hindex, hhash, htype, h.fresh hnull]
  simpa using h.ne_zero

/-! ### Blocks -/

/-- Commitments that are connected one after the other are for quorums that were not mined. -/
theorem PassAll.fresh (h : PassAll p m active_chain nHeight false mined qcs) :
    (namedQuorums qcs).Nodup ∧ ∀ q ∈ namedQuorums qcs, mined q.1 q.2 = false := by
  induction qcs generalizing mined with
  | nil => exact ⟨List.nodup_nil, fun q hq => absurd hq List.not_mem_nil⟩
  | cons qc qcs ih =>
    obtain ⟨⟨params, hpasses⟩, hrest⟩ := h
    obtain ⟨hnodup, hfresh⟩ := ih hrest
    by_cases hnull : qc.isNull = true
    · rw [namedQuorums_cons_null hnull]
      rw [if_neg Bool.false_ne_true, recordMined_of_null hnull] at hfresh
      exact ⟨hnodup, hfresh⟩
    · rw [Bool.not_eq_true] at hnull
      rw [namedQuorums_cons hnull, List.nodup_cons, List.forall_mem_cons]
      rw [if_neg Bool.false_ne_true] at hfresh
      refine ⟨⟨fun hmem => ?_, hnodup⟩, hpasses.fresh hnull, fun q hq => ?_⟩
      · have hrecorded := hfresh _ hmem
        rw [recordMined, hnull, decide_eq_true ⟨rfl, rfl⟩] at hrecorded
        simp at hrecorded
      · exact (Bool.or_eq_false_iff.mp (hfresh q hq)).1

theorem PassAll.forall (h : PassAll p m active_chain nHeight true mined qcs) :
    ∀ qc ∈ qcs, ∃ params, Passes p m active_chain nHeight mined qc params := by
  induction qcs with
  | nil => exact fun qc hqc => absurd hqc List.not_mem_nil
  | cons qc qcs ih => exact List.forall_mem_cons.mpr ⟨h.1, ih h.2⟩

/-- How many commitments there are of a type with an index. -/
def countIndex (qcs : List (CFinalCommitment G₁ G₂)) (llmqType : LLMQType) (quorumIndex : ℤ) : ℕ :=
  qcs.countP fun qc => qc.llmqType = llmqType ∧ qc.quorumIndex = quorumIndex

/-- A block holds one commitment for each index that needs one, and no others. -/
structure ExactlyOnce (p : ChainParams G₁ G₂) (active_chain : CChain) (b : Connected G₁ G₂)
    (mined : Mined) (pprev : CBlockIndex) : Prop where
  each : ∀ params ∈ getEnabledQuorumParams p pprev, ∀ quorumIndex : ℤ,
    countIndex (b.block.commitments.filterMap id) params.type quorumIndex =
      if ∃ i ∈ neededIndexes p params active_chain b.pindex.nHeight mined, (i : ℤ) = quorumIndex
      then 1 else 0
  others : ∀ qc ∈ b.block.commitments.filterMap id,
    ∃ params ∈ getEnabledQuorumParams p pprev, params.type = qc.llmqType

/-- What the checks leave open: that all types are enabled, and for the null commitments that they
name indexes that need one and that no other commitment names. -/
structure NullsInPlace (p : ChainParams G₁ G₂) (active_chain : CChain) (b : Connected G₁ G₂)
    (mined : Mined) (pprev : CBlockIndex) : Prop where
  enabled : ∀ qc ∈ b.block.commitments.filterMap id,
    ∃ params ∈ getEnabledQuorumParams p pprev, params.type = qc.llmqType
  needed : ∀ qc ∈ b.block.commitments.filterMap id, qc.isNull = true →
    ∀ params, p.consensus.getLLMQ qc.llmqType = some params →
      ∃ i ∈ neededIndexes p params active_chain b.pindex.nHeight mined, (i : ℤ) = qc.quorumIndex
  apart : (b.block.commitments.filterMap id).Pairwise fun qc qc' =>
    qc.isNull = true ∨ qc'.isNull = true →
      ¬(qc.llmqType = qc'.llmqType ∧ qc.quorumIndex = qc'.quorumIndex)

theorem commitments_perm (hqcs : getCommitmentsFromBlock p pindex block = .ok qcs) :
    qcs.Perm (block.commitments.filterMap id) := by
  have hperm := (getCommitmentsFromBlock_perm hqcs).filterMap id
  rwa [List.filterMap_map, Function.id_comp, List.filterMap_some] at hperm

/-- Two commitments that pass are for different quorums, and so for different indexes. -/
theorem indexes_apart
    (hpasses : ∀ qc ∈ qcs, ∃ params, Passes p m (some tip) nHeight mined qc params)
    (hnodup : (namedQuorums qcs).Nodup)
    (hnulls : qcs.Pairwise fun qc qc' => qc.isNull = true ∨ qc'.isNull = true →
      ¬(qc.llmqType = qc'.llmqType ∧ qc.quorumIndex = qc'.quorumIndex)) :
    qcs.Pairwise fun qc qc' =>
      ¬(qc.llmqType = qc'.llmqType ∧ qc.quorumIndex = qc'.quorumIndex) := by
  have hnamed : qcs.Pairwise fun qc qc' => qc.isNull = false → qc'.isNull = false →
      (qc.llmqType, qc.quorumHash) ≠ (qc'.llmqType, qc'.quorumHash) := by
    unfold namedQuorums at hnodup
    rw [List.Nodup, List.pairwise_map, List.pairwise_filter] at hnodup
    refine hnodup.imp fun hne hnull hnull' => hne ?_ ?_
    · rw [hnull]
      rfl
    · rw [hnull']
      rfl
  refine (hnulls.and hnamed).imp_of_mem fun {qc qc'} hqc hqc' hboth hsame => ?_
  by_cases hnull : qc.isNull = true ∨ qc'.isNull = true
  · exact hboth.1 hnull hsame
  · rw [not_or, Bool.not_eq_true, Bool.not_eq_true] at hnull
    obtain ⟨params, hpass⟩ := hpasses qc hqc
    obtain ⟨params', hpass'⟩ := hpasses qc' hqc'
    have hparams : params = params' := by
      have hknown := hpass.known
      rw [hsame.1, hpass'.known, Option.some.injEq] at hknown
      exact hknown.symm
    have hhash : qc.quorumHash = qc'.quorumHash := by
      rw [← hpass.hash rfl, ← hpass'.hash rfl, hparams, hsame.2]
    exact hboth.2 hnull.1 hnull.2 (Prod.ext hsame.1 hhash)

/-- As many indexes as are needed, all needed and all different, are the needed ones. -/
theorem count_eq_of_length {α : Type*} [DecidableEq α] {l l' : List α} (hnodup : l.Nodup)
    (hnodup' : l'.Nodup) (hsub : l ⊆ l') (hlength : l.length = l'.length) (a : α) :
    l.count a = if a ∈ l' then 1 else 0 := by
  have hperm : l.Perm l' :=
    (List.subperm_of_subset hnodup hsub).perm_of_length_le hlength.ge
  rw [hperm.count_eq, hnodup'.count]

theorem countIndex_eq (qcs : List (CFinalCommitment G₁ G₂)) (t : LLMQType) (i : ℤ) :
    countIndex qcs t i =
      ((qcs.filter fun qc => qc.llmqType = t).map CFinalCommitment.quorumIndex).count i := by
  rw [countIndex, List.count, List.countP_map, List.countP_filter]
  refine List.countP_congr fun qc _ => ?_
  simp [and_comm]

/-- An accepted block whose null commitments are in place holds what is needed. -/
theorem exactlyOnce_of_acceptable {b : Connected G₁ G₂} {pprev : CBlockIndex} {fBLSChecks : Bool}
    (h : Acceptable p m b.pindex (some tip) b.block false fBLSChecks mined qcs pprev)
    (hindexed : Indexed p) (htip : tip ∈ m.blocks)
    (hplace : NullsInPlace p (some tip) b mined pprev)
    (hmining : ∀ qc ∈ b.block.commitments.filterMap id, 0 < (p.mining qc.llmqType).minSize ∧
      0 < (p.mining qc.llmqType).dkgMiningWindowStart) :
    ExactlyOnce p (some tip) b mined pprev := by
  have hperm := commitments_perm h.commitments
  have hpasses : ∀ qc ∈ qcs, ∃ params, Passes p m (some tip) b.pindex.nHeight mined qc params :=
    (h.passes.justCheck fun _ _ hnot => hnot).forall
  have hapart := indexes_apart hpasses h.passes.fresh.1
    ((hperm.pairwise_iff fun {x y} hxy hnull hsame =>
      hxy hnull.symm ⟨hsame.1.symm, hsame.2.symm⟩).mpr hplace.apart)
  refine ⟨fun params hparams quorumIndex => ?_, hplace.enabled⟩
  have hknown : p.consensus.getLLMQ params.type = some params :=
    getLLMQ_of_mem (List.mem_of_mem_filter hparams)
  let ofType := qcs.filter fun qc => qc.llmqType = params.type
  let needed := neededIndexes p params (some tip) b.pindex.nHeight mined
  have hcount : countIndex (b.block.commitments.filterMap id) params.type quorumIndex =
      (ofType.map CFinalCommitment.quorumIndex).count quorumIndex := by
    rw [← countIndex_eq]
    exact (hperm.countP_eq _).symm
  have hnodup : (ofType.map CFinalCommitment.quorumIndex).Nodup := by
    rw [List.Nodup, List.pairwise_map, List.pairwise_filter]
    refine hapart.imp fun hne htype htype' hindex => hne ⟨?_, hindex⟩
    rw [of_decide_eq_true htype, of_decide_eq_true htype']
  have hneeded : (needed.map fun i : ℕ => (i : ℤ)).Nodup := by
    refine List.Nodup.map Nat.cast_injective ?_
    unfold needed neededIndexes
    split
    · exact List.nodup_range.filter _
    · exact List.nodup_nil
  have hsub : ofType.map CFinalCommitment.quorumIndex ⊆ needed.map fun i : ℕ => (i : ℤ) := by
    intro i hi
    obtain ⟨qc, hqc, rfl⟩ := List.mem_map.mp hi
    obtain ⟨hqc, htype⟩ := List.mem_filter.mp hqc
    have hin := hperm.mem_iff.mp hqc
    have hknown' : p.consensus.getLLMQ qc.llmqType = some params := by
      rw [of_decide_eq_true htype, hknown]
    rw [List.mem_map]
    cases hnull : qc.isNull with
    | true => exact hplace.needed qc hin hnull params hknown'
    | false =>
      obtain ⟨params', hpass⟩ := hpasses qc hqc
      have hsame := hpass.known
      rw [hknown', Option.some.injEq] at hsame
      subst hsame
      exact hpass.needed hnull hindexed htip (hmining qc hin).1 (hmining qc hin).2
  have hlength : (ofType.map CFinalCommitment.quorumIndex).length =
      (needed.map fun i : ℕ => (i : ℤ)).length := by
    rw [List.length_map, List.length_map, ← List.countP_eq_length_filter]
    exact (h.numbers rfl params hparams).2
  rw [hcount, count_eq_of_length hnodup hneeded hsub hlength]
  simp only [List.mem_map, needed]

/-! ### Chains -/

variable {genesis : uint256} {chain : List (Connected G₁ G₂)} {b : Connected G₁ G₂}
  {s : Node G₁ G₂} {call : Call G₁ G₂}

/-- The quorums that a chain names in commitments that are not null. -/
def chainQuorums (chain : List (Connected G₁ G₂)) : List (LLMQType × uint256) :=
  chain.flatMap fun b => blockQuorums b.block

/-- Each quorum is named once. Special transactions start at a height. -/
structure Once (p : ChainParams G₁ G₂) (chain : List (Connected G₁ G₂)) : Prop where
  nodup : (chainQuorums chain).Nodup
  below : ∀ b ∈ chain, b.pindex.nHeight < p.DIP0003Height → blockQuorums b.block = []

theorem Once.tail (h : Once p (b :: chain)) : Once p chain where
  nodup := (List.nodup_append.mp h.nodup).2.1
  below b' hb' := h.below b' (List.mem_cons_of_mem b hb')

/-- What a block names is written. -/
theorem mem_minedBy {view : Key → Option (Value G₁ G₂)} (hfresh : FreshBlock p view b)
    (hbelow : b.pindex.nHeight < p.DIP0003Height → blockQuorums b.block = [])
    {q : LLMQType × uint256} (hq : q ∈ blockQuorums b.block) :
    .minedCommitment q.1 q.2 ∈ (minedBy p b).map Prod.fst := by
  have hlate : ¬(b.pindex.nHeight : ℤ) < p.DIP0003Height := by
    intro hearly
    rw [hbelow hearly] at hq
    exact absurd hq List.not_mem_nil
  obtain ⟨qcs, hqcs, hfresh⟩ := hfresh.resolve_left hlate
  have hnamed := (getCommitmentsFromBlock_quorums hqcs).mem_iff.mpr hq
  obtain ⟨qc, hqc, rfl⟩ := List.mem_map.mp hnamed
  obtain ⟨hqc, hnull⟩ := List.mem_filter.mp hqc
  rw [Bool.not_eq_true'] at hnull
  obtain ⟨params, hparams⟩ := Option.isSome_iff_exists.mp (hfresh qc hqc hnull).1
  rw [minedBy, if_neg hlate, hqcs]
  refine List.mem_map.mpr ⟨(.minedCommitment qc.llmqType qc.quorumHash,
    .commitment qc b.pindex.hash), List.mem_flatMap.mpr ⟨qc, hqc, ?_⟩, rfl⟩
  rw [written, hnull, hparams]
  exact List.mem_cons_self

/-- What a chain names is in the database. -/
theorem isSome_minedOn (hchain : Recorded p genesis chain)
    (hbelow : ∀ b ∈ chain, b.pindex.nHeight < p.DIP0003Height → blockQuorums b.block = [])
    {q : LLMQType × uint256} (hq : q ∈ chainQuorums chain) :
    (minedOn p chain (.minedCommitment q.1 q.2)).isSome = true := by
  induction chain with
  | nil => exact absurd hq List.not_mem_nil
  | cons b chain ih =>
    rw [List.forall_mem_cons] at hbelow
    rw [minedOn]
    rcases List.mem_append.mp hq with hq | hq
    · exact isSome_overwrite (mem_minedBy hchain.2.1 hbelow.1 hq)
    · have hrest := ih hchain.2.2 hbelow.2 hq
      rw [← Option.ne_none_iff_isSome] at hrest ⊢
      exact fun hnone => hrest (eq_none_of_overwrite hnone)

/-! ### Runs -/

/-- The quorums whose commitment is mined, by the database. -/
def minedQuorums (s : Node G₁ G₂) : Mined := fun t hash =>
  s.processor.evoDb.existsKey (.minedCommitment t hash)

variable (p m genesis) in
/-- The call puts a block on the chain. -/
def Connects (s : Node G₁ G₂) (b : Connected G₁ G₂) (active_chain : CChain) (fBLSChecks : Bool) :
    Prop :=
  s.failed = false ∧ b.pindex.pprev = hashes genesis s.chain ∧ OnChain m active_chain b.pindex ∧
    (processed p m b.pindex active_chain b.block fBLSChecks s.processor false).1 = .ok ()

variable (p m genesis) in
/-- A block that is put on the chain holds one commitment for each index that needs one. -/
def MinesOnce (s : Node G₁ G₂) (call : Call G₁ G₂) : Prop :=
  ∀ b active_chain fBLSChecks pprev, call = .connect b active_chain false fBLSChecks →
    Connects p m genesis s b active_chain fBLSChecks → parent b.pindex = some pprev →
    p.DIP0003Height ≤ b.pindex.nHeight → ExactlyOnce p active_chain b (minedQuorums s) pprev

/-- Below the height at which special transactions start a block has no commitments. From there on
it is connected to an active chain, has its null commitments in place, and is of types with a least
number of members and a mining window that starts after the cycle. -/
def BlockInPlace (p : ChainParams G₁ G₂) (active_chain : CChain) (b : Connected G₁ G₂)
    (mined : Mined) (pprev : CBlockIndex) : Prop :=
  if b.pindex.nHeight < p.DIP0003Height then
    blockQuorums b.block = []
  else
    active_chain.isSome = true ∧ NullsInPlace p active_chain b mined pprev ∧
      ∀ qc ∈ b.block.commitments.filterMap id, 0 < (p.mining qc.llmqType).minSize ∧
        0 < (p.mining qc.llmqType).dkgMiningWindowStart

variable (p m genesis) in
/-- A rollback leaves nothing behind that it makes wrong, and what is put on the chain is in
place. -/
def OnceWhen (s : Node G₁ G₂) (call : Call G₁ G₂) : Prop :=
  RollbackUnseen s call ∧
    ∀ b active_chain fBLSChecks pprev, call = .connect b active_chain false fBLSChecks →
      Connects p m genesis s b active_chain fBLSChecks → parent b.pindex = some pprev →
      BlockInPlace p active_chain b (minedQuorums s) pprev

/-- What the calls keep. -/
structure OnceInv (p : ChainParams G₁ G₂) (genesis : uint256) (s : Node G₁ G₂) : Prop where
  inv : Inv p genesis s
  once : Once p s.chain
  rootOnce : Once p s.rootChain

theorem once_nil (p : ChainParams G₁ G₂) : Once p [] where
  nodup := List.nodup_nil
  below _ hb := absurd hb List.not_mem_nil

theorem onceInv_start : OnceInv p genesis (start p) :=
  ⟨inv_start, once_nil p, once_nil p⟩

theorem exists_parent (hpprev : b.pindex.pprev = hashes genesis chain) :
    ∃ pprev, parent b.pindex = some pprev := by
  unfold parent
  cases hcases : b.pindex.pprev with
  | nil =>
    rw [hcases, hashes] at hpprev
    exact absurd hpprev.symm (List.append_ne_nil_of_right_ne_nil _ (List.cons_ne_nil _ _))
  | cons hash pprev => exact ⟨_, rfl⟩

/-- A block that is put on the chain names quorums that the chain has not named. -/
theorem Once.cons (h : Inv p genesis s) (honce : Once p s.chain) {fBLSChecks : Bool}
    (hconnects : Connects p m genesis s b active_chain fBLSChecks)
    (hbelow : b.pindex.nHeight < p.DIP0003Height → blockQuorums b.block = []) :
    Once p (b :: s.chain) := by
  obtain ⟨hok, -, -, haccepted⟩ := hconnects
  have hnew : (blockQuorums b.block).Nodup ∧
      ∀ q ∈ blockQuorums b.block, minedQuorums s q.1 q.2 = false := by
    rw [accepted_iff (knows_of_truthful h.truthful)] at haccepted
    rcases haccepted with hearly | ⟨qcs, pprev, hacceptable⟩
    · rw [hbelow hearly]
      exact ⟨List.nodup_nil, fun q hq => absurd hq List.not_mem_nil⟩
    · have hperm := getCommitmentsFromBlock_quorums hacceptable.commitments
      obtain ⟨hnodup, hfresh⟩ := hacceptable.passes.fresh
      exact ⟨hperm.nodup_iff.mp hnodup, fun q hq => hfresh q (hperm.mem_iff.mpr hq)⟩
  refine ⟨List.nodup_append.mpr ⟨hnew.1, honce.nodup, ?_⟩,
    List.forall_mem_cons.mpr ⟨hbelow, honce.below⟩⟩
  rintro q hq _ hq' rfl
  have hmined := isSome_minedOn h.recorded honce.below hq'
  have hnot := hnew.2 q hq
  rw [minedQuorums, CEvoDB.existsKey, h.view hok _ Key.noConfusion, hmined] at hnot
  contradiction

variable (p m genesis) in
/-- What a call makes of the chain. -/
theorem step_chain (s : Node G₁ G₂) (call : Call G₁ G₂) :
    (step p m genesis s call).2.chain = s.chain ∨
      (step p m genesis s call).2.chain = s.rootChain ∨
      (∃ b, s.chain = b :: (step p m genesis s call).2.chain) ∨
      ∃ b active_chain fBLSChecks, call = .connect b active_chain false fBLSChecks ∧
        Connects p m genesis s b active_chain fBLSChecks ∧
        (step p m genesis s call).2.chain = b :: s.chain := by
  unfold step
  cases call with
  | connect b active_chain fJustCheck fBLSChecks =>
    dsimp only
    split_ifs with hcall
    · unfold Node.connect
      rcases hrun : (processBlock p b.pindex m active_chain b.block fJustCheck fBLSChecks).run.run
        s.processor with ⟨result, processor⟩
      cases result with
      | error e => exact Or.inl rfl
      | ok a =>
        cases fJustCheck with
        | true => exact Or.inl rfl
        | false =>
          have hconnects : Connects p m genesis s b active_chain fBLSChecks :=
            ⟨hcall.1, hcall.2.1, hcall.2.2, congrArg Prod.fst hrun⟩
          exact Or.inr (Or.inr (Or.inr ⟨b, active_chain, fBLSChecks, rfl, hconnects, rfl⟩))
    · exact Or.inl rfl
  | disconnect =>
    dsimp only
    split_ifs
    · unfold Node.disconnect
      cases hchain : s.chain with
      | nil => exact Or.inl hchain
      | cons b chain =>
        dsimp only
        split
        · exact Or.inr (Or.inr (Or.inl ⟨b, rfl⟩))
        · exact Or.inl rfl
    · exact Or.inl rfl
  | commit =>
    dsimp only
    split_ifs
    · exact Or.inl rfl
    · exact Or.inl rfl
  | rollback => exact Or.inr (Or.inl rfl)
  | commitRoot =>
    dsimp only
    cases s.processor.evoDb.commitRootTransaction with
    | none => exact Or.inl rfl
    | some evoDb => exact Or.inl rfl
  | query llmqType quorumHash => exact Or.inl rfl

variable (p m genesis) in
theorem step_rootChain (s : Node G₁ G₂) (call : Call G₁ G₂) :
    (step p m genesis s call).2.rootChain = s.rootChain ∨
      (step p m genesis s call).2.rootChain = s.chain := by
  unfold step
  cases call with
  | connect b active_chain fJustCheck fBLSChecks =>
    dsimp only
    split_ifs
    · unfold Node.connect
      split
      · exact Or.inl rfl
      · exact Or.inl rfl
    · exact Or.inl rfl
  | disconnect =>
    dsimp only
    split_ifs
    · unfold Node.disconnect
      split
      · exact Or.inl rfl
      · split
        · exact Or.inl rfl
        · exact Or.inl rfl
    · exact Or.inl rfl
  | commit =>
    dsimp only
    split_ifs
    · exact Or.inr rfl
    · exact Or.inl rfl
  | rollback => exact Or.inl rfl
  | commitRoot =>
    dsimp only
    cases s.processor.evoDb.commitRootTransaction with
    | none => exact Or.inl rfl
    | some evoDb => exact Or.inl rfl
  | query llmqType quorumHash => exact Or.inl rfl

/-- One call. -/
theorem OnceInv.step (h : OnceInv p genesis s) (hwhen : OnceWhen p m genesis s call) :
    OnceInv p genesis (step p m genesis s call).2 := by
  refine ⟨h.inv.step hwhen.1, ?_, ?_⟩
  · rcases step_chain p m genesis s call with
      hsame | hroot | ⟨b, htail⟩ | ⟨b, active_chain, fBLSChecks, hcall, hconnects, hcons⟩
    · rw [hsame]
      exact h.once
    · rw [hroot]
      exact h.rootOnce
    · have honce := h.once
      rw [htail] at honce
      exact honce.tail
    · obtain ⟨pprev, hparent⟩ := exists_parent hconnects.2.1
      have hplace := hwhen.2 b active_chain fBLSChecks pprev hcall hconnects hparent
      rw [hcons]
      refine Once.cons h.inv h.once hconnects fun hearly => ?_
      rwa [BlockInPlace, if_pos hearly] at hplace
  · rcases step_rootChain p m genesis s call with hsame | hcommit
    · rw [hsame]
      exact h.rootOnce
    · rw [hcommit]
      exact h.once

/-- A block that is put on the chain in place holds what is needed. -/
theorem OnceInv.minesOnce (h : OnceInv p genesis s) (hindexed : Indexed p)
    (hwhen : OnceWhen p m genesis s call) : MinesOnce p m genesis s call := by
  intro b active_chain fBLSChecks pprev hcall hconnects hparent hlate
  have hplace := hwhen.2 b active_chain fBLSChecks pprev hcall hconnects hparent
  rw [BlockInPlace, if_neg (not_lt.mpr hlate)] at hplace
  obtain ⟨hsome, hnulls, hmining⟩ := hplace
  obtain ⟨tip, rfl⟩ := Option.isSome_iff_exists.mp hsome
  obtain ⟨-, -, hchain, haccepted⟩ := hconnects
  rw [accepted_iff (knows_of_truthful h.inv.truthful)] at haccepted
  obtain ⟨qcs, pprev', hacceptable⟩ := haccepted.resolve_left (not_lt.mpr hlate)
  have hsame := hacceptable.parent
  rw [hparent, Option.some.injEq] at hsame
  subst hsame
  exact exactlyOnce_of_acceptable hacceptable hindexed (hchain tip rfl).1 hnulls hmining

/-- In a run whose rollbacks leave no wrong answer behind and whose blocks are in place, every
block that is put on the chain holds one commitment for each index that needs one and no others,
and no chain on the way names a quorum twice. -/
theorem mined_exactly_once (p : ChainParams G₁ G₂) (compute : LLMQType → CBlockIndex → ℕ)
    (m : BlockManager) (genesis : uint256) (calls : List (Call G₁ G₂))
    (hwhen : Runs.EveryStep (step (p.withMembers compute) m genesis)
      (OnceWhen (p.withMembers compute) m genesis) (start (p.withMembers compute)) calls) :
    Runs.EveryStep (step (p.withMembers compute) m genesis)
        (MinesOnce (p.withMembers compute) m genesis) (start (p.withMembers compute)) calls ∧
      ∀ past, past <+: calls → (chainQuorums (Runs.final (step (p.withMembers compute) m genesis)
        (start (p.withMembers compute)) past).chain).Nodup := by
  have hindexed := indexed_withMembers p compute
  refine ⟨Runs.everyStep_of_invariant (OnceInv (p.withMembers compute) genesis)
    (fun _ _ h hwhen => ⟨h.minesOnce hindexed hwhen, h.step hwhen⟩) onceInv_start hwhen,
    fun past hpast => ?_⟩
  have hinv := Runs.prefix_invariant (OnceInv (p.withMembers compute) genesis)
    (fun _ _ h hwhen => h.step hwhen) onceInv_start hwhen hpast
  exact hinv.once.nodup

/-! ### A null commitment out of place -/

/-- A null commitment of `LLMQ_TEST_DIP0024` for a quorum that starts at a height. -/
def nullCommitment (nHeight : ℕ) : CFinalCommitment Unit Unit where
  nVersion := 4
  llmqType := 103
  quorumHash := BitVec.ofNat 256 (nHeight+1)
  signers := [false, false, false, false]
  validMembers := [false, false, false, false]

/-- With a mining window from the second block on. -/
def earlyParams : ChainParams Unit Unit := {rotatedParams with mining := fun _ => ⟨4, 4, 1, 20⟩}

/-- The first block holds the null commitment of the quorum that starts at the genesis block. -/
def earlyCall : Call Unit Unit :=
  .connect ⟨⟨[some (nullCommitment 0)]⟩, testIndex 1⟩ (some (testIndex 0)) false true

theorem onceWhen_early : OnceWhen (earlyParams.withMembers fun _ _ => 4) rotatedBlocks 1
    (start (earlyParams.withMembers fun _ _ => 4)) earlyCall := by
  refine ⟨nofun, ?_⟩
  rintro b active_chain fBLSChecks pprev hcall - hparent
  obtain ⟨rfl, rfl, -, rfl⟩ := Call.connect.inj hcall
  have hpprev : pprev = testIndex 0 := (Option.some.inj hparent).symm
  subst hpprev
  refine ⟨rfl, ⟨by decide +kernel, ?_, by decide⟩, by decide⟩
  intro qc hqc _ params hparams
  rw [List.mem_singleton.mp hqc] at hparams ⊢
  have htest : params = ⟨103, true, 24, 2, 4⟩ := (Option.some.inj hparams).symm
  subst htest
  decide +kernel

theorem mined_exactly_once_early :
    Runs.EveryStep (step (earlyParams.withMembers fun _ _ => 4) rotatedBlocks 1)
        (MinesOnce (earlyParams.withMembers fun _ _ => 4) rotatedBlocks 1)
        (start (earlyParams.withMembers fun _ _ => 4)) [earlyCall] ∧
      ∀ past, past <+: [earlyCall] → (chainQuorums (Runs.final
        (step (earlyParams.withMembers fun _ _ => 4) rotatedBlocks 1)
        (start (earlyParams.withMembers fun _ _ => 4)) past).chain).Nodup :=
  mined_exactly_once earlyParams (fun _ _ => 4) rotatedBlocks 1 [earlyCall]
    ⟨onceWhen_early, trivial⟩

/-- The blocks of the first mining window hold one null commitment each. -/
def emptyBlock (nHeight : ℕ) : CBlock Unit Unit where
  commitments := if 12 ≤ nHeight ∧ nHeight ≤ 20 then [some (nullCommitment 0)] else []

/-- Up to the second mining window of `LLMQ_TEST_DIP0024`. -/
def emptyCalls : List (Call Unit Unit) :=
  (List.range 35).map fun n =>
    .connect ⟨emptyBlock (n+1), testIndex (n+1)⟩ (some (testIndex n)) false true

/-- The first block of the second mining window holds the null commitment for index 0 twice. -/
def nullTwice : Connected Unit Unit :=
  ⟨⟨[some (nullCommitment 24), some (nullCommitment 24)]⟩, testIndex 36⟩

theorem not_mined_once : ¬Runs.EveryStep (step (rotatedParams.withMembers fun _ _ => 4)
    rotatedBlocks 1) (MinesOnce (rotatedParams.withMembers fun _ _ => 4) rotatedBlocks 1)
    (start (rotatedParams.withMembers fun _ _ => 4))
    (emptyCalls ++ [.connect nullTwice (some (testIndex 35)) false true]) := by
  intro hevery
  rw [Runs.everyStep_append] at hevery
  have honce := hevery.2.1 nullTwice (some (testIndex 35)) true (testIndex 35) rfl
    (by unfold Connects; decide +kernel) (by decide +kernel) (by decide +kernel)
  -- the second index has none
  have hcount := honce.each ⟨103, true, 24, 2, 4⟩ (by decide +kernel) 1
  revert hcount
  decide +kernel

end BabaChain.LLMQ.BlockProcessor
