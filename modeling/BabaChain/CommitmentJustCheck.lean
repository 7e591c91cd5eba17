import BabaChain.CommitmentAcceptance
import BabaChain.CommitmentRuns

/-! Blocks that are just checked: which of them are accepted when they are connected, and what a
check leaves behind. -/
namespace BabaChain.LLMQ.BlockProcessor
open LruCache Triples

variable {G₁ G₂ : Type} {p : ChainParams G₁ G₂} {m : BlockManager} {pindex : CBlockIndex}
  {active_chain : CChain} {block : CBlock G₁ G₂} {qcs : List (CFinalCommitment G₁ G₂)}
  {qc : CFinalCommitment G₁ G₂} {mined mined' : Mined} {nHeight : ℕ}

/-- The quorums that the commitments of a list name, besides the null ones. -/
def namedQuorums (qcs : List (CFinalCommitment G₁ G₂)) : List (LLMQType × uint256) :=
  (qcs.filter fun qc => !qc.isNull).map fun qc => (qc.llmqType, qc.quorumHash)

theorem namedQuorums_cons_null (hnull : qc.isNull = true) :
    namedQuorums (qc :: qcs) = namedQuorums qcs := by
  rw [namedQuorums, List.filter_cons_of_neg (by rw [hnull]; decide)]
  rfl

theorem namedQuorums_cons (hnull : qc.isNull = false) :
    namedQuorums (qc :: qcs) = (qc.llmqType, qc.quorumHash) :: namedQuorums qcs := by
  rw [namedQuorums, List.filter_cons_of_pos (by rw [hnull]; rfl), List.map_cons]
  rfl

theorem mem_namedQuorums (hqc : qc ∈ qcs) (hnull : qc.isNull = false) :
    (qc.llmqType, qc.quorumHash) ∈ namedQuorums qcs :=
  List.mem_map.mpr ⟨qc, List.mem_filter.mpr ⟨hqc, by rw [hnull]; rfl⟩, rfl⟩

/-- A commitment is checked against its own quorum only. -/
theorem Passes.congr {params : LLMQParams} (h : Passes p m active_chain nHeight mined qc params)
    (hfresh : qc.isNull = false → mined qc.llmqType qc.quorumHash = false →
      mined' qc.llmqType qc.quorumHash = false) :
    Passes p m active_chain nHeight mined' qc params where
  known := h.known
  hash := h.hash
  ne_zero := h.ne_zero
  null := h.null
  fresh hnull := hfresh hnull (h.fresh hnull)
  phase := h.phase
  verified := h.verified

/-- Commitments that pass one after the other pass when they are just checked. -/
theorem PassAll.justCheck
    (h : PassAll p m active_chain nHeight false mined qcs)
    (hless : ∀ t hash, mined t hash = false → mined' t hash = false) :
    PassAll p m active_chain nHeight true mined' qcs := by
  induction qcs generalizing mined with
  | nil => trivial
  | cons qc qcs ih =>
    obtain ⟨⟨params, hpasses⟩, hrest⟩ := h
    refine ⟨⟨params, hpasses.congr fun _ => hless _ _⟩, ih hrest fun t hash hnot => ?_⟩
    have hboth : (mined t hash || (!qc.isNull && decide (t = qc.llmqType ∧
      hash = qc.quorumHash))) = false := hnot
    rw [Bool.or_eq_false_iff] at hboth
    exact hless t hash hboth.1

/-- They pass one after the other if no two of them are for the same quorum. -/
theorem PassAll.process
    (h : PassAll p m active_chain nHeight true mined qcs)
    (hsame : ∀ q ∈ namedQuorums qcs, mined' q.1 q.2 = mined q.1 q.2)
    (hnodup : (namedQuorums qcs).Nodup) :
    PassAll p m active_chain nHeight false mined' qcs := by
  induction qcs generalizing mined' with
  | nil => trivial
  | cons qc qcs ih =>
    obtain ⟨⟨params, hpasses⟩, hrest⟩ := h
    refine ⟨⟨params, hpasses.congr fun hnull hfresh => ?_⟩, ?_⟩
    · exact (hsame _ (mem_namedQuorums List.mem_cons_self hnull)).trans hfresh
    · rw [if_neg Bool.false_ne_true]
      by_cases hnull : qc.isNull = true
      · rw [namedQuorums_cons_null hnull] at hsame hnodup
        rw [recordMined_of_null hnull]
        exact ih hrest hsame hnodup
      · rw [Bool.not_eq_true] at hnull
        rw [namedQuorums_cons hnull] at hsame hnodup
        rw [List.nodup_cons] at hnodup
        refine ih hrest (fun q hq => ?_) hnodup.2
        have hne : ¬(q.1 = qc.llmqType ∧ q.2 = qc.quorumHash) := by
          rintro ⟨htype, hhash⟩
          have hsame : q = (qc.llmqType, qc.quorumHash) := Prod.ext htype hhash
          exact hnodup.1 (hsame ▸ hq)
        rw [recordMined, decide_eq_false hne, Bool.and_false, Bool.or_false]
        exact hsame q (List.mem_cons_of_mem _ hq)

/-! ### What a check leaves behind -/

variable {view root : Key → Option (Value G₁ G₂)}

theorem triple_justCheckCommitment (qc : CFinalCommitment G₁ G₂) :
    Triple (At view root) (processCommitment p pindex m active_chain true qc)
      (fun _ => At view root) (At view root) := by
  have hstop : ∀ s, At view root s → At view root s := fun _ hs => hs
  unfold processCommitment
  dsimp only
  cases p.consensus.getLLMQ qc.llmqType with
  | none => exact triple_throw hstop
  | some params =>
    refine triple_refuse_bind hstop fun _ => triple_refuse_bind hstop fun _ => ?_
    refine triple_ite (fun _ => ?_) fun _ => ?_
    · exact triple_ite (fun _ => triple_throw hstop) fun _ => triple_pure hstop
    · refine (triple_hasMined _ _).bind fun answer => Triple.pre ?_ fun s hs => hs.2
      refine triple_refuse_bind hstop fun _ => ?_
      cases isMiningPhase p params active_chain pindex.nHeight with
      | none => exact triple_throw hstop
      | some miningPhase =>
        refine triple_refuse_bind hstop fun _ => ?_
        cases m.lookupBlockIndex qc.quorumHash with
        | none => exact triple_throw hstop
        | some base =>
          refine triple_refuse_bind hstop fun _ => ?_
          exact triple_pure hstop

/-- A block that is just checked changes the mark of the best block only. -/
theorem triple_justCheck (fBLSChecks : Bool) :
    Triple (At view root) (processBlock p pindex m active_chain block true fBLSChecks)
      (fun _ => At view root) (At view root) := by
  unfold processBlock
  refine triple_ite (fun _ => triple_modify fun s hs => hs.writeBestBlock _) fun _ => ?_
  cases getCommitmentsFromBlock p pindex block with
  | error e => exact triple_throw fun _ hs => hs
  | ok qcs =>
    cases parent pindex with
    | none => exact triple_throw fun _ hs => hs
    | some pprev =>
      refine (triple_checkNumbers (asks_at view root) pprev).bind fun _ => ?_
      refine (triple_checkSignatures (At view root) fBLSChecks).bind fun _ => ?_
      have hloop : Triple (At view root)
          (qcs.forM (processCommitment p pindex m active_chain true)) (fun _ => At view root)
          (At view root) :=
        triple_forM (fun _ => At view root) [] fun _ qc _ => triple_justCheckCommitment qc
      exact hloop.bind fun _ => triple_modify fun s hs => hs.writeBestBlock _

/-! ### Agreement -/

/-- The quorums that a block names in commitments that are not null. -/
def blockQuorums (block : CBlock G₁ G₂) : List (LLMQType × uint256) :=
  namedQuorums (block.commitments.filterMap id)

theorem namedQuorums_perm {qcs' : List (CFinalCommitment G₁ G₂)} (h : qcs.Perm qcs') :
    (namedQuorums qcs).Perm (namedQuorums qcs') :=
  (h.filter _).map _

theorem getCommitmentsFromBlock_quorums
    (hqcs : getCommitmentsFromBlock p pindex block = .ok qcs) :
    (namedQuorums qcs).Perm (blockQuorums block) := by
  have hperm := (getCommitmentsFromBlock_perm hqcs).filterMap id
  rw [List.filterMap_map, Function.id_comp, List.filterMap_some] at hperm
  exact namedQuorums_perm hperm

/-- A block is just checked, or connected. -/
def processed (p : ChainParams G₁ G₂) (m : BlockManager) (pindex : CBlockIndex)
    (active_chain : CChain) (block : CBlock G₁ G₂) (fBLSChecks : Bool)
    (self : CQuorumBlockProcessor G₁ G₂) (fJustCheck : Bool) :
    Except Refusal Unit × CQuorumBlockProcessor G₁ G₂ :=
  (processBlock p pindex m active_chain block fJustCheck fBLSChecks).run.run self

theorem accepted_iff {self : CQuorumBlockProcessor G₁ G₂} (hself : Knows mined self)
    (fJustCheck fBLSChecks : Bool) :
    (processed p m pindex active_chain block fBLSChecks self fJustCheck).1 = .ok () ↔
      pindex.nHeight < p.DIP0003Height ∨ ∃ qcs pprev,
        Acceptable p m pindex active_chain block fJustCheck fBLSChecks mined qcs pprev := by
  have hdecides : Decides (Knows mined)
      (processBlock p pindex m active_chain block fJustCheck fBLSChecks)
      (pindex.nHeight < p.DIP0003Height ∨ ∃ qcs pprev,
        Acceptable p m pindex active_chain block fJustCheck fBLSChecks mined qcs pprev)
      fun _ s => ∃ mined, Knows mined s :=
    decides_processBlock settles_knows fJustCheck fBLSChecks (fun _ _ _ _ _ _ => trivial)
      fun _ _ _ => trivial
  rw [← hdecides.ok_iff hself]
  exact ⟨fun hok => ⟨(), hok⟩, fun ⟨_, hok⟩ => hok⟩

/-- `LLMQ_TEST_DIP0024`, with rotation and special transactions from the first block on. -/
def rotatedParams : ChainParams Unit Unit where
  consensus :=
    { llmqs := [⟨103, true, 24, 2, 4⟩]
      DIP0024Height := 1
      nodup := by decide }
  mining _ := ⟨4, 4, 12, 20⟩
  DIP0003Height := 1
  isQuorumTypeEnabled _ _ := true
  V19ActiveAfter _ := true
  countMembers _ _ := 4
  verifySignatures _ _ := true

def rotatedBlocks : BlockManager where
  blocks := (List.range 132).map testIndex
  nodup := by decide +kernel
  parent_mem := by decide +kernel

/-- The commitment of the quorum with index 0 in the cycle that starts at height 120. -/
def rotatedCommitment : CFinalCommitment Unit Unit where
  nVersion := 4
  llmqType := 103
  quorumHash := 121
  quorumIndex := 0
  signers := [true, true, true, true]
  validMembers := [true, true, true, true]
  quorumPublicKey := some ()
  quorumVvecHash := 7
  quorumSig := some ()
  membersSig := some ()

def newProcessor : CQuorumBlockProcessor Unit Unit :=
  {mapHasMinedCommitmentCache := fun _ => create 4}

/-- The first block of the mining window, with the same commitment twice. -/
def twice : CBlock Unit Unit := ⟨[some rotatedCommitment, some rotatedCommitment]⟩

theorem truthful_newProcessor : Truthful newProcessor := fun _ => holds_create _ _

end BabaChain.LLMQ.BlockProcessor
