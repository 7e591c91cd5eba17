import BabaChain.CommitmentUndo
import BabaChain.Lib.Runs

/-! Connecting and disconnecting blocks through commits and rollbacks of the database: what it
says of the chain, and when the cache of `HasMinedCommitment` says the same. -/
namespace BabaChain.LLMQ.BlockProcessor
open Overlay LruCache Triples

variable {G₁ G₂ : Type} {p : ChainParams G₁ G₂} {m : BlockManager} {pindex : CBlockIndex}
  {active_chain : CChain}

/-! ### Calls -/

/-- The node: what the current transaction has made of the chain, what was committed of it,
and whether a call was refused that is still to be rolled back. -/
structure Node (G₁ G₂ : Type) where
  processor : CQuorumBlockProcessor G₁ G₂
  chain : List (Connected G₁ G₂) := []
  rootChain : List (Connected G₁ G₂) := []
  failed : Bool := false

inductive Call (G₁ G₂ : Type)
  | connect (b : Connected G₁ G₂) (active_chain : CChain) (fJustCheck fBLSChecks : Bool)
  | disconnect
  | commit
  | rollback
  | commitRoot
  | query (llmqType : LLMQType) (quorumHash : uint256)

/-- The hashes of a chain, newest first. -/
def hashes (genesis : uint256) (chain : List (Connected G₁ G₂)) : List uint256 :=
  chain.map (fun b => b.pindex.hash) ++ [genesis]

instance : Decidable (OnChain m active_chain pindex) :=
  match active_chain with
  | none => .isTrue nofun
  | some tip =>
    decidable_of_iff (tip ∈ m.blocks ∧ pindex.pprev <:+ tip.hash :: tip.pprev)
      ⟨fun h _ htip => Option.some.inj htip ▸ h, fun h => h tip rfl⟩

variable (p m) in
def Node.connect (s : Node G₁ G₂) (b : Connected G₁ G₂) (active_chain : CChain)
    (fJustCheck fBLSChecks : Bool) : Node G₁ G₂ :=
  match (processBlock p b.pindex m active_chain b.block fJustCheck fBLSChecks).run.run
    s.processor with
  | (.ok _, processor) =>
    {s with processor := processor, chain := if fJustCheck = true then s.chain else b :: s.chain}
  | (.error _, processor) => {s with processor := processor, failed := true}

variable (p) in
def Node.disconnect (s : Node G₁ G₂) : Node G₁ G₂ :=
  match s.chain with
  | [] => s
  | b :: chain =>
    match (undoBlock p b.pindex b.block).run.run s.processor with
    | (.ok _, processor) => {s with processor := processor, chain := chain}
    | (.error _, processor) => {s with processor := processor, failed := true}

variable (p m) in
/-- A block is connected on top of the last one and the last one is disconnected. After a
refusal nothing but a rollback follows. -/
def step (genesis : uint256) (s : Node G₁ G₂) (call : Call G₁ G₂) : Unit × Node G₁ G₂ :=
  ((), match call with
  | .connect b active_chain fJustCheck fBLSChecks =>
    if s.failed = false ∧ b.pindex.pprev = hashes genesis s.chain ∧
        OnChain m active_chain b.pindex then
      s.connect p m b active_chain fJustCheck fBLSChecks
    else
      s
  | .disconnect => if s.failed = false then s.disconnect p else s
  | .commit =>
    if s.failed = false then
      {s with
        processor := {s.processor with evoDb := s.processor.evoDb.commitCurTransaction}
        rootChain := s.chain}
    else
      s
  | .rollback =>
    {s with
      processor := {s.processor with evoDb := s.processor.evoDb.rollbackCurTransaction}
      chain := s.rootChain
      failed := false}
  | .commitRoot =>
    match s.processor.evoDb.commitRootTransaction with
    | none => s
    | some evoDb => {s with processor := {s.processor with evoDb := evoDb}}
  | .query llmqType quorumHash =>
    {s with processor := (s.processor.hasMinedCommitment llmqType quorumHash).2})

variable (p) in
/-- A new node. Its caches are made by `InitQuorumsCache`. -/
def start : Node G₁ G₂ where
  processor :=
    {mapHasMinedCommitmentCache := fun llmqType =>
      create (((p.consensus.getLLMQ llmqType).map LLMQParams.keepOldKeys).getD 0)}

/-- Every block of the chain is on top of the others and was fresh there. -/
def Recorded (p : ChainParams G₁ G₂) (genesis : uint256) : List (Connected G₁ G₂) → Prop
  | [] => True
  | b :: chain =>
    b.pindex.pprev = hashes genesis chain ∧ FreshBlock p (minedOn p chain) b ∧
      Recorded p genesis chain

variable {genesis : uint256} {chain : List (Connected G₁ G₂)} {b : Connected G₁ G₂}

theorem nHeight_of_pprev (hpprev : b.pindex.pprev = hashes genesis chain) :
    b.pindex.nHeight = chain.length+1 := by
  rw [CBlockIndex.nHeight, hpprev, hashes, List.length_append, List.length_map,
    List.length_singleton]

theorem nHeight_pos (hpprev : b.pindex.pprev = hashes genesis chain) : 0 < b.pindex.nHeight := by
  rw [nHeight_of_pprev hpprev]
  exact Nat.succ_pos _

theorem mem_minedBy_keys {k : Key} (hk : k ∈ (minedBy p b).map Prod.fst) :
    (∃ qcs, getCommitmentsFromBlock p b.pindex b.block = .ok qcs ∧
      ∃ qc ∈ qcs, qc.isNull = false ∧ k = .minedCommitment qc.llmqType qc.quorumHash) ∨
      ∃ rotation_enabled t quorumIndex,
        k = buildInversedHeightKey rotation_enabled t b.pindex.nHeight quorumIndex := by
  obtain ⟨e, he, rfl⟩ := List.mem_map.mp hk
  unfold minedBy at he
  split_ifs at he with hearly
  · exact absurd he List.not_mem_nil
  · cases hqcs : getCommitmentsFromBlock p b.pindex b.block with
    | error e =>
      rw [hqcs] at he
      exact absurd he List.not_mem_nil
    | ok qcs =>
      rw [hqcs] at he
      obtain ⟨qc, hqc, he⟩ := List.mem_flatMap.mp he
      unfold written at he
      split_ifs at he with hnull
      · exact absurd he List.not_mem_nil
      · cases hparams : p.consensus.getLLMQ qc.llmqType with
        | none =>
          rw [hparams] at he
          exact absurd he List.not_mem_nil
        | some params =>
          rw [hparams] at he
          rcases List.mem_cons.mp he with rfl | he
          · exact Or.inl ⟨qcs, rfl, qc, hqc, Bool.not_eq_true _ ▸ hnull, rfl⟩
          · rw [List.mem_singleton.mp he]
            exact Or.inr ⟨_, _, _, rfl⟩

theorem buildInversedHeightKey_height {r r' : Bool} {t t' : LLMQType} {h h' : ℕ} {i i' : ℤ}
    (heq : buildInversedHeightKey r t h i = buildInversedHeightKey r' t' h' i') : h = h' := by
  unfold buildInversedHeightKey at heq
  split_ifs at heq
  · rw [Key.minedByInversedHeightQIndexed.injEq] at heq
    omega
  · rw [Key.minedByInversedHeight.injEq] at heq
    omega

/-- The heights in the database are those of the chain. -/
theorem minedOn_heightKey (hchain : Recorded p genesis chain) {nHeight : ℕ}
    (hheight : chain.length < nHeight) (rotation_enabled : Bool) (t : LLMQType)
    (quorumIndex : ℤ) :
    minedOn p chain (buildInversedHeightKey rotation_enabled t nHeight quorumIndex) = none := by
  induction chain with
  | nil => rfl
  | cons b chain ih =>
    obtain ⟨hpprev, -, hrest⟩ := hchain
    rw [List.length_cons] at hheight
    rw [minedOn, overwrite_of_notMem]
    · exact ih hrest (by omega)
    · intro hmem
      rcases mem_minedBy_keys hmem with ⟨_, _, qc, _, _, heq⟩ | ⟨r, t', i, heq⟩
      · exact buildInversedHeightKey_ne _ _ heq
      · have hsame := buildInversedHeightKey_height heq
        rw [nHeight_of_pprev hpprev] at hsame
        omega

/-- The keys that a block writes are new. -/
theorem minedOn_new (hchain : Recorded p genesis chain)
    (hpprev : b.pindex.pprev = hashes genesis chain) (hfresh : FreshBlock p (minedOn p chain) b) :
    ∀ k ∈ (minedBy p b).map Prod.fst, minedOn p chain k = none := by
  intro k hk
  rcases mem_minedBy_keys hk with ⟨qcs, hqcs, qc, hqc, hnull, rfl⟩ | ⟨r, t, i, rfl⟩
  · rcases hfresh with hearly | ⟨qcs', hqcs', hfresh⟩
    · rw [minedBy, if_pos hearly] at hk
      exact absurd hk List.not_mem_nil
    · rw [hqcs, Except.ok.injEq] at hqcs'
      exact (hfresh qc (hqcs' ▸ hqc) hnull).2
  · apply minedOn_heightKey hchain
    rw [nHeight_of_pprev hpprev]
    omega

/-! ### Runs -/

/-- What the calls keep, as long as no rollback leaves an answer behind that it makes wrong. -/
structure Inv (p : ChainParams G₁ G₂) (genesis : uint256) (s : Node G₁ G₂) : Prop where
  truthful : Truthful s.processor
  root : ∀ k, k ≠ .bestBlockUpgrade → s.processor.evoDb.readRoot k = minedOn p s.rootChain k
  view : s.failed = false →
    ∀ k, k ≠ .bestBlockUpgrade → s.processor.evoDb.read k = minedOn p s.chain k
  recorded : Recorded p genesis s.chain
  rootRecorded : Recorded p genesis s.rootChain

/-- At a rollback nothing is cached for a quorum whose commitment was mined or undone in the
transaction that is given up. -/
def RollbackUnseen (s : Node G₁ G₂) (call : Call G₁ G₂) : Prop :=
  call = .rollback → ∀ (t : LLMQType) (hash : uint256),
    (lookup (s.processor.mapHasMinedCommitmentCache t) hash).isSome = true →
      s.processor.evoDb.existsKey (.minedCommitment t hash) =
        (s.processor.evoDb.readRoot (.minedCommitment t hash)).isSome

/-- The database says what the chain has mined and `HasMinedCommitment` answers by it, and a
block that is accepted is taken back exactly by undoing it. -/
structure Undoable (p : ChainParams G₁ G₂) (m : BlockManager) (genesis : uint256)
    (s : Node G₁ G₂) : Prop where
  answers : ∀ (t : LLMQType) (hash : uint256), (s.processor.hasMinedCommitment t hash).1 =
    s.processor.evoDb.existsKey (.minedCommitment t hash)
  contents : s.failed = false →
    ∀ k, k ≠ .bestBlockUpgrade → s.processor.evoDb.read k = minedOn p s.chain k
  undo : s.failed = false → ∀ (b : Connected G₁ G₂) (active_chain : CChain) (fBLSChecks : Bool)
    (processor : CQuorumBlockProcessor G₁ G₂), b.pindex.pprev = hashes genesis s.chain →
    OnChain m active_chain b.pindex →
    (processBlock p b.pindex m active_chain b.block false fBLSChecks).run.run s.processor =
      (.ok (), processor) →
    ∀ k, k ≠ .bestBlockUpgrade →
      ((undoBlock p b.pindex b.block).run.run processor).2.evoDb.read k =
        s.processor.evoDb.read k

variable {s : Node G₁ G₂}

theorem inv_start : Inv p genesis (start p) where
  truthful t := holds_create _ _
  root _ _ := by
    rw [start, CEvoDB.readRoot]
    exact (Transaction.read_clear _ _).trans (by simp [minedOn])
  view _ _ _ := by
    rw [start, CEvoDB.read]
    refine (Transaction.read_clear _ _).trans ?_
    rw [CEvoDB.readRoot]
    exact (Transaction.read_clear _ _).trans (by simp [minedOn])
  recorded := trivial
  rootRecorded := trivial

theorem Inv.at (h : Inv p genesis s) (hok : s.failed = false) :
    At (minedOn p s.chain) s.processor.evoDb.readRoot s.processor :=
  ⟨h.truthful, h.view hok, rfl⟩

theorem Inv.connect (h : Inv p genesis s) (hok : s.failed = false)
    (hpprev : b.pindex.pprev = hashes genesis s.chain)
    (hchain : OnChain m active_chain b.pindex) (fJustCheck fBLSChecks : Bool) :
    Inv p genesis (s.connect p m b active_chain fJustCheck fBLSChecks) := by
  have htriple : Triple (At (minedOn p s.chain) s.processor.evoDb.readRoot)
      (processBlock p b.pindex m active_chain b.block fJustCheck fBLSChecks) _ _ :=
    triple_processBlock hchain (nHeight_pos hpprev) fJustCheck fBLSChecks
  unfold Node.connect
  rcases hrun : (processBlock p b.pindex m active_chain b.block fJustCheck fBLSChecks).run.run
    s.processor with ⟨result, processor⟩
  cases result with
  | ok a =>
    obtain ⟨hat, hfresh⟩ := htriple.ok (h.at hok) hrun
    refine ⟨hat.truthful, ?_, fun _ => ?_, ?_, h.rootRecorded⟩
    · rw [hat.readRoot]
      exact h.root
    · cases fJustCheck with
      | true => exact hat.read
      | false => exact hat.read
    · cases fJustCheck with
      | true => exact h.recorded
      | false => exact ⟨hpprev, hfresh, h.recorded⟩
  | error e =>
    have hkept := htriple.error (h.at hok) hrun
    refine ⟨hkept.truthful, ?_, nofun, h.recorded, h.rootRecorded⟩
    rw [hkept.readRoot]
    exact h.root

theorem Inv.disconnect (h : Inv p genesis s) (hok : s.failed = false) :
    Inv p genesis (s.disconnect p) := by
  unfold Node.disconnect
  cases hchain : s.chain with
  | nil => exact h
  | cons b chain =>
    have hrecorded := h.recorded
    rw [hchain] at hrecorded
    obtain ⟨hpprev, hfresh, hrest⟩ := hrecorded
    have hat := h.at hok
    rw [hchain] at hat
    have htriple : Triple _ (undoBlock p b.pindex b.block) (fun _ => At (minedOn p chain)
        s.processor.evoDb.readRoot) _ :=
      triple_undoBlock hfresh (minedOn_new hrest hpprev hfresh) (nHeight_pos hpprev)
    dsimp only
    rcases hrun : (undoBlock p b.pindex b.block).run.run s.processor with ⟨result, processor⟩
    cases result with
    | ok a =>
      have hundone := htriple.ok hat hrun
      refine ⟨hundone.truthful, ?_, fun _ => hundone.read, hrest, h.rootRecorded⟩
      rw [hundone.readRoot]
      exact h.root
    | error e =>
      obtain ⟨-, hkept⟩ := htriple.error hat hrun
      refine ⟨hkept.truthful, ?_, nofun, ⟨hpprev, hfresh, hrest⟩, h.rootRecorded⟩
      rw [hkept.readRoot]
      exact h.root

/-- The cache stays truthful while what is read stays the same. -/
theorem Truthful.congr {evoDb : CEvoDB G₁ G₂} {self : CQuorumBlockProcessor G₁ G₂}
    (h : Truthful self) (hread : evoDb.read = self.evoDb.read) :
    Truthful {self with evoDb := evoDb} := by
  intro t
  refine (h t).mono fun hash fExists hexists => ?_
  rw [hexists, CEvoDB.existsKey, CEvoDB.existsKey, hread]

theorem truthful_rollback (h : Inv p genesis s) (hunseen : RollbackUnseen s .rollback) :
    Truthful {s.processor with evoDb := s.processor.evoDb.rollbackCurTransaction} := by
  intro t e he
  have hvalue : e.value = s.processor.evoDb.existsKey (.minedCommitment t e.key) :=
    h.truthful t e he
  have hcached : (lookup (s.processor.mapHasMinedCommitmentCache t) e.key).isSome = true := by
    rw [lookup, List.find?_isSome]
    exact ⟨e, he, decide_eq_true rfl⟩
  rw [hunseen rfl t e.key hcached] at hvalue
  rw [hvalue, CEvoDB.existsKey, CEvoDB.read_rollbackCur]

/-- One call. -/
theorem Inv.step (h : Inv p genesis s) {call : Call G₁ G₂} (hunseen : RollbackUnseen s call) :
    Inv p genesis (step p m genesis s call).2 := by
  cases call with
  | connect b active_chain fJustCheck fBLSChecks =>
    rw [BlockProcessor.step]
    dsimp only
    split_ifs with hcall
    · exact h.connect hcall.1 hcall.2.1 hcall.2.2 fJustCheck fBLSChecks
    · exact h
  | disconnect =>
    rw [BlockProcessor.step]
    dsimp only
    split_ifs with hok
    · exact h.disconnect hok
    · exact h
  | commit =>
    rw [BlockProcessor.step]
    dsimp only
    split_ifs with hok
    · refine ⟨h.truthful.congr (CEvoDB.read_commitCur _), ?_, fun _ => ?_, h.recorded, h.recorded⟩
      · rw [CEvoDB.readRoot_commitCur]
        exact h.view hok
      · rw [CEvoDB.read_commitCur]
        exact h.view hok
    · exact h
  | rollback =>
    refine ⟨truthful_rollback h hunseen, h.root, fun _ => ?_, h.rootRecorded, h.rootRecorded⟩
    change ∀ k, _ → s.processor.evoDb.rollbackCurTransaction.read k = minedOn p s.rootChain k
    rw [CEvoDB.read_rollbackCur]
    exact h.root
  | commitRoot =>
    rw [BlockProcessor.step]
    cases hcommit : s.processor.evoDb.commitRootTransaction with
    | none => exact h
    | some evoDb =>
      refine ⟨h.truthful.congr (CEvoDB.read_commitRoot hcommit), ?_, fun hok => ?_, h.recorded,
        h.rootRecorded⟩
      · dsimp only
        rw [CEvoDB.readRoot_commitRoot hcommit]
        exact h.root
      · dsimp only
        rw [CEvoDB.read_commitRoot hcommit]
        exact h.view hok
  | query t hash =>
    obtain ⟨-, htruthful, hdb⟩ := h.truthful.hasMined t hash
    refine ⟨htruthful, ?_, fun hok => ?_, h.recorded, h.rootRecorded⟩
    · rw [BlockProcessor.step, hdb]
      exact h.root
    · rw [BlockProcessor.step, hdb]
      exact h.view hok

theorem Inv.undoable (h : Inv p genesis s) : Undoable p m genesis s where
  answers t hash := (h.truthful.hasMined t hash).1
  contents := h.view
  undo := by
    intro hok b active_chain fBLSChecks processor hpprev hchain hrun k hk
    have hheight := nHeight_pos hpprev
    have hprocess : Triple (At (minedOn p s.chain) s.processor.evoDb.readRoot)
        (processBlock p b.pindex m active_chain b.block false fBLSChecks) _ _ :=
      triple_processBlock hchain hheight false fBLSChecks
    obtain ⟨hat, hfresh⟩ := hprocess.ok (h.at hok) hrun
    have hundo : Triple _ (undoBlock p b.pindex b.block) (fun _ => At (minedOn p s.chain)
        s.processor.evoDb.readRoot) _ :=
      triple_undoBlock hfresh (minedOn_new h.recorded hpprev hfresh) hheight
    rw [h.view hok k hk]
    rcases hrun : (undoBlock p b.pindex b.block).run.run processor with ⟨result, processor'⟩
    cases result with
    | ok a => exact (hundo.ok hat hrun).read k hk
    | error e => exact (hundo.error hat hrun).2.read k hk

/-- What is cached for a quorum is still answered after a rollback that makes it wrong. -/
theorem Inv.wrong_of_seen (h : Inv p genesis s) {call : Call G₁ G₂}
    (hseen : ¬RollbackUnseen s call) :
    ¬Undoable p m genesis (BlockProcessor.step p m genesis s call).2 := by
  unfold RollbackUnseen at hseen
  push Not at hseen
  obtain ⟨rfl, t, hash, hcached, hne⟩ := hseen
  intro hundoable
  obtain ⟨e, hlookup⟩ := Option.isSome_iff_exists.mp hcached
  have hget : (LruCache.get (s.processor.mapHasMinedCommitmentCache t) hash).1 = some e.value := by
    rw [LruCache.get, hlookup]
  have hvalue : e.value = s.processor.evoDb.existsKey (.minedCommitment t hash) :=
    (h.truthful t).get_value hget
  have hanswer : (CQuorumBlockProcessor.hasMinedCommitment {s.processor with
      evoDb := s.processor.evoDb.rollbackCurTransaction} t hash).1 =
      s.processor.evoDb.rollbackCurTransaction.existsKey (.minedCommitment t hash) :=
    hundoable.answers t hash
  rw [CEvoDB.existsKey, CEvoDB.read_rollbackCur, CQuorumBlockProcessor.hasMinedCommitment]
    at hanswer
  dsimp only at hanswer
  rw [LruCache.get, hlookup] at hanswer
  exact hne (hvalue.symm.trans hanswer)

theorem mined_undoable_iff (p : ChainParams G₁ G₂) (m : BlockManager) (genesis : uint256)
    (calls : List (Call G₁ G₂)) :
    (∀ past, past <+: calls →
      Undoable p m genesis (Runs.final (step p m genesis) (start p) past)) ↔
      Runs.EveryStep (step p m genesis) RollbackUnseen (start p) calls :=
  Runs.forall_prefix_iff (Inv p genesis) (Undoable p m genesis) (fun _ h => h.undoable)
    (fun _ _ h hunseen => h.step hunseen) (fun _ _ h hseen => h.wrong_of_seen hseen) inv_start calls

/-! ### An answer that outlives its block -/

/-- `LLMQ_TEST`, with special transactions from the first block on. -/
def testParams : ChainParams Unit Unit where
  consensus :=
    { llmqs := [⟨100, false, 24, 2, 4⟩]
      DIP0024Height := 1
      nodup := by decide }
  mining _ := ⟨3, 2, 10, 18⟩
  DIP0003Height := 1
  isQuorumTypeEnabled _ _ := true
  V19ActiveAfter _ := true
  countMembers _ _ := 3
  verifySignatures _ _ := true

/-- The block at a height, on top of blocks whose hashes count up from one. -/
def testIndex (nHeight : ℕ) : CBlockIndex :=
  ⟨BitVec.ofNat 256 (nHeight+1), (List.range nHeight).reverse.map fun n => BitVec.ofNat 256 (n+1)⟩

def testBlocks : BlockManager where
  blocks := (List.range 34).map testIndex
  nodup := by decide +kernel
  parent_mem := by decide +kernel

/-- The commitment of the quorum that starts at height 24. -/
def testCommitment : CFinalCommitment Unit Unit where
  nVersion := 3
  llmqType := 100
  quorumHash := 25
  quorumIndex := 0
  signers := [true, true, true]
  validMembers := [true, true, true]
  quorumPublicKey := some ()
  quorumVvecHash := 7
  quorumSig := some ()
  membersSig := some ()

/-- The quorum that starts at the genesis block stays without a commitment: the blocks of its
mining window hold null ones. -/
def testBlock (nHeight : ℕ) : CBlock Unit Unit where
  commitments :=
    if 10 ≤ nHeight ∧ nHeight ≤ 18 then
      [some {nVersion := 3, llmqType := 100, quorumHash := 1, signers := [false, false, false]
             validMembers := [false, false, false]}]
    else
      []

/-- The blocks up to height 33 are committed. The next one mines the commitment of the quorum that
starts at height 24, `HasMinedCommitment` is asked about it, and the block is rolled back. -/
def testCalls : List (Call Unit Unit) :=
  (List.range 33).map (fun n =>
      .connect ⟨testBlock (n+1), testIndex (n+1)⟩ (some (testIndex n)) false true) ++
    [.commit, .connect ⟨⟨[some testCommitment]⟩, testIndex 34⟩ (some (testIndex 33)) false true,
      .query 100 25, .rollback]

theorem mined_not_undoable : ¬Undoable testParams testBlocks 1
    (Runs.final (step testParams testBlocks 1) (start testParams) testCalls) := by
  intro h
  have hanswer := h.answers 100 25
  revert hanswer
  decide +kernel

end BabaChain.LLMQ.BlockProcessor
