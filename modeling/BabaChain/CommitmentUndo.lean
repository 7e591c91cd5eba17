import BabaChain.QuorumBlockProcessor
import BabaChain.Lib.Guards

/-! What processing a block and undoing it do to the commitments in the database, with a cache
that says what the database does. -/
namespace BabaChain.LLMQ.BlockProcessor
open Overlay LruCache Triples

variable {G₁ G₂ : Type} {p : ChainParams G₁ G₂} {m : BlockManager} {pindex : CBlockIndex}

/-! ### Blocks -/

theorem mem_of_suffix {b : CBlockIndex} (hb : b ∈ m.blocks) {hash : uint256}
    {pprev : List uint256} (hsuffix : hash :: pprev <:+ b.hash :: b.pprev) :
    ⟨hash, pprev⟩ ∈ m.blocks := by
  obtain ⟨bhash, bpprev⟩ := b
  induction bpprev generalizing bhash with
  | nil =>
    rcases List.suffix_cons_iff.mp hsuffix with heq | hnil
    · rw [List.cons.injEq] at heq
      rw [heq.1, heq.2]
      exact hb
    · exact absurd (List.suffix_nil.mp hnil) (List.cons_ne_nil hash pprev)
  | cons a rest ih =>
    rcases List.suffix_cons_iff.mp hsuffix with heq | hrest
    · rw [List.cons.injEq] at heq
      rw [heq.1, heq.2]
      exact hb
    · have hparent : (⟨a, rest⟩ : CBlockIndex) ∈ m.blocks := m.parent_mem _ hb _ rfl
      exact ih a hparent hrest

theorem getAncestor_eq_some {b a : CBlockIndex} {height : ℕ}
    (hancestor : b.getAncestor height = some a) :
    a.hash :: a.pprev <:+ b.hash :: b.pprev ∧ a.nHeight = height := by
  unfold CBlockIndex.getAncestor at hancestor
  split_ifs at hancestor with hlt
  cases hdrop : (b.hash :: b.pprev).drop (b.nHeight-height) with
  | nil =>
    rw [hdrop] at hancestor
    contradiction
  | cons hash pprev =>
    rw [hdrop, Option.some.injEq] at hancestor
    subst hancestor
    refine ⟨hdrop ▸ List.drop_suffix _ _, ?_⟩
    have hlen := congrArg List.length hdrop
    rw [List.length_drop, List.length_cons, List.length_cons] at hlen
    unfold CBlockIndex.nHeight at *
    change pprev.length = height
    omega

theorem lookup_of_mem {b : CBlockIndex} (hb : b ∈ m.blocks) :
    m.lookupBlockIndex b.hash = some b := by
  unfold BlockManager.lookupBlockIndex
  have hnodup := m.nodup
  generalize m.blocks = blocks at hb hnodup
  induction blocks with
  | nil => exact absurd hb List.not_mem_nil
  | cons c blocks ih =>
    rw [List.map_cons, List.nodup_cons] at hnodup
    rcases List.mem_cons.mp hb with rfl | hb
    · rw [List.find?_cons_of_pos (by simp)]
    · have hne : c.hash ≠ b.hash := fun heq => hnodup.1 (heq ▸ List.mem_map_of_mem hb)
      rw [List.find?_cons_of_neg (by simpa using hne)]
      exact ih hb hnodup.2

/-- The active chain of a call: none, or one of known blocks that the block's parent is on. -/
def OnChain (m : BlockManager) (active_chain : CChain) (pindex : CBlockIndex) : Prop :=
  ∀ tip ∈ active_chain, tip ∈ m.blocks ∧ pindex.pprev <:+ tip.hash :: tip.pprev

/-- What is checked of a commitment besides its version and its signatures. -/
structure Verified (p : ChainParams G₁ G₂) (qc : CFinalCommitment G₁ G₂) (base : CBlockIndex)
    (params : LLMQParams) : Prop where
  known : p.consensus.getLLMQ qc.llmqType = some params
  hash : base.hash = qc.quorumHash
  index : ((base.nHeight%params.dkgInterval : ℕ) : ℤ) = qc.quorumIndex
  sizes : Commitment.verifySizes qc (p.mining params.type) = true
  validMembers : (p.mining params.type).minSize ≤ qc.validMembers.count true
  members : (qc.validMembers.drop (p.countMembers qc.llmqType base)).contains true = false

theorem verified_of_verify {qc : CFinalCommitment G₁ G₂} {base : CBlockIndex}
    (hverify : Commitment.verify p qc base = true) : ∃ params, Verified p qc base params := by
  unfold Commitment.verify at hverify
  cases hparams : p.consensus.getLLMQ qc.llmqType with
  | none =>
    rw [hparams] at hverify
    contradiction
  | some params =>
    rw [hparams] at hverify
    simp only [Bool.and_eq_true, decide_eq_true_iff, Bool.not_eq_true'] at hverify
    obtain ⟨⟨⟨⟨⟨⟨⟨⟨⟨⟨-, hhash⟩, hindex⟩, hsizes⟩, hvalid⟩, -⟩, -⟩, -⟩, -⟩, -⟩, hmembers, -⟩ :=
      hverify
    exact ⟨params, hparams, hhash, hindex, hsizes, hvalid, hmembers⟩

/-- A verified commitment is for a block of the cycle in which it is mined. -/
theorem base_of_verified {llmqParams : LLMQParams} {active_chain : CChain}
    {qc : CFinalCommitment G₁ G₂} {base : CBlockIndex} {nHeight : ℕ}
    (hparams : p.consensus.getLLMQ qc.llmqType = some llmqParams)
    (hchain : ∀ tip ∈ active_chain, tip ∈ m.blocks)
    (hhash : getQuorumBlockHash llmqParams active_chain nHeight qc.quorumIndex = qc.quorumHash)
    (hne : qc.quorumHash ≠ 0) (hlookup : m.lookupBlockIndex qc.quorumHash = some base)
    (hverify : Commitment.verify p qc base = true) :
    (base.nHeight : ℤ) = nHeight-(nHeight%llmqParams.dkgInterval : ℕ)+qc.quorumIndex ∧
      ((base.nHeight%llmqParams.dkgInterval : ℕ) : ℤ) = qc.quorumIndex := by
  have hindex : ((base.nHeight%llmqParams.dkgInterval : ℕ) : ℤ) = qc.quorumIndex := by
    obtain ⟨params, hverified⟩ := verified_of_verify hverify
    have hsame := hverified.known
    rw [hparams, Option.some.injEq] at hsame
    exact hsame ▸ hverified.index
  refine ⟨?_, hindex⟩
  cases active_chain with
  | none =>
    rw [getQuorumBlockHash, getBlockHash, Option.getD_none] at hhash
    exact absurd hhash.symm hne
  | some tip =>
    rw [getQuorumBlockHash, getBlockHash] at hhash
    have hmod := Nat.mod_le nHeight llmqParams.dkgInterval
    split_ifs at hhash with hout htip
    · exact absurd hhash.symm hne
    · omega
    · cases hancestor : tip.getAncestor
        ((nHeight : ℤ)-(nHeight%llmqParams.dkgInterval : ℕ)+qc.quorumIndex).toNat with
      | none =>
        rw [hancestor] at hhash
        exact absurd hhash.symm hne
      | some a =>
        rw [hancestor, Option.map_some, Option.getD_some] at hhash
        obtain ⟨hsuffix, hheight⟩ := getAncestor_eq_some hancestor
        have ha : a ∈ m.blocks := mem_of_suffix (hchain tip rfl) hsuffix
        have hbase := lookup_of_mem ha
        rw [hhash, hlookup, Option.some.injEq] at hbase
        rw [hbase, hheight]
        omega

/-- Rotation is switched on for whole cycles. -/
theorem isQuorumRotationEnabled_base {c : Consensus} {llmqParams : LLMQParams}
    {base pindex : CBlockIndex} {quorumIndex : ℤ}
    (hheight : (base.nHeight : ℤ) =
      pindex.nHeight-(pindex.nHeight%llmqParams.dkgInterval : ℕ)+quorumIndex)
    (hindex : ((base.nHeight%llmqParams.dkgInterval : ℕ) : ℤ) = quorumIndex) :
    isQuorumRotationEnabled c llmqParams base = isQuorumRotationEnabled c llmqParams pindex := by
  have hmod := Nat.mod_le pindex.nHeight llmqParams.dkgInterval
  have hcycle : base.nHeight-base.nHeight%llmqParams.dkgInterval =
      pindex.nHeight-pindex.nHeight%llmqParams.dkgInterval := by omega
  unfold isQuorumRotationEnabled
  rw [hcycle]

/-! ### The commitments of a block -/

variable {block : CBlock G₁ G₂} {qcs ret : List (CFinalCommitment G₁ G₂)}

theorem emplace_perm (ret : List (CFinalCommitment G₁ G₂)) (qc : CFinalCommitment G₁ G₂) :
    (emplace ret qc).Perm (qc :: ret) := by
  have hsplit := List.takeWhile_append_dropWhile
    (p := fun x : CFinalCommitment G₁ G₂ => decide (x.llmqType ≤ qc.llmqType)) (l := ret)
  refine List.perm_middle.trans ?_
  rw [hsplit]

theorem addCommitments_perm {payloads : List (Option (CFinalCommitment G₁ G₂))}
    (hfold : payloads.foldlM (addCommitment p pindex) ret = .ok qcs) :
    (qcs.map some).Perm (ret.map some ++ payloads) := by
  induction payloads generalizing ret with
  | nil =>
    have heq := Except.ok.inj hfold
    rw [heq, List.append_nil]
  | cons payload payloads ih =>
    rw [List.foldlM_cons] at hfold
    obtain ⟨ret', hadd, hrest⟩ := Guards.bind_ok_iff.mp hfold
    have hperm := ih hrest
    unfold addCommitment at hadd
    cases payload with
    | none => contradiction
    | some qc =>
      dsimp only at hadd
      cases hparams : p.consensus.getLLMQ qc.llmqType with
      | none =>
        rw [hparams] at hadd
        contradiction
      | some params =>
        rw [hparams] at hadd
        dsimp only at hadd
        split_ifs at hadd
        have heq := Except.ok.inj hadd
        subst heq
        have hemplace := ((emplace_perm ret qc).map some).append_right payloads
        exact (hperm.trans hemplace).trans List.perm_middle.symm

/-- The commitments that are processed are those in the block. -/
theorem getCommitmentsFromBlock_perm (hqcs : getCommitmentsFromBlock p pindex block = .ok qcs) :
    (qcs.map some).Perm block.commitments := by
  unfold getCommitmentsFromBlock at hqcs
  cases hfold : block.commitments.foldlM (addCommitment p pindex) [] with
  | error e =>
    rw [hfold] at hqcs
    contradiction
  | ok ret =>
    rw [hfold] at hqcs
    dsimp only at hqcs
    split_ifs at hqcs
    have heq := Except.ok.inj hqcs
    subst heq
    exact addCommitments_perm hfold

/-! ### What a chain has mined -/

/-- What a commitment adds to the database. -/
def written (p : ChainParams G₁ G₂) (pindex : CBlockIndex) (qc : CFinalCommitment G₁ G₂) :
    List (Key × Value G₁ G₂) :=
  if qc.isNull = true then
    []
  else
    match p.consensus.getLLMQ qc.llmqType with
    | none => []
    | some params =>
      [(.minedCommitment qc.llmqType qc.quorumHash, .commitment qc pindex.hash),
        (buildInversedHeightKey (isQuorumRotationEnabled p.consensus params pindex) qc.llmqType
          pindex.nHeight qc.quorumIndex,
          .quorumHeight (pindex.nHeight-(pindex.nHeight%params.dkgInterval : ℕ)+qc.quorumIndex))]

/-- A block that was connected. -/
structure Connected (G₁ G₂ : Type) where
  block : CBlock G₁ G₂
  pindex : CBlockIndex

/-- What a block adds to the database. -/
def minedBy (p : ChainParams G₁ G₂) (b : Connected G₁ G₂) : List (Key × Value G₁ G₂) :=
  if b.pindex.nHeight < p.DIP0003Height then
    []
  else
    match getCommitmentsFromBlock p b.pindex b.block with
    | .error _ => []
    | .ok qcs => qcs.flatMap (written p b.pindex)

/-- What the database says of the commitments that a chain has mined, newest block first. -/
def minedOn (p : ChainParams G₁ G₂) : List (Connected G₁ G₂) → Key → Option (Value G₁ G₂)
  | [] => fun _ => none
  | b :: chain => overwrite (minedOn p chain) (minedBy p b)

/-! ### The cache -/

/-- Whatever the cache has is what the database says. -/
def Truthful (self : CQuorumBlockProcessor G₁ G₂) : Prop :=
  ∀ llmqType, Holds (fun quorumHash fExists =>
    fExists = self.evoDb.existsKey (.minedCommitment llmqType quorumHash))
    (self.mapHasMinedCommitmentCache llmqType)

variable {self : CQuorumBlockProcessor G₁ G₂} {llmqType : LLMQType} {quorumHash : uint256}

theorem Truthful.setCache (h : Truthful self) {cache : Cache uint256 Bool}
    (hcache : Holds (fun quorumHash fExists =>
      fExists = self.evoDb.existsKey (.minedCommitment llmqType quorumHash)) cache) :
    Truthful (self.setCache llmqType cache) := by
  intro t
  rw [CQuorumBlockProcessor.evoDb_setCache]
  by_cases ht : t = llmqType
  · subst ht
    rw [CQuorumBlockProcessor.setCache_self]
    exact hcache
  · rw [CQuorumBlockProcessor.setCache_of_ne ht]
    exact h t

theorem Truthful.hasMined (h : Truthful self) (llmqType : LLMQType) (quorumHash : uint256) :
    (self.hasMinedCommitment llmqType quorumHash).1 =
        self.evoDb.existsKey (.minedCommitment llmqType quorumHash) ∧
      Truthful (self.hasMinedCommitment llmqType quorumHash).2 ∧
      (self.hasMinedCommitment llmqType quorumHash).2.evoDb = self.evoDb := by
  have hvalue : ∀ value,
      (get (self.mapHasMinedCommitmentCache llmqType) quorumHash).1 = some value →
        value = self.evoDb.existsKey (.minedCommitment llmqType quorumHash) :=
    fun value hget => (h llmqType).get_value hget
  have hstate := (h llmqType).get_state quorumHash
  unfold CQuorumBlockProcessor.hasMinedCommitment
  dsimp only
  rcases hget : get (self.mapHasMinedCommitmentCache llmqType) quorumHash with ⟨answer, cache⟩
  rw [hget] at hvalue hstate
  cases answer with
  | some fExists => exact ⟨hvalue fExists rfl, h.setCache hstate, rfl⟩
  | none => exact ⟨rfl, h.setCache ((h llmqType).insert rfl), rfl⟩

/-- What was cached for one key is dropped when that key is written or deleted. -/
theorem Truthful.eraseCached {self' : CQuorumBlockProcessor G₁ G₂} (h : Truthful self)
    (hcache : self'.mapHasMinedCommitmentCache = self.mapHasMinedCommitmentCache)
    (hsame : ∀ t hash, (t, hash) ≠ (llmqType, quorumHash) →
      self'.evoDb.existsKey (.minedCommitment t hash) =
        self.evoDb.existsKey (.minedCommitment t hash)) :
    Truthful (self'.eraseCached llmqType quorumHash) := by
  intro t
  rw [CQuorumBlockProcessor.eraseCached, CQuorumBlockProcessor.evoDb_setCache, hcache]
  by_cases ht : t = llmqType
  · subst ht
    rw [CQuorumBlockProcessor.setCache_self]
    refine ((h t).erase quorumHash).mono fun hash fExists hkeep => ?_
    rw [hkeep.1]
    exact (hsame t hash fun heq => hkeep.2 (Prod.mk.inj heq).2).symm
  · rw [CQuorumBlockProcessor.setCache_of_ne ht, hcache]
    refine (h t).mono fun hash fExists hkeep => ?_
    rw [hkeep]
    exact (hsame t hash fun heq => ht (Prod.mk.inj heq).1).symm

/-! ### Calls -/

/-- A truthful cache, and what is read through the current transaction and past it. -/
structure At (view root : Key → Option (Value G₁ G₂)) (s : CQuorumBlockProcessor G₁ G₂) :
    Prop where
  truthful : Truthful s
  read : ∀ k, k ≠ .bestBlockUpgrade → s.evoDb.read k = view k
  readRoot : s.evoDb.readRoot = root

/-- What a refused call keeps. -/
structure Kept (root : Key → Option (Value G₁ G₂)) (s : CQuorumBlockProcessor G₁ G₂) :
    Prop where
  truthful : Truthful s
  readRoot : s.evoDb.readRoot = root

variable {view root : Key → Option (Value G₁ G₂)}

theorem At.kept (h : At view root self) : Kept root self := ⟨h.truthful, h.readRoot⟩

theorem At.existsKey (h : At view root self) (t : LLMQType) (hash : uint256) :
    self.evoDb.existsKey (.minedCommitment t hash) = (view (.minedCommitment t hash)).isSome := by
  rw [CEvoDB.existsKey, h.read _ Key.noConfusion]

theorem At.hasMined (h : At view root self) (t : LLMQType) (hash : uint256) :
    (self.hasMinedCommitment t hash).1 = (view (.minedCommitment t hash)).isSome ∧
      At view root (self.hasMinedCommitment t hash).2 := by
  obtain ⟨hanswer, htruthful, hdb⟩ := h.truthful.hasMined t hash
  refine ⟨hanswer.trans (h.existsKey t hash), htruthful, ?_, ?_⟩
  · rw [hdb]
    exact h.read
  · rw [hdb]
    exact h.readRoot

theorem At.writeBestBlock (h : At view root self) (hash : uint256) :
    At view root (self.write .bestBlockUpgrade (.bestBlock hash)) := by
  have hread : ∀ k, k ≠ .bestBlockUpgrade →
      (self.write .bestBlockUpgrade (.bestBlock hash)).evoDb.read k = self.evoDb.read k := by
    intro k hk
    rw [CQuorumBlockProcessor.write, CEvoDB.read_write, if_neg (Ne.symm hk)]
  refine ⟨fun t => ?_, fun k hk => (hread k hk).trans (h.read k hk), h.readRoot⟩
  refine (h.truthful t).mono fun quorumHash fExists hexists => ?_
  rw [hexists, CEvoDB.existsKey, CEvoDB.existsKey, hread _ Key.noConfusion]

theorem buildInversedHeightKey_ne {rotation_enabled : Bool} {nMinedHeight : ℕ} {quorumIndex : ℤ}
    (t : LLMQType) (hash : uint256) :
    buildInversedHeightKey rotation_enabled llmqType nMinedHeight quorumIndex ≠
      .minedCommitment t hash := by
  unfold buildInversedHeightKey
  split <;> exact Key.noConfusion

theorem At.writeCommitment (h : At view root self) (pindex : CBlockIndex)
    {qc : CFinalCommitment G₁ G₂} {params : LLMQParams} (hnull : qc.isNull = false)
    (hparams : p.consensus.getLLMQ qc.llmqType = some params) :
    At (overwrite view (written p pindex qc)) root
      (((self.write (.minedCommitment qc.llmqType qc.quorumHash)
        (.commitment qc pindex.hash)).write
        (buildInversedHeightKey (isQuorumRotationEnabled p.consensus params pindex) qc.llmqType
          pindex.nHeight qc.quorumIndex)
        (.quorumHeight (pindex.nHeight-(pindex.nHeight%params.dkgInterval : ℕ)+
          qc.quorumIndex))).eraseCached qc.llmqType qc.quorumHash) := by
  have hread : ∀ k, k ≠ .bestBlockUpgrade →
      ((self.evoDb.write (.minedCommitment qc.llmqType qc.quorumHash)
        (.commitment qc pindex.hash)).write
        (buildInversedHeightKey (isQuorumRotationEnabled p.consensus params pindex) qc.llmqType
          pindex.nHeight qc.quorumIndex)
        (.quorumHeight (pindex.nHeight-(pindex.nHeight%params.dkgInterval : ℕ)+
          qc.quorumIndex))).read k = overwrite view (written p pindex qc) k := by
    intro k hk
    rw [CEvoDB.read_write, CEvoDB.read_write, h.read k hk, written, hnull, hparams]
    rfl
  refine ⟨h.truthful.eraseCached rfl fun t hash hne => ?_, hread, h.readRoot⟩
  rw [CEvoDB.existsKey, CEvoDB.existsKey]
  rw [CQuorumBlockProcessor.write, CQuorumBlockProcessor.write, CEvoDB.read_write,
    CEvoDB.read_write, if_neg (buildInversedHeightKey_ne t hash), if_neg ?_]
  rintro heq
  rw [Key.minedCommitment.injEq] at heq
  exact hne (Prod.ext heq.1.symm heq.2.symm)

theorem triple_hasMined {E : CQuorumBlockProcessor G₁ G₂ → Prop} (t : LLMQType) (hash : uint256) :
    Triple (At view root)
      (modifyGet fun self => self.hasMinedCommitment t hash : Processing G₁ G₂ Bool)
      (fun mined s => mined = (view (.minedCommitment t hash)).isSome ∧ At view root s) E :=
  triple_modifyGet fun _ hs => hs.hasMined t hash

variable {active_chain : CChain} {I : CQuorumBlockProcessor G₁ G₂ → Prop}

/-- What stays true whatever is asked about mined commitments. -/
def Asks (I : CQuorumBlockProcessor G₁ G₂ → Prop) : Prop :=
  ∀ s t hash, I s → I (s.hasMinedCommitment t hash).2

theorem asks_at (view root : Key → Option (Value G₁ G₂)) : Asks (At view root) :=
  fun _ t hash h => (h.hasMined t hash).2

theorem Asks.triple (hI : Asks I) (t : LLMQType) (hash : uint256) :
    Triple I (modifyGet fun self => self.hasMinedCommitment t hash : Processing G₁ G₂ Bool)
      (fun _ => I) I :=
  triple_modifyGet fun s hs => hI s t hash hs

theorem triple_getNumCommitmentsRequired (hI : Asks I) (llmqParams : LLMQParams) (nHeight : ℕ) :
    Triple I (getNumCommitmentsRequired p active_chain llmqParams nHeight) (fun _ => I) I := by
  unfold getNumCommitmentsRequired
  split
  · exact triple_throw fun _ hs => hs
  · exact triple_pure fun _ hs => hs
  · split
    · exact triple_throw fun _ hs => hs
    · refine triple_foldlM fun ret quorumIndex _ => ?_
      unfold countRequired
      refine triple_ite (fun _ => triple_pure fun _ hs => hs) fun _ => ?_
      exact (hI.triple _ _).bind fun mined => triple_pure fun _ hs => hs

theorem triple_checkNumber (hI : Asks I) (params : LLMQParams) :
    Triple I (checkNumber p pindex active_chain qcs params) (fun _ => I) I := by
  refine (triple_getNumCommitmentsRequired hI params pindex.nHeight).bind fun required => ?_
  refine triple_refuse_bind (fun _ hs => hs) fun _ => ?_
  refine triple_ite (fun _ => ?_) fun _ => ?_
  · exact triple_throw fun _ hs => hs
  · exact triple_pure fun _ hs => hs

/-- The checks of the numbers only ask the cache. -/
theorem triple_checkNumbers (hI : Asks I) (pprev : CBlockIndex) :
    Triple I (checkNumbers p pindex active_chain pprev qcs) (fun _ => I) I := by
  refine triple_ite (fun _ => triple_pure fun _ hs => hs) fun _ => ?_
  exact triple_forM (fun _ => I) [] fun _ params _ => triple_checkNumber hI params

theorem triple_checkSignatures (I : CQuorumBlockProcessor G₁ G₂ → Prop) (fBLSChecks : Bool) :
    Triple I (checkSignatures p m fBLSChecks qcs) (fun _ => I) I := by
  refine triple_ite (fun _ => ?_) fun _ => triple_pure fun _ hs => hs
  refine triple_refuse_bind (fun _ hs => hs) fun _ => ?_
  refine triple_ite (fun _ => ?_) fun _ => ?_
  · exact triple_throw fun _ hs => hs
  · exact triple_pure fun _ hs => hs

/-- A commitment that is mined is of a known type and was not mined before. -/
def Fresh (p : ChainParams G₁ G₂) (view : Key → Option (Value G₁ G₂))
    (qc : CFinalCommitment G₁ G₂) : Prop :=
  qc.isNull = false → (p.consensus.getLLMQ qc.llmqType).isSome = true ∧
    view (.minedCommitment qc.llmqType qc.quorumHash) = none

theorem getLLMQ_type {c : Consensus} {t : LLMQType} {params : LLMQParams}
    (hparams : c.getLLMQ t = some params) : params.type = t := by
  have htype := List.find?_some hparams
  exact of_decide_eq_true htype

/-- What a commitment that passes is checked for, and what it adds. -/
theorem triple_processCommitment (hchain : OnChain m active_chain pindex)
    (hheight : 0 < pindex.nHeight) (fJustCheck : Bool) (qc : CFinalCommitment G₁ G₂) :
    Triple (At view root) (processCommitment p pindex m active_chain fJustCheck qc)
      (fun _ s => At (overwrite view (if fJustCheck = true then [] else
        written p pindex qc)) root s ∧ Fresh p view qc) (Kept root) := by
  have hkept : ∀ s, At view root s → Kept root s := fun _ hs => hs.kept
  unfold processCommitment
  dsimp only
  cases hparams : p.consensus.getLLMQ qc.llmqType with
  | none => exact triple_throw hkept
  | some params =>
    dsimp only
    refine triple_refuse_bind hkept fun hne => ?_
    refine triple_refuse_bind hkept fun hhash => ?_
    rw [not_not] at hhash
    refine triple_ite (fun hnull => ?_) fun hnull => ?_
    · -- a null commitment leaves nothing behind
      have hwritten : (if fJustCheck = true then [] else written p pindex qc) = [] := by
        rw [written, if_pos hnull, ite_self]
      rw [hwritten]
      refine triple_ite (fun _ => triple_throw hkept) fun _ => triple_pure fun _ hs => ⟨hs, ?_⟩
      intro hnot
      rw [hnull] at hnot
      contradiction
    · rw [Bool.not_eq_true] at hnull
      rw [hhash] at hne ⊢
      refine (triple_hasMined _ _).bind fun mined => ?_
      refine triple_refuse_bind (fun _ hs => hs.2.kept) fun hmined => ?_
      cases hphase : isMiningPhase p params active_chain pindex.nHeight with
      | none => exact triple_throw fun _ hs => hs.2.kept
      | some miningPhase =>
        refine triple_refuse_bind (fun _ hs => hs.2.kept) fun _ => ?_
        cases hlookup : m.lookupBlockIndex qc.quorumHash with
        | none => exact triple_throw fun _ hs => hs.2.kept
        | some base =>
          refine triple_refuse_bind (fun _ hs => hs.2.kept) fun hverify => ?_
          rw [Bool.not_eq_false] at hverify
          obtain ⟨tip, rfl⟩ : ∃ tip, active_chain = some tip := by
            cases active_chain with
            | some tip => exact ⟨tip, rfl⟩
            | none =>
              rw [isMiningPhase, if_pos (by rw [CChain.height]; omega)] at hphase
              contradiction
          have htype := getLLMQ_type hparams
          obtain ⟨hbase, hindex⟩ := base_of_verified hparams (fun tip htip => (hchain tip htip).1)
            hhash hne hlookup hverify
          have hrotation := isQuorumRotationEnabled_base (c := p.consensus) hbase hindex
          have hfresh : ∀ s, mined = (view (.minedCommitment params.type qc.quorumHash)).isSome ∧
              At view root s → Fresh p view qc := by
            intro s hs _
            rw [hparams, ← htype]
            refine ⟨rfl, ?_⟩
            rw [← Option.not_isSome_iff_eq_none, ← hs.1]
            exact hmined
          rw [hrotation, hbase]
          refine triple_ite (fun hjust => ?_) fun hjust => ?_
          · rw [if_pos hjust]
            exact triple_pure fun s hs => ⟨hs.2, hfresh s hs⟩
          · rw [if_neg hjust]
            intro s hs
            have hwrite := hs.2.writeCommitment pindex hnull hparams
            rw [← htype] at hwrite ⊢
            exact ⟨hwrite, hfresh s hs⟩

/-- The commitments of a block are of known types and none was mined before. -/
def FreshBlock (p : ChainParams G₁ G₂) (view : Key → Option (Value G₁ G₂))
    (b : Connected G₁ G₂) : Prop :=
  b.pindex.nHeight < p.DIP0003Height ∨
    ∃ qcs, getCommitmentsFromBlock p b.pindex b.block = .ok qcs ∧ ∀ qc ∈ qcs, Fresh p view qc

theorem triple_processCommitments (hchain : OnChain m active_chain pindex)
    (hheight : 0 < pindex.nHeight) (fJustCheck : Bool) :
    Triple (At view root) (qcs.forM (processCommitment p pindex m active_chain fJustCheck))
      (fun _ s => At (overwrite view (if fJustCheck = true then [] else
        qcs.flatMap (written p pindex))) root s ∧ ∀ qc ∈ qcs, Fresh p view qc) (Kept root) := by
  have hloop := triple_forM (l := qcs) (f := processCommitment p pindex m active_chain fJustCheck)
    (E := Kept root) (fun done s => At (overwrite view (if fJustCheck = true then [] else
      done.flatMap (written p pindex))) root s ∧ ∀ qc ∈ done, Fresh p view qc) [] ?_
  · refine hloop.pre fun s hs => ⟨?_, fun qc hqc => absurd hqc List.not_mem_nil⟩
    rw [List.flatMap_nil, ite_self]
    exact hs
  · intro done qc _
    refine triple_and fun hdone => ?_
    refine (triple_processCommitment hchain hheight fJustCheck qc).post (fun _ s hs => ?_)
      fun _ hs => hs
    refine ⟨?_, fun qc' hqc' => ?_⟩
    · have hall := hs.1
      rw [← overwrite_append] at hall
      split_ifs at hall ⊢
      · exact hall
      · rw [List.flatMap_append, List.flatMap_singleton]
        exact hall
    · rcases List.mem_append.mp hqc' with hqc' | hqc'
      · exact hdone qc' hqc'
      · rw [List.mem_singleton.mp hqc']
        intro hnull
        obtain ⟨hknown, hnone⟩ := hs.2 hnull
        exact ⟨hknown, eq_none_of_overwrite hnone⟩

/-- What an accepted block adds, and what it was checked for. -/
theorem triple_processBlock (hchain : OnChain m active_chain pindex)
    (hheight : 0 < pindex.nHeight) (fJustCheck fBLSChecks : Bool) :
    Triple (At view root) (processBlock p pindex m active_chain block fJustCheck fBLSChecks)
      (fun _ s => At (overwrite view (if fJustCheck = true then [] else
        minedBy p ⟨block, pindex⟩)) root s ∧ FreshBlock p view ⟨block, pindex⟩) (Kept root) := by
  have hkept : ∀ s, At view root s → Kept root s := fun _ hs => hs.kept
  unfold processBlock
  by_cases hearly : (pindex.nHeight : ℤ) < p.DIP0003Height
  · rw [if_pos hearly, minedBy, if_pos hearly, ite_self]
    exact triple_modify fun s hs => ⟨hs.writeBestBlock _, Or.inl hearly⟩
  · rw [if_neg hearly, minedBy, if_neg hearly]
    dsimp only
    cases hqcs : getCommitmentsFromBlock p pindex block with
    | error e => exact triple_throw hkept
    | ok qcs =>
      cases hparent : parent pindex with
      | none => exact triple_throw hkept
      | some pprev =>
        have hasks {α : Type} {m : Processing G₁ G₂ α}
            (h : Triple (At view root) m (fun _ => At view root) (At view root)) :
            Triple (At view root) m (fun _ => At view root) (Kept root) :=
          h.post (fun _ _ hs => hs) hkept
        refine (hasks (triple_checkNumbers (asks_at view root) pprev)).bind fun _ => ?_
        refine (hasks (triple_checkSignatures (At view root) fBLSChecks)).bind fun _ => ?_
        refine (triple_processCommitments hchain hheight fJustCheck).bind fun _ => ?_
        exact triple_modify fun s hs => ⟨hs.1.writeBestBlock _, Or.inr ⟨qcs, hqcs, hs.2⟩⟩

/-! ### Undoing a block -/

theorem At.eraseCommitment (h : At view root self) (pindex : CBlockIndex)
    {qc : CFinalCommitment G₁ G₂} {params : LLMQParams} (hnull : qc.isNull = false)
    (hparams : p.consensus.getLLMQ qc.llmqType = some params) :
    At (remove view ((written p pindex qc).map Prod.fst)) root
      (((self.erase (.minedCommitment qc.llmqType qc.quorumHash)).erase
        (buildInversedHeightKey (isQuorumRotationEnabled p.consensus params pindex) qc.llmqType
          pindex.nHeight qc.quorumIndex)).eraseCached qc.llmqType qc.quorumHash) := by
  have hread : ∀ k, k ≠ .bestBlockUpgrade →
      ((self.evoDb.erase (.minedCommitment qc.llmqType qc.quorumHash)).erase
        (buildInversedHeightKey (isQuorumRotationEnabled p.consensus params pindex) qc.llmqType
          pindex.nHeight qc.quorumIndex)).read k =
        remove view ((written p pindex qc).map Prod.fst) k := by
    intro k hk
    rw [CEvoDB.read_erase, CEvoDB.read_erase, h.read k hk, remove, written, hnull, hparams]
    simp only [Bool.false_eq_true, if_false, List.map_cons, List.map_nil, List.mem_cons,
      List.not_mem_nil, or_false]
    split_ifs <;> grind
  refine ⟨h.truthful.eraseCached rfl fun t hash hne => ?_, hread, h.readRoot⟩
  rw [CEvoDB.existsKey, CEvoDB.existsKey]
  rw [CQuorumBlockProcessor.erase, CQuorumBlockProcessor.erase, CEvoDB.read_erase,
    CEvoDB.read_erase, if_neg (buildInversedHeightKey_ne t hash), if_neg ?_]
  rintro heq
  rw [Key.minedCommitment.injEq] at heq
  exact hne (Prod.ext heq.1.symm heq.2.symm)

theorem triple_undoCommitment {qc : CFinalCommitment G₁ G₂}
    (hknown : qc.isNull = false → (p.consensus.getLLMQ qc.llmqType).isSome = true) :
    Triple (At view root) (undoCommitment p pindex qc)
      (fun _ => At (remove view ((written p pindex qc).map Prod.fst)) root) (fun _ => False) := by
  unfold undoCommitment
  refine triple_ite (fun hnull => ?_) fun hnull => ?_
  · rw [written, if_pos hnull]
    exact triple_pure fun s hs => hs
  · rw [Bool.not_eq_true] at hnull
    obtain ⟨params, hparams⟩ := Option.isSome_iff_exists.mp (hknown hnull)
    rw [hparams]
    intro s hs
    exact hs.eraseCommitment pindex hnull hparams

theorem triple_undoCommitments (pindex : CBlockIndex) (view root : Key → Option (Value G₁ G₂))
    (hknown : ∀ qc ∈ qcs, qc.isNull = false → (p.consensus.getLLMQ qc.llmqType).isSome = true) :
    Triple (At view root) (qcs.forM (undoCommitment p pindex))
      (fun _ => At (remove view ((qcs.flatMap (written p pindex)).map Prod.fst)) root)
      (fun _ => False) := by
  refine (triple_forM (fun done => At (remove view
    ((done.flatMap (written p pindex)).map Prod.fst)) root) [] fun done qc hqc => ?_).pre ?_
  · rw [List.flatMap_append, List.flatMap_singleton, List.map_append, remove_append]
    exact triple_undoCommitment (hknown qc hqc)
  · intro s hs
    exact hs

/-- Undoing a block gives back what was there before it. It can only fail below the height at
which special transactions start, and then there is nothing to undo. -/
theorem triple_undoBlock {b : Connected G₁ G₂} (hfresh : FreshBlock p view b)
    (hnew : ∀ k ∈ (minedBy p b).map Prod.fst, view k = none) (hheight : 0 < b.pindex.nHeight) :
    Triple (At (overwrite view (minedBy p b)) root) (undoBlock p b.pindex b.block)
      (fun _ => At view root) (fun s => b.pindex.nHeight < p.DIP0003Height ∧ At view root s) := by
  unfold undoBlock
  obtain ⟨pprev, hparent⟩ : ∃ pprev, parent b.pindex = some pprev := by
    unfold CBlockIndex.nHeight at hheight
    unfold parent
    cases hpprev : b.pindex.pprev with
    | nil =>
      rw [hpprev] at hheight
      exact absurd hheight (Nat.lt_irrefl 0)
    | cons hash pprev => exact ⟨_, rfl⟩
  rw [hparent]
  by_cases hearly : (b.pindex.nHeight : ℤ) < p.DIP0003Height
  · rw [minedBy, if_pos hearly]
    cases hqcs : getCommitmentsFromBlock p b.pindex b.block with
    | error e => exact triple_throw fun s hs => ⟨hearly, hs⟩
    | ok qcs =>
      have hempty : qcs = [] := by
        unfold getCommitmentsFromBlock at hqcs
        cases hfold : b.block.commitments.foldlM (addCommitment p b.pindex) [] with
        | error e =>
          rw [hfold] at hqcs
          contradiction
        | ok ret =>
          rw [hfold] at hqcs
          dsimp only at hqcs
          split_ifs at hqcs with hpremature
          rw [Except.ok.injEq] at hqcs
          subst hqcs
          simpa [hearly] using hpremature
      subst hempty
      intro s hs
      exact hs.writeBestBlock _
  · obtain ⟨qcs, hqcs, hfresh⟩ := hfresh.resolve_left hearly
    rw [hqcs]
    have hmined : minedBy p b = qcs.flatMap (written p b.pindex) := by
      rw [minedBy, if_neg hearly, hqcs]
    have hundo : Triple (At (overwrite view (minedBy p b)) root)
        (qcs.forM (undoCommitment p b.pindex)) (fun _ => At view root) fun _ => False := by
      have hall := triple_undoCommitments (p := p) (b.pindex) (overwrite view (minedBy p b)) root
        fun qc hqc hnull => (hfresh qc hqc hnull).1
      rwa [← hmined, remove_overwrite hnew] at hall
    refine (hundo.post (fun _ _ hs => hs) fun _ hs => hs.elim).bind fun _ => ?_
    exact triple_modify fun s hs => hs.writeBestBlock _

end BabaChain.LLMQ.BlockProcessor
