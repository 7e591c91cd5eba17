import BabaChain.CommitmentUndo

/-! Which blocks are accepted: the checks of `ProcessBlock` as a condition on the block, its
chain and the quorums that are known to be mined. -/
namespace BabaChain.LLMQ.BlockProcessor
open LruCache Triples

variable {G₁ G₂ : Type} {p : ChainParams G₁ G₂} {m : BlockManager} {pindex : CBlockIndex}
  {active_chain : CChain} {block : CBlock G₁ G₂} {qcs : List (CFinalCommitment G₁ G₂)}
  {qc : CFinalCommitment G₁ G₂} {llmqParams : LLMQParams}

/-- The quorums whose commitment is mined. -/
abbrev Mined := LLMQType → uint256 → Bool

/-- The database says which commitments are mined, and the cache nothing else. -/
structure Knows (mined : Mined) (s : CQuorumBlockProcessor G₁ G₂) : Prop where
  truthful : Truthful s
  existsKey : ∀ t hash, s.evoDb.existsKey (.minedCommitment t hash) = mined t hash

variable {mined : Mined} {self : CQuorumBlockProcessor G₁ G₂}

theorem knows_of_truthful (h : Truthful self) :
    Knows (fun t hash => self.evoDb.existsKey (.minedCommitment t hash)) self :=
  ⟨h, fun _ _ => rfl⟩

theorem Knows.hasMined (h : Knows mined self) (t : LLMQType) (hash : uint256) :
    (self.hasMinedCommitment t hash).1 = mined t hash ∧
      Knows mined (self.hasMinedCommitment t hash).2 := by
  obtain ⟨hanswer, htruthful, hdb⟩ := h.truthful.hasMined t hash
  refine ⟨hanswer.trans (h.existsKey t hash), htruthful, ?_⟩
  rw [hdb]
  exact h.existsKey

theorem Knows.writeBestBlock (h : Knows mined self) (hash : uint256) :
    Knows mined (self.write .bestBlockUpgrade (.bestBlock hash)) := by
  have hsame : ∀ t hash', (self.write .bestBlockUpgrade (.bestBlock hash)).evoDb.existsKey
      (.minedCommitment t hash') = self.evoDb.existsKey (.minedCommitment t hash') := by
    intro t hash'
    rw [CEvoDB.existsKey, CQuorumBlockProcessor.write, CEvoDB.read_write, if_neg Key.noConfusion]
    rfl
  refine ⟨fun t => ?_, fun t hash' => (hsame t hash').trans (h.existsKey t hash')⟩
  exact (h.truthful t).mono fun hash' fExists hexists => hexists.trans (hsame t hash').symm

/-- The quorums that are mined after one more commitment. -/
def recordMined (mined : Mined) (qc : CFinalCommitment G₁ G₂) : Mined := fun t hash =>
  mined t hash || (!qc.isNull && decide (t = qc.llmqType ∧ hash = qc.quorumHash))

theorem recordMined_of_null (hnull : qc.isNull = true) : recordMined mined qc = mined := by
  funext t hash
  rw [recordMined, hnull]
  exact Bool.or_false _

theorem Knows.writeCommitment (h : Knows mined self) (hnull : qc.isNull = false)
    (v v' : Value G₁ G₂) {k : Key} (hk : ∀ t hash, k ≠ .minedCommitment t hash) :
    Knows (recordMined mined qc)
      (((self.write (.minedCommitment qc.llmqType qc.quorumHash) v).write k v').eraseCached
        qc.llmqType qc.quorumHash) := by
  have hread : ∀ t hash, ((self.evoDb.write (.minedCommitment qc.llmqType qc.quorumHash) v).write
      k v').existsKey (.minedCommitment t hash) = recordMined mined qc t hash := by
    intro t hash
    rw [CEvoDB.existsKey, CEvoDB.read_write, if_neg (hk t hash), CEvoDB.read_write, recordMined,
      hnull, ← h.existsKey]
    by_cases hkey : Key.minedCommitment qc.llmqType qc.quorumHash = .minedCommitment t hash
    · obtain ⟨rfl, rfl⟩ := Key.minedCommitment.inj hkey
      simp
    · have hne : ¬(t = qc.llmqType ∧ hash = qc.quorumHash) :=
        fun hsame => hkey (by rw [hsame.1, hsame.2])
      rw [if_neg hkey, decide_eq_false hne]
      simp [CEvoDB.existsKey]
  refine ⟨h.truthful.eraseCached rfl fun t hash hne => (hread t hash).trans ?_, hread⟩
  rw [recordMined, h.existsKey, decide_eq_false fun hsame => hne (Prod.ext hsame.1 hsame.2)]
  simp

/-- What is known of a state settles the answers about the quorums that may be asked for. -/
structure Settles (P : Mined → CQuorumBlockProcessor G₁ G₂ → Prop)
    (asked : LLMQType → uint256 → Prop) : Prop where
  hasMined : ∀ {mined s} t hash, asked t hash → P mined s →
    (s.hasMinedCommitment t hash).1 = mined t hash ∧ P mined (s.hasMinedCommitment t hash).2
  writeBestBlock : ∀ {mined s} hash, P mined s →
    P mined (s.write .bestBlockUpgrade (.bestBlock hash))
  writeCommitment : ∀ {mined s} (qc : CFinalCommitment G₁ G₂) v v' k, qc.isNull = false →
    asked qc.llmqType qc.quorumHash → (∀ t hash, k ≠ .minedCommitment t hash) → P mined s →
    P (recordMined mined qc)
      (((s.write (.minedCommitment qc.llmqType qc.quorumHash) v).write k v').eraseCached
        qc.llmqType qc.quorumHash)

theorem settles_knows :
    Settles (Knows : Mined → CQuorumBlockProcessor G₁ G₂ → Prop) fun _ _ => True where
  hasMined t hash _ h := h.hasMined t hash
  writeBestBlock hash h := h.writeBestBlock hash
  writeCommitment _ v v' _ hnull _ hk h := h.writeCommitment hnull v v' hk

variable {P : Mined → CQuorumBlockProcessor G₁ G₂ → Prop} {asked : LLMQType → uint256 → Prop}

theorem decides_hasMined (hP : Settles P asked) {t : LLMQType} {hash : uint256}
    (hasked : asked t hash) :
    Decides (P mined)
      (modifyGet fun self => self.hasMinedCommitment t hash : Processing G₁ G₂ Bool) True
      fun answer s => answer = mined t hash ∧ P mined s :=
  triple_modifyGet fun _ hs => ⟨trivial, hP.hasMined t hash hasked hs⟩

/-! ### Numbers -/

/-- How many quorums a type has in the cycle of a block. -/
def quorumsNum (p : ChainParams G₁ G₂) (llmqParams : LLMQParams) (tip : CBlockIndex)
    (nHeight : ℕ) : ℕ :=
  let pindex := if tip.nHeight < nHeight then tip else (tip.getAncestor nHeight).getD tip
  if isQuorumRotationEnabled p.consensus llmqParams pindex then
    llmqParams.signingActiveQuorumCount
  else
    1

/-- A quorum index whose block is there and whose commitment is not mined yet. -/
def Needed (llmqParams : LLMQParams) (active_chain : CChain) (nHeight : ℕ) (mined : Mined)
    (quorumIndex : ℕ) : Bool :=
  let quorumHash := getQuorumBlockHash llmqParams active_chain nHeight quorumIndex
  quorumHash != 0 && !mined llmqParams.type quorumHash

/-- The quorum indexes that still need a commitment. -/
def neededIndexes (p : ChainParams G₁ G₂) (llmqParams : LLMQParams) (active_chain : CChain)
    (nHeight : ℕ) (mined : Mined) : List ℕ :=
  match isMiningPhase p llmqParams active_chain nHeight, active_chain with
  | some true, some tip =>
    (List.range (quorumsNum p llmqParams tip nHeight)).filter
      (Needed llmqParams active_chain nHeight mined)
  | _, _ => []

/-- The quorums that are asked for when the commitments of a type are counted. -/
def candidates (p : ChainParams G₁ G₂) (llmqParams : LLMQParams) (active_chain : CChain)
    (nHeight : ℕ) : List uint256 :=
  match isMiningPhase p llmqParams active_chain nHeight, active_chain with
  | some true, some tip =>
    ((List.range (quorumsNum p llmqParams tip nHeight)).map fun i : ℕ =>
      getQuorumBlockHash llmqParams active_chain nHeight i).filter fun hash => hash ≠ 0
  | _, _ => []

theorem decides_countRequired (hP : Settles P asked) (nHeight : ℕ) (l : List ℕ) (ret : ℕ)
    (hasked : ∀ i ∈ l, getQuorumBlockHash llmqParams active_chain nHeight i ≠ 0 →
      asked llmqParams.type (getQuorumBlockHash llmqParams active_chain nHeight i)) :
    Decides (P mined)
      (l.foldlM (countRequired active_chain llmqParams nHeight) ret : Processing G₁ G₂ ℕ) True
      fun n s => n = ret+(l.filter (Needed llmqParams active_chain nHeight mined)).length ∧
        P mined s := by
  induction l generalizing ret with
  | nil => exact decides_pure fun s hs => ⟨rfl, hs⟩
  | cons i l ih =>
    rw [List.forall_mem_cons] at hasked
    have hturn : Decides (P mined)
        (countRequired active_chain llmqParams nHeight ret i : Processing G₁ G₂ ℕ) True
        fun n s => n = ret+(if Needed llmqParams active_chain nHeight mined i then 1 else 0) ∧
          P mined s := by
      unfold countRequired
      by_cases hzero : getQuorumBlockHash llmqParams active_chain nHeight i = 0
      · rw [if_pos hzero]
        refine decides_pure fun s hs => ⟨?_, hs⟩
        simp [Needed, hzero]
      · rw [if_neg hzero]
        refine ((decides_hasMined hP (hasked.1 hzero)).bind (B := True) fun answer => ?_).congr
          and_self_iff
        refine decides_pure fun s hs => ⟨?_, hs.2⟩
        rw [hs.1]
        by_cases hmined :
          mined llmqParams.type (getQuorumBlockHash llmqParams active_chain nHeight i) = true
        · simp [Needed, hmined]
        · simp only [Needed, hmined, bne_iff_ne, Bool.not_false, Bool.and_true]
          rw [if_neg Bool.false_ne_true, if_pos hzero]
    refine (hturn.bind (B := True) fun n => ?_).congr and_self_iff
    refine decides_and fun hn => (ih n hasked.2).post fun n' s hs => ⟨?_, hs.2⟩
    rw [hs.1, hn, List.filter_cons, add_assoc]
    split_ifs
    · rw [List.length_cons, add_comm 1]
    · rw [zero_add]

theorem decides_getNumCommitmentsRequired (hP : Settles P asked) (llmqParams : LLMQParams)
    (nHeight : ℕ)
    (hasked : ∀ hash ∈ candidates p llmqParams active_chain nHeight, asked llmqParams.type hash) :
    Decides (P mined) (getNumCommitmentsRequired p active_chain llmqParams nHeight)
      (match isMiningPhase p llmqParams active_chain nHeight with
        | none => False
        | some false => True
        | some true => active_chain.isSome = true)
      fun n s => n = (neededIndexes p llmqParams active_chain nHeight mined).length ∧
        P mined s := by
  unfold getNumCommitmentsRequired
  cases hphase : isMiningPhase p llmqParams active_chain nHeight with
  | none => exact decides_throw _ _ _
  | some phase =>
    cases phase with
    | false => exact decides_pure fun s hs => ⟨by simp [neededIndexes, hphase], hs⟩
    | true =>
      cases active_chain with
      | none => exact (decides_throw _ _ _).congr (iff_of_false id Bool.false_ne_true)
      | some tip =>
        have hrange : ∀ i ∈ List.range (quorumsNum p llmqParams tip nHeight),
            getQuorumBlockHash llmqParams (some tip) nHeight i ≠ 0 →
            asked llmqParams.type (getQuorumBlockHash llmqParams (some tip) nHeight i) := by
          intro i hi hne
          refine hasked _ ?_
          unfold candidates
          rw [hphase]
          exact List.mem_filter.mpr ⟨List.mem_map_of_mem hi, decide_eq_true hne⟩
        refine ((decides_countRequired hP nHeight _ 0 hrange).congr
          (iff_of_true trivial rfl)).post fun n s hs => ⟨?_, hs.2⟩
        rw [hs.1, zero_add]
        simp [neededIndexes, hphase]

/-- A block has as many commitments of a type as are needed. -/
def NumberRight (p : ChainParams G₁ G₂) (active_chain : CChain) (nHeight : ℕ) (mined : Mined)
    (qcs : List (CFinalCommitment G₁ G₂)) (params : LLMQParams) : Prop :=
  (match isMiningPhase p params active_chain nHeight with
    | none => False
    | some false => True
    | some true => active_chain.isSome = true) ∧
    countType qcs params.type = (neededIndexes p params active_chain nHeight mined).length

theorem decides_checkNumber (hP : Settles P asked) (params : LLMQParams)
    (hasked : ∀ hash ∈ candidates p params active_chain pindex.nHeight, asked params.type hash) :
    Decides (P mined) (checkNumber p pindex active_chain qcs params)
      (NumberRight p active_chain pindex.nHeight mined qcs params) fun _ => P mined := by
  refine (decides_getNumCommitmentsRequired hP params pindex.nHeight hasked).bind fun n => ?_
  refine decides_and fun hn => ?_
  have hcheck : Decides (P mined)
      (do
        refuse (n < countType qcs params.type) (.invalid "bad-qc-not-allowed")
        refuse (countType qcs params.type < n) (.invalid "bad-qc-missing") :
          Processing G₁ G₂ Unit)
      (¬n < countType qcs params.type ∧ ¬countType qcs params.type < n) fun _ => P mined :=
    decides_refuse_bind fun _ => decides_refuse _
  exact hcheck.congr (by omega)

/-- The checks of a commitment, besides its signatures. -/
structure Passes (p : ChainParams G₁ G₂) (m : BlockManager) (active_chain : CChain) (nHeight : ℕ)
    (mined : Mined) (qc : CFinalCommitment G₁ G₂) (params : LLMQParams) : Prop where
  known : p.consensus.getLLMQ qc.llmqType = some params
  hash : active_chain.isSome = true →
    getQuorumBlockHash params active_chain nHeight qc.quorumIndex = qc.quorumHash
  ne_zero : qc.quorumHash ≠ 0
  null : qc.isNull = true → Commitment.verifyNull p qc = true
  fresh : qc.isNull = false → mined qc.llmqType qc.quorumHash = false
  phase : qc.isNull = false → isMiningPhase p params active_chain nHeight = some true
  verified : qc.isNull = false → ∃ base, m.lookupBlockIndex qc.quorumHash = some base ∧
    Commitment.verify p qc base = true

theorem decides_processCommitment (hP : Settles P asked) (fJustCheck : Bool)
    (qc : CFinalCommitment G₁ G₂)
    (hasked : qc.isNull = false → asked qc.llmqType qc.quorumHash) :
    Decides (P mined) (processCommitment p pindex m active_chain fJustCheck qc)
      (∃ params, Passes p m active_chain pindex.nHeight mined qc params)
      fun _ => P (if fJustCheck = true then mined else recordMined mined qc) := by
  unfold processCommitment
  dsimp only
  cases hparams : p.consensus.getLLMQ qc.llmqType with
  | none =>
    refine (decides_throw _ _ _).congr (iff_of_false id ?_)
    rintro ⟨params, hpasses⟩
    rw [hpasses.known] at hparams
    contradiction
  | some params =>
    have htype := getLLMQ_type hparams
    let quorumHash := if active_chain.isNone = true then qc.quorumHash
      else getQuorumBlockHash params active_chain pindex.nHeight qc.quorumIndex
    let Rest : Prop := isMiningPhase p params active_chain pindex.nHeight = some true ∧
      ∃ base, m.lookupBlockIndex qc.quorumHash = some base ∧ Commitment.verify p qc base = true
    let Body : Prop := if qc.isNull = true then ¬Commitment.verifyNull p qc = false
      else True ∧ ¬mined qc.llmqType qc.quorumHash = true ∧ Rest
    have hbody : (¬quorumHash = 0 ∧ ¬quorumHash ≠ qc.quorumHash ∧ Body) ↔
        ∃ params, Passes p m active_chain pindex.nHeight mined qc params := by
      have hhash : (¬quorumHash = 0 ∧ ¬quorumHash ≠ qc.quorumHash) ↔
          (active_chain.isSome = true →
            getQuorumBlockHash params active_chain pindex.nHeight qc.quorumIndex = qc.quorumHash) ∧
            qc.quorumHash ≠ 0 := by
        cases active_chain with
        | none => simp [quorumHash]
        | some tip =>
          simp only [quorumHash, Option.isNone_some, Bool.false_eq_true, if_false,
            Option.isSome_some, true_implies, not_not]
          exact ⟨fun h => ⟨h.2, h.2 ▸ h.1⟩, fun h => ⟨h.1 ▸ h.2, h.1⟩⟩
      have hrest : Body ↔ (qc.isNull = true → Commitment.verifyNull p qc = true) ∧
          (qc.isNull = false → mined qc.llmqType qc.quorumHash = false ∧ Rest) := by
        by_cases hnull : qc.isNull = true
        · simp [Body, hnull]
        · simp [Body, hnull]
      rw [← and_assoc, hhash, hrest]
      constructor
      · rintro ⟨⟨hsome, hne⟩, hnull, hmined⟩
        exact ⟨params, hparams, hsome, hne, hnull, fun h => (hmined h).1,
          fun h => (hmined h).2.1, fun h => (hmined h).2.2⟩
      · rintro ⟨params', hpasses⟩
        have hsame := hpasses.known
        rw [hparams, Option.some.injEq] at hsame
        subst hsame
        exact ⟨⟨hpasses.hash, hpasses.ne_zero⟩, hpasses.null,
          fun h => ⟨hpasses.fresh h, hpasses.phase h, hpasses.verified h⟩⟩
    refine Decides.congr ?_ hbody
    refine decides_refuse_bind fun hne => decides_refuse_bind fun hhash => ?_
    rw [not_not] at hhash
    refine decides_ite (fun hnull => ?_) fun hnull => ?_
    · -- a null commitment changes nothing
      rw [recordMined_of_null hnull, ite_self]
      exact decides_refuse _
    · rw [Bool.not_eq_true] at hnull
      rw [show (if active_chain.isNone = true then qc.quorumHash
        else getQuorumBlockHash params active_chain pindex.nHeight qc.quorumIndex) =
          qc.quorumHash from hhash]
      have hmay := hasked hnull
      rw [← htype] at hmay
      refine (decides_hasMined hP hmay).bind fun answer => ?_
      refine decides_and fun hanswer => ?_
      rw [htype] at hanswer
      rw [hanswer]
      refine decides_refuse_bind fun _ => ?_
      by_cases hrest : Rest
      · obtain ⟨hphase, base, hlookup, hverify⟩ := hrest
        refine Decides.congr ?_ (iff_of_true trivial ⟨hphase, base, hlookup, hverify⟩)
        rw [hphase, htype]
        dsimp only
        rw [hlookup]
        dsimp only
        rw [hverify]
        intro s hs
        cases fJustCheck with
        | true => exact ⟨trivial, hs⟩
        | false =>
          exact ⟨trivial, hP.writeCommitment qc _ _ _ hnull (hasked hnull)
            (buildInversedHeightKey_ne · ·) hs⟩
      · refine Decides.congr ?_ (iff_of_false id hrest)
        cases hphase : isMiningPhase p params active_chain pindex.nHeight with
        | none => exact decides_throw _ _ _
        | some miningPhase =>
          cases miningPhase with
          | false => exact fun _ _ => id
          | true =>
            cases hlookup : m.lookupBlockIndex qc.quorumHash with
            | none => exact fun _ _ => id
            | some base =>
              cases hverify : Commitment.verify p qc base with
              | true => exact absurd ⟨hphase, base, hlookup, hverify⟩ hrest
              | false =>
                dsimp only
                rw [hverify]
                exact fun _ _ => id

/-- Every commitment passes, each with those before it mined, unless they are just checked. -/
def PassAll (p : ChainParams G₁ G₂) (m : BlockManager) (active_chain : CChain) (nHeight : ℕ)
    (fJustCheck : Bool) : Mined → List (CFinalCommitment G₁ G₂) → Prop
  | _, [] => True
  | mined, qc :: qcs =>
    (∃ params, Passes p m active_chain nHeight mined qc params) ∧
      PassAll p m active_chain nHeight fJustCheck
        (if fJustCheck = true then mined else recordMined mined qc) qcs

theorem decides_processCommitments (hP : Settles P asked) (fJustCheck : Bool)
    (qcs : List (CFinalCommitment G₁ G₂)) (mined : Mined)
    (hasked : ∀ qc ∈ qcs, qc.isNull = false → asked qc.llmqType qc.quorumHash) :
    Decides (P mined) (qcs.forM (processCommitment p pindex m active_chain fJustCheck))
      (PassAll p m active_chain pindex.nHeight fJustCheck mined qcs)
      fun _ => P (if fJustCheck = true then mined else qcs.foldl recordMined mined) := by
  induction qcs generalizing mined with
  | nil =>
    rw [List.foldl_nil, ite_self]
    exact decides_pure fun s hs => hs
  | cons qc qcs ih =>
    rw [List.forall_mem_cons] at hasked
    refine (decides_processCommitment hP fJustCheck qc hasked.1).bind fun _ => ?_
    have hrest := ih (if fJustCheck = true then mined else recordMined mined qc) hasked.2
    cases fJustCheck with
    | true => exact hrest
    | false => exact hrest

/-- The signatures that were queued for a block. -/
def SignaturesPass (p : ChainParams G₁ G₂) (m : BlockManager)
    (qcs : List (CFinalCommitment G₁ G₂)) : Prop :=
  ∀ qc ∈ qcs, qc.isNull = false → ∃ base, m.lookupBlockIndex qc.quorumHash = some base ∧
    p.verifySignatures qc base = true

theorem decides_checkSignatures (fBLSChecks : Bool) (I : CQuorumBlockProcessor G₁ G₂ → Prop) :
    Decides I (checkSignatures p m fBLSChecks qcs) (fBLSChecks = true → SignaturesPass p m qcs)
      fun _ => I := by
  cases fBLSChecks with
  | false => exact (decides_skip I).congr (iff_of_true trivial fun h => absurd h (by decide))
  | true =>
    let mined := qcs.filter fun qc => !qc.isNull
    have hchecks : Decides I (checkSignatures p m true qcs)
        ((¬∃ qc ∈ mined, m.lookupBlockIndex qc.quorumHash = none) ∧
          ¬∃ qc ∈ mined, (m.lookupBlockIndex qc.quorumHash).any (p.verifySignatures qc) = false)
        fun _ => I := decides_refuse_bind fun _ => decides_refuse _
    refine hchecks.congr ⟨fun hpass _ qc hqc hnull => ?_, fun hpass => ⟨?_, ?_⟩⟩
    · have hin : qc ∈ mined := List.mem_filter.mpr ⟨hqc, by rw [hnull]; rfl⟩
      cases hlookup : m.lookupBlockIndex qc.quorumHash with
      | none => exact absurd ⟨qc, hin, hlookup⟩ hpass.1
      | some base =>
        refine ⟨base, rfl, ?_⟩
        rw [← Bool.not_eq_false]
        exact fun hfalse => hpass.2 ⟨qc, hin, by rw [hlookup]; exact hfalse⟩
    all_goals
      rintro ⟨qc, hin, hfail⟩
      obtain ⟨hqc, hnull⟩ := List.mem_filter.mp hin
      obtain ⟨base, hlookup, hsigs⟩ := hpass rfl qc hqc (by simpa using hnull)
      rw [hlookup] at hfail
    · contradiction
    · rw [Option.any_some, hsigs] at hfail
      contradiction

/-- The condition under which a block is accepted. -/
structure Acceptable (p : ChainParams G₁ G₂) (m : BlockManager) (pindex : CBlockIndex)
    (active_chain : CChain) (block : CBlock G₁ G₂) (fJustCheck fBLSChecks : Bool) (mined : Mined)
    (qcs : List (CFinalCommitment G₁ G₂)) (pprev : CBlockIndex) : Prop where
  commitments : getCommitmentsFromBlock p pindex block = .ok qcs
  parent : parent pindex = some pprev
  numbers : active_chain.isSome = true → ∀ params ∈ getEnabledQuorumParams p pprev,
    NumberRight p active_chain pindex.nHeight mined qcs params
  signatures : fBLSChecks = true → SignaturesPass p m qcs
  passes : PassAll p m active_chain pindex.nHeight fJustCheck mined qcs

/-- A block is accepted exactly if it is acceptable by what is answered about mined quorums. -/
theorem decides_processBlock (hP : Settles P asked) (fJustCheck fBLSChecks : Bool)
    (hnumbers : ∀ pprev, parent pindex = some pprev → ∀ params ∈ getEnabledQuorumParams p pprev,
      ∀ hash ∈ candidates p params active_chain pindex.nHeight, asked params.type hash)
    (hblock : ∀ qc, some qc ∈ block.commitments → qc.isNull = false →
      asked qc.llmqType qc.quorumHash) :
    Decides (P mined) (processBlock p pindex m active_chain block fJustCheck fBLSChecks)
      (pindex.nHeight < p.DIP0003Height ∨
        ∃ qcs pprev, Acceptable p m pindex active_chain block fJustCheck fBLSChecks mined qcs pprev)
      fun _ s => ∃ mined, P mined s := by
  unfold processBlock
  by_cases hearly : (pindex.nHeight : ℤ) < p.DIP0003Height
  · rw [if_pos hearly]
    exact (decides_modify fun s hs => ⟨mined, hP.writeBestBlock _ hs⟩).congr
      (iff_of_true trivial (Or.inl hearly))
  · rw [if_neg hearly]
    cases hqcs : getCommitmentsFromBlock p pindex block with
    | error e =>
      refine (decides_throw _ _ _).congr (iff_of_false id ?_)
      rintro (h | ⟨qcs, pprev, hacceptable⟩)
      · exact hearly h
      · rw [hacceptable.commitments] at hqcs
        contradiction
    | ok qcs =>
      cases hparent : parent pindex with
      | none =>
        refine (decides_throw _ _ _).congr (iff_of_false id ?_)
        rintro (h | ⟨qcs, pprev, hacceptable⟩)
        · exact hearly h
        · rw [hacceptable.parent] at hparent
          contradiction
      | some pprev =>
        have hin : ∀ qc ∈ qcs, some qc ∈ block.commitments := fun qc hqc =>
          (getCommitmentsFromBlock_perm hqcs).mem_iff.mp (List.mem_map_of_mem hqc)
        have hall : Decides (P mined) (checkNumbers p pindex active_chain pprev qcs)
            (active_chain.isSome = true → ∀ params ∈ getEnabledQuorumParams p pprev,
              NumberRight p active_chain pindex.nHeight mined qcs params)
            fun _ => P mined := by
          cases active_chain with
          | none =>
            exact (decides_skip (P mined)).congr
              (iff_of_true trivial fun h => absurd h Bool.false_ne_true)
          | some tip =>
            have hturn : ∀ params ∈ getEnabledQuorumParams p pprev,
                Decides (P mined) (checkNumber p pindex (some tip) qcs params)
                  (NumberRight p (some tip) pindex.nHeight mined qcs params)
                  fun _ => P mined :=
              fun params hparams => decides_checkNumber hP params (hnumbers pprev hparent params
                hparams)
            exact (decides_forM hturn).congr ⟨fun h _ => h, fun h => h rfl⟩
        refine (hall.bind fun _ => (decides_checkSignatures fBLSChecks (P mined)).bind fun _ =>
          (decides_processCommitments hP fJustCheck qcs mined fun qc hqc =>
            hblock qc (hin qc hqc)).bind fun _ =>
              decides_modify fun s hs => ⟨_, hP.writeBestBlock _ hs⟩).congr ?_
        constructor
        · rintro ⟨hnumbers, hsigs, hpasses, -⟩
          exact Or.inr ⟨qcs, pprev, hqcs, hparent, hnumbers, hsigs, hpasses⟩
        · rintro (h | ⟨qcs', pprev', hacceptable⟩)
          · exact absurd h hearly
          · have hsame := hacceptable.commitments
            rw [hqcs, Except.ok.injEq] at hsame
            have hsame' := hacceptable.parent
            rw [hparent, Option.some.injEq] at hsame'
            subst hsame hsame'
            exact ⟨hacceptable.numbers, hacceptable.signatures, hacceptable.passes, trivial⟩

end BabaChain.LLMQ.BlockProcessor
