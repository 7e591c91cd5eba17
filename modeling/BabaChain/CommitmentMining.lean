import BabaChain.CommitmentAcceptance
import BabaChain.MineableCommitments
import BabaChain.Lib.LruRecency

/-! The commitments that a miner puts into a block: what `GetMineableCommitmentsTx` returns for each
type, asking a cache that may be wrong about what is mined. -/
namespace BabaChain.LLMQ.BlockProcessor
open LruCache Triples

variable {G₁ G₂ : Type} {p : ChainParams G₁ G₂} {m : BlockManager} {pindex tip : CBlockIndex}
  {active_chain : CChain} {block : CBlock G₁ G₂} {qc : CFinalCommitment G₁ G₂} {mined : Mined}
  {params : LLMQParams}

/-- What is read back: the index is only serialized with the versions that have one. -/
def decoded (qc : CFinalCommitment G₁ G₂) : CFinalCommitment G₁ G₂ :=
  if qc.nVersion = 2 ∨ qc.nVersion = 4 then qc else {qc with quorumIndex := 0}

section Mining

variable (p) (pool : Mineable G₁ G₂) (active_chain : CChain) (llmqParams : LLMQParams)
  (nHeight : ℕ)

/-- The commitment that is kept for a quorum, or a null one. `none` where
`minableCommitments.at` throws. -/
def mineableCommitment (rotation_enabled basic_bls_enabled : Bool) (quorumIndex : ℕ) :
    Option (CFinalCommitment G₁ G₂) :=
  let quorumHash := getQuorumBlockHash llmqParams active_chain nHeight quorumIndex
  match pool.minableCommitmentsByQuorum[(⟨llmqParams.type, quorumHash⟩ : QuorumKey)]? with
  | none =>
    some
      { nVersion := getVersion rotation_enabled basic_bls_enabled
        llmqType := llmqParams.type
        quorumHash := quorumHash
        -- an `int16_t`
        quorumIndex := (BitVec.ofNat 16 quorumIndex).toInt
        signers := List.replicate (p.mining llmqParams.type).size false
        validMembers := List.replicate (p.mining llmqParams.type).size false }
  | some hash => pool.minableCommitments[hash]?

/-- Stops at the first quorum whose block is not there yet. -/
def collectMineable (rotation_enabled basic_bls_enabled : Bool) :
    List ℕ → Processing G₁ G₂ (List (CFinalCommitment G₁ G₂))
  | [] => pure []
  | quorumIndex :: rest =>
    let quorumHash := getQuorumBlockHash llmqParams active_chain nHeight quorumIndex
    if quorumHash = 0 then
      pure []
    else do
      let mined ← modifyGet fun self => self.hasMinedCommitment llmqParams.type quorumHash
      if mined = true then
        collectMineable rotation_enabled basic_bls_enabled rest
      else
        match mineableCommitment p pool active_chain llmqParams nHeight rotation_enabled
          basic_bls_enabled quorumIndex with
        | none => throw .failed
        | some cf => do
          let ret ← collectMineable rotation_enabled basic_bls_enabled rest
          pure (cf :: ret)

/-- `none` where no commitment is to be mined. -/
def getMineableCommitments : Processing G₁ G₂ (Option (List (CFinalCommitment G₁ G₂))) := do
  let numCommitmentsRequired ← getNumCommitmentsRequired p active_chain llmqParams nHeight
  if numCommitmentsRequired = 0 then
    pure none
  else
    match active_chain with
    | none => throw .aborted
    | some tip =>
      if tip.nHeight+1 < nHeight then
        throw .aborted
      else do
        let pindex := if tip.nHeight < nHeight then tip else (tip.getAncestor nHeight).getD tip
        let rotation_enabled := isQuorumRotationEnabled p.consensus llmqParams pindex
        let basic_bls_enabled := p.V19ActiveAfter pindex
        let quorums_num := if rotation_enabled then llmqParams.signingActiveQuorumCount else 1
        let ret ← collectMineable p pool (some tip) llmqParams nHeight rotation_enabled
          basic_bls_enabled (List.range quorums_num)
        pure (if ret.isEmpty then none else some ret)

/-- The transactions with these commitments, as their payloads are read back. -/
def getMineableCommitmentsTx : Processing G₁ G₂ (List (Option (CFinalCommitment G₁ G₂))) := do
  let qcs ← getMineableCommitments p pool active_chain llmqParams nHeight
  pure ((qcs.getD []).map fun f => some (decoded f))

end Mining

/-- The transactions for all types, one after the other. -/
def commitmentTxs (p : ChainParams G₁ G₂) (pool : Mineable G₁ G₂) (active_chain : CChain)
    (nHeight : ℕ) : List LLMQParams → Processing G₁ G₂ (List (Option (CFinalCommitment G₁ G₂)))
  | [] => pure []
  | params :: rest => do
    let qcTx ← getMineableCommitmentsTx p pool active_chain params nHeight
    let more ← commitmentTxs p pool active_chain nHeight rest
    pure (qcTx ++ more)

/-- The block on a tip with the commitments that `CreateNewBlock` asks for. -/
def createCommitments (p : ChainParams G₁ G₂) (pool : Mineable G₁ G₂) (pindexPrev : CBlockIndex) :
    Processing G₁ G₂ (CBlock G₁ G₂) := do
  let qcTx ← commitmentTxs p pool (some pindexPrev) (pindexPrev.nHeight+1)
    (getEnabledQuorumParams p pindexPrev)
  pure ⟨qcTx⟩

/-! ### Caches -/

/-- How many answers are kept for a type. -/
def keepOldKeys (p : ChainParams G₁ G₂) (t : LLMQType) : ℕ :=
  ((p.consensus.getLLMQ t).map LLMQParams.keepOldKeys).getD 0

/-- What the database says of a type. -/
def existsMined (s : CQuorumBlockProcessor G₁ G₂) (t : LLMQType) (hash : uint256) : Bool :=
  s.evoDb.existsKey (.minedCommitment t hash)

/-- The quorums of some lists were asked for last, and what was answered is answered again. -/
structure Steady (p : ChainParams G₁ G₂) (ks : LLMQType → List uint256) (mined : Mined)
    (s : CQuorumBlockProcessor G₁ G₂) : Prop where
  stamped : ∀ t, Stamped (s.mapHasMinedCommitmentCache t)
  maxSize : ∀ t, (s.mapHasMinedCommitmentCache t).maxSize = keepOldKeys p t
  usedLast : ∀ t, UsedLast (ks t) (s.mapHasMinedCommitmentCache t)
  answers : ∀ t, ∀ hash ∈ ks t,
    answer (s.mapHasMinedCommitmentCache t) (existsMined s t) hash = mined t hash

variable {ks : LLMQType → List uint256} {s : CQuorumBlockProcessor G₁ G₂}

theorem hasMined_eq_ask (s : CQuorumBlockProcessor G₁ G₂) (t : LLMQType) (hash : uint256) :
    s.hasMinedCommitment t hash =
      ((ask (s.mapHasMinedCommitmentCache t) (existsMined s t) hash).1,
        s.setCache t (ask (s.mapHasMinedCommitmentCache t) (existsMined s t) hash).2) := by
  unfold CQuorumBlockProcessor.hasMinedCommitment ask
  dsimp only
  rcases get (s.mapHasMinedCommitmentCache t) hash with ⟨answer, cache⟩
  cases answer with
  | some fExists => rfl
  | none => rfl

/-- A quorum that is asked for joins those that were asked for last. -/
theorem Steady.ask (h : Steady p ks mined s) {t : LLMQType} {hash : uint256}
    {ks' : LLMQType → List uint256} {mined' : Mined}
    (hother : ∀ t', t' ≠ t → ks' t' = ks t' ∧ mined' t' = mined t')
    (hks : ∀ k, k ∈ ks' t ↔ k = hash ∨ k ∈ ks t) (hfit : (ks' t).length ≤ keepOldKeys p t)
    (hmined : ∀ k ∈ ks' t,
      mined' t k = answer (s.mapHasMinedCommitmentCache t) (existsMined s t) k) :
    (s.hasMinedCommitment t hash).1 = mined' t hash ∧
      Steady p ks' mined' (s.hasMinedCommitment t hash).2 := by
  have hasked : Asked (ks' t) (existsMined s t) (s.mapHasMinedCommitmentCache t) hash _ :=
    (h.stamped t).ask (h.usedLast t) hks (h.maxSize t ▸ hfit) _
  rw [hasMined_eq_ask]
  refine ⟨?_, fun t' => ?_, fun t' => ?_, fun t' => ?_, fun t' k hk => ?_⟩
  · rw [hmined hash ((hks hash).mpr (Or.inl rfl))]
    exact hasked.value
  all_goals by_cases ht : t' = t
  · subst ht
    dsimp only
    rw [CQuorumBlockProcessor.setCache_self]
    exact hasked.stamped
  · dsimp only
    rw [CQuorumBlockProcessor.setCache_of_ne ht]
    exact h.stamped t'
  · subst ht
    dsimp only
    rw [CQuorumBlockProcessor.setCache_self]
    exact hasked.maxSize.trans (h.maxSize t')
  · dsimp only
    rw [CQuorumBlockProcessor.setCache_of_ne ht]
    exact h.maxSize t'
  · subst ht
    dsimp only
    rw [CQuorumBlockProcessor.setCache_self]
    exact hasked.usedLast
  · dsimp only
    rw [CQuorumBlockProcessor.setCache_of_ne ht, (hother t' ht).1]
    exact h.usedLast t'
  · subst ht
    dsimp only
    rw [CQuorumBlockProcessor.setCache_self]
    exact (hasked.answers k hk).trans (hmined k hk).symm
  · dsimp only
    rw [CQuorumBlockProcessor.setCache_of_ne ht, (hother t' ht).2]
    rw [(hother t' ht).1] at hk
    exact h.answers t' k hk

/-- What is known of the caches when the database is written. -/
theorem Steady.congr (h : Steady p ks mined s) {s' : CQuorumBlockProcessor G₁ G₂}
    (hcache : s'.mapHasMinedCommitmentCache = s.mapHasMinedCommitmentCache)
    (hsame : ∀ t, existsMined s' t = existsMined s t) : Steady p ks mined s' := by
  refine ⟨?_, ?_, ?_, fun t hash hhash => ?_⟩
  · rw [hcache]
    exact h.stamped
  · rw [hcache]
    exact h.maxSize
  · rw [hcache]
    exact h.usedLast
  · rw [hcache, hsame]
    exact h.answers t hash hhash

theorem Steady.eraseCached (h : Steady p ks mined s) {s' : CQuorumBlockProcessor G₁ G₂}
    {mined' : Mined} (hcache : s'.mapHasMinedCommitmentCache = s.mapHasMinedCommitmentCache)
    (t : LLMQType) (hash : uint256)
    (hsame : ∀ t' hash', ¬(t' = t ∧ hash' = hash) →
      existsMined s' t' hash' = existsMined s t' hash' ∧ mined' t' hash' = mined t' hash')
    (hnew : mined' t hash = existsMined s' t hash) :
    Steady p ks mined' (s'.eraseCached t hash) := by
  have hdb : ∀ t', existsMined (s'.eraseCached t hash) t' = existsMined s' t' := fun t' => rfl
  refine ⟨fun t' => ?_, fun t' => ?_, fun t' => ?_, fun t' k hk => ?_⟩
  all_goals
    rw [CQuorumBlockProcessor.eraseCached, hcache]
    by_cases ht : t' = t
  · subst ht
    rw [CQuorumBlockProcessor.setCache_self]
    exact (h.stamped t').erase hash
  · rw [CQuorumBlockProcessor.setCache_of_ne ht, hcache]
    exact h.stamped t'
  · subst ht
    rw [CQuorumBlockProcessor.setCache_self]
    exact h.maxSize t'
  · rw [CQuorumBlockProcessor.setCache_of_ne ht, hcache]
    exact h.maxSize t'
  · subst ht
    rw [CQuorumBlockProcessor.setCache_self]
    exact (h.usedLast t').erase hash
  · rw [CQuorumBlockProcessor.setCache_of_ne ht, hcache]
    exact h.usedLast t'
  · subst ht
    rw [CQuorumBlockProcessor.setCache_self]
    by_cases hkey : k = hash
    · subst hkey
      rw [answer_erase_self]
      exact hnew.symm
    · rw [(h.stamped t').answer_erase hkey, (hsame t' k fun hboth => hkey hboth.2).2,
        ← h.answers t' k hk]
      unfold answer
      cases lookup (s.mapHasMinedCommitmentCache t') k with
      | some e => rfl
      | none => exact (hsame t' k fun hboth => hkey hboth.2).1
  · rw [CQuorumBlockProcessor.setCache_of_ne ht, hcache,
      (hsame t' k fun hboth => ht hboth.1).2, ← h.answers t' k hk]
    unfold answer
    cases lookup (s.mapHasMinedCommitmentCache t') k with
    | some e => rfl
    | none => exact (hsame t' k fun hboth => ht hboth.1).1

theorem existsMined_write {k : Key} (hk : ∀ t hash, k ≠ .minedCommitment t hash)
    (v : Value G₁ G₂) (t : LLMQType) : existsMined (s.write k v) t = existsMined s t := by
  funext hash
  rw [existsMined, CEvoDB.existsKey, CQuorumBlockProcessor.write, CEvoDB.read_write,
    if_neg (hk t hash)]
  rfl

/-- No more quorums than are kept may be asked for again and again. -/
theorem settles_steady (hfit : ∀ t, (ks t).length ≤ keepOldKeys p t) :
    Settles (Steady p ks) fun t hash => hash ∈ ks t where
  hasMined {mined s} t hash hin h :=
    h.ask (fun _ _ => ⟨rfl, rfl⟩) (fun k => ⟨Or.inr, fun hk => hk.elim (· ▸ hin) id⟩) (hfit t)
      fun k hk => (h.answers t k hk).symm
  writeBestBlock hash h :=
    h.congr rfl fun t => existsMined_write (fun _ _ => Key.noConfusion) _ t
  writeCommitment {mined s} qc v v' k hnull hin hk h := by
    have hcache : ((s.write (.minedCommitment qc.llmqType qc.quorumHash) v).write k
        v').mapHasMinedCommitmentCache = s.mapHasMinedCommitmentCache := rfl
    refine h.eraseCached hcache qc.llmqType qc.quorumHash (fun t hash hne => ⟨?_, ?_⟩) ?_
    · rw [existsMined_write hk, existsMined, CEvoDB.existsKey, CQuorumBlockProcessor.write,
        CEvoDB.read_write, if_neg fun heq => hne ?_]
      · rfl
      · obtain ⟨rfl, rfl⟩ := Key.minedCommitment.inj heq
        exact ⟨rfl, rfl⟩
    · rw [recordMined, decide_eq_false hne, Bool.and_false, Bool.or_false]
    · rw [existsMined_write hk, existsMined, CEvoDB.existsKey, CQuorumBlockProcessor.write,
        CEvoDB.read_write, if_pos rfl, recordMined, hnull]
      simp

/-! ### The first time a type is asked for -/

variable {ks' : LLMQType → List uint256} {mined' : Mined} {nHeight : ℕ}

/-- More quorums of a type are settled, and what was settled stays. -/
structure Extends (t : LLMQType) (ks : LLMQType → List uint256) (mined : Mined)
    (ks' : LLMQType → List uint256) (mined' : Mined) : Prop where
  other : ∀ t', t' ≠ t → ks' t' = ks t' ∧ mined' t' = mined t'
  sub : ∀ hash ∈ ks t, hash ∈ ks' t
  same : ∀ hash ∈ ks t, mined' t hash = mined t hash

theorem extends_refl (t : LLMQType) (ks : LLMQType → List uint256) (mined : Mined) :
    Extends t ks mined ks mined :=
  ⟨fun _ _ => ⟨rfl, rfl⟩, fun _ h => h, fun _ _ => rfl⟩

theorem Extends.trans {t : LLMQType} {ks'' : LLMQType → List uint256} {mined'' : Mined}
    (h : Extends t ks mined ks' mined') (h' : Extends t ks' mined' ks'' mined'') :
    Extends t ks mined ks'' mined'' where
  other t' ht := ⟨(h'.other t' ht).1.trans (h.other t' ht).1,
    (h'.other t' ht).2.trans (h.other t' ht).2⟩
  sub hash hhash := h'.sub hash (h.sub hash hhash)
  same hash hhash := (h'.same hash (h.sub hash hhash)).trans (h.same hash hhash)

theorem triple_firstAsk {E : CQuorumBlockProcessor G₁ G₂ → Prop} (t : LLMQType) (hash : uint256)
    (hfit : (ks t).length+1 ≤ keepOldKeys p t) :
    Triple (Steady p ks mined)
      (modifyGet fun self => self.hasMinedCommitment t hash : Processing G₁ G₂ Bool)
      (fun answer s => ∃ mined', Steady p (Function.update ks t (hash :: ks t)) mined' s ∧
        Extends t ks mined (Function.update ks t (hash :: ks t)) mined' ∧ answer = mined' t hash)
      E := by
  refine triple_modifyGet fun s hs => ?_
  let mined' : Mined := fun t' k =>
    if t' = t then answer (s.mapHasMinedCommitmentCache t) (existsMined s t) k else mined t' k
  have hself : ∀ k, mined' t k = answer (s.mapHasMinedCommitmentCache t) (existsMined s t) k :=
    fun k => if_pos rfl
  have hother : ∀ t', t' ≠ t → Function.update ks t (hash :: ks t) t' = ks t' ∧
      mined' t' = mined t' :=
    fun t' ht => ⟨Function.update_of_ne ht _ _, funext fun k => if_neg ht⟩
  have hasked := hs.ask hother (fun k => by rw [Function.update_self]; exact List.mem_cons)
    (by rw [Function.update_self]; exact hfit) fun k _ => hself k
  refine ⟨mined', hasked.2, ⟨hother, fun k hk => ?_, fun k hk => ?_⟩, hasked.1⟩
  · rw [Function.update_self]
    exact List.mem_cons_of_mem hash hk
  · rw [hself]
    exact hs.answers t k hk

theorem needed_congr {i : ℕ}
    (hsame : mined' params.type (getQuorumBlockHash params active_chain nHeight i) =
      mined params.type (getQuorumBlockHash params active_chain nHeight i)) :
    Needed params active_chain nHeight mined' i = Needed params active_chain nHeight mined i := by
  unfold Needed
  dsimp only
  rw [hsame]

theorem not_needed_of_zero {i : ℕ} (hzero : getQuorumBlockHash params active_chain nHeight i = 0)
    (mined : Mined) : Needed params active_chain nHeight mined i = false := by
  unfold Needed
  rw [hzero]
  rfl

theorem needed_of_ne_zero {i : ℕ} (hne : getQuorumBlockHash params active_chain nHeight i ≠ 0)
    (mined : Mined) : Needed params active_chain nHeight mined i =
      !mined params.type (getQuorumBlockHash params active_chain nHeight i) := by
  unfold Needed
  dsimp only
  rw [bne_iff_ne.mpr hne, Bool.true_and]

/-- Counting one quorum settles it. -/
theorem triple_firstTurn {E : CQuorumBlockProcessor G₁ G₂ → Prop} (nHeight i ret : ℕ)
    (hfit : (ks params.type).length+1 ≤ keepOldKeys p params.type) :
    Triple (Steady p ks mined)
      (countRequired active_chain params nHeight ret i : Processing G₁ G₂ ℕ)
      (fun n s => ∃ ks' mined', Steady p ks' mined' s ∧ Extends params.type ks mined ks' mined' ∧
        (getQuorumBlockHash params active_chain nHeight i ≠ 0 →
          getQuorumBlockHash params active_chain nHeight i ∈ ks' params.type) ∧
        (ks' params.type).length ≤ (ks params.type).length+1 ∧
        n = ret+if Needed params active_chain nHeight mined' i then 1 else 0) E := by
  unfold countRequired
  refine triple_ite (fun hzero => ?_) fun hne => ?_
  · refine triple_pure fun s hs => ⟨ks, mined, hs, extends_refl _ _ _, fun hne => absurd hzero hne,
      Nat.le_succ _, ?_⟩
    rw [not_needed_of_zero hzero]
    rfl
  · refine (triple_firstAsk params.type _ hfit).bind fun answer => triple_pure fun s hs => ?_
    obtain ⟨mined', hsteady, hext, hanswer⟩ := hs
    refine ⟨_, mined', hsteady, hext, fun _ => ?_, ?_, ?_⟩
    · rw [Function.update_self]
      exact List.mem_cons_self
    · rw [Function.update_self]
      exact le_rfl
    · rw [needed_of_ne_zero hne, ← hanswer]
      cases answer with
      | true => rfl
      | false => rfl

/-- Counting the quorums of a type settles them. -/
theorem triple_firstCount {E : CQuorumBlockProcessor G₁ G₂ → Prop} (nHeight : ℕ) (l : List ℕ)
    (ks : LLMQType → List uint256) (mined : Mined) (ret : ℕ)
    (hfit : (ks params.type).length+l.length ≤ keepOldKeys p params.type) :
    Triple (Steady p ks mined)
      (l.foldlM (countRequired active_chain params nHeight) ret : Processing G₁ G₂ ℕ)
      (fun n s => ∃ ks' mined', Steady p ks' mined' s ∧ Extends params.type ks mined ks' mined' ∧
        (∀ i ∈ l, getQuorumBlockHash params active_chain nHeight i ≠ 0 →
          getQuorumBlockHash params active_chain nHeight i ∈ ks' params.type) ∧
        (ks' params.type).length ≤ (ks params.type).length+l.length ∧
        n = ret+(l.filter (Needed params active_chain nHeight mined')).length) E := by
  induction l generalizing ks mined ret with
  | nil =>
    refine triple_pure fun s hs => ⟨ks, mined, hs, extends_refl _ _ _, ?_, le_rfl, rfl⟩
    exact fun i hi => absurd hi List.not_mem_nil
  | cons i l ih =>
    rw [List.length_cons] at hfit ⊢
    rw [List.foldlM_cons]
    refine (triple_firstTurn nHeight i ret (by omega)).bind fun n => ?_
    refine triple_exists fun ks₁ => triple_exists fun mined₁ => triple_and fun hone => ?_
    obtain ⟨hext, hin, hlength, hn⟩ := hone
    refine (ih ks₁ mined₁ n (by omega)).post (fun n' s hs => ?_) fun s hs => hs
    obtain ⟨ks', mined', hsteady, hext', hin', hlength', hn'⟩ := hs
    refine ⟨ks', mined', hsteady, hext.trans hext', ?_, by omega, ?_⟩
    · exact List.forall_mem_cons.mpr ⟨fun hne => hext'.sub _ (hin hne), hin'⟩
    · have hsame : Needed params active_chain nHeight mined' i =
          Needed params active_chain nHeight mined₁ i := by
        by_cases hzero : getQuorumBlockHash params active_chain nHeight i = 0
        · rw [not_needed_of_zero hzero, not_needed_of_zero hzero]
        · exact needed_congr (hext'.same _ (hin hzero))
      rw [hn', hn, List.filter_cons, hsame]
      split_ifs
      · rw [List.length_cons]
        omega
      · omega

/-- The commitments that a type needs are counted, and so settled. The block is the next one. -/
theorem triple_firstRequired {E : CQuorumBlockProcessor G₁ G₂ → Prop} (params : LLMQParams)
    (hnext : nHeight = tip.nHeight+1)
    (hfit : (ks params.type).length+quorumsNum p params tip nHeight ≤ keepOldKeys p params.type) :
    Triple (Steady p ks mined) (getNumCommitmentsRequired p (some tip) params nHeight)
      (fun n s => ∃ ks' mined', Steady p ks' mined' s ∧ Extends params.type ks mined ks' mined' ∧
        (∀ hash ∈ candidates p params (some tip) nHeight, hash ∈ ks' params.type) ∧
        (ks' params.type).length ≤ (ks params.type).length+quorumsNum p params tip nHeight ∧
        n = (neededIndexes p params (some tip) nHeight mined').length) E := by
  have hphase : ∃ phase, isMiningPhase p params (some tip) nHeight = some phase := by
    unfold isMiningPhase
    have hheight : CChain.height (some tip) = tip.nHeight := rfl
    rw [if_neg (by rw [hheight]; omega)]
    exact ⟨_, rfl⟩
  obtain ⟨phase, hphase⟩ := hphase
  unfold getNumCommitmentsRequired candidates neededIndexes
  rw [hphase]
  cases phase with
  | false =>
    refine triple_pure fun s hs => ⟨ks, mined, hs, extends_refl _ _ _, ?_, by omega, rfl⟩
    exact fun hash hhash => absurd hhash List.not_mem_nil
  | true =>
    refine (triple_firstCount nHeight _ ks mined 0 ?_).post (fun n s hs => ?_) fun s hs => hs
    · rw [List.length_range]
      exact hfit
    · obtain ⟨ks', mined', hsteady, hext, hin, hlength, hn⟩ := hs
      rw [List.length_range] at hlength
      refine ⟨ks', mined', hsteady, hext, fun hash hhash => ?_, hlength, by rw [hn, zero_add]; rfl⟩
      obtain ⟨hhash, hne⟩ := List.mem_filter.mp hhash
      obtain ⟨i, hi, rfl⟩ := List.mem_map.mp hhash
      exact hin i hi (of_decide_eq_true hne)

/-! ### The commitments of a type -/

variable {P : Mined → CQuorumBlockProcessor G₁ G₂ → Prop} {asked : LLMQType → uint256 → Prop}
  {pool : Mineable G₁ G₂}

/-- What is collected is what is needed. -/
theorem triple_collectMineable {E : CQuorumBlockProcessor G₁ G₂ → Prop} (hP : Settles P asked)
    (rotation_enabled basic_bls_enabled : Bool) (l : List ℕ)
    (hasked : ∀ i ∈ l, getQuorumBlockHash params active_chain nHeight i ≠ 0 →
      asked params.type (getQuorumBlockHash params active_chain nHeight i))
    (hzero : l.Pairwise fun i j : ℕ => getQuorumBlockHash params active_chain nHeight i = 0 →
      getQuorumBlockHash params active_chain nHeight j = 0)
    (mk : ℕ → CFinalCommitment G₁ G₂)
    (hmk : ∀ i, mineableCommitment p pool active_chain params nHeight rotation_enabled
      basic_bls_enabled i = some (mk i)) :
    Triple (P mined)
      (collectMineable p pool active_chain params nHeight rotation_enabled basic_bls_enabled l)
      (fun ret s => ret = (l.filter (Needed params active_chain nHeight mined)).map mk ∧
        P mined s) E := by
  induction l with
  | nil => exact triple_pure fun s hs => ⟨rfl, hs⟩
  | cons i l ih =>
    rw [List.forall_mem_cons] at hasked
    rw [List.pairwise_cons] at hzero
    have hrest := ih hasked.2 hzero.2
    unfold collectMineable
    refine triple_ite (fun hnone => ?_) fun hne => ?_
    · refine triple_pure fun s hs => ⟨?_, hs⟩
      rw [List.filter_cons_of_neg (by rw [not_needed_of_zero hnone]; exact Bool.false_ne_true),
        List.filter_eq_nil_iff.mpr fun j hj => ?_]
      · rfl
      · rw [not_needed_of_zero (hzero.1 j hj hnone)]
        exact Bool.false_ne_true
    · have hask : Triple (P mined) (modifyGet fun self =>
          self.hasMinedCommitment params.type (getQuorumBlockHash params active_chain nHeight i) :
            Processing G₁ G₂ Bool)
          (fun answer s => P mined s ∧ answer = mined params.type
            (getQuorumBlockHash params active_chain nHeight i)) E :=
        triple_modifyGet fun s hs =>
          ((hP.hasMined _ _ (hasked.1 hne) hs).symm)
      refine hask.bind fun answer => triple_and fun hanswer => ?_
      refine triple_ite (fun htrue => ?_) fun hfalse => ?_
      · refine hrest.post (fun ret s hs => ⟨?_, hs.2⟩) fun s hs => hs
        rw [List.filter_cons_of_neg (by rw [needed_of_ne_zero hne, ← hanswer, htrue]; decide)]
        exact hs.1
      · rw [hmk]
        refine hrest.bind fun ret => triple_pure fun s hs => ⟨?_, hs.2⟩
        rw [List.filter_cons_of_pos (by
          rw [needed_of_ne_zero hne, ← hanswer, Bool.eq_false_of_not_eq_true hfalse]; rfl), hs.1]
        rfl

/-- The first block of a quorum is on the chain, or is not there yet. -/
theorem quorumBlock_cases (htip : tip ∈ m.blocks) (params : LLMQParams) (nHeight i : ℕ) :
    tip.nHeight < nHeight-nHeight%params.dkgInterval+i ∧
        getQuorumBlockHash params (some tip) nHeight i = 0 ∨
      ∃ a ∈ m.blocks, a.nHeight = nHeight-nHeight%params.dkgInterval+i ∧
        a.nHeight ≤ tip.nHeight ∧ getQuorumBlockHash params (some tip) nHeight i = a.hash := by
  have hmod := Nat.mod_le nHeight params.dkgInterval
  have hheight : (nHeight : ℤ)-(nHeight%params.dkgInterval : ℕ)+(i : ℤ) =
      (nHeight-nHeight%params.dkgInterval+i : ℕ) := by omega
  unfold getQuorumBlockHash getBlockHash
  dsimp only
  rw [hheight]
  by_cases hlt : tip.nHeight < nHeight-nHeight%params.dkgInterval+i
  · refine Or.inl ⟨hlt, ?_⟩
    rw [if_pos (by omega)]
    rfl
  · refine Or.inr ?_
    rw [if_neg (by omega), if_neg (by omega), Int.toNat_natCast]
    cases hancestor : tip.getAncestor (nHeight-nHeight%params.dkgInterval+i) with
    | some a =>
      obtain ⟨hsuffix, ha⟩ := getAncestor_eq_some hancestor
      exact ⟨a, mem_of_suffix htip hsuffix, ha, by omega, rfl⟩
    | none =>
      unfold CBlockIndex.getAncestor at hancestor
      rw [if_neg hlt] at hancestor
      split at hancestor
      · rename_i hdrop
        have hlen := congrArg List.length hdrop
        rw [List.length_drop, List.length_cons, List.length_nil] at hlen
        unfold CBlockIndex.nHeight at hlen
        omega
      · contradiction

/-- Past a quorum whose block is not there yet there is no other. -/
theorem quorumBlocks_pairwise (htip : tip ∈ m.blocks) (hne : ∀ b ∈ m.blocks, b.hash ≠ 0)
    (params : LLMQParams) (nHeight n : ℕ) :
    (List.range n).Pairwise fun i j : ℕ =>
      getQuorumBlockHash params (some tip) nHeight i = 0 →
        getQuorumBlockHash params (some tip) nHeight j = 0 := by
  refine List.pairwise_lt_range.imp fun {i j} hij hzero => ?_
  rcases quorumBlock_cases htip params nHeight i with ⟨hlt, -⟩ | ⟨a, ha, -, -, hhash⟩
  · rcases quorumBlock_cases htip params nHeight j with ⟨-, hzero'⟩ | ⟨b, -, hb, hle, -⟩
    · exact hzero'
    · omega
  · exact absurd (hhash.symm.trans hzero) (hne a ha)

/-- The commitment for an index on a tip. -/
def tipCommitment (p : ChainParams G₁ G₂) (pool : Mineable G₁ G₂) (tip : CBlockIndex)
    (params : LLMQParams) (quorumIndex : ℕ) : Option (CFinalCommitment G₁ G₂) :=
  mineableCommitment p pool (some tip) params (tip.nHeight+1)
    (isQuorumRotationEnabled p.consensus params tip) (p.V19ActiveAfter tip) quorumIndex

theorem quorumsNum_tip (p : ChainParams G₁ G₂) (params : LLMQParams) (tip : CBlockIndex) :
    quorumsNum p params tip (tip.nHeight+1) =
      if isQuorumRotationEnabled p.consensus params tip then params.signingActiveQuorumCount
      else 1 := by
  unfold quorumsNum
  rw [if_pos (Nat.lt_succ_self _)]

/-- What is mined for a type is what it needs, and it stays settled what that is. -/
theorem triple_getMineableCommitmentsTx {E : CQuorumBlockProcessor G₁ G₂ → Prop}
    (htip : tip ∈ m.blocks) (hne : ∀ b ∈ m.blocks, b.hash ≠ 0) (params : LLMQParams)
    (hfits : ∀ t, (ks t).length ≤ keepOldKeys p t)
    (hfit : (ks params.type).length+quorumsNum p params tip (tip.nHeight+1) ≤
      keepOldKeys p params.type)
    (mk : ℕ → CFinalCommitment G₁ G₂) (hmk : ∀ i, tipCommitment p pool tip params i = some (mk i)) :
    Triple (Steady p ks mined)
      (getMineableCommitmentsTx p pool (some tip) params (tip.nHeight+1))
      (fun qcTx s => ∃ ks' mined', Steady p ks' mined' s ∧
        Extends params.type ks mined ks' mined' ∧
        (∀ hash ∈ candidates p params (some tip) (tip.nHeight+1), hash ∈ ks' params.type) ∧
        (∀ t, (ks' t).length ≤ keepOldKeys p t) ∧
        qcTx = (neededIndexes p params (some tip) (tip.nHeight+1) mined').map
          fun i => some (decoded (mk i))) E := by
  have hqcs : Triple (Steady p ks mined)
      (getMineableCommitments p pool (some tip) params (tip.nHeight+1))
      (fun qcs s => ∃ ks' mined', Steady p ks' mined' s ∧
        Extends params.type ks mined ks' mined' ∧
        (∀ hash ∈ candidates p params (some tip) (tip.nHeight+1), hash ∈ ks' params.type) ∧
        (∀ t, (ks' t).length ≤ keepOldKeys p t) ∧
        qcs.getD [] = (neededIndexes p params (some tip) (tip.nHeight+1) mined').map mk) E := by
    unfold getMineableCommitments
    refine (triple_firstRequired params rfl hfit).bind fun n => ?_
    refine triple_exists fun ks' => triple_exists fun mined' => triple_and fun hfirst => ?_
    obtain ⟨hext, hcand, hlength, hn⟩ := hfirst
    have hfits' : ∀ t, (ks' t).length ≤ keepOldKeys p t := by
      intro t
      by_cases ht : t = params.type
      · rw [ht]
        exact hlength.trans hfit
      · rw [(hext.other t ht).1]
        exact hfits t
    refine triple_ite (fun hzero => ?_) fun hneeded => ?_
    · refine triple_pure fun s hs => ⟨ks', mined', hs, hext, hcand, hfits', ?_⟩
      rw [List.length_eq_zero_iff.mp (hn.symm.trans hzero)]
      rfl
    · dsimp only
      rw [if_neg (lt_irrefl _), if_pos (Nat.lt_succ_self _)]
      rw [← quorumsNum_tip]
      have hphase : isMiningPhase p params (some tip) (tip.nHeight+1) = some true := by
        by_contra hnot
        refine hneeded (hn.trans ?_)
        rw [List.length_eq_zero_iff]
        unfold neededIndexes
        split
        · rename_i hphase htip
          exact absurd hphase hnot
        · rfl
      have hasked : ∀ i ∈ List.range (quorumsNum p params tip (tip.nHeight+1)),
          getQuorumBlockHash params (some tip) (tip.nHeight+1) i ≠ 0 →
          getQuorumBlockHash params (some tip) (tip.nHeight+1) i ∈ ks' params.type := by
        intro i hi hne
        refine hcand _ ?_
        unfold candidates
        rw [hphase]
        exact List.mem_filter.mpr ⟨List.mem_map_of_mem hi, decide_eq_true hne⟩
      refine (triple_collectMineable (settles_steady hfits') _ _ _ hasked
        (quorumBlocks_pairwise htip hne params _ _) mk hmk).bind fun ret => ?_
      refine triple_pure fun s hs => ⟨ks', mined', hs.2, hext, hcand, hfits', ?_⟩
      have hret : ret = (neededIndexes p params (some tip) (tip.nHeight+1) mined').map mk := by
        unfold neededIndexes
        rw [hphase]
        exact hs.1
      rw [← hret]
      cases ret with
      | nil => rfl
      | cons f ret => rfl
  unfold getMineableCommitmentsTx
  refine hqcs.bind fun qcs => triple_pure fun s hs => ?_
  obtain ⟨ks', mined', hsteady, hext, hcand, hfits', heq⟩ := hs
  refine ⟨ks', mined', hsteady, hext, hcand, hfits', ?_⟩
  rw [heq, List.map_map]
  rfl

theorem neededIndexes_congr (hsame : mined' params.type = mined params.type) :
    neededIndexes p params active_chain nHeight mined' =
      neededIndexes p params active_chain nHeight mined := by
  have hneeded : Needed params active_chain nHeight mined' =
      Needed params active_chain nHeight mined := by
    funext i
    exact needed_congr (congrFun hsame _)
  unfold neededIndexes
  rw [hneeded]

/-- The same for all types. -/
theorem triple_commitmentTxs {E : CQuorumBlockProcessor G₁ G₂ → Prop}
    (htip : tip ∈ m.blocks) (hne : ∀ b ∈ m.blocks, b.hash ≠ 0) (l : List LLMQParams)
    (hnodup : (l.map LLMQParams.type).Nodup)
    (hquorums : ∀ params ∈ l, quorumsNum p params tip (tip.nHeight+1) ≤ keepOldKeys p params.type)
    (mk : LLMQParams → ℕ → CFinalCommitment G₁ G₂)
    (hmk : ∀ params ∈ l, ∀ i, tipCommitment p pool tip params i = some (mk params i))
    (ks : LLMQType → List uint256) (mined : Mined) (hnew : ∀ params ∈ l, ks params.type = [])
    (hfits : ∀ t, (ks t).length ≤ keepOldKeys p t) :
    Triple (Steady p ks mined) (commitmentTxs p pool (some tip) (tip.nHeight+1) l)
      (fun qcTx s => ∃ ks' mined', Steady p ks' mined' s ∧
        (∀ t, t ∉ l.map LLMQParams.type → ks' t = ks t ∧ mined' t = mined t) ∧
        (∀ params ∈ l, ∀ hash ∈ candidates p params (some tip) (tip.nHeight+1),
          hash ∈ ks' params.type) ∧
        (∀ t, (ks' t).length ≤ keepOldKeys p t) ∧
        qcTx = l.flatMap fun params =>
          (neededIndexes p params (some tip) (tip.nHeight+1) mined').map
            fun i => some (decoded (mk params i))) E := by
  induction l generalizing ks mined with
  | nil =>
    refine triple_pure fun s hs => ⟨ks, mined, hs, fun _ _ => ⟨rfl, rfl⟩, ?_, hfits, rfl⟩
    exact fun params hparams => absurd hparams List.not_mem_nil
  | cons params l ih =>
    rw [List.map_cons, List.nodup_cons] at hnodup
    rw [List.forall_mem_cons] at hquorums hmk hnew
    unfold commitmentTxs
    have hfit : (ks params.type).length+quorumsNum p params tip (tip.nHeight+1) ≤
        keepOldKeys p params.type := by
      rw [hnew.1, List.length_nil, zero_add]
      exact hquorums.1
    refine (triple_getMineableCommitmentsTx htip hne params hfits hfit (mk params) hmk.1).bind
      fun qcTx => ?_
    refine triple_exists fun ks₁ => triple_exists fun mined₁ => triple_and fun hfirst => ?_
    obtain ⟨hext, hcand, hfits₁, hqcTx⟩ := hfirst
    have hnew₁ : ∀ params' ∈ l, ks₁ params'.type = [] := by
      intro params' hparams'
      have htype : params'.type ≠ params.type := fun heq =>
        hnodup.1 (heq ▸ List.mem_map_of_mem hparams')
      rw [(hext.other _ htype).1]
      exact hnew.2 params' hparams'
    refine (ih hnodup.2 hquorums.2 hmk.2 ks₁ mined₁ hnew₁ hfits₁).bind fun more => ?_
    refine triple_pure fun s hs => ?_
    obtain ⟨ks', mined', hsteady, hother, hcand', hfits', hmore⟩ := hs
    obtain ⟨hks, hmined⟩ := hother params.type hnodup.1
    refine ⟨ks', mined', hsteady, fun t ht => ?_, ?_, hfits', ?_⟩
    · rw [List.map_cons, List.mem_cons, not_or] at ht
      exact ⟨(hother t ht.2).1.trans (hext.other t ht.1).1,
        (hother t ht.2).2.trans (hext.other t ht.1).2⟩
    · refine List.forall_mem_cons.mpr ⟨fun hash hhash => ?_, hcand'⟩
      rw [hks]
      exact hcand hash hhash
    · rw [List.flatMap_cons, hqcTx, hmore, neededIndexes_congr hmined]

end BabaChain.LLMQ.BlockProcessor
