import BabaChain.CommitmentSignatures

/-! Which commitments make a check read past the end of a vector. -/
namespace BabaChain.LLMQ.CommitmentChecks
open BlockProcessor

/-! ### Faults -/

/-- How a check ends without an answer: a vector is read past its end, `irange::range` or
`IsQuorumTypeEnabled` throws, `gsl::not_null` is given no block, or an assertion fails. -/
inductive Fault
  | outOfRange
  | invalidRange
  | unknownType
  | nullPointer
  | assertion
deriving DecidableEq, Repr

/-- The check comes to an answer. -/
def Ends {α : Type} (x : Except Fault α) : Prop := ∃ r, x = .ok r

variable {α β : Type}

@[simp] theorem ends_ok (r : α) : Ends (.ok r : Except Fault α) := ⟨r, rfl⟩

@[simp] theorem not_ends_error (e : Fault) : ¬Ends (.error e : Except Fault α) := by
  rintro ⟨r, hr⟩
  cases hr

theorem ends_bind {x : Except Fault α} {f : α → Except Fault β} :
    Ends (x >>= f) ↔ ∃ r, x = .ok r ∧ Ends (f r) := by
  cases x with
  | error e =>
    constructor
    · intro h
      exact absurd h (not_ends_error e)
    · rintro ⟨r, hr, -⟩
      cases hr
  | ok r =>
    constructor
    · intro h
      exact ⟨r, rfl, h⟩
    · rintro ⟨r', hr', h⟩
      cases hr'
      exact h

theorem ends_map {x : Except Fault α} {f : α → β} : Ends (f <$> x) ↔ Ends x := by
  cases x with
  | error e => exact iff_of_false (not_ends_error e) (not_ends_error e)
  | ok r => exact iff_of_true (ends_ok (f r)) (ends_ok r)

def readBit (bits : List Bool) (i : ℕ) : Except Fault Bool :=
  match bits[i]? with
  | none => .error .outOfRange
  | some bit => .ok bit

/-- The bits that are written to the log. -/
def logBits (bits : List Bool) : List ℕ → Except Fault Unit
  | [] => .ok ()
  | i :: is => readBit bits i >>= fun _ => logBits bits is

def range (start stop : ℕ) : Except Fault (List ℕ) :=
  if stop < start then .error .invalidRange else .ok (List.range' start (stop-start))

theorem readBit_of_lt {bits : List Bool} {i : ℕ} (hi : i < bits.length) :
    readBit bits i = .ok bits[i] := by
  unfold readBit
  rw [List.getElem?_eq_getElem hi]

theorem readBit_of_le {bits : List Bool} {i : ℕ} (hi : bits.length ≤ i) :
    readBit bits i = .error .outOfRange := by
  unfold readBit
  rw [List.getElem?_eq_none hi]

theorem ends_readBit {bits : List Bool} {i : ℕ} : Ends (readBit bits i) ↔ i < bits.length := by
  rcases lt_or_ge i bits.length with hi | hi
  · rw [readBit_of_lt hi]
    exact iff_of_true (ends_ok _) hi
  · rw [readBit_of_le hi]
    exact iff_of_false (not_ends_error _) (not_lt.mpr hi)

theorem ends_logBits {bits : List Bool} {is : List ℕ} :
    Ends (logBits bits is) ↔ ∀ i ∈ is, i < bits.length := by
  induction is with
  | nil => simp [logBits]
  | cons i is ih =>
    rw [logBits, ends_bind, List.forall_mem_cons, ← ih, ← ends_readBit]
    constructor
    · rintro ⟨bit, hbit, hrest⟩
      exact ⟨⟨bit, hbit⟩, hrest⟩
    · rintro ⟨⟨bit, hbit⟩, hrest⟩
      exact ⟨bit, hbit, hrest⟩

theorem ends_logBits_range {bits : List Bool} {size : ℕ} :
    Ends (logBits bits (List.range size)) ↔ size ≤ bits.length := by
  rw [ends_logBits]
  constructor
  · intro h
    rcases Nat.eq_zero_or_pos size with hzero | hpos
    · omega
    · have hlast := h (size-1) (List.mem_range.mpr (by omega))
      omega
  · intro h i hi
    have hlt := List.mem_range.mp hi
    omega

/-! ### Members -/

variable {G₁ G₂ : Type} (c : Signing G₁ G₂) (p : ChainParams G₁ G₂)

/-- The quorum types that `IsQuorumTypeEnabled` knows. -/
def knownTypes : List LLMQType := [1, 2, 3, 4, 5, 6, 100, 101, 102, 103, 104, 105, 106, 107]

def isQuorumTypeEnabled (llmqType : LLMQType) (pindexPrev : Option CBlockIndex) :
    Except Fault Bool :=
  match pindexPrev with
  | none => .error .nullPointer
  | some pindexPrev =>
    if llmqType ∈ knownTypes then
      .ok (p.isQuorumTypeEnabled llmqType pindexPrev)
    else
      .error .unknownType

/-- `c.members` are those that are computed for a type that is enabled. -/
def getAllQuorumMembers (llmqType : LLMQType) (pQuorumBaseBlockIndex : CBlockIndex) :
    Except Fault (List (Option G₁)) := do
  if ← isQuorumTypeEnabled p llmqType (parent pQuorumBaseBlockIndex) then
    match p.consensus.getLLMQ llmqType with
    | none => .error .assertion
    | some _ => .ok (c.members llmqType pQuorumBaseBlockIndex)
  else
    .ok []

variable (llmqType : LLMQType) (pQuorumBaseBlockIndex : CBlockIndex)

def enabledFor : Bool := (parent pQuorumBaseBlockIndex).any (p.isQuorumTypeEnabled llmqType)

def foundMembers : List (Option G₁) :=
  if enabledFor p llmqType pQuorumBaseBlockIndex then c.members llmqType pQuorumBaseBlockIndex
  else []

/-- The quorum does not start with the genesis block, and its type is one that the node knows and,
where it is enabled, has parameters for. -/
structure Answers : Prop where
  parent : (parent pQuorumBaseBlockIndex).isSome = true
  known : llmqType ∈ knownTypes
  params : enabledFor p llmqType pQuorumBaseBlockIndex = true →
    (p.consensus.getLLMQ llmqType).isSome = true

variable {c p llmqType pQuorumBaseBlockIndex}

theorem getAllQuorumMembers_of_answers (h : Answers p llmqType pQuorumBaseBlockIndex) :
    getAllQuorumMembers c p llmqType pQuorumBaseBlockIndex =
      .ok (foundMembers c p llmqType pQuorumBaseBlockIndex) := by
  obtain ⟨pindexPrev, hparent⟩ := Option.isSome_iff_exists.mp h.parent
  have henabled : enabledFor p llmqType pQuorumBaseBlockIndex =
      p.isQuorumTypeEnabled llmqType pindexPrev := by
    rw [enabledFor, hparent, Option.any_some]
  unfold getAllQuorumMembers foundMembers isQuorumTypeEnabled
  rw [hparent, henabled]
  dsimp only
  rw [if_pos h.known]
  change (if p.isQuorumTypeEnabled llmqType pindexPrev = true then _ else _) = _
  split
  · rename_i hon
    obtain ⟨params, hparams⟩ := Option.isSome_iff_exists.mp (h.params (henabled.trans hon))
    rw [hparams]
  · rfl

theorem ends_getAllQuorumMembers :
    Ends (getAllQuorumMembers c p llmqType pQuorumBaseBlockIndex) ↔
      Answers p llmqType pQuorumBaseBlockIndex := by
  constructor
  · intro hends
    unfold getAllQuorumMembers at hends
    obtain ⟨on, hon, hrest⟩ := ends_bind.mp hends
    cases hparent : parent pQuorumBaseBlockIndex with
    | none =>
      rw [hparent] at hon
      cases hon
    | some pindexPrev =>
      rw [hparent] at hon
      unfold isQuorumTypeEnabled at hon
      dsimp only at hon
      split at hon
      · rename_i hknown
        refine ⟨by rw [hparent]; rfl, hknown, fun henabled => ?_⟩
        rw [enabledFor, hparent, Option.any_some] at henabled
        rw [henabled] at hon
        cases hon
        rw [if_pos rfl] at hrest
        cases hparams : p.consensus.getLLMQ llmqType with
        | none =>
          rw [hparams] at hrest
          exact absurd hrest (not_ends_error _)
        | some params => rfl
      · cases hon
  · intro h
    rw [getAllQuorumMembers_of_answers h]
    exact ends_ok _

/-! ### Signatures -/

section Signatures
variable (c p) (qc : CFinalCommitment G₁ G₂) (pQuorumBaseBlockIndex : CBlockIndex)

/-- The keys of the members that signed, each with its index. -/
def selectKeys (signers : List Bool) : List (Option G₁ × ℕ) → Except Fault (List (Option G₁))
  | [] => .ok []
  | (pubKey, i) :: members => do
    let signed ← readBit signers i
    let memberPubKeys ← selectKeys signers members
    .ok (if signed then pubKey :: memberPubKeys else memberPubKeys)

/-- With a queue the check of several keys is left to it. -/
def checkMembersSig (queue_control : Bool) (size : ℕ) (commitmentHash : uint256)
    (members : List (Option G₁)) : Except Fault (Bool × List (BlsCheck G₁ G₂)) :=
  if size = 1 then
    match members with
    | [] => .error .outOfRange
    | member :: _ => .ok (c.verifyInsecure qc.membersSig member commitmentHash, [])
  else do
    let memberPubKeys ← selectKeys qc.signers members.zipIdx
    if queue_control then
      .ok (true, [⟨qc.membersSig, memberPubKeys, commitmentHash⟩])
    else
      .ok (c.verifySecureAggregated qc.membersSig memberPubKeys commitmentHash, [])

def verifySignatureAsync (queue_control : Bool) :
    Except Fault (Bool × List (BlsCheck G₁ G₂)) := do
  let members ← getAllQuorumMembers c p qc.llmqType pQuorumBaseBlockIndex
  match p.consensus.getLLMQ qc.llmqType with
  | none => .ok (false, [])
  | some llmq_params =>
    let commitmentHash := c.buildCommitmentHash qc llmq_params.type
    let (valid, vChecks) ← checkMembersSig c qc queue_control (p.mining llmq_params.type).size
      commitmentHash members
    if valid = false then
      .ok (false, vChecks)
    else if queue_control then
      .ok (true, vChecks++[⟨qc.quorumSig, [qc.quorumPublicKey], commitmentHash⟩])
    else
      .ok (c.verifyInsecure qc.quorumSig qc.quorumPublicKey commitmentHash, vChecks)

end Signatures

theorem selectKeys_zipIdx {signers : List Bool} {members : List (Option G₁)} {k : ℕ}
    (hlen : members = [] ∨ k+members.length ≤ signers.length) :
    selectKeys signers (members.zipIdx k) =
      .ok (((members.zipIdx k).filter fun member => signers.getD member.2 false).map Prod.fst) := by
  induction members generalizing k with
  | nil => rfl
  | cons member members ih =>
    have hlen : k+(members.length+1) ≤ signers.length := by simpa using hlen
    have hk : k < signers.length := by omega
    rw [List.zipIdx_cons, selectKeys, readBit_of_lt hk, ih (Or.inr (by omega)), List.filter_cons,
      List.getD_eq_getElem?_getD, List.getElem?_eq_getElem hk, Option.getD_some]
    change Except.ok _ = Except.ok _
    split
    · rfl
    · rfl

theorem ends_selectKeys {signers : List Bool} {members : List (Option G₁)} {k : ℕ} :
    Ends (selectKeys signers (members.zipIdx k)) ↔
      members = [] ∨ k+members.length ≤ signers.length := by
  constructor
  · intro hends
    induction members generalizing k with
    | nil => exact Or.inl rfl
    | cons member members ih =>
      right
      rw [List.zipIdx_cons, selectKeys] at hends
      obtain ⟨signed, hsigned, hrest⟩ := ends_bind.mp hends
      obtain ⟨keys, hkeys, -⟩ := ends_bind.mp hrest
      have hk : k < signers.length := ends_readBit.mp ⟨signed, hsigned⟩
      rw [List.length_cons]
      rcases ih ⟨keys, hkeys⟩ with hnil | hlen
      · rw [hnil]
        exact hk
      · omega
  · intro hlen
    rw [selectKeys_zipIdx hlen]
    exact ends_ok _

theorem ends_checkMembersSig {qc : CFinalCommitment G₁ G₂} {queue_control : Bool} {size : ℕ}
    {commitmentHash : uint256} {members : List (Option G₁)} :
    Ends (checkMembersSig c qc queue_control size commitmentHash members) ↔
      if size = 1 then members ≠ [] else members.length ≤ qc.signers.length := by
  unfold checkMembersSig
  split
  · cases members with
    | nil => simp
    | cons member members => simp
  · rw [ends_bind]
    have hkeys := @ends_selectKeys _ qc.signers members 0
    rw [zero_add] at hkeys
    constructor
    · rintro ⟨keys, hok, -⟩
      rcases hkeys.mp ⟨keys, hok⟩ with hnil | hlen
      · rw [hnil]
        exact Nat.zero_le _
      · exact hlen
    · intro hlen
      obtain ⟨keys, hok⟩ := hkeys.mpr (Or.inr hlen)
      refine ⟨keys, hok, ?_⟩
      cases queue_control with
      | false => exact ends_ok _
      | true => exact ends_ok _

/-- The members can be read, and the bits of those that signed. -/
structure SignersIndexed (c : Signing G₁ G₂) (p : ChainParams G₁ G₂) (qc : CFinalCommitment G₁ G₂)
    (pQuorumBaseBlockIndex : CBlockIndex) : Prop where
  answers : Answers p qc.llmqType pQuorumBaseBlockIndex
  indexed : ∀ params, p.consensus.getLLMQ qc.llmqType = some params →
    if (p.mining params.type).size = 1 then
      foundMembers c p qc.llmqType pQuorumBaseBlockIndex ≠ []
    else
      (foundMembers c p qc.llmqType pQuorumBaseBlockIndex).length ≤ qc.signers.length

theorem ends_verifySignatureAsync {qc : CFinalCommitment G₁ G₂} {queue_control : Bool} :
    Ends (verifySignatureAsync c p qc pQuorumBaseBlockIndex queue_control) ↔
      SignersIndexed c p qc pQuorumBaseBlockIndex := by
  unfold verifySignatureAsync
  rw [ends_bind]
  constructor
  · rintro ⟨members, hmembers, hrest⟩
    have hanswers := ends_getAllQuorumMembers.mp ⟨members, hmembers⟩
    rw [getAllQuorumMembers_of_answers hanswers] at hmembers
    cases hmembers
    refine ⟨hanswers, fun params hparams => ?_⟩
    rw [hparams] at hrest
    obtain ⟨answer, hanswer, -⟩ := ends_bind.mp hrest
    exact ends_checkMembersSig.mp ⟨answer, hanswer⟩
  · rintro ⟨hanswers, hindexed⟩
    refine ⟨_, getAllQuorumMembers_of_answers hanswers, ?_⟩
    cases hparams : p.consensus.getLLMQ qc.llmqType with
    | none => exact ends_ok _
    | some params =>
      obtain ⟨⟨valid, vChecks⟩, hanswer⟩ := ends_checkMembersSig.mpr (hindexed params hparams)
      refine ends_bind.mpr ⟨⟨valid, vChecks⟩, hanswer, ?_⟩
      dsimp only
      split
      · exact ends_ok _
      · split
        · exact ends_ok _
        · exact ends_ok _

/-! ### Commitments -/

section Commitments
variable (c p) (qc : CFinalCommitment G₁ G₂) (pQuorumBaseBlockIndex : CBlockIndex)

/-- The checks of `Verify` before it asks for the members. -/
def verifyFields (params : LLMQParams) : Bool :=
  let mining := p.mining params.type
  let expected_nversion :=
    getVersion (isQuorumRotationEnabled p.consensus params pQuorumBaseBlockIndex)
      (p.V19ActiveAfter pQuorumBaseBlockIndex)
  decide (qc.nVersion ≠ 0 ∧ qc.nVersion = expected_nversion) &&
  decide (pQuorumBaseBlockIndex.hash = qc.quorumHash) &&
  decide (((pQuorumBaseBlockIndex.nHeight%params.dkgInterval : ℕ) : ℤ) = qc.quorumIndex) &&
  Commitment.verifySizes qc mining &&
  decide (mining.minSize ≤ qc.validMembers.count true) &&
  decide (mining.minSize ≤ qc.signers.count true) &&
  qc.quorumPublicKey.isSome &&
  (decide (mining.size = 1) || decide (qc.quorumVvecHash ≠ 0)) &&
  qc.membersSig.isSome && qc.quorumSig.isSome

/-- No bit is set at these indexes. -/
def bitsClear (validMembers signers : List Bool) : List ℕ → Except Fault Bool
  | [] => .ok true
  | i :: is => do
    if ← readBit validMembers i then
      .ok false
    else if ← readBit signers i then
      .ok false
    else
      bitsClear validMembers signers is

/-- `logging` is `LogAcceptDebug(BCLog::LLMQ)`. -/
def verify (logging checkSigs : Bool) : Except Fault Bool :=
  match p.consensus.getLLMQ qc.llmqType with
  | none => .ok false
  | some llmq_params =>
    if verifyFields p qc pQuorumBaseBlockIndex llmq_params then do
      let size := (p.mining llmq_params.type).size
      let members ← getAllQuorumMembers c p qc.llmqType pQuorumBaseBlockIndex
      if logging then
        logBits qc.validMembers (List.range size)
        logBits qc.signers (List.range size)
      let past ← range members.length size
      let clear ← bitsClear qc.validMembers qc.signers past
      if clear = false then
        .ok false
      else if checkSigs then
        -- without a queue the signatures are checked at once
        Prod.fst <$> verifySignatureAsync c p qc pQuorumBaseBlockIndex false
      else
        .ok true
    else
      .ok false

structure CFinalCommitmentTxPayload (G₁ G₂ : Type) where
  nVersion : BitVec 16 := 1
  nHeight : BitVec 32
  commitment : CFinalCommitment G₁ G₂

/-- The block the quorum starts with, where the payload is for the next block and that block is on
its chain. -/
def checkBase (m : BlockManager) (qcTx : CFinalCommitmentTxPayload G₁ G₂)
    (pindexPrev : CBlockIndex) : Except String CBlockIndex :=
  if qcTx.nVersion = 0 ∨ 1 < qcTx.nVersion then
    .error "bad-qc-version"
  else if qcTx.nHeight ≠ BitVec.ofNat 32 (pindexPrev.nHeight+1) then
    .error "bad-qc-height"
  else
    match m.lookupBlockIndex qcTx.commitment.quorumHash with
    | none => .error "bad-qc-quorum-hash"
    | some base =>
      if pindexPrev.getAncestor base.nHeight = some base then
        .ok base
      else
        .error "bad-qc-quorum-hash"

/-- What is left once the quorum type is known and the payload is logged. The answer is the reason
to reject the transaction, if there is one. -/
def checkPayload (logging : Bool) (m : BlockManager) (qcTx : CFinalCommitmentTxPayload G₁ G₂)
    (pindexPrev : CBlockIndex) : Except Fault (Option String) :=
  match checkBase m qcTx pindexPrev with
  | .error reason => .ok (some reason)
  | .ok base =>
    if qcTx.commitment.isNull then
      if Commitment.verifyNull p qcTx.commitment then
        .ok none
      else
        .ok (some "bad-qc-invalid-null")
    else do
      if ← verify c p qcTx.commitment base logging false then
        .ok none
      else
        .ok (some "bad-qc-invalid")

/-- A payload that cannot be decoded is `none`. -/
def checkLLMQCommitment (logging : Bool) (m : BlockManager)
    (opt_qcTx : Option (CFinalCommitmentTxPayload G₁ G₂)) (pindexPrev : CBlockIndex) :
    Except Fault (Option String) :=
  match opt_qcTx with
  | none => .ok (some "bad-qc-payload")
  | some qcTx =>
    match p.consensus.getLLMQ qcTx.commitment.llmqType with
    | none => .ok (some "bad-qc-commitment-type")
    | some llmq_params => do
      if logging then
        logBits qcTx.commitment.validMembers (List.range (p.mining llmq_params.type).size)
      checkPayload c p logging m qcTx pindexPrev

/-- No bit is set past so many members. -/
def noBitPast (members : ℕ) : Bool :=
  !(qc.validMembers.drop members).contains true && !(qc.signers.drop members).contains true

/-- The members can be read and are no more than the quorum has places, and where their signatures
are checked too, those can be. -/
structure MembersIndexed (params : LLMQParams) (checkSigs : Bool) : Prop where
  answers : Answers p qc.llmqType pQuorumBaseBlockIndex
  fits : (foundMembers c p qc.llmqType pQuorumBaseBlockIndex).length ≤ (p.mining params.type).size
  signers : checkSigs = true →
    noBitPast qc (foundMembers c p qc.llmqType pQuorumBaseBlockIndex).length = true →
      SignersIndexed c p qc pQuorumBaseBlockIndex

/-- Every commitment that passes the first checks of `Verify` passes them for members that can be
read. -/
def VerifyIndexed (checkSigs : Bool) : Prop :=
  ∀ params, p.consensus.getLLMQ qc.llmqType = some params →
    verifyFields p qc pQuorumBaseBlockIndex params = true →
      MembersIndexed c p qc pQuorumBaseBlockIndex params checkSigs

/-- What is logged can be read, and what is left to `Verify` too. -/
def CheckIndexed (logging : Bool) (m : BlockManager) (qcTx : CFinalCommitmentTxPayload G₁ G₂)
    (pindexPrev : CBlockIndex) : Prop :=
  ∀ params, p.consensus.getLLMQ qcTx.commitment.llmqType = some params →
    (logging = true → (p.mining params.type).size ≤ qcTx.commitment.validMembers.length) ∧
    ∀ base, checkBase m qcTx pindexPrev = .ok base → qcTx.commitment.isNull = false →
      VerifyIndexed c p qcTx.commitment base false

end Commitments

variable {qc : CFinalCommitment G₁ G₂} {params : LLMQParams}

theorem sizes_of_verifyFields (h : verifyFields p qc pQuorumBaseBlockIndex params = true) :
    qc.signers.length = (p.mining params.type).size ∧
      qc.validMembers.length = (p.mining params.type).size := by
  simp only [verifyFields, Commitment.verifySizes, Bool.and_eq_true, beq_iff_eq] at h
  tauto

theorem bitsClear_range' {validMembers signers : List Bool} {m n : ℕ}
    (hvalid : m+n = validMembers.length) (hsigners : m+n = signers.length) :
    bitsClear validMembers signers (List.range' m n) =
      .ok (!(validMembers.drop m).contains true && !(signers.drop m).contains true) := by
  induction n generalizing m with
  | zero =>
    rw [List.drop_eq_nil_of_le (by omega), List.drop_eq_nil_of_le (by omega)]
    rfl
  | succ n ih =>
    have hv : m < validMembers.length := by omega
    have hs : m < signers.length := by omega
    rw [List.range'_succ, bitsClear, readBit_of_lt hv, readBit_of_lt hs, ih (by omega) (by omega),
      List.drop_eq_getElem_cons hv, List.drop_eq_getElem_cons hs, List.contains_cons,
      List.contains_cons]
    cases validMembers[m] with
    | true => rfl
    | false =>
      cases signers[m] with
      | true => simp [bind, Except.bind]
      | false => simp [bind, Except.bind]

theorem bitsClear_range {members : ℕ}
    (hfields : verifyFields p qc pQuorumBaseBlockIndex params = true)
    (hfits : members ≤ (p.mining params.type).size) :
    (range members (p.mining params.type).size >>= bitsClear qc.validMembers qc.signers) =
      .ok (noBitPast qc members) := by
  obtain ⟨hsigners, hvalid⟩ := sizes_of_verifyFields hfields
  unfold range
  rw [if_neg (by omega)]
  apply bitsClear_range'
  · omega
  · omega

/-- With all vectors as long as the quorum, `Verify` reads its members and their signatures. -/
theorem verify_of_fields {logging checkSigs : Bool}
    (hparams : p.consensus.getLLMQ qc.llmqType = some params)
    (hfields : verifyFields p qc pQuorumBaseBlockIndex params = true)
    (hanswers : Answers p qc.llmqType pQuorumBaseBlockIndex)
    (hfits : (foundMembers c p qc.llmqType pQuorumBaseBlockIndex).length ≤
      (p.mining params.type).size) :
    verify c p qc pQuorumBaseBlockIndex logging checkSigs =
      if noBitPast qc (foundMembers c p qc.llmqType pQuorumBaseBlockIndex).length = true ∧
          checkSigs = true then
        Prod.fst <$> verifySignatureAsync c p qc pQuorumBaseBlockIndex false
      else
        .ok (noBitPast qc (foundMembers c p qc.llmqType pQuorumBaseBlockIndex).length) := by
  obtain ⟨hsigners, hvalid⟩ := sizes_of_verifyFields hfields
  have hlogged {bits : List Bool} (hlen : bits.length = (p.mining params.type).size) :
      logBits bits (List.range (p.mining params.type).size) = .ok () := by
    obtain ⟨⟨⟩, hok⟩ := ends_logBits_range.mpr hlen.ge
    exact hok
  have hclear := bitsClear_range hfields hfits
  unfold verify
  rw [hparams]
  dsimp only
  rw [if_pos hfields, getAllQuorumMembers_of_answers hanswers, hlogged hvalid, hlogged hsigners]
  have hrest {k : Bool → Except Fault Bool} :
      (range (foundMembers c p qc.llmqType pQuorumBaseBlockIndex).length
          (p.mining params.type).size >>= fun past =>
        bitsClear qc.validMembers qc.signers past >>= k) =
      k (noBitPast qc (foundMembers c p qc.llmqType pQuorumBaseBlockIndex).length) := by
    rw [← bind_assoc, hclear]
    rfl
  have hanswer {x : Except Fault Bool} (b : Bool) :
      (if b = false then .ok false else if checkSigs = true then x else .ok true) =
        if b = true ∧ checkSigs = true then x else .ok b := by
    cases b with
    | false => simp
    | true => simp
  cases logging with
  | false => exact hrest.trans (hanswer _)
  | true => exact hrest.trans (hanswer _)

theorem ends_verify {logging checkSigs : Bool} :
    Ends (verify c p qc pQuorumBaseBlockIndex logging checkSigs) ↔
      VerifyIndexed c p qc pQuorumBaseBlockIndex checkSigs := by
  constructor
  · intro hends params hparams hfields
    unfold verify at hends
    rw [hparams] at hends
    dsimp only at hends
    rw [if_pos hfields] at hends
    obtain ⟨members, hmembers, hrest⟩ := ends_bind.mp hends
    have hanswers := ends_getAllQuorumMembers.mp ⟨members, hmembers⟩
    rw [getAllQuorumMembers_of_answers hanswers] at hmembers
    cases hmembers
    have hpast : ∃ past, range (foundMembers c p qc.llmqType pQuorumBaseBlockIndex).length
        (p.mining params.type).size = .ok past := by
      cases logging with
      | false =>
        obtain ⟨past, hpast, -⟩ := ends_bind.mp hrest
        exact ⟨past, hpast⟩
      | true =>
        obtain ⟨-, -, hlogged⟩ := ends_bind.mp hrest
        obtain ⟨-, -, hlogged⟩ := ends_bind.mp hlogged
        obtain ⟨past, hpast, -⟩ := ends_bind.mp hlogged
        exact ⟨past, hpast⟩
    have hfits : (foundMembers c p qc.llmqType pQuorumBaseBlockIndex).length ≤
        (p.mining params.type).size := by
      obtain ⟨past, hpast⟩ := hpast
      unfold range at hpast
      split at hpast
      · cases hpast
      · omega
    refine ⟨hanswers, hfits, fun hsigs hclear => ?_⟩
    have hverify : Ends (verify c p qc pQuorumBaseBlockIndex logging checkSigs) := by
      unfold verify
      rw [hparams]
      dsimp only
      rwa [if_pos hfields]
    rw [verify_of_fields hparams hfields hanswers hfits, if_pos ⟨hclear, hsigs⟩,
      ends_map] at hverify
    exact ends_verifySignatureAsync.mp hverify
  · intro h
    cases hparams : p.consensus.getLLMQ qc.llmqType with
    | none =>
      unfold verify
      rw [hparams]
      exact ends_ok _
    | some params =>
      by_cases hfields : verifyFields p qc pQuorumBaseBlockIndex params = true
      · obtain ⟨hanswers, hfits, hsigners⟩ := h params hparams hfields
        rw [verify_of_fields hparams hfields hanswers hfits]
        split
        · rename_i hboth
          exact ends_map.mpr (ends_verifySignatureAsync.mpr (hsigners hboth.2 hboth.1))
        · exact ends_ok _
      · unfold verify
        rw [hparams]
        dsimp only
        rw [if_neg hfields]
        exact ends_ok _

theorem ends_checkPayload {logging : Bool} {m : BlockManager}
    {qcTx : CFinalCommitmentTxPayload G₁ G₂} {pindexPrev : CBlockIndex} :
    Ends (checkPayload c p logging m qcTx pindexPrev) ↔
      ∀ base, checkBase m qcTx pindexPrev = .ok base → qcTx.commitment.isNull = false →
        VerifyIndexed c p qcTx.commitment base false := by
  unfold checkPayload
  cases hbase : checkBase m qcTx pindexPrev with
  | error reason => simp
  | ok base =>
    simp only [Except.ok.injEq, forall_eq']
    by_cases hnull : qcTx.commitment.isNull = true
    · rw [if_pos hnull, hnull]
      split
      · simp
      · simp
    · rw [if_neg hnull, ← @ends_verify _ _ c p base qcTx.commitment logging false,
        ends_bind]
      rw [Bool.not_eq_true] at hnull
      constructor
      · rintro ⟨valid, hvalid, -⟩ -
        exact ⟨valid, hvalid⟩
      · intro h
        obtain ⟨valid, hvalid⟩ := h hnull
        refine ⟨valid, hvalid, ?_⟩
        split
        · exact ends_ok _
        · exact ends_ok _

theorem ends_checkLLMQCommitment {logging : Bool} {m : BlockManager}
    {qcTx : CFinalCommitmentTxPayload G₁ G₂} {pindexPrev : CBlockIndex} :
    Ends (checkLLMQCommitment c p logging m (some qcTx) pindexPrev) ↔
      CheckIndexed c p logging m qcTx pindexPrev := by
  unfold checkLLMQCommitment CheckIndexed
  dsimp only
  cases p.consensus.getLLMQ qcTx.commitment.llmqType with
  | none => simp
  | some params =>
    have hpayload := @ends_checkPayload _ _ c p logging m qcTx pindexPrev
    simp only [Option.some.injEq, forall_eq', ← hpayload]
    cases logging with
    | false => simp
    | true =>
      rw [if_pos rfl, ends_bind, ← ends_logBits_range]
      constructor
      · rintro ⟨logged, hlogged, hrest⟩
        exact ⟨fun _ => ⟨logged, hlogged⟩, hrest⟩
      · rintro ⟨hlog, hrest⟩
        obtain ⟨logged, hlogged⟩ := hlog rfl
        exact ⟨logged, hlogged, hrest⟩

/-! ### Answers -/

/-- A check comes to an answer exactly where it can read its members, and everything else it reads
at their indexes and at those of the quorum's places. -/
theorem commitment_checks_end_iff (c : Signing G₁ G₂) (p : ChainParams G₁ G₂) :
    (∀ qc, Commitment.verifyNull p qc = true ↔ qc.isNull = true ∧
      ∃ params, p.consensus.getLLMQ qc.llmqType = some params ∧
        Commitment.verifySizes qc (p.mining params.type) = true) ∧
    (∀ qc base queue_control, Ends (verifySignatureAsync c p qc base queue_control) ↔
      SignersIndexed c p qc base) ∧
    (∀ qc base logging checkSigs, Ends (verify c p qc base logging checkSigs) ↔
      VerifyIndexed c p qc base checkSigs) ∧
    ∀ logging m opt_qcTx pindexPrev,
      Ends (checkLLMQCommitment c p logging m opt_qcTx pindexPrev) ↔
        ∀ qcTx ∈ opt_qcTx, CheckIndexed c p logging m qcTx pindexPrev := by
  refine ⟨fun qc => ?_, fun qc base queue_control => ends_verifySignatureAsync,
    fun qc base logging checkSigs => ends_verify, fun logging m opt_qcTx pindexPrev => ?_⟩
  · unfold Commitment.verifyNull
    cases p.consensus.getLLMQ qc.llmqType with
    | none => simp
    | some params => simp
  · cases opt_qcTx with
    | none => simp [checkLLMQCommitment]
    | some qcTx => simp [ends_checkLLMQCommitment]

/-- A null commitment of a quorum with three places and with no bits at all. -/
def shortPayload : CFinalCommitmentTxPayload Unit Unit where
  nHeight := 34
  commitment := {nVersion := 3, llmqType := 100, quorumHash := 25}

def threeMembers : Signing Unit Unit where
  members _ _ := [some (), some (), some ()]
  commitmentHash _ _ _ _ _ := 0
  verify _ _ _ := true
  verifySecure _ _ _ := true

/-- With the log on, its bits are read before they are counted. -/
theorem checkLLMQCommitment_outOfRange :
    checkLLMQCommitment threeMembers testParams true testBlocks (some shortPayload) (testIndex 33) =
        .error .outOfRange ∧
      checkLLMQCommitment threeMembers testParams false testBlocks (some shortPayload)
        (testIndex 33) = .ok (some "bad-qc-invalid-null") ∧
      verifySignatureAsync threeMembers testParams shortPayload.commitment (testIndex 24) true =
        .error .outOfRange := by
  refine ⟨?_, ?_, ?_⟩
  · decide +kernel
  · decide +kernel
  · rfl

end BabaChain.LLMQ.CommitmentChecks
