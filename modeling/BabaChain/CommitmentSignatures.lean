import BabaChain.CommitmentRuns

/-! The signatures of the commitments in a block: what `VerifySignatureAsync` queues and what a
block that is accepted is known to be signed by. -/
namespace BabaChain.LLMQ.BlockProcessor
open Triples

/-- The BLS primitives and the operator keys of the members that `GetAllQuorumMembers` finds. An
object that is not valid is `none` and verifies nothing. -/
structure Signing (G₁ G₂ : Type) where
  members : LLMQType → CBlockIndex → List (Option G₁)
  commitmentHash : LLMQType → uint256 → List Bool → Option G₁ → uint256 → uint256
  verify : G₂ → G₁ → uint256 → Bool
  verifySecure : Option G₂ → List (Option G₁) → uint256 → Bool

/-- A check of the queue. -/
structure BlsCheck (G₁ G₂ : Type) where
  sig : Option G₂
  pubkeys : List (Option G₁)
  msgHash : uint256

variable {G₁ G₂ : Type} (c : Signing G₁ G₂) (p : ChainParams G₁ G₂)
  (qc : CFinalCommitment G₁ G₂) (pQuorumBaseBlockIndex : CBlockIndex)

namespace Signing

def verifyInsecure (sig : Option G₂) (pubKey : Option G₁) (hash : uint256) : Bool :=
  match sig, pubKey with
  | some sig, some pubKey => c.verify sig pubKey hash
  | _, _ => false

def verifySecureAggregated (sig : Option G₂) (pks : List (Option G₁)) (hash : uint256) : Bool :=
  if pks.isEmpty then false else c.verifySecure sig pks hash

def runCheck (check : BlsCheck G₁ G₂) : Bool :=
  match check.pubkeys with
  | [] => false
  | [pubkey] => c.verifyInsecure check.sig pubkey check.msgHash
  | pubkeys => c.verifySecureAggregated check.sig pubkeys check.msgHash

def buildCommitmentHash (llmqType : LLMQType) : uint256 :=
  c.commitmentHash llmqType qc.quorumHash qc.validMembers qc.quorumPublicKey qc.quorumVvecHash

/-- The keys of the members that signed. -/
def memberPubKeys : List (Option G₁) :=
  ((c.members qc.llmqType pQuorumBaseBlockIndex).zipIdx.filter fun member =>
    qc.signers.getD member.2 false).map Prod.fst

/-- What is returned and what is queued. A quorum with a single member is checked at once. -/
def verifySignatureAsync : Bool × List (BlsCheck G₁ G₂) :=
  match p.consensus.getLLMQ qc.llmqType with
  | none => (false, [])
  | some llmq_params =>
    let commitmentHash := c.buildCommitmentHash qc llmq_params.type
    let quorumCheck : BlsCheck G₁ G₂ := ⟨qc.quorumSig, [qc.quorumPublicKey], commitmentHash⟩
    if (p.mining llmq_params.type).size = 1 then
      let memberKey := ((c.members qc.llmqType pQuorumBaseBlockIndex).head?).join
      if c.verifyInsecure qc.membersSig memberKey commitmentHash then
        (true, [quorumCheck])
      else
        (false, [])
    else
      (true, [⟨qc.membersSig, c.memberPubKeys qc pQuorumBaseBlockIndex, commitmentHash⟩,
        quorumCheck])

/-- The parameters of a node that checks signatures this way: the block is held up by the checks
that were queued, and by no return value. -/
def withSigning : ChainParams G₁ G₂ :=
  {p with
    countMembers := fun llmqType pindex => (c.members llmqType pindex).length
    verifySignatures := fun qc pindex => (c.verifySignatureAsync p qc pindex).2.all c.runCheck}

/-- The signature of the members verifies under the keys of those that signed. -/
def MembersSigned : Prop :=
  c.runCheck ⟨qc.membersSig, c.memberPubKeys qc pQuorumBaseBlockIndex,
    c.buildCommitmentHash qc qc.llmqType⟩ = true

/-- The signature of the quorum verifies under its public key. -/
def QuorumSigned : Prop :=
  c.verifyInsecure qc.quorumSig qc.quorumPublicKey (c.buildCommitmentHash qc qc.llmqType) = true

end Signing

/-! ### Blocks -/

variable {c p qc} {m : BlockManager} {pindex : CBlockIndex} {active_chain : CChain}
  {block : CBlock G₁ G₂} {qcs ret : List (CFinalCommitment G₁ G₂)}

/-- Whatever the state, an accepted commitment was verified. -/
theorem triple_verified (fJustCheck : Bool) (qc : CFinalCommitment G₁ G₂) :
    Triple (fun _ => True) (processCommitment p pindex m active_chain fJustCheck qc)
      (fun _ _ => qc.isNull = false → ∃ base, m.lookupBlockIndex qc.quorumHash = some base ∧
        Commitment.verify p qc base = true) (fun _ => True) := by
  unfold processCommitment
  dsimp only
  cases hparams : p.consensus.getLLMQ qc.llmqType with
  | none => exact triple_throw fun _ _ => trivial
  | some params =>
    refine triple_refuse_bind (fun _ _ => trivial) fun _ => ?_
    refine triple_refuse_bind (fun _ _ => trivial) fun _ => ?_
    refine triple_ite (fun hnull => ?_) fun _ => ?_
    · rw [hnull]
      refine triple_ite (fun _ => triple_throw fun _ _ => trivial) fun _ => ?_
      exact triple_pure fun _ _ hnot => absurd hnot (by decide)
    · refine (triple_true _).bind fun mined => ?_
      refine triple_refuse_bind (fun _ _ => trivial) fun _ => ?_
      cases hphase : isMiningPhase p params active_chain pindex.nHeight with
      | none => exact triple_throw fun _ _ => trivial
      | some miningPhase =>
        refine triple_refuse_bind (fun _ _ => trivial) fun _ => ?_
        cases hlookup : m.lookupBlockIndex qc.quorumHash with
        | none => exact triple_throw fun _ _ => trivial
        | some base =>
          refine triple_refuse_bind (fun _ _ => trivial) fun hverify => ?_
          rw [Bool.not_eq_false] at hverify
          refine triple_ite (fun _ => ?_) fun _ => ?_
          · exact triple_pure fun _ _ _ => ⟨base, rfl, hverify⟩
          · exact fun _ _ _ => ⟨base, rfl, hverify⟩

theorem triple_signatures :
    Triple (fun _ => True) (checkSignatures p m true qcs)
      (fun _ _ => ∀ qc ∈ qcs, qc.isNull = false →
        (m.lookupBlockIndex qc.quorumHash).any (p.verifySignatures qc) = true)
      (fun _ => True) := by
  refine triple_refuse_bind (fun _ _ => trivial) fun _ => ?_
  refine triple_ite (fun _ => triple_throw fun _ _ => trivial) fun hall => ?_
  refine triple_pure fun _ _ qc hqc hnull => ?_
  rw [← Bool.not_eq_false]
  exact fun hfalse => hall ⟨qc, List.mem_filter.mpr ⟨hqc, by rw [hnull]; rfl⟩, hfalse⟩

/-- The checks that a commitment of an accepted block has passed. -/
theorem triple_accepted (fJustCheck : Bool) :
    Triple (fun _ => True) (processBlock p pindex m active_chain block fJustCheck true)
      (fun _ _ => ↑pindex.nHeight < p.DIP0003Height ∨
        ∀ qc, some qc ∈ block.commitments → qc.isNull = false →
          ∃ base, m.lookupBlockIndex qc.quorumHash = some base ∧
            p.verifySignatures qc base = true ∧ Commitment.verify p qc base = true)
      (fun _ => True) := by
  unfold processBlock
  by_cases hearly : (pindex.nHeight : ℤ) < p.DIP0003Height
  · rw [if_pos hearly]
    exact triple_modify fun _ _ => Or.inl hearly
  · rw [if_neg hearly]
    cases hqcs : getCommitmentsFromBlock p pindex block with
    | error e => exact triple_throw fun _ _ => trivial
    | ok qcs =>
      cases hparent : parent pindex with
      | none => exact triple_throw fun _ _ => trivial
      | some pprev =>
        refine (triple_true _).bind fun _ => ?_
        refine triple_signatures.bind fun _ => triple_fact fun hsigs => ?_
        have hloop : Triple (fun _ => True)
            (qcs.forM (processCommitment p pindex m active_chain fJustCheck))
            (fun _ _ => ∀ qc ∈ qcs, qc.isNull = false → ∃ base,
              m.lookupBlockIndex qc.quorumHash = some base ∧
                Commitment.verify p qc base = true) (fun _ => True) := by
          refine (triple_forM (fun done _ => ∀ qc ∈ done, qc.isNull = false → ∃ base,
            m.lookupBlockIndex qc.quorumHash = some base ∧
              Commitment.verify p qc base = true) [] fun done qc _ => ?_).pre ?_
          · refine triple_fact fun hdone => ?_
            refine (triple_verified fJustCheck qc).post (fun _ _ hqc qc' hqc' => ?_) fun _ h => h
            rcases List.mem_append.mp hqc' with hqc' | hqc'
            · exact hdone qc' hqc'
            · rw [List.mem_singleton.mp hqc']
              exact hqc
          · exact fun _ _ qc hqc => absurd hqc List.not_mem_nil
        refine hloop.bind fun _ => triple_fact fun hverified => ?_
        refine triple_modify fun _ _ => Or.inr fun qc hqc hnull => ?_
        have hin : qc ∈ qcs := by
          have hmem := (getCommitmentsFromBlock_perm hqcs).mem_iff.mpr hqc
          obtain ⟨qc', hqc', heq⟩ := List.mem_map.mp hmem
          exact Option.some.inj heq ▸ hqc'
        obtain ⟨base, hlookup, hverify⟩ := hverified qc hin hnull
        have hsig := hsigs qc hin hnull
        rw [hlookup, Option.any_some] at hsig
        exact ⟨base, hlookup, hsig, hverify⟩

/-! ### Signatures -/

variable {pQuorumBaseBlockIndex}

/-- A commitment for a known block, signed by the members it names and by the quorum. -/
def Signing.Signed (c : Signing G₁ G₂) (m : BlockManager) (qc : CFinalCommitment G₁ G₂) : Prop :=
  ∃ base, m.lookupBlockIndex qc.quorumHash = some base ∧ c.MembersSigned qc base ∧
    c.QuorumSigned qc

theorem zipIdx_filter_singleton {α : Type*} (l : List α) (signed : Bool) :
    ((l.zipIdx.filter fun member => [signed].getD member.2 false).map Prod.fst) =
      if signed = true then l.head?.toList else [] := by
  cases l with
  | nil => exact (ite_self []).symm
  | cons a l =>
    have hrest : ((l.zipIdx 1).filter fun member => [signed].getD member.2 false) = [] := by
      rw [List.filter_eq_nil_iff]
      intro member hmember
      have hle := (List.mem_zipIdx hmember).1
      rw [List.getD_eq_getElem?_getD, List.getElem?_eq_none (by simpa using hle)]
      exact Bool.false_ne_true
    rw [List.zipIdx_cons, List.filter_cons, zero_add, hrest]
    cases signed with
    | true => rfl
    | false => rfl

/-- What is queued for a commitment of a quorum with more than one member. -/
theorem Signing.signed_of_queued {params : LLMQParams}
    (hparams : p.consensus.getLLMQ qc.llmqType = some params)
    (hsize : (p.mining params.type).size ≠ 1)
    (hall : (c.verifySignatureAsync p qc pQuorumBaseBlockIndex).2.all c.runCheck = true) :
    c.MembersSigned qc pQuorumBaseBlockIndex ∧ c.QuorumSigned qc := by
  rw [verifySignatureAsync, hparams] at hall
  dsimp only at hall
  rw [if_neg hsize, getLLMQ_type hparams, List.all_cons, List.all_cons, List.all_nil,
    Bool.and_true, Bool.and_eq_true] at hall
  exact hall

/-- The quorum's signature is only queued for a single member whose own signature verifies. -/
theorem Signing.quorumSigned_of_single {params : LLMQParams}
    (hparams : p.consensus.getLLMQ qc.llmqType = some params)
    (hsize : (p.mining params.type).size = 1) (hsigners : qc.signers.length = 1)
    (hall : (c.verifySignatureAsync p qc pQuorumBaseBlockIndex).2.all c.runCheck = true)
    (hmembers : c.MembersSigned qc pQuorumBaseBlockIndex) : c.QuorumSigned qc := by
  obtain ⟨signed, hsigned⟩ := List.length_eq_one_iff.mp hsigners
  have hkey : c.verifyInsecure qc.membersSig
      ((c.members qc.llmqType pQuorumBaseBlockIndex).head?).join
      (c.buildCommitmentHash qc qc.llmqType) = true := by
    rw [MembersSigned, memberPubKeys, hsigned, zipIdx_filter_singleton] at hmembers
    split_ifs at hmembers
    · cases hhead : (c.members qc.llmqType pQuorumBaseBlockIndex).head? with
      | none =>
        rw [hhead] at hmembers
        contradiction
      | some key =>
        rw [hhead] at hmembers
        exact hmembers
    · contradiction
  rw [verifySignatureAsync, hparams] at hall
  dsimp only at hall
  rw [if_pos hsize, getLLMQ_type hparams, if_pos hkey, List.all_cons, List.all_nil,
    Bool.and_true] at hall
  exact hall

/-- A block that is accepted with the signatures checked has every commitment signed exactly if
no quorum with a single member has one that its member has not signed. -/
theorem signatures_enforced_iff (c : Signing G₁ G₂) (p : ChainParams G₁ G₂) (m : BlockManager)
    (pindex : CBlockIndex) (active_chain : CChain) (block : CBlock G₁ G₂) (fJustCheck : Bool)
    (self : CQuorumBlockProcessor G₁ G₂)
    (haccepted : ((processBlock (c.withSigning p) pindex m active_chain block fJustCheck
      true).run.run self).1 = .ok ()) :
    (∀ qc, some qc ∈ block.commitments → qc.isNull = false → c.Signed m qc) ↔
      ∀ qc, some qc ∈ block.commitments → qc.isNull = false →
        ((p.mining qc.llmqType).size = 1 →
          ∀ base, m.lookupBlockIndex qc.quorumHash = some base → c.MembersSigned qc base) ∧
        (pindex.nHeight < p.DIP0003Height → c.Signed m qc) := by
  constructor
  · intro hall qc hqc hnull
    obtain ⟨base, hlookup, hmembers, hquorum⟩ := hall qc hqc hnull
    refine ⟨fun _ base' hlookup' => ?_, fun _ => ⟨base, hlookup, hmembers, hquorum⟩⟩
    rw [hlookup, Option.some.injEq] at hlookup'
    exact hlookup' ▸ hmembers
  · intro hwhen qc hqc hnull
    obtain ⟨hsingle, hbelow⟩ := hwhen qc hqc hnull
    rcases (triple_accepted fJustCheck).ok trivial (Prod.ext haccepted rfl) with hearly | hpassed
    · exact hbelow hearly
    · obtain ⟨base, hlookup, hsigs, hverify⟩ := hpassed qc hqc hnull
      obtain ⟨params, hverified⟩ := verified_of_verify hverify
      have htype := getLLMQ_type hverified.known
      by_cases hsize : (p.mining params.type).size = 1
      · have hmembers := hsingle (htype ▸ hsize) base hlookup
        have hsigners : qc.signers.length = 1 := by
          have hsizes := hverified.sizes
          rw [Commitment.verifySizes, Bool.and_eq_true, beq_iff_eq] at hsizes
          exact hsizes.1.trans hsize
        exact ⟨base, hlookup, hmembers,
          Signing.quorumSigned_of_single hverified.known hsize hsigners hsigs hmembers⟩
      · exact ⟨base, hlookup, Signing.signed_of_queued hverified.known hsize hsigs⟩

/-- A signature is `true` where it verifies. The quorum has one member. -/
def singleSigning : Signing Unit Bool where
  members _ _ := [some ()]
  commitmentHash _ _ _ _ _ := 0
  verify sig _ _ := sig
  verifySecure sig _ _ := sig == some true

/-- `LLMQ_TEST` with `-llmqtestparams=1:1`. -/
def singleParams : ChainParams Unit Bool where
  consensus := testParams.consensus
  mining _ := ⟨1, 1, 10, 18⟩
  DIP0003Height := 1
  isQuorumTypeEnabled _ _ := true
  V19ActiveAfter _ := true
  countMembers _ _ := 1
  verifySignatures _ _ := true

/-- A commitment of the quorum that starts at height 24, with the same outcome for both
signatures. -/
def singleCommitment (signed : Bool) : CFinalCommitment Unit Bool where
  nVersion := 3
  llmqType := 100
  quorumHash := 25
  signers := [true]
  validMembers := [true]
  quorumPublicKey := some ()
  quorumSig := some signed
  membersSig := some signed

def singleAccepted (signed : Bool) : Except Refusal Unit :=
  ((processBlock (singleSigning.withSigning singleParams) (testIndex 34) testBlocks
    (some (testIndex 33)) ⟨[some (singleCommitment signed)]⟩ false true).run.run
      {mapHasMinedCommitmentCache := fun _ => LruCache.create 4}).1

theorem signatures_enforced_signed :
    (∀ qc, some qc ∈ [some (singleCommitment true)] → qc.isNull = false →
      singleSigning.Signed testBlocks qc) ↔
      ∀ qc, some qc ∈ [some (singleCommitment true)] → qc.isNull = false →
        ((singleParams.mining qc.llmqType).size = 1 →
          ∀ base, testBlocks.lookupBlockIndex qc.quorumHash = some base →
            singleSigning.MembersSigned qc base) ∧
        (((testIndex 34).nHeight : ℤ) < singleParams.DIP0003Height →
          singleSigning.Signed testBlocks qc) :=
  signatures_enforced_iff singleSigning singleParams testBlocks (testIndex 34)
    (some (testIndex 33)) ⟨[some (singleCommitment true)]⟩ false
    {mapHasMinedCommitmentCache := fun _ => LruCache.create 4} (by decide +kernel)

theorem signatures_not_enforced : singleAccepted false = .ok () ∧
    (singleCommitment false).isNull = false ∧
    ¬singleSigning.Signed testBlocks (singleCommitment false) := by
  refine ⟨by decide +kernel, by decide, ?_⟩
  rintro ⟨base, -, -, hquorum⟩
  exact absurd hquorum (by unfold Signing.QuorumSigned; decide)

end BabaChain.LLMQ.BlockProcessor
