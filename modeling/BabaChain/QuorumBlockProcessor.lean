import BabaChain.Quorums
import BabaChain.Lib.LruCache
import BabaChain.Lib.Overlay
import BabaChain.Lib.Triples

/-! The commitments of quorums as blocks mine them: what `CQuorumBlockProcessor` checks, writes
to the evo database and undoes. -/
namespace BabaChain.LLMQ.BlockProcessor
open Overlay LruCache Triples
open Std (ExtTreeMap TransOrd LawfulEqOrd TransCmp LawfulEqCmp)

/-! ### Database -/

/-- The keys of the database. The heights are inversed, so that newer entries come first. -/
inductive Key
  | minedCommitment (llmqType : LLMQType) (quorumHash : uint256)
  | minedByInversedHeight (llmqType : LLMQType) (inversedHeight : ℤ)
  | minedByInversedHeightQIndexed (llmqType : LLMQType) (quorumIndex inversedHeight : ℤ)
  | bestBlockUpgrade
deriving DecidableEq, Repr

def Key.serialize : Key → List ℤ
  | minedCommitment llmqType quorumHash => [0, llmqType.toNat, quorumHash.toNat]
  | minedByInversedHeight llmqType inversedHeight => [1, llmqType.toNat, inversedHeight]
  | minedByInversedHeightQIndexed llmqType quorumIndex inversedHeight =>
    [2, llmqType.toNat, quorumIndex, inversedHeight]
  | bestBlockUpgrade => [3]

theorem Key.serialize_injective : Function.Injective Key.serialize := by
  intro a b hab
  cases a <;> cases b <;>
    simp_all [Key.serialize, UInt8.toNat_inj, BitVec.toNat_inj]

instance : Ord Key := ⟨compareOn Key.serialize⟩

instance : TransOrd Key := inferInstanceAs (TransCmp (compareOn Key.serialize))

instance : LawfulEqOrd Key where
  eq_of_compare h := Key.serialize_injective (LawfulEqCmp.eq_of_compare h)

inductive Value (G₁ G₂ : Type)
  | commitment (qc : CFinalCommitment G₁ G₂) (blockHash : uint256)
  | quorumHeight (nHeight : ℤ)
  | bestBlock (blockHash : uint256)

variable {G₁ G₂ : Type}

structure CEvoDB (G₁ G₂ : Type) where
  db : ExtTreeMap Key (Value G₁ G₂) := ∅
  rootDBTransaction : Transaction Key (Value G₁ G₂) := {}
  curDBTransaction : Transaction Key (Value G₁ G₂) := {}

namespace CEvoDB

variable (evoDb : CEvoDB G₁ G₂)

/-- What is read past the current transaction. -/
def readRoot : Key → Option (Value G₁ G₂) :=
  evoDb.rootDBTransaction.read fun k => evoDb.db[k]?

def read : Key → Option (Value G₁ G₂) := evoDb.curDBTransaction.read evoDb.readRoot

def existsKey (k : Key) : Bool := (evoDb.read k).isSome

def write (k : Key) (v : Value G₁ G₂) : CEvoDB G₁ G₂ :=
  {evoDb with curDBTransaction := evoDb.curDBTransaction.write k v}

def erase (k : Key) : CEvoDB G₁ G₂ :=
  {evoDb with curDBTransaction := evoDb.curDBTransaction.erase k}

def commitCurTransaction : CEvoDB G₁ G₂ :=
  {evoDb with
    rootDBTransaction :=
      evoDb.curDBTransaction.commit Transaction.write Transaction.erase evoDb.rootDBTransaction
    curDBTransaction := .clear}

def rollbackCurTransaction : CEvoDB G₁ G₂ := {evoDb with curDBTransaction := .clear}

/-- `none` where the assertion fails: the current transaction is not clean. -/
def commitRootTransaction : Option (CEvoDB G₁ G₂) :=
  if evoDb.curDBTransaction.isClean then
    some {evoDb with
      db := evoDb.rootDBTransaction.commit (fun m k v => m.insert k v) (fun m k => m.erase k)
        evoDb.db
      rootDBTransaction := .clear}
  else
    none

variable {evoDb}

theorem read_write (k : Key) (v : Value G₁ G₂) (a : Key) :
    (evoDb.write k v).read a = if k = a then some v else evoDb.read a :=
  Transaction.read_write k v a

theorem read_erase (k a : Key) : (evoDb.erase k).read a = if k = a then none else evoDb.read a :=
  Transaction.read_erase k a

theorem readRoot_commitCur (evoDb : CEvoDB G₁ G₂) :
    evoDb.commitCurTransaction.readRoot = evoDb.read := by
  funext k
  exact (Transaction.isStore fun k => evoDb.db[k]?).read_commit evoDb.curDBTransaction k

theorem read_commitCur (evoDb : CEvoDB G₁ G₂) : evoDb.commitCurTransaction.read = evoDb.read := by
  rw [← readRoot_commitCur evoDb]
  exact funext fun k => Transaction.read_clear evoDb.commitCurTransaction.readRoot k

theorem read_rollbackCur (evoDb : CEvoDB G₁ G₂) :
    evoDb.rollbackCurTransaction.read = evoDb.readRoot :=
  funext (Transaction.read_clear _)

theorem readRoot_commitRoot {evoDb' : CEvoDB G₁ G₂}
    (hcommit : evoDb.commitRootTransaction = some evoDb') : evoDb'.readRoot = evoDb.readRoot := by
  rw [commitRootTransaction] at hcommit
  split_ifs at hcommit
  rw [Option.some.injEq] at hcommit
  subst hcommit
  funext k
  exact (Transaction.read_clear _ k).trans
    (isStore_extTreeMap.read_commit evoDb.rootDBTransaction k)

theorem read_commitRoot {evoDb' : CEvoDB G₁ G₂}
    (hcommit : evoDb.commitRootTransaction = some evoDb') : evoDb'.read = evoDb.read := by
  rw [read, readRoot_commitRoot hcommit]
  rw [commitRootTransaction] at hcommit
  split_ifs at hcommit
  rw [Option.some.injEq] at hcommit
  subst hcommit
  rfl

end CEvoDB

/-! ### Chain -/

def parent (pindex : CBlockIndex) : Option CBlockIndex :=
  match pindex.pprev with
  | [] => none
  | hash :: pprev => some ⟨hash, pprev⟩

/-- The blocks that are known, each with its ancestors. -/
structure BlockManager where
  blocks : List CBlockIndex
  nodup : (blocks.map CBlockIndex.hash).Nodup
  parent_mem : ∀ b ∈ blocks, ∀ a ∈ parent b, a ∈ blocks

def BlockManager.lookupBlockIndex (m : BlockManager) (hash : uint256) : Option CBlockIndex :=
  m.blocks.find? fun b => b.hash = hash

/-- The active chain by its tip. There is none while blocks are replayed after a crash. -/
abbrev CChain := Option CBlockIndex

def CChain.height (active_chain : CChain) : ℤ :=
  match active_chain with
  | none => -1
  | some tip => tip.nHeight

/-- A height of -1 stands for the tip. -/
def getBlockHash (active_chain : CChain) (nBlockHeight : ℤ) : Option uint256 :=
  match active_chain with
  | none => none
  | some tip =>
    if nBlockHeight < -1 ∨ tip.nHeight < nBlockHeight then
      none
    else if nBlockHeight = -1 then
      some tip.hash
    else
      (tip.getAncestor nBlockHeight.toNat).map CBlockIndex.hash

/-- The null hash stands for a block that is not there yet. -/
def getQuorumBlockHash (llmqParams : LLMQParams) (active_chain : CChain) (nHeight : ℕ)
    (quorumIndex : ℤ) : uint256 :=
  let quorumStartHeight : ℤ := nHeight-(nHeight%llmqParams.dkgInterval : ℕ)+quorumIndex
  (getBlockHash active_chain quorumStartHeight).getD 0

/-! ### Parameters -/

/-- The parameters of a quorum type that only the mining of its commitments needs. -/
structure MiningParams where
  size : ℕ
  minSize : ℕ
  dkgMiningWindowStart : ℤ
  dkgMiningWindowEnd : ℤ

/-- What the processing of a block takes from the rest of the node. -/
structure ChainParams (G₁ G₂ : Type) where
  consensus : Consensus
  mining : LLMQType → MiningParams
  DIP0003Height : ℤ
  isQuorumTypeEnabled : LLMQType → CBlockIndex → Bool
  V19ActiveAfter : CBlockIndex → Bool
  -- how many members `GetAllQuorumMembers` finds
  countMembers : LLMQType → CBlockIndex → ℕ
  -- the checks that `VerifySignatureAsync` queues
  verifySignatures : CFinalCommitment G₁ G₂ → CBlockIndex → Bool

variable (p : ChainParams G₁ G₂)

/-- `none` where the assertion fails: the block is not on the active chain and not next. -/
def isMiningPhase (llmqParams : LLMQParams) (active_chain : CChain) (nHeight : ℕ) : Option Bool :=
  if active_chain.height+1 < nHeight then
    none
  else
    let quorumCycleStartHeight : ℤ := nHeight-(nHeight%llmqParams.dkgInterval : ℕ)
    let mining := p.mining llmqParams.type
    some (decide (quorumCycleStartHeight+mining.dkgMiningWindowStart ≤ nHeight ∧
      nHeight ≤ quorumCycleStartHeight+mining.dkgMiningWindowEnd))

def getEnabledQuorumParams (pindex : CBlockIndex) : List LLMQParams :=
  p.consensus.llmqs.filter fun params => p.isQuorumTypeEnabled params.type pindex

/-! ### Commitments -/

def getVersion (is_rotation_enabled is_basic_scheme_active : Bool) : BitVec 16 :=
  if is_rotation_enabled then
    if is_basic_scheme_active then 4 else 2
  else
    if is_basic_scheme_active then 3 else 1

namespace Commitment

variable (qc : CFinalCommitment G₁ G₂)

def verifySizes (params : MiningParams) : Bool :=
  qc.signers.length == params.size && qc.validMembers.length == params.size

def verifyNull : Bool :=
  match p.consensus.getLLMQ qc.llmqType with
  | none => false
  | some params => qc.isNull && verifySizes qc (p.mining params.type)

/-- `Verify` without the signatures, which are checked with the block. -/
def verify (pQuorumBaseBlockIndex : CBlockIndex) : Bool :=
  match p.consensus.getLLMQ qc.llmqType with
  | none => false
  | some params =>
    let mining := p.mining params.type
    let expected_nversion :=
      getVersion (isQuorumRotationEnabled p.consensus params pQuorumBaseBlockIndex)
        (p.V19ActiveAfter pQuorumBaseBlockIndex)
    let members := p.countMembers qc.llmqType pQuorumBaseBlockIndex
    decide (qc.nVersion ≠ 0 ∧ qc.nVersion = expected_nversion) &&
    decide (pQuorumBaseBlockIndex.hash = qc.quorumHash) &&
    decide (((pQuorumBaseBlockIndex.nHeight%params.dkgInterval : ℕ) : ℤ) = qc.quorumIndex) &&
    verifySizes qc mining &&
    decide (mining.minSize ≤ qc.validMembers.count true) &&
    decide (mining.minSize ≤ qc.signers.count true) &&
    qc.quorumPublicKey.isSome &&
    (decide (mining.size = 1) || decide (qc.quorumVvecHash ≠ 0)) &&
    qc.membersSig.isSome && qc.quorumSig.isSome &&
    -- no bit is set past the members
    (!(qc.validMembers.drop members).contains true && !(qc.signers.drop members).contains true)

end Commitment

/-- The transactions of a block that mine a commitment, with the payload where it can be
decoded. -/
structure CBlock (G₁ G₂ : Type) where
  commitments : List (Option (CFinalCommitment G₁ G₂)) := []

/-! ### State -/

structure CQuorumBlockProcessor (G₁ G₂ : Type) where
  evoDb : CEvoDB G₁ G₂ := {}
  mapHasMinedCommitmentCache : LLMQType → Cache uint256 Bool

/-- Why a block is refused: with a reason, without one, or because an assertion fails. -/
inductive Refusal
  | invalid (reason : String)
  | failed
  | aborted
deriving DecidableEq, Repr

abbrev Processing (G₁ G₂ : Type) := Step Refusal (CQuorumBlockProcessor G₁ G₂)

namespace CQuorumBlockProcessor

variable (self : CQuorumBlockProcessor G₁ G₂)

def setCache (llmqType : LLMQType) (cache : Cache uint256 Bool) : CQuorumBlockProcessor G₁ G₂ :=
  {self with
    mapHasMinedCommitmentCache := Function.update self.mapHasMinedCommitmentCache llmqType cache}

def write (k : Key) (v : Value G₁ G₂) : CQuorumBlockProcessor G₁ G₂ :=
  {self with evoDb := self.evoDb.write k v}

def erase (k : Key) : CQuorumBlockProcessor G₁ G₂ := {self with evoDb := self.evoDb.erase k}

def eraseCached (llmqType : LLMQType) (quorumHash : uint256) : CQuorumBlockProcessor G₁ G₂ :=
  self.setCache llmqType (LruCache.erase (self.mapHasMinedCommitmentCache llmqType) quorumHash)

def hasMinedCommitment (llmqType : LLMQType) (quorumHash : uint256) :
    Bool × CQuorumBlockProcessor G₁ G₂ :=
  let cache := self.mapHasMinedCommitmentCache llmqType
  match get cache quorumHash with
  | (some fExists, cache) => (fExists, self.setCache llmqType cache)
  | (none, _) =>
    let fExists := self.evoDb.existsKey (.minedCommitment llmqType quorumHash)
    (fExists, self.setCache llmqType (insert cache quorumHash fExists))

variable {self}

@[simp]
theorem evoDb_setCache (llmqType : LLMQType) (cache : Cache uint256 Bool) :
    (self.setCache llmqType cache).evoDb = self.evoDb :=
  rfl

theorem setCache_self (llmqType : LLMQType) (cache : Cache uint256 Bool) :
    (self.setCache llmqType cache).mapHasMinedCommitmentCache llmqType = cache := by
  rw [setCache]
  exact Function.update_self llmqType cache self.mapHasMinedCommitmentCache

theorem setCache_of_ne {t llmqType : LLMQType} (hne : t ≠ llmqType) (cache : Cache uint256 Bool) :
    (self.setCache llmqType cache).mapHasMinedCommitmentCache t =
      self.mapHasMinedCommitmentCache t := by
  rw [setCache]
  exact Function.update_of_ne hne cache self.mapHasMinedCommitmentCache

end CQuorumBlockProcessor

/-- The key that the height of a commitment is kept under. -/
def buildInversedHeightKey (rotation_enabled : Bool) (llmqType : LLMQType) (nMinedHeight : ℕ)
    (quorumIndex : ℤ) : Key :=
  if rotation_enabled then
    .minedByInversedHeightQIndexed llmqType quorumIndex (0xffffffff-nMinedHeight)
  else
    .minedByInversedHeight llmqType (0xffffffff-nMinedHeight)

/-! ### Blocks -/

variable (pindex : CBlockIndex)

/-- Inserts after the commitments of the same type, by `std::multimap`. -/
def emplace (ret : List (CFinalCommitment G₁ G₂)) (qc : CFinalCommitment G₁ G₂) :
    List (CFinalCommitment G₁ G₂) :=
  ret.takeWhile (fun x => x.llmqType ≤ qc.llmqType) ++
    qc :: ret.dropWhile fun x => x.llmqType ≤ qc.llmqType

def countType (qcs : List (CFinalCommitment G₁ G₂)) (llmqType : LLMQType) : ℕ :=
  qcs.countP fun qc => qc.llmqType = llmqType

def addCommitment (ret : List (CFinalCommitment G₁ G₂))
    (payload : Option (CFinalCommitment G₁ G₂)) :
    Except Refusal (List (CFinalCommitment G₁ G₂)) :=
  match payload with
  | none => .error (.invalid "bad-qc-payload")
  | some qc =>
    match p.consensus.getLLMQ qc.llmqType with
    | none => .error (.invalid "bad-qc-commitment-type")
    | some params =>
      -- one of each type, except with rotation
      if isQuorumRotationEnabled p.consensus params pindex = false ∧
          countType ret qc.llmqType ≠ 0 then
        .error (.invalid "bad-qc-dup")
      else
        .ok (emplace ret qc)

def getCommitmentsFromBlock (block : CBlock G₁ G₂) :
    Except Refusal (List (CFinalCommitment G₁ G₂)) :=
  match block.commitments.foldlM (addCommitment p pindex) [] with
  | .error e => .error e
  | .ok ret =>
    if pindex.nHeight < p.DIP0003Height ∧ ret.isEmpty = false then
      .error (.invalid "bad-qc-premature")
    else
      .ok ret

variable (m : BlockManager) (active_chain : CChain)

/-- Counts the quorums that can be mined and are not yet. -/
def countRequired (llmqParams : LLMQParams) (nHeight : ℕ) (ret quorumIndex : ℕ) :
    Processing G₁ G₂ ℕ :=
  let quorumHash := getQuorumBlockHash llmqParams active_chain nHeight quorumIndex
  if quorumHash = 0 then
    pure ret
  else do
    let mined ← modifyGet fun self => self.hasMinedCommitment llmqParams.type quorumHash
    pure (if mined then ret else ret+1)

def getNumCommitmentsRequired (llmqParams : LLMQParams) (nHeight : ℕ) : Processing G₁ G₂ ℕ :=
  match isMiningPhase p llmqParams active_chain nHeight with
  | none => throw .aborted
  | some false => pure 0
  | some true =>
    match active_chain with
    | none => throw .aborted
    | some tip =>
      let pindex := if tip.nHeight < nHeight then tip else (tip.getAncestor nHeight).getD tip
      let quorums_num :=
        if isQuorumRotationEnabled p.consensus llmqParams pindex then
          llmqParams.signingActiveQuorumCount
        else
          1
      (List.range quorums_num).foldlM (countRequired active_chain llmqParams nHeight) 0

def checkNumber (qcs : List (CFinalCommitment G₁ G₂)) (params : LLMQParams) :
    Processing G₁ G₂ Unit := do
  let numCommitmentsRequired ← getNumCommitmentsRequired p active_chain params pindex.nHeight
  refuse (numCommitmentsRequired < countType qcs params.type) (.invalid "bad-qc-not-allowed")
  refuse (countType qcs params.type < numCommitmentsRequired) (.invalid "bad-qc-missing")

/-- The numbers are not checked while blocks are replayed. -/
def checkNumbers (pprev : CBlockIndex) (qcs : List (CFinalCommitment G₁ G₂)) :
    Processing G₁ G₂ Unit :=
  if active_chain.isNone = true then
    pure ()
  else
    (getEnabledQuorumParams p pprev).forM (checkNumber p pindex active_chain qcs)

def checkSignatures (fBLSChecks : Bool) (qcs : List (CFinalCommitment G₁ G₂)) :
    Processing G₁ G₂ Unit :=
  if fBLSChecks = true then do
    let mined := qcs.filter fun qc => !qc.isNull
    refuse (∃ qc ∈ mined, m.lookupBlockIndex qc.quorumHash = none) .failed
    refuse (∃ qc ∈ mined, (m.lookupBlockIndex qc.quorumHash).any (p.verifySignatures qc) = false)
      (.invalid "bad-qc-invalid")
  else
    pure ()

def processCommitment (fJustCheck : Bool) (qc : CFinalCommitment G₁ G₂) :
    Processing G₁ G₂ Unit :=
  let nHeight := pindex.nHeight
  match p.consensus.getLLMQ qc.llmqType with
  | none => throw .failed
  | some llmq_params => do
    let quorumHash :=
      if active_chain.isNone then qc.quorumHash
      else getQuorumBlockHash llmq_params active_chain nHeight qc.quorumIndex
    refuse (quorumHash = 0) (.invalid "bad-qc-block")
    refuse (quorumHash ≠ qc.quorumHash) (.invalid "bad-qc-block")
    if qc.isNull = true then
      refuse (Commitment.verifyNull p qc = false) (.invalid "bad-qc-invalid-null")
    else do
      let mined ← modifyGet fun self => self.hasMinedCommitment llmq_params.type quorumHash
      refuse (mined = true) (.invalid "bad-qc-dup")
      match isMiningPhase p llmq_params active_chain nHeight with
      | none => throw .aborted
      | some miningPhase => do
        refuse (miningPhase = false) (.invalid "bad-qc-height")
        match m.lookupBlockIndex qc.quorumHash with
        | none => throw .failed
        | some pQuorumBaseBlockIndex => do
          refuse (Commitment.verify p qc pQuorumBaseBlockIndex = false) (.invalid "bad-qc-invalid")
          if fJustCheck = true then
            pure ()
          else do
            let rotation_enabled :=
              isQuorumRotationEnabled p.consensus llmq_params pQuorumBaseBlockIndex
            modify fun self => self.write (.minedCommitment llmq_params.type quorumHash)
              (.commitment qc pindex.hash)
            modify fun self => self.write
              (buildInversedHeightKey rotation_enabled llmq_params.type nHeight qc.quorumIndex)
              (.quorumHeight pQuorumBaseBlockIndex.nHeight)
            modify fun self => self.eraseCached qc.llmqType qc.quorumHash

def processBlock (block : CBlock G₁ G₂) (fJustCheck fBLSChecks : Bool) :
    Processing G₁ G₂ Unit :=
  if pindex.nHeight < p.DIP0003Height then
    modify fun self => self.write .bestBlockUpgrade (.bestBlock pindex.hash)
  else
    match getCommitmentsFromBlock p pindex block, parent pindex with
    | .error e, _ => throw e
    | .ok _, none => throw .aborted
    | .ok qcs, some pprev => do
      checkNumbers p pindex active_chain pprev qcs
      checkSignatures p m fBLSChecks qcs
      qcs.forM (processCommitment p pindex m active_chain fJustCheck)
      modify fun self => self.write .bestBlockUpgrade (.bestBlock pindex.hash)

def undoCommitment (qc : CFinalCommitment G₁ G₂) : Processing G₁ G₂ Unit :=
  if qc.isNull = true then
    pure ()
  else do
    modify fun self => self.erase (.minedCommitment qc.llmqType qc.quorumHash)
    match p.consensus.getLLMQ qc.llmqType with
    | none => throw .aborted
    | some llmq_params => do
      let rotation_enabled := isQuorumRotationEnabled p.consensus llmq_params pindex
      modify fun self => self.erase
        (buildInversedHeightKey rotation_enabled qc.llmqType pindex.nHeight qc.quorumIndex)
      modify fun self => self.eraseCached qc.llmqType qc.quorumHash

def undoBlock (block : CBlock G₁ G₂) : Processing G₁ G₂ Unit :=
  match getCommitmentsFromBlock p pindex block, parent pindex with
  | .error _, _ => throw .failed
  | .ok _, none => throw .aborted
  | .ok qcs, some pprev => do
    qcs.forM (undoCommitment p pindex)
    modify fun self => self.write .bestBlockUpgrade (.bestBlock pprev.hash)

end BabaChain.LLMQ.BlockProcessor
