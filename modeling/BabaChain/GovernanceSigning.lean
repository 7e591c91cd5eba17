import BabaChain.GovernanceTriggers

/-! How a masternode makes triggers for superblocks and votes on them. -/
namespace BabaChain.Governance.Signing
open ByteWriter MachineInt Evo
open Evo.ByValue (CDeterministicMNList)
open Std (ExtTreeMap)

variable {G : Type*}

/-! ### Objects and their data -/

/-- `CGovernanceObject` with what its hash covers. -/
structure CGovernanceObject extends Governance.CGovernanceObject where
  hashParent : uint256 := 0
  revision : Int32 := 0
  time : Int64 := 0
  masternodeOutpoint : COutPoint := ⟨0, 0xffffffff⟩
  vchSig : List UInt8 := []
  vchData : List UInt8 := []

def bytesOf (text : List Char) : List UInt8 := text.map fun c => c.toNat.toUInt8

def hexStr (bytes : List UInt8) : List UInt8 :=
  bytesOf (bytes.flatMap fun byte =>
    [Nat.digitChar (byte.toNat / 16), Nat.digitChar (byte.toNat % 16)])

namespace CGovernanceObject

variable (sha256d : List UInt8 → uint256) (govobj : CGovernanceObject)

def getHash : uint256 :=
  sha256d (writeUint256 govobj.hashParent ++ writeLE 4 govobj.revision.toBitVec.toNat ++
    writeLE 8 govobj.time.toBitVec.toNat ++ writeVarBytes (hexStr govobj.vchData) ++
      writeUint256 govobj.masternodeOutpoint.hash ++ writeLE 4 govobj.masternodeOutpoint.n.toNat ++
        [0] ++ writeLE 4 0xffffffff ++ writeVarBytes govobj.vchSig)

def getDataHash : uint256 := sha256d (writeVarBytes (hexStr govobj.vchData))

/-- The instance of a masternode for funding, where there is one. -/
def fundingInstance (outpoint : COutPoint) : Option vote_instance_t :=
  govobj.mapCurrentMNVotes[outpoint]?.bind fun voteRecord => voteRecord[VOTE_SIGNAL_FUNDING]?

end CGovernanceObject

def decimal : ℤ → List Char
  | .ofNat n => Nat.toDigits 10 n
  | .negSucc n => '-' :: Nat.toDigits 10 (n+1)

/-- A number with at least eight digits. -/
def eightDigits (n : ℕ) : List Char :=
  let digits := Nat.toDigits 10 n
  List.replicate (8-digits.length) '0' ++ digits

/-- `ValueFromAmount`, as text. -/
def valueFromAmount (amount : ℤ) : List Char :=
  let quotient := amount.tdiv COIN
  let remainder := amount.tmod COIN
  if amount < 0 then '-' :: decimal (-quotient) ++ '.' :: eightDigits (-remainder).toNat
  else decimal quotient ++ '.' :: eightDigits remainder.toNat

/-- `uint256::ToString`. -/
def hashText (hash : uint256) : List Char :=
  (List.range 64).reverse.map fun i => Nat.digitChar (hash.toNat / 16^i % 16)

/-- What `GetHexStrData` writes, before it is turned into hexadecimal digits. -/
def strData (encodeScript : List UInt8 → List Char) (superblock : CSuperblock) :
    List UInt8 :=
  let join (field : CGovernancePayment → List Char) : List Char :=
    List.intercalate ['|'] (superblock.vecPayments.map field)
  let str_addresses := join fun payment => encodeScript payment.script
  let str_amounts := join fun payment => valueFromAmount payment.nAmount
  let str_hashes := join fun payment => hashText payment.proposalHash
  bytesOf ("\x7b\"event_block_height\": ".toList ++ (decimal superblock.nBlockHeight ++
    (", \"payment_addresses\": \"".toList ++ str_addresses ++
      "\", \"payment_amounts\": \"".toList ++ str_amounts ++
        "\", \"proposal_hashes\": \"".toList ++ str_hashes ++ "\", \"type\":2\x7d".toList)))

/-- What the JSON object of a proposal says. -/
structure ProposalData where
  payment_address : List Char
  payment_amount : List Char
  start_epoch : ℤ
  end_epoch : ℤ

/-- How data are written and read. -/
structure DataFormat where
  addresses : Addresses
  /-- `EncodeDestination` of what `ExtractDestination` finds. -/
  encodeScript : List UInt8 → List Char
  /-- The JSON object of a proposal. -/
  proposal : List UInt8 → ProposalData
  /-- The height in the JSON object of a trigger. -/
  event_block_height : List UInt8 → Option ℤ
  reads_back : ∀ superblock : CSuperblock,
    event_block_height (strData encodeScript superblock) = some superblock.nBlockHeight

/-! ### What the signer knows -/

/-- The parameters of the network. On each of the networks the window in which triggers are made
is shorter than the cycle. -/
structure SignerParams (G : Type*) extends SuperblockParams where
  network : Network
  nSuperblockMaturityWindow : SInt 32
  nGovernanceMinQuorum : ℤ
  window_lt : (nSuperblockMaturityWindow : ℤ) < nSuperblockCycle
  checks : VoteChecks G
  format : DataFormat
  /-- A time, and the seconds that a number of blocks takes, added as floating-point numbers. -/
  epochTime : ℤ → ℤ → ℤ
  /-- How many turns the loop of the subsidy may take. -/
  fuel : ℕ

/-- `CGovernanceManager` when it is asked, with the masternodes at the tip. -/
structure GovernanceView (G : Type*) where
  isValid : Bool := true
  mapObjects : ExtTreeMap uint256 CGovernanceObject := ∅
  mapTrigger : ExtTreeMap uint256 CSuperblock := ∅
  nCachedBlockHeight : ℤ
  tip_mn_list : CDeterministicMNList G

/-- A new tip, and what the signer then gets from the others. They may change between any two
questions. -/
structure Tip (G : Type*) where
  nHeight : ℤ
  isSynced : Bool := true
  clock : Clock
  proTxHash : uint256
  outpoint : COutPoint
  signVote : CGovernanceVote → List UInt8
  signObject : CGovernanceObject → List UInt8
  /-- The masternodes of `GetProjectedMNPayees`. -/
  mn_payees : List uint256
  isValidLocally : CGovernanceObject → Bool
  masternodeRateCheck : CGovernanceObject → Bool
  processVoteAndRelay : CGovernanceVote → Bool
  atCandidate : GovernanceView G
  atTrigger : GovernanceView G
  atVote : GovernanceView G
  atBest : GovernanceView G

variable (p : SignerParams G)

namespace GovernanceView

variable (gov : GovernanceView G)

def triggerState : TriggerState where
  mapObjects := gov.mapObjects.map fun _ govobj => govobj.toCGovernanceObject
  mapTrigger := gov.mapTrigger

/-- The checks with the masternodes at the tip. -/
def env : VoteChecks G := {p.checks with tip_mn_list := gov.tip_mn_list}

def getAbsoluteYesCount (govobj : CGovernanceObject) : ℤ :=
  govobj.toCGovernanceObject.getAbsoluteYesCount (gov.env p) VOTE_SIGNAL_FUNDING

/-- The order of `GetApprovedProposals`. -/
def before (lhs rhs : CGovernanceObject) : Bool :=
  let lhs_yes := gov.getAbsoluteYesCount p lhs
  let rhs_yes := gov.getAbsoluteYesCount p rhs
  if lhs_yes = rhs_yes then
    decide (rhs.getHash p.checks.sha256d ≤ lhs.getHash p.checks.sha256d)
  else
    decide (rhs_yes < lhs_yes)

def getApprovedProposals : List CGovernanceObject :=
  let nWeightedMnCount := getValidWeightedMNsCount gov.tip_mn_list
  let nAbsVoteReq := max p.nGovernanceMinQuorum (nWeightedMnCount.tdiv 10)
  let passing := (gov.mapObjects.toList.map Prod.snd).filter fun govobj =>
    decide (govobj.type = .PROPOSAL) && decide (nAbsVoteReq ≤ gov.getAbsoluteYesCount p govobj)
  passing.mergeSort (gov.before p)

def findGovernanceObjectByDataHash (nDataHash : uint256) : Option CGovernanceObject :=
  (gov.mapObjects.toList.map Prod.snd).find? fun govobj =>
    govobj.getDataHash p.checks.sha256d = nDataHash

def findGovernanceObject (nHash : uint256) : Option CGovernanceObject := gov.mapObjects[nHash]?

def getBestSuperblock (nBlockHeight : ℤ) : Option CSuperblock :=
  gov.triggerState.getBestSuperblock (gov.env p) p.toSuperblockParams nBlockHeight

end GovernanceView

/-! ### Candidates -/

/-- `GetNearestSuperblocksHeights`: the last and the next one. -/
def getNearestSuperblocksHeights (p : SuperblockParams) (nBlockHeight : ℤ) : ℤ × ℤ :=
  let nSuperblockStartBlock : ℤ := p.nSuperblockStartBlock
  let nSuperblockCycle : ℤ := p.nSuperblockCycle
  let nFirstSuperblockOffset :=
    (nSuperblockCycle-nSuperblockStartBlock.tmod nSuperblockCycle).tmod nSuperblockCycle
  let nFirstSuperblock := nSuperblockStartBlock+nFirstSuperblockOffset
  if nBlockHeight < nFirstSuperblock then
    (0, nFirstSuperblock)
  else
    let nLastSuperblock := nBlockHeight-nBlockHeight.tmod nSuperblockCycle
    (nLastSuperblock, nLastSuperblock+nSuperblockCycle)

def GOVERNANCE_FUDGE_WINDOW : ℤ := 2*60*60

/-- The payment that a proposal asks for, where there is one. -/
def proposalPayment (proposal : CGovernanceObject) : Option CGovernancePayment := do
  let jproposal := p.format.proposal proposal.vchData
  let dest ← p.format.addresses.decodeDestination jproposal.payment_address
  let nAmount ← (parsePaymentAmount jproposal.payment_amount).toOption
  let script ← p.format.addresses.getScriptForDestination dest
  return ⟨script, nAmount, proposal.getHash p.checks.sha256d⟩

/-- The loop over the approved proposals. -/
def selectPayments (SBEpochTime governanceBudget : ℤ) :
    List CGovernanceObject → ℤ → List CGovernancePayment
  | [], _ => []
  | proposal :: proposals, budgetAllocated =>
    let jproposal := p.format.proposal proposal.vchData
    let skip := selectPayments SBEpochTime governanceBudget proposals budgetAllocated
    match proposalPayment p proposal with
    | none => skip
    | some payment =>
      if governanceBudget < budgetAllocated+payment.nAmount then skip
      else if SBEpochTime < jproposal.start_epoch-GOVERNANCE_FUDGE_WINDOW then skip
      else if jproposal.end_epoch+GOVERNANCE_FUDGE_WINDOW < SBEpochTime then skip
      else
        payment :: selectPayments SBEpochTime governanceBudget proposals
          (budgetAllocated+payment.nAmount)

theorem proposalPayment_parsed {proposal : CGovernanceObject} {payment : CGovernancePayment}
    (h : proposalPayment p proposal = some payment) :
    ∃ strAmount, parsePaymentAmount strAmount = .ok payment.nAmount := by
  unfold proposalPayment at h
  obtain ⟨dest, -, h⟩ := Option.bind_eq_some_iff.mp h
  obtain ⟨nAmount, hamount, h⟩ := Option.bind_eq_some_iff.mp h
  obtain ⟨script, -, h⟩ := Option.bind_eq_some_iff.mp h
  obtain rfl := Option.some.inj h
  refine ⟨(p.format.proposal proposal.vchData).payment_amount, ?_⟩
  cases hparsed : parsePaymentAmount (p.format.proposal proposal.vchData).payment_amount with
  | error e =>
    rw [hparsed] at hamount
    cases hamount
  | ok parsed =>
    rw [hparsed] at hamount
    rw [Option.some.inj hamount]

theorem selectPayments_parsed {SBEpochTime governanceBudget budgetAllocated : ℤ}
    (proposals : List CGovernanceObject) :
    ∀ payment ∈ selectPayments p SBEpochTime governanceBudget proposals budgetAllocated,
      ∃ strAmount, parsePaymentAmount strAmount = .ok payment.nAmount := by
  induction proposals generalizing budgetAllocated with
  | nil => exact fun payment hmem => absurd hmem List.not_mem_nil
  | cons proposal proposals ih =>
    rw [selectPayments]
    cases hpayment : proposalPayment p proposal with
    | none => exact ih
    | some payment =>
      dsimp only
      split_ifs
      · exact ih
      · exact ih
      · exact ih
      · exact List.forall_mem_cons.mpr ⟨proposalPayment_parsed p hpayment, ih⟩

/-- The new superblock, its payments by proposal hash descending. -/
def newSuperblock (nBlockHeight : ℤ) (payments : List CGovernancePayment)
    (parsed : ∀ payment ∈ payments, ∃ strAmount,
      parsePaymentAmount strAmount = .ok payment.nAmount) : CSuperblock where
  nGovObjHash := ({type := .UNKNOWN} : CGovernanceObject).getHash p.checks.sha256d
  nBlockHeight := nBlockHeight
  nStatus := .Valid
  vecPayments := payments.mergeSort fun a b => b.proposalHash ≤ a.proposalHash
  parsed payment hmem := parsed payment (List.mem_mergeSort.mp hmem)

/-- `GovernanceSigner`. Of the trigger the source keeps the hash. -/
structure GovernanceSigner where
  votedFundingYesTrigger : Option CGovernanceObject := none

def GovernanceSigner.hasAlreadyVotedFundingTrigger (signer : GovernanceSigner) : Bool :=
  signer.votedFundingYesTrigger.isSome

/-- `CreateSuperblockCandidate`. There is none either where the limit has no value. -/
def createSuperblockCandidate (signer : GovernanceSigner) (tip : Tip G) : Option CSuperblock :=
  let nSuperblockCycle : ℤ := p.nSuperblockCycle
  if tip.atCandidate.isValid = false then none
  else if tip.isSynced = false then none
  else if tip.nHeight.tmod nSuperblockCycle < nSuperblockCycle-p.nSuperblockMaturityWindow then none
  else if signer.hasAlreadyVotedFundingTrigger then none
  else
    let approvedProposals := tip.atCandidate.getApprovedProposals p
    if approvedProposals = [] then none
    else
      let nNextSuperblock := (getNearestSuperblocksHeights p.toSuperblockParams tip.nHeight).2
      let SBEpochTime := p.epochTime tip.clock.time (nNextSuperblock-tip.nHeight)
      (getPaymentsLimit p.network p.fuel p.toSuperblockParams nNextSuperblock).bind
        fun governanceBudget =>
          let payments := selectPayments p SBEpochTime governanceBudget approvedProposals 0
          if payments = [] then none
          else some (newSuperblock p nNextSuperblock payments (selectPayments_parsed p _))

/-! ### Triggers -/

/-- The object that `CreateGovernanceTrigger` makes of a superblock. -/
def triggerOf (tip : Tip G) (superblock : CSuperblock) : CGovernanceObject where
  type := .TRIGGER
  revision := 1
  time := Int64.ofInt tip.clock.adjusted
  vchData := strData p.format.encodeScript superblock

/-- `CreateGovernanceTrigger`: the trigger to vote for, and whether it is a new one. -/
def createGovernanceTrigger (tip : Tip G) (sb_opt : Option CSuperblock) :
    Option (CGovernanceObject × Bool) :=
  sb_opt.bind fun superblock =>
    let gov_sb := triggerOf p tip superblock
    match tip.atTrigger.findGovernanceObjectByDataHash p
        (gov_sb.getDataHash p.checks.sha256d) with
    | some identical_sb => some (identical_sb, false)
    | none =>
      match tip.mn_payees with
      | [] => none
      | payee :: _ =>
        if payee ≠ tip.proTxHash then none
        else
          let withOutpoint := {gov_sb with masternodeOutpoint := tip.outpoint}
          let gov_sb := {withOutpoint with vchSig := tip.signObject withOutpoint}
          if tip.isValidLocally gov_sb = false then none
          else if tip.masternodeRateCheck gov_sb = false then none
          else some (gov_sb, true)

/-! ### Votes -/

def voteFundingTrigger (tip : Tip G) (nHash : uint256) (outcome : Int32) : Bool :=
  let vote : CGovernanceVote :=
    ⟨tip.outpoint, nHash, outcome, VOTE_SIGNAL_FUNDING, Int64.ofInt tip.clock.adjusted, []⟩
  tip.processVoteAndRelay {vote with vchSig := tip.signVote vote}

/-- Whether the loop over the active triggers votes against one, and is heard. -/
def votesNo (tip : Tip G) (signer : GovernanceSigner) (trigger : CSuperblock) : Option uint256 :=
  (tip.atVote.findGovernanceObject trigger.nGovObjHash).bind fun govobj =>
    let trigger_hash := govobj.getHash p.checks.sha256d
    if trigger.nBlockHeight ≤ tip.atVote.nCachedBlockHeight then none
    else if some trigger_hash =
        signer.votedFundingYesTrigger.map (CGovernanceObject.getHash p.checks.sha256d) then none
    else if (govobj.fundingInstance tip.outpoint).isSome then none
    else if voteFundingTrigger tip trigger_hash VOTE_OUTCOME_NO then some trigger_hash
    else none

def voteNoForTheRest (tip : Tip G) (signer : GovernanceSigner) : List uint256 :=
  tip.atVote.triggerState.getActiveTriggers.filterMap (votesNo p tip signer)

/-- What an update has done: whether its assertion held, and the votes that were accepted. -/
structure Report where
  assertion : Bool := true
  added : Option CGovernanceObject := none
  votedYes : Option CGovernanceObject := none
  votedNo : List uint256 := []

/-- `VoteGovernanceTriggers`. -/
def voteGovernanceTriggers (signer : GovernanceSigner) (tip : Tip G)
    (trigger_opt : Option CGovernanceObject) : Report × GovernanceSigner :=
  if tip.proTxHash = 0 then ({}, signer)
  else
    match trigger_opt with
    | none => ({votedNo := voteNoForTheRest p tip signer}, signer)
    | some trigger =>
      if signer.hasAlreadyVotedFundingTrigger then ({assertion := false}, signer)
      else
        let voted : GovernanceSigner := {votedFundingYesTrigger := some trigger}
        match trigger.fundingInstance tip.outpoint with
        | some voteInstance =>
          let signer := if voteInstance.eOutcome = VOTE_OUTCOME_YES then voted else signer
          ({votedNo := voteNoForTheRest p tip signer}, signer)
        | none =>
          if voteFundingTrigger tip (trigger.getHash p.checks.sha256d) VOTE_OUTCOME_YES then
            ({votedYes := some trigger, votedNo := voteNoForTheRest p tip voted}, voted)
          else ({}, signer)

/-- `UpdatedBlockTip`. -/
def updatedBlockTip (signer : GovernanceSigner) (tip : Tip G) : Report × GovernanceSigner :=
  let sb_opt := createSuperblockCandidate p signer tip
  let trigger_opt := createGovernanceTrigger p tip sb_opt
  let (report, signer) := voteGovernanceTriggers p signer tip (trigger_opt.map Prod.fst)
  let added := trigger_opt.bind fun (trigger, new) => if new then some trigger else none
  let report := {report with added}
  if (tip.atBest.getBestSuperblock p tip.nHeight).isSome then (report, {})
  else (report, signer)

/-! ### Runs -/

/-- A masternode along the chain, and the triggers that it has voted for. -/
structure Masternode where
  signer : GovernanceSigner := {}
  nHeight : ℤ := -1
  votedYes : List CGovernanceObject := []

def step (s : Masternode) (tip : Tip G) : Report × Masternode :=
  let (report, signer) := updatedBlockTip p s.signer tip
  (report, ⟨signer, tip.nHeight, report.votedYes.toList ++ s.votedYes⟩)

end BabaChain.Governance.Signing
