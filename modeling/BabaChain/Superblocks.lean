import BabaChain.ArithUint256
import BabaChain.CreditPool
import BabaChain.Lib.Subsequences
import BabaChain.ProviderTx
import BabaChain.Subsidy

/-! Superblocks: a trigger names the payments of a superblock, and the coinbase of that block has
to make them. A string is the list of its characters. -/
namespace BabaChain.Governance
open MachineInt CreditPool Subsequences Guards
open Evo.ByValue (CTxDestination)

/-! ### Amounts -/

/-- The largest decimal of which every digit is free in 64 bits. -/
def UPPER_BOUND : ℤ := 10^18-1

def isDigit (c : Char) : Bool := decide ('0' ≤ c ∧ c ≤ '9')

def digitValue (c : Char) : ℤ := (c.toNat : ℤ) - '0'.toNat

/-- The digits read so far, less the zeros that they end in. -/
structure Mantissa where
  value : ℤ := 0
  tzeros : ℕ := 0
deriving DecidableEq

def scaleMantissa : ℕ → ℤ → Option ℤ
  | 0, mantissa => some mantissa
  | n+1, mantissa => if UPPER_BOUND/10 < mantissa then none else scaleMantissa n (mantissa*10)

def processMantissaDigit (ch : Char) (m : Mantissa) : Option Mantissa :=
  if ch = '0' then
    some {m with tzeros := m.tzeros+1}
  else
    (scaleMantissa (m.tzeros+1) m.value).map fun mantissa => ⟨mantissa+digitValue ch, 0⟩

/-- The digits at the front, and what is left behind them. -/
def mantissaDigits : List Char → Mantissa → Option (Mantissa × List Char)
  | [], m => some (m, [])
  | ch :: val, m =>
    if isDigit ch then
      (processMantissaDigit ch m).bind (mantissaDigits val)
    else
      some (m, ch :: val)

/-- A single `0`, or digits that do not start with one. -/
def integerPart (val : List Char) : Option (Mantissa × List Char) :=
  match val with
  | [] => none
  | ch :: rest =>
    if ch = '0' then some ({}, rest)
    else if isDigit ch then mantissaDigits val {}
    else none

/-- The third component is `point_ofs`. -/
def fractionPart (m : Mantissa) (val : List Char) : Option (Mantissa × List Char × ℕ) :=
  match val with
  | '.' :: digits =>
    if (digits.head?.map isDigit).getD false then
      (mantissaDigits digits m).map fun (m', rest) => (m', rest, digits.length-rest.length)
    else
      none
  | _ => some (m, val, 0)

def exponentDigits : List Char → ℤ → Option (ℤ × List Char)
  | [], exponent => some (exponent, [])
  | ch :: val, exponent =>
    if isDigit ch then
      if UPPER_BOUND/10 < exponent then none
      else exponentDigits val (exponent*10+digitValue ch)
    else
      some (exponent, ch :: val)

def exponentPart (val : List Char) : Option (ℤ × List Char) :=
  match val with
  | [] => some (0, [])
  | ch :: rest =>
    if ch = 'e' ∨ ch = 'E' then
      let exponent_sign := rest.head? = some '-'
      let digits := if exponent_sign ∨ rest.head? = some '+' then rest.tail else rest
      if (digits.head?.map isDigit).getD false then
        (exponentDigits digits 0).map fun (exponent, left) =>
          (if exponent_sign then -exponent else exponent, left)
      else
        none
    else
      some (0, val)

/-- The loop that brings the mantissa to the fixed number of decimals. -/
def scaleAmount : ℕ → ℤ → Option ℤ
  | 0, mantissa => some mantissa
  | n+1, mantissa =>
    if UPPER_BOUND/10 < mantissa ∨ mantissa < -(UPPER_BOUND/10) then none
    else scaleAmount n (mantissa*10)

def parseFixedPoint (val : List Char) (decimals : ℤ) : Option ℤ := do
  let mantissa_sign := val.head? = some '-'
  let (m, val) ← integerPart (if mantissa_sign then val.tail else val)
  let (m, val, point_ofs) ← fractionPart m val
  let (exponent, val) ← exponentPart val
  if val ≠ [] then none
  let exponent := exponent-point_ofs+m.tzeros+decimals
  if exponent < 0 then none
  if 18 ≤ exponent then none
  let mantissa ← scaleAmount exponent.toNat (if mantissa_sign then -m.value else m.value)
  if UPPER_BOUND < mantissa ∨ mantissa < -UPPER_BOUND then none
  return mantissa

def parsePaymentAmount (strAmount : List Char) : Except String ℤ := do
  refuse (strAmount = []) "ParsePaymentAmount -- Amount is empty"
  refuse (20 < strAmount.length) "ParsePaymentAmount -- Amount string too long"
  refuse (strAmount.any (fun c => !(isDigit c || c == '.')) = true)
    "ParsePaymentAmount -- Amount string contains invalid character"
  refuse (strAmount.head? = some '.')
    "ParsePaymentAmount -- Invalid amount string, leading decimal point not allowed"
  refuse (1 < strAmount.count '.')
    "ParsePaymentAmount -- Invalid amount string, too many decimal points"
  let nAmount ← (parseFixedPoint strAmount 8).elim
    (.error ("ParsePaymentAmount -- ParseFixedPoint failed for string \"" ++
      String.ofList strAmount ++ "\"")) .ok
  refuse (moneyRange nAmount = false)
    "ParsePaymentAmount -- Invalid amount string, value outside of valid money range"
  return nAmount

/-- Every amount that has been parsed is in the money range. -/
theorem moneyRange_of_parsePaymentAmount {strAmount : List Char} {nAmount : ℤ}
    (h : parsePaymentAmount strAmount = .ok nAmount) : moneyRange nAmount = true := by
  simp only [parsePaymentAmount, bind_ok_iff] at h
  obtain ⟨_, -, _, -, _, -, _, -, _, -, nParsed, -, _, hrange, hok⟩ := h
  rw [← Except.ok.inj hok]
  exact (Bool.not_eq_false _).mp (refuse_ok_iff.mp hrange)

/-! ### Triggers -/

structure CGovernancePayment where
  script : List UInt8
  nAmount : ℤ
  proposalHash : uint256
deriving DecidableEq

/-- The output that makes a payment. -/
def CGovernancePayment.txout (payment : CGovernancePayment) : CTxOut :=
  ⟨payment.nAmount, payment.script⟩

/-- What is known of addresses: `DecodeDestination`, where the result is valid, and
`GetScriptForDestination`, where it does not throw. -/
structure Addresses where
  decodeDestination : List Char → Option CTxDestination
  getScriptForDestination : CTxDestination → Option (List UInt8)

def hexDigit (c : Char) : Option ℕ :=
  if isDigit c then some (c.toNat - '0'.toNat)
  else if 'a' ≤ c ∧ c ≤ 'f' then some (c.toNat - 'a'.toNat+10)
  else if 'A' ≤ c ∧ c ≤ 'F' then some (c.toNat - 'A'.toNat+10)
  else none

def hexBytes : List ℕ → List ℕ
  | high :: low :: digits => (16*high+low) :: hexBytes digits
  | _ => []

/-- The last two digits are the first byte in memory. -/
def parseHashStr (strHex : List Char) : Option uint256 :=
  if strHex.length ≠ 64 then none
  else (strHex.mapM hexDigit).map fun digits =>
    BitVec.ofNat 256 ((hexBytes digits).reverse.foldl (fun n byte => 256*n+byte) 0)

/-- One turn of the loop of `ParsePaymentSchedule`. -/
def parsePayment (addresses : Addresses)
    (strAddress strAmount strProposalHash : List Char) : Except String CGovernancePayment := do
  let dest ← (addresses.decodeDestination strAddress).elim
    (.error ("CSuperblock::ParsePaymentSchedule -- Invalid BabaChain Address: " ++
      String.ofList strAddress)) .ok
  let nAmount ← parsePaymentAmount strAmount
  let proposalHash ← (parseHashStr strProposalHash).elim
    (.error ("CSuperblock::ParsePaymentSchedule -- Invalid proposal hash: " ++
      String.ofList strProposalHash)) .ok
  let script ← (addresses.getScriptForDestination dest).elim
    (.error ("CSuperblock::ParsePaymentSchedule -- Invalid payment found: address = " ++
      String.ofList strAddress ++ ", amount = " ++ toString nAmount)) .ok
  return ⟨script, nAmount, proposalHash⟩

def parsePayments (addresses : Addresses) :
    List (List Char × List Char × List Char) → Except String (List CGovernancePayment)
  | [] => .ok []
  | (strAddress, strAmount, strProposalHash) :: rest => do
    let payment ← parsePayment addresses strAddress strAmount strProposalHash
    return payment :: (← parsePayments addresses rest)

def parsePaymentSchedule (addresses : Addresses)
    (strPaymentAddresses strPaymentAmounts strProposalHashes : List Char) :
    Except String (List CGovernancePayment) := do
  let vecPaymentAddresses := strPaymentAddresses.splitOn '|'
  let vecPaymentAmounts := strPaymentAmounts.splitOn '|'
  let vecProposalHashes := strProposalHashes.splitOn '|'
  refuse (vecPaymentAddresses.length ≠ vecPaymentAmounts.length ∨
      vecPaymentAddresses.length ≠ vecProposalHashes.length)
    "CSuperblock::ParsePaymentSchedule -- Mismatched payments, amounts and proposalHashes"
  refuse (vecPaymentAddresses = []) "CSuperblock::ParsePaymentSchedule -- Error no payments"
  parsePayments addresses (vecPaymentAddresses.zip (vecPaymentAmounts.zip vecProposalHashes))

/-- The amounts of a schedule have been parsed each. -/
theorem parsed_of_parsePayments {addresses : Addresses}
    {strings : List (List Char × List Char × List Char)} {vecPayments : List CGovernancePayment}
    (h : parsePayments addresses strings = .ok vecPayments) :
    ∀ payment ∈ vecPayments, ∃ strAmount, parsePaymentAmount strAmount = .ok payment.nAmount := by
  induction strings generalizing vecPayments with
  | nil =>
    obtain rfl := Except.ok.inj h
    exact fun payment hmem => absurd hmem List.not_mem_nil
  | cons s strings ih =>
    obtain ⟨strAddress, strAmount, strProposalHash⟩ := s
    simp only [parsePayments, bind_ok_iff] at h
    obtain ⟨payment, hpayment, rest, hrest, hok⟩ := h
    obtain rfl := Except.ok.inj hok
    refine List.forall_mem_cons.mpr ⟨?_, ih hrest⟩
    simp only [parsePayment, bind_ok_iff] at hpayment
    obtain ⟨dest, -, nAmount, hamount, proposalHash, -, script, -, hpayment⟩ := hpayment
    obtain rfl := Except.ok.inj hpayment
    exact ⟨strAmount, hamount⟩

inductive SeenObjectStatus where
  | Valid
  | ErrorInvalid
  | Executed
  | Unknown
deriving DecidableEq

/-- `CSuperblock`. The amounts of its payments have passed `ParsePaymentAmount`. -/
structure CSuperblock where
  nGovObjHash : uint256
  nBlockHeight : ℤ
  nStatus : SeenObjectStatus := .Unknown
  vecPayments : List CGovernancePayment
  parsed : ∀ payment ∈ vecPayments, ∃ strAmount, parsePaymentAmount strAmount = .ok payment.nAmount

/-- The constructor from a trigger, given the fields of the trigger's JSON object. -/
def CSuperblock.ofTrigger (addresses : Addresses) (nHash : uint256) (event_block_height : ℤ)
    (payment_addresses payment_amounts proposal_hashes : List Char) : Except String CSuperblock :=
  match h : parsePaymentSchedule addresses payment_addresses payment_amounts proposal_hashes with
  | .error e => .error e
  | .ok vecPayments => .ok
    { nGovObjHash := nHash
      nBlockHeight := event_block_height
      vecPayments
      parsed := by
        simp only [parsePaymentSchedule, refuse_then_ok_iff] at h
        exact parsed_of_parsePayments h.2.2 }

/-! ### Limits -/

/-- The parameters that superblocks read. -/
structure SuperblockParams extends Params where
  nSuperblockStartBlock : SInt 32
  nSuperblockCycle : SInt 32
  fPowAllowMinDifficultyBlocks : Bool
  powLimit : uint256
  cycle_pos : 0 < (nSuperblockCycle : ℤ)

variable (network : Network) (fuel : ℕ) (p : SuperblockParams)

def isValidBlockHeight (nBlockHeight : ℤ) : Bool :=
  decide ((p.nSuperblockStartBlock : ℤ) ≤ nBlockHeight) &&
    nBlockHeight.tmod p.nSuperblockCycle == 0

/-- Min subsidy for high diff networks and vice versa. -/
def limitBits : Option (BitVec 32) :=
  if p.fPowAllowMinDifficultyBlocks then
    ((arith_uint256.ofUint256 p.powLimit).getCompact false).toOption
  else
    some 1

def getPaymentsLimit (nBlockHeight : ℤ) : Option ℤ :=
  if !isValidBlockHeight p nBlockHeight then
    some 0
  else do
    let fV20Active := decide ((p.V20Height : ℤ) ≤ nBlockHeight)
    let nBits ← limitBits p
    let nPrevHeight ← checked 32 (nBlockHeight-1)
    let nSuperblockPartOfSubsidy ←
      getSuperblockSubsidyInner network fuel nBits nPrevHeight p.toParams fV20Active
    checked 64 (nSuperblockPartOfSubsidy*p.nSuperblockCycle)

/-! ### Validation -/

/-- `CTransaction::GetValueOut`, which throws where a value or a sum is out of range. -/
def getValueOut : List CTxOut → ℤ → Option ℤ
  | [], nValueOut => if moneyRange nValueOut then some nValueOut else none
  | tx_out :: vout, nValueOut =>
    if moneyRange tx_out.nValue && moneyRange (nValueOut+tx_out.nValue) then
      getValueOut vout (nValueOut+tx_out.nValue)
    else
      none

/-- Whether an output makes a payment. -/
def fPaymentMatch (payment : CGovernancePayment) (txout : CTxOut) : Bool :=
  payment.script == txout.scriptPubKey && payment.nAmount == txout.nValue

namespace CSuperblock

variable (superblock : CSuperblock)

def getPaymentsTotalAmount : Option ℤ :=
  checkedSum 64 (superblock.vecPayments.map CGovernancePayment.nAmount) 0

/-- `CSuperblock::IsValid`. The search for a payment starts at `nVoutIndex`, which stays at the
output where the payment before was found. `none` is an overflow, an exception, or a payments
limit that has not been computed within the fuel. -/
def isValid (txNew : CTransaction) (nBlockHeight blockReward : ℤ) : Option Bool :=
  if !isValidBlockHeight p nBlockHeight then
    some false
  else
    let nOutputs : ℤ := txNew.vout.length
    let nPayments : ℤ := superblock.vecPayments.length
    let nMinerAndMasternodePayments := nOutputs-nPayments
    if nMinerAndMasternodePayments < 0 then
      some false
    else do
      let nPaymentsTotalAmount ← superblock.getPaymentsTotalAmount
      let nPaymentsLimit ← getPaymentsLimit network fuel p nBlockHeight
      if nPaymentsLimit < nPaymentsTotalAmount then
        return false
      let nBlockValue ← getValueOut txNew.vout 0
      let nBlockValueLimit ← checked 64 (blockReward+nPaymentsTotalAmount)
      if nBlockValueLimit < nBlockValue then
        return false
      return searchAll fPaymentMatch txNew.vout superblock.vecPayments 0

end CSuperblock
end BabaChain.Governance
