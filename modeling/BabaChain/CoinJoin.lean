import BabaChain.Primitives
import BabaChain.Lib.ByteWriter
import BabaChain.Lib.Guards
import Mathlib.Data.List.Sort

/-! Denominations, the entries that users mix, and the check of inputs and outputs that masternodes
and clients share. -/
namespace BabaChain.CoinJoin
open ByteReader ByteWriter Guards

def COIN : ℤ := 100000000

def COINJOIN_ENTRY_MAX_SIZE : ℕ := 9

abbrev CScript := List UInt8

/-- `CScript::IsPayToPublicKeyHash`. -/
def isPayToPublicKeyHash (script : CScript) : Bool :=
  decide (script.length = 25 ∧ script.take 3 = [0x76, 0xa9, 0x14] ∧ script.drop 23 = [0x88, 0xac])

/-- The script of an output to the hash of a key. -/
def payToPublicKeyHash (hash : List UInt8) : CScript :=
  [0x76, 0xa9, 0x14] ++ hash ++ [0x88, 0xac]

def MAX_SCRIPT_SIZE : ℕ := 10000
def OP_RETURN : UInt8 := 0x6a

/-- `CScript::IsUnspendable`. -/
def isUnspendable (script : CScript) : Bool :=
  decide (script.head? = some OP_RETURN) || decide (MAX_SCRIPT_SIZE < script.length)

/-! ### Denominations -/

def vecStandardDenominations : List ℤ :=
  [10*COIN+10000, 1*COIN+1000, COIN/10+100, COIN/100+10, COIN/1000+1]

def amountToDenomination (nInputAmount : ℤ) : ℤ :=
  match vecStandardDenominations.idxOf? nInputAmount with
  | some i => 2^i
  | none => 0

def denominationToAmount (nDenom : ℤ) : ℤ :=
  if nDenom = 0 then 0
  else if 2^vecStandardDenominations.length ≤ nDenom ∨ nDenom < 0 then -1
  else if nDenom.toNat &&& (nDenom.toNat-1) ≠ 0 then -2
  else
    match vecStandardDenominations.zipIdx.find? fun p => nDenom.toNat.testBit p.2 with
    | some p => p.1
    | none => -3

def isDenominatedAmount (nInputAmount : ℤ) : Bool := decide (0 < amountToDenomination nInputAmount)

def isValidDenomination (nDenom : ℤ) : Bool := decide (0 < denominationToAmount nDenom)

def getSmallestDenomination : ℤ := COIN/1000+1
def getCollateralAmount : ℤ := getSmallestDenomination/10
def getMaxCollateralAmount : ℤ := getCollateralAmount*4

def isCollateralAmount (nInputAmount : ℤ) : Bool :=
  decide (getCollateralAmount ≤ nInputAmount ∧ nInputAmount ≤ getMaxCollateralAmount)

/-- An amount is that of its denomination. -/
theorem denominationToAmount_amountToDenomination {a : ℤ} (ha : 0 < amountToDenomination a) :
    denominationToAmount (amountToDenomination a) = a := by
  have hall : ∀ a ∈ vecStandardDenominations,
      denominationToAmount (amountToDenomination a) = a := by decide
  apply hall
  unfold amountToDenomination at ha
  cases hi : vecStandardDenominations.idxOf? a with
  | none =>
    rw [hi] at ha
    exact absurd ha (lt_irrefl 0)
  | some i =>
    obtain ⟨hlen, ha, -⟩ := List.findIdx?_eq_some_iff_getElem.mp hi
    exact beq_iff_eq.mp ha ▸ List.getElem_mem hlen

theorem denomination_pos {nDenom : ℤ} (h : isValidDenomination nDenom = true) : 0 < nDenom := by
  unfold isValidDenomination denominationToAmount at h
  split_ifs at h with hzero hbounds
  · exact absurd (of_decide_eq_true h) (lt_irrefl 0)
  · exact absurd (of_decide_eq_true h) (by decide)
  · exact absurd (of_decide_eq_true h) (by decide)
  · rw [not_or, not_lt] at hbounds
    exact lt_of_le_of_ne hbounds.2 (Ne.symm hzero)

/-! ### Entries -/

structure CTxIn extends toOutPoint : BabaChain.CTxIn where
  scriptSig : CScript := []
  nSequence : BitVec 32 := 0xFFFFFFFF#32
deriving DecidableEq

/-- A mixing input. What follows the fields of `CTxIn` is memory only. -/
structure CTxDSIn extends CTxIn where
  prevPubKey : CScript := []
  fHasSig : Bool := false
  nRounds : ℤ := -10
deriving DecidableEq

structure CMutableTransaction where
  nVersion : BitVec 16 := 2
  nType : BitVec 16 := 0
  vin : List CTxIn := []
  vout : List CTxOut := []
  nLockTime : BitVec 32 := 0
  vExtraPayload : List UInt8 := []
deriving DecidableEq

/-- The address of a peer. -/
abbrev CService := ℕ

structure CCoinJoinEntry where
  vecTxDSIn : List CTxDSIn
  vecTxOut : List CTxOut
  txCollateral : CMutableTransaction
  addr : CService
deriving DecidableEq

/-! ### BIP69 -/

/-- The bytes of a hash, the last first. -/
def reversedBytes (hash : uint256) : List UInt8 := (writeBE 32 hash.toNat).reverse

/-- `CompareInputBIP69`. -/
def compareInputBIP69 (a b : CTxIn) : Bool :=
  if a.prevout.hash = b.prevout.hash then decide (a.prevout.n < b.prevout.n)
  else decide (reversedBytes a.prevout.hash < reversedBytes b.prevout.hash)

/-- Scripts compare by their length first. -/
def scriptLess (a b : CScript) : Bool :=
  decide (a.length < b.length) || (decide (a.length = b.length) && decide (a < b))

/-- `CompareOutputBIP69`. -/
def compareOutputBIP69 (a b : CTxOut) : Bool :=
  decide (a.nValue < b.nValue) ||
    (decide (a.nValue = b.nValue) && scriptLess a.scriptPubKey b.scriptPubKey)

def sortInputs (vin : List CTxIn) : List CTxIn :=
  vin.insertionSort fun a b => compareInputBIP69 b a = false

def sortOutputs (vout : List CTxOut) : List CTxOut :=
  vout.insertionSort fun a b => compareOutputBIP69 b a = false

/-! ### Inputs and outputs -/

inductive PoolMessage
  | ERR_ALREADY_HAVE | ERR_DENOM | ERR_ENTRIES_FULL | ERR_EXISTING_TX | ERR_FEES
  | ERR_INVALID_COLLATERAL | ERR_INVALID_INPUT | ERR_INVALID_SCRIPT | ERR_INVALID_TX | ERR_MAXIMUM
  | ERR_MN_LIST | ERR_MODE | ERR_NON_STANDARD_PUBKEY | ERR_NOT_A_MN | ERR_QUEUE_FULL | ERR_RECENT
  | ERR_SESSION | ERR_MISSING_TX | ERR_VERSION | MSG_NOERR | MSG_SUCCESS | MSG_ENTRIES_ADDED
  | ERR_SIZE_MISMATCH
deriving DecidableEq

inductive PoolState
  | IDLE | QUEUE | ACCEPTING_ENTRIES | SIGNING | ERROR
deriving DecidableEq

structure Coin where
  out : CTxOut
  nHeight : ℤ

def Coin.isSpent (coin : Coin) : Bool := decide (coin.out.nValue = -1)

def MEMPOOL_HEIGHT : ℤ := 0x7FFFFFFF

/-- The coins of the chain and the mempool, and the transactions that are locked. -/
structure View where
  getCoin : COutPoint → Option Coin
  isLocked : uint256 → Bool

def isNullOutPoint (prevout : COutPoint) : Bool :=
  decide (prevout.hash = 0 ∧ prevout.n = 0xFFFFFFFF#32)

/-- `nMessageIDRet` and `fConsumeCollateralRet`. -/
structure Rejection where
  nMessageID : PoolMessage
  fConsumeCollateral : Bool
deriving DecidableEq

/-- An output is checked against the scripts before it, and becomes one of them. -/
def checkTxOut (nSessionDenom : ℤ) (setScriptPubKeys : List CScript) (txout : CTxOut) :
    Except Rejection (List CScript) := do
  refuse (amountToDenomination txout.nValue ≠ nSessionDenom) ⟨.ERR_DENOM, true⟩
  refuse (isPayToPublicKeyHash txout.scriptPubKey = false) ⟨.ERR_INVALID_SCRIPT, true⟩
  refuse (txout.scriptPubKey ∈ setScriptPubKeys) ⟨.ERR_ALREADY_HAVE, true⟩
  return txout.scriptPubKey :: setScriptPubKeys

/-- The scripts so far and `nFees`. -/
abbrev Checked := List CScript × ℤ

def checkOutput (nSessionDenom : ℤ) (s : Checked) (txout : CTxOut) : Except Rejection Checked := do
  let setScriptPubKeys ← checkTxOut nSessionDenom s.1 txout
  return (setScriptPubKeys, s.2-txout.nValue)

def checkInput (view : View) (nSessionDenom : ℤ) (s : Checked) (txin : CTxIn) :
    Except Rejection Checked := do
  refuse (isNullOutPoint txin.prevout = true) ⟨.ERR_INVALID_INPUT, true⟩
  match view.getCoin txin.prevout with
  | none => .error ⟨.ERR_MISSING_TX, false⟩
  | some coin =>
    refuse (coin.isSpent = true ∨
      (coin.nHeight = MEMPOOL_HEIGHT ∧ view.isLocked txin.prevout.hash = false))
      ⟨.ERR_MISSING_TX, false⟩
    let setScriptPubKeys ← checkTxOut nSessionDenom s.1 coin.out
    return (setScriptPubKeys, s.2+coin.out.nValue)

def isValidInOuts (view : View) (nSessionDenom : ℤ) (vin : List CTxIn) (vout : List CTxOut) :
    Except Rejection Unit := do
  refuse (vin.length ≠ vout.length) ⟨.ERR_SIZE_MISMATCH, true⟩
  let s ← vout.foldlM (checkOutput nSessionDenom) ([], 0)
  let s ← vin.foldlM (checkInput view nSessionDenom) s
  refuse (s.2 ≠ 0) ⟨.ERR_FEES, false⟩

variable {view : View} {nSessionDenom : ℤ} {vin : List CTxIn} {vout : List CTxOut} {s s' : Checked}

/-- An output of the session's denomination to a key. -/
def Fits (nSessionDenom : ℤ) (txout : CTxOut) : Prop :=
  amountToDenomination txout.nValue = nSessionDenom ∧
    isPayToPublicKeyHash txout.scriptPubKey = true

theorem checkTxOut_ok {scripts scripts' : List CScript} {txout : CTxOut}
    (h : checkTxOut nSessionDenom scripts txout = .ok scripts') :
    Fits nSessionDenom txout ∧ txout.scriptPubKey ∉ scripts ∧
      scripts' = txout.scriptPubKey :: scripts := by
  unfold checkTxOut at h
  rw [refuse_then_ok_iff, refuse_then_ok_iff, refuse_then_ok_iff, not_ne_iff, Bool.not_eq_false]
    at h
  obtain ⟨hdenom, hscript, hnew, hrest⟩ := h
  exact ⟨⟨hdenom, hscript⟩, hnew, (Except.ok.inj hrest).symm⟩

theorem checkOutput_ok {txout : CTxOut} (h : checkOutput nSessionDenom s txout = .ok s') :
    Fits nSessionDenom txout ∧ txout.scriptPubKey ∉ s.1 ∧ s'.1 = txout.scriptPubKey :: s.1 := by
  unfold checkOutput at h
  obtain ⟨scripts, hcheck, hrest⟩ := bind_ok_iff.mp h
  obtain ⟨hfits, hnew, rfl⟩ := checkTxOut_ok hcheck
  rw [← Except.ok.inj hrest]
  exact ⟨hfits, hnew, rfl⟩

theorem checkOutputs_ok (h : vout.foldlM (checkOutput nSessionDenom) s = .ok s') :
    (∀ txout ∈ vout, Fits nSessionDenom txout ∧ txout.scriptPubKey ∉ s.1) ∧
      (vout.map CTxOut.scriptPubKey).Nodup := by
  induction vout generalizing s with
  | nil => exact ⟨fun txout hmem => absurd hmem List.not_mem_nil, List.nodup_nil⟩
  | cons txout vout ih =>
    rw [List.foldlM_cons] at h
    obtain ⟨s₁, hfirst, hrest⟩ := bind_ok_iff.mp h
    obtain ⟨hfits, hnew, hs₁⟩ := checkOutput_ok hfirst
    obtain ⟨hothers, hnodup⟩ := ih hrest
    rw [hs₁] at hothers
    refine ⟨fun other hmem => ?_, ?_⟩
    · rcases List.mem_cons.mp hmem with rfl | hmem
      · exact ⟨hfits, hnew⟩
      · obtain ⟨hfits', hnew'⟩ := hothers other hmem
        exact ⟨hfits', fun hold => hnew' (List.mem_cons_of_mem _ hold)⟩
    · rw [List.map_cons, List.nodup_cons]
      refine ⟨fun hmem => ?_, hnodup⟩
      obtain ⟨other, hother, hsame⟩ := List.mem_map.mp hmem
      exact (hothers other hother).2 (hsame ▸ List.mem_cons_self)

/-- An input spends an unspent coin that fits. -/
def Spends (view : View) (nSessionDenom : ℤ) (prevout : COutPoint) (coin : Coin) : Prop :=
  view.getCoin prevout = some coin ∧ coin.isSpent = false ∧ Fits nSessionDenom coin.out

theorem checkInput_ok {txin : CTxIn} (h : checkInput view nSessionDenom s txin = .ok s') :
    ∃ coin, Spends view nSessionDenom txin.prevout coin ∧ coin.out.scriptPubKey ∉ s.1 ∧
      s'.1 = coin.out.scriptPubKey :: s.1 := by
  unfold checkInput at h
  rw [refuse_then_ok_iff] at h
  obtain ⟨-, h⟩ := h
  cases hcoin : view.getCoin txin.prevout with
  | none =>
    rw [hcoin] at h
    exact nomatch h
  | some coin =>
    rw [hcoin] at h
    dsimp only at h
    rw [refuse_then_ok_iff, not_or, Bool.not_eq_true] at h
    obtain ⟨⟨hspent, -⟩, hcheck⟩ := h
    obtain ⟨scripts, hcheck, hrest⟩ := bind_ok_iff.mp hcheck
    obtain ⟨hfits, hnew, rfl⟩ := checkTxOut_ok hcheck
    rw [← Except.ok.inj hrest]
    exact ⟨coin, ⟨hcoin, hspent, hfits⟩, hnew, rfl⟩

/-- Inputs that pass spend different coins: a coin that is spent twice shows its script twice. -/
theorem checkInputs_ok (h : vin.foldlM (checkInput view nSessionDenom) s = .ok s') :
    (∀ txin ∈ vin, ∃ coin, Spends view nSessionDenom txin.prevout coin ∧
      coin.out.scriptPubKey ∉ s.1) ∧ (vin.map fun txin => txin.prevout).Nodup := by
  induction vin generalizing s with
  | nil => exact ⟨fun txin hmem => absurd hmem List.not_mem_nil, List.nodup_nil⟩
  | cons txin vin ih =>
    rw [List.foldlM_cons] at h
    obtain ⟨s₁, hfirst, hrest⟩ := bind_ok_iff.mp h
    obtain ⟨coin, hspends, hnew, hs₁⟩ := checkInput_ok hfirst
    obtain ⟨hothers, hnodup⟩ := ih hrest
    rw [hs₁] at hothers
    refine ⟨fun other hmem => ?_, ?_⟩
    · rcases List.mem_cons.mp hmem with rfl | hmem
      · exact ⟨coin, hspends, hnew⟩
      · obtain ⟨coin', hspends', hnew'⟩ := hothers other hmem
        exact ⟨coin', hspends', fun hold => hnew' (List.mem_cons_of_mem _ hold)⟩
    · rw [List.map_cons, List.nodup_cons]
      refine ⟨fun hmem => ?_, hnodup⟩
      obtain ⟨other, hother, hsame⟩ := List.mem_map.mp hmem
      obtain ⟨coin', hspends', hnew'⟩ := hothers other hother
      have hcoin : coin' = coin := by
        apply Option.some.inj
        rw [← hspends'.1, ← hspends.1, hsame]
      exact hnew' (hcoin ▸ List.mem_cons_self)

/-- What inputs and outputs that are valid look like. -/
structure Mixable (view : View) (nSessionDenom : ℤ) (vin : List CTxIn) (vout : List CTxOut) :
    Prop where
  length : vin.length = vout.length
  outputs : ∀ txout ∈ vout, Fits nSessionDenom txout
  inputs : ∀ txin ∈ vin, ∃ coin, Spends view nSessionDenom txin.prevout coin
  scripts : (vout.map CTxOut.scriptPubKey).Nodup
  prevouts : (vin.map fun txin => txin.prevout).Nodup

theorem isValidInOuts_ok (h : isValidInOuts view nSessionDenom vin vout = .ok ()) :
    Mixable view nSessionDenom vin vout := by
  unfold isValidInOuts at h
  rw [refuse_then_ok_iff, not_ne_iff] at h
  obtain ⟨hlength, h⟩ := h
  obtain ⟨s, houtputs, h⟩ := bind_ok_iff.mp h
  obtain ⟨s', hinputs, -⟩ := bind_ok_iff.mp h
  obtain ⟨hfits, hscripts⟩ := checkOutputs_ok houtputs
  obtain ⟨hspends, hprevouts⟩ := checkInputs_ok hinputs
  refine ⟨hlength, fun txout hmem => (hfits txout hmem).1, fun txin hmem => ?_, hscripts,
    hprevouts⟩
  obtain ⟨coin, hcoin, -⟩ := hspends txin hmem
  exact ⟨coin, hcoin⟩

end BabaChain.CoinJoin
