import BabaChain.CoinJoin
import BabaChain.Lib.Runs
import Mathlib.Algebra.BigOperators.Group.List.Basic

/-! A client of a mixing masternode: its entry, and what it signs of the transactions that the
masternode makes. -/
namespace BabaChain.CoinJoin
open Guards

/-! ### Signing -/

/-- What is wrong with the signature of an input. -/
abbrev InputErrors := ℕ → Option String

def notFound : String := "Input not found or already spent"

/-- `ProduceSignature` and `VerifyScript` of a manager of keys: the script that an input gets, and
the error that is left for it. -/
abbrev ScriptPubKeyMan := CMutableTransaction → ℕ → Coin → CScript × Option String

/-- The coins to be signed for, with the values found for them. -/
structure Coins where
  outpoints : List COutPoint
  findCoins : COutPoint → Option Coin

def Coins.find (coins : Coins) (prevout : COutPoint) : Option Coin :=
  if prevout ∈ coins.outpoints then
    (coins.findCoins prevout).filter fun coin => !coin.isSpent
  else
    none

def signInput (spkMan : ScriptPubKeyMan) (coins : Coins) (s : CMutableTransaction × InputErrors)
    (i : ℕ) : CMutableTransaction × InputErrors :=
  let (mtx, errors) := s
  match mtx.vin[i]? with
  | none => s
  | some txin =>
    match coins.find txin.prevout with
    | none => (mtx, Function.update errors i (some notFound))
    | some coin =>
      let (scriptSig, error) := spkMan mtx i coin
      ({mtx with vin := mtx.vin.set i {txin with scriptSig := scriptSig}},
        Function.update errors i error)

/-- `SignTransaction` of a manager of keys. -/
def signWith (spkMan : ScriptPubKeyMan) (coins : Coins) (s : CMutableTransaction × InputErrors) :
    CMutableTransaction × InputErrors :=
  (List.range s.1.vin.length).foldl (signInput spkMan coins) s

/-- `CWallet::SignTransaction`: the managers are tried until all inputs are signed. -/
def signTransaction (coins : Coins) : List ScriptPubKeyMan →
    CMutableTransaction × InputErrors → CMutableTransaction × InputErrors
  | [], s => s
  | spkMan :: spkMans, s =>
    let s' := signWith spkMan coins s
    if (List.range s'.1.vin.length).all fun i => (s'.2 i).isNone then s'
    else signTransaction coins spkMans s'

/-! ### Sessions -/

def CMutableTransaction.bip69 (tx : CMutableTransaction) : CMutableTransaction :=
  {tx with vin := sortInputs tx.vin, vout := sortOutputs tx.vout}

structure CCoinJoinClientSession where
  nState : PoolState := .IDLE
  nSessionID : ℤ := 0
  nSessionDenom : ℤ := 0
  vecEntries : List CCoinJoinEntry := []
  finalMutableTransaction : CMutableTransaction := {}
  nTimeLastSuccessfulStep : ℤ := 0
  /-- The address of the mixing masternode. -/
  mixingMasternode : Option CService := none
  txMyCollateral : CMutableTransaction := {}

/-- What a message comes with: who sent it, when, and what the node and its wallet know. -/
structure ClientEnv where
  isEnabled : Bool := true
  isBlockchainSynced : Bool := true
  time : ℤ := 0
  peer : CService
  view : View
  findCoins : COutPoint → Option Coin
  spkMans : List ScriptPubKeyMan
  getHash : CMutableTransaction → uint256

structure CCoinJoinStatusUpdate where
  nSessionID : ℤ
  nState : ℤ
  nStatusUpdate : ℤ
  nMessageID : ℤ

inductive ClientMessage
  | DSSTATUSUPDATE (psssup : CCoinJoinStatusUpdate)
  | DSFINALTX (nMsgSessionID : ℤ) (txNew : CMutableTransaction)
  | DSCOMPLETE (nMsgSessionID nMsgMessageID : ℤ)

/-- `POOL_STATE_QUEUE` and `POOL_STATE_MAX`. -/
def POOL_STATE_QUEUE : ℤ := 1
def POOL_STATE_MAX : ℤ := 4

/-- `MSG_POOL_MAX`. -/
def MSG_POOL_MAX : ℤ := 22

def STATUS_REJECTED : ℤ := 0
def STATUS_ACCEPTED : ℤ := 1

namespace CCoinJoinClientSession

variable (s : CCoinJoinClientSession)

/-- `SetNull`, after which coins are unlocked and unused keys returned. -/
def setNull (time : ℤ) : CCoinJoinClientSession :=
  { s with
    nState := .IDLE
    nSessionID := 0
    nSessionDenom := 0
    vecEntries := []
    finalMutableTransaction := {s.finalMutableTransaction with vin := [], vout := []}
    nTimeLastSuccessfulStep := time
    mixingMasternode := none }

/-- The pairs for an entry from the inputs that the wallet selected. An input comes with whether it
is skipped at random, and with the script of the next key. -/
def inOutPairs (nDenomAmount nMinRounds nMaxRounds : ℤ) :
    ℕ → List (CTxDSIn × Bool × CScript) → List (CTxDSIn × CTxOut)
  | _, [] => []
  | nSteps, (txdsin, skip, scriptDenom) :: inputs =>
    if COINJOIN_ENTRY_MAX_SIZE ≤ nSteps then []
    else if txdsin.nRounds < nMinRounds ∨ nMaxRounds < txdsin.nRounds then
      inOutPairs nDenomAmount nMinRounds nMaxRounds nSteps inputs
    else if 1 ≤ nSteps ∧ skip then
      inOutPairs nDenomAmount nMinRounds nMaxRounds (nSteps+1) inputs
    else
      (txdsin, ⟨nDenomAmount, scriptDenom⟩) ::
        inOutPairs nDenomAmount nMinRounds nMaxRounds (nSteps+1) inputs

def prepareDenominate (nMinRounds nMaxRounds : ℤ) (inputs : List (CTxDSIn × Bool × CScript)) :
    Option (List (CTxDSIn × CTxOut)) :=
  if isValidDenomination s.nSessionDenom = false then none
  else
    match inOutPairs (denominationToAmount s.nSessionDenom) nMinRounds nMaxRounds 0 inputs with
    | [] => none
    | pairs => some pairs

def sendDenominate (time : ℤ) (diskSpace : Bool) (pairs : List (CTxDSIn × CTxOut)) :
    Bool × CCoinJoinClientSession :=
  if s.txMyCollateral.vin = [] ∧ s.txMyCollateral.vout = [] then (false, s)
  else if s.nSessionID = 0 ∨ diskSpace = false then (false, s.setNull time)
  else
    let entry : CCoinJoinEntry :=
      { vecTxDSIn := pairs.map Prod.fst
        vecTxOut := pairs.map Prod.snd
        txCollateral := s.txMyCollateral
        addr := 0 }
    (true, { s with
      nState := .ACCEPTING_ENTRIES
      vecEntries := s.vecEntries ++ [entry]
      nTimeLastSuccessfulStep := time })

def processPoolStateUpdate (env : ClientEnv) (psssup : CCoinJoinStatusUpdate) :
    CCoinJoinClientSession :=
  if s.nState = .IDLE ∨ s.nState = .ERROR then s
  else if psssup.nState < 0 ∨ POOL_STATE_MAX < psssup.nState then s
  else if psssup.nMessageID < 0 ∨ MSG_POOL_MAX < psssup.nMessageID then s
  else if psssup.nStatusUpdate = STATUS_REJECTED then
    {s with nState := .ERROR, nTimeLastSuccessfulStep := env.time}
  else if psssup.nStatusUpdate = STATUS_ACCEPTED ∧ s.nState = .QUEUE ∧
      psssup.nState = POOL_STATE_QUEUE ∧ s.nSessionID = 0 ∧ psssup.nSessionID ≠ 0 then
    {s with nSessionID := psssup.nSessionID, nTimeLastSuccessfulStep := env.time}
  else s

/-- The outpoints of an entry, where all its outputs and inputs are in the transaction. -/
def ownInputs (tx : CMutableTransaction) (entry : CCoinJoinEntry) : Option (List COutPoint) :=
  if entry.vecTxOut.all fun txout => decide (txout ∈ tx.vout) then
    entry.vecTxDSIn.mapM fun txdsin =>
      (tx.vin.find? fun txin => txin = txdsin.toCTxIn).map fun txin => txin.prevout
  else
    none

/-- The inputs that are pushed to the masternode, if the transaction is signed. -/
def signFinalTransaction (env : ClientEnv) (finalTransactionNew : CMutableTransaction) :
    Option (List CTxIn) × CCoinJoinClientSession :=
  let tx := finalTransactionNew.bip69
  let s := {s with finalMutableTransaction := tx}
  if env.getHash tx ≠ env.getHash finalTransactionNew then (none, s.setNull env.time)
  else
    match isValidInOuts env.view s.nSessionDenom tx.vin tx.vout with
    | .error _ => (none, s.setNull env.time)
    | .ok _ =>
      match s.vecEntries.mapM (ownInputs tx) with
      | none => (none, s.setNull env.time)
      | some outpoints =>
        let coins : Coins := ⟨outpoints.flatten, env.findCoins⟩
        let (tx, errors) := signTransaction coins env.spkMans (tx, fun _ => none)
        let s := {s with finalMutableTransaction := tx}
        if (List.range tx.vin.length).any fun i => (errors i).any fun e => e ≠ notFound then
          (none, s.setNull env.time)
        else
          match tx.vin.filter fun txin => txin.prevout ∈ coins.outpoints with
          | [] => (none, s.setNull env.time)
          | signedInputs =>
            (some signedInputs, {s with nState := .SIGNING, nTimeLastSuccessfulStep := env.time})

/-- A message, and the signed inputs that it makes the client push. -/
def processMessage (message : ClientEnv × ClientMessage) :
    Option (List CTxIn) × CCoinJoinClientSession :=
  let (env, message) := message
  if !env.isEnabled || !env.isBlockchainSynced then (none, s)
  else if s.mixingMasternode ≠ some env.peer then (none, s)
  else
    match message with
    | .DSSTATUSUPDATE psssup => (none, s.processPoolStateUpdate env psssup)
    | .DSFINALTX nMsgSessionID txNew =>
      if s.nSessionID ≠ nMsgSessionID then (none, s)
      else s.signFinalTransaction env txNew
    | .DSCOMPLETE nMsgSessionID nMsgMessageID =>
      if nMsgMessageID < 0 ∨ MSG_POOL_MAX < nMsgMessageID then (none, s)
      else if s.nSessionID ≠ nMsgSessionID then (none, s)
      else (none, s.setNull env.time)

end CCoinJoinClientSession

open CCoinJoinClientSession

/-! ### What signing changes -/

section Signing

variable {outpoints : List COutPoint}

/-- An input keeps what it spends, and is as it was unless it is to be signed. -/
def SameInput (outpoints : List COutPoint) (txin txin' : CTxIn) : Prop :=
  txin'.prevout = txin.prevout ∧ txin'.nSequence = txin.nSequence ∧
    (txin.prevout ∉ outpoints → txin' = txin)

/-- Only the scripts of inputs that are to be signed change. -/
structure Signs (outpoints : List COutPoint) (tx tx' : CMutableTransaction) : Prop where
  vout : tx'.vout = tx.vout
  vin : List.Forall₂ (SameInput outpoints) tx.vin tx'.vin

theorem sameInput_refl (txin : CTxIn) : SameInput outpoints txin txin :=
  ⟨rfl, rfl, fun _ => rfl⟩

theorem SameInput.trans {a b c : CTxIn} (h : SameInput outpoints a b)
    (h' : SameInput outpoints b c) : SameInput outpoints a c := by
  obtain ⟨hprevout, hsequence, hsame⟩ := h
  obtain ⟨hprevout', hsequence', hsame'⟩ := h'
  refine ⟨hprevout'.trans hprevout, hsequence'.trans hsequence, fun hnot => ?_⟩
  rw [hsame' (hprevout ▸ hnot), hsame hnot]

theorem signs_refl (tx : CMutableTransaction) : Signs outpoints tx tx :=
  ⟨rfl, List.forall₂_same.mpr fun txin _ => sameInput_refl txin⟩

theorem forall₂_trans {a b c : List CTxIn} (h : List.Forall₂ (SameInput outpoints) a b)
    (h' : List.Forall₂ (SameInput outpoints) b c) : List.Forall₂ (SameInput outpoints) a c := by
  induction h generalizing c with
  | nil => exact h'
  | cons hhead _ ih =>
    cases h' with
    | cons hhead' htail' => exact List.Forall₂.cons (hhead.trans hhead') (ih htail')

theorem Signs.trans {tx tx' tx'' : CMutableTransaction} (h : Signs outpoints tx tx')
    (h' : Signs outpoints tx' tx'') : Signs outpoints tx tx'' :=
  ⟨h'.vout.trans h.vout, forall₂_trans h.vin h'.vin⟩

theorem forall₂_set {vin : List CTxIn} {i : ℕ} {txin txin' : CTxIn} (hi : vin[i]? = some txin)
    (h : SameInput outpoints txin txin') :
    List.Forall₂ (SameInput outpoints) vin (vin.set i txin') := by
  induction vin generalizing i with
  | nil => exact absurd hi nofun
  | cons first rest ih =>
    cases i with
    | zero =>
      rw [List.getElem?_cons_zero, Option.some.injEq] at hi
      subst hi
      exact List.Forall₂.cons h (List.forall₂_same.mpr fun txin _ => sameInput_refl txin)
    | succ i =>
      rw [List.getElem?_cons_succ] at hi
      exact List.Forall₂.cons (sameInput_refl first) (ih hi)

theorem signInput_signs (spkMan : ScriptPubKeyMan) (coins : Coins)
    (s : CMutableTransaction × InputErrors) (i : ℕ) :
    Signs coins.outpoints s.1 (signInput spkMan coins s i).1 := by
  obtain ⟨mtx, errors⟩ := s
  unfold signInput
  dsimp only
  cases hi : mtx.vin[i]? with
  | none => exact signs_refl mtx
  | some txin =>
    dsimp only
    cases hcoin : coins.find txin.prevout with
    | none => exact signs_refl mtx
    | some coin =>
      refine ⟨rfl, forall₂_set hi ⟨rfl, rfl, fun hnot => ?_⟩⟩
      unfold Coins.find at hcoin
      rw [if_neg hnot] at hcoin
      exact nomatch hcoin

theorem signWith_signs (spkMan : ScriptPubKeyMan) (coins : Coins)
    (s : CMutableTransaction × InputErrors) :
    Signs coins.outpoints s.1 (signWith spkMan coins s).1 := by
  unfold signWith
  generalize List.range s.1.vin.length = is
  induction is generalizing s with
  | nil => exact signs_refl s.1
  | cons i is ih =>
    rw [List.foldl_cons]
    exact (signInput_signs spkMan coins s i).trans (ih _)

theorem signTransaction_signs (coins : Coins) (spkMans : List ScriptPubKeyMan)
    (s : CMutableTransaction × InputErrors) :
    Signs coins.outpoints s.1 (signTransaction coins spkMans s).1 := by
  induction spkMans generalizing s with
  | nil => exact signs_refl s.1
  | cons spkMan spkMans ih =>
    rw [signTransaction]
    split_ifs
    · exact signWith_signs spkMan coins s
    · exact (signWith_signs spkMan coins s).trans (ih _)

theorem Signs.prevouts {tx tx' : CMutableTransaction} (h : Signs outpoints tx tx') :
    tx'.vin.map (fun txin => txin.prevout) = tx.vin.map fun txin => txin.prevout := by
  have hvin := h.vin
  generalize tx.vin = vin at hvin
  generalize tx'.vin = vin' at hvin
  induction hvin with
  | nil => rfl
  | cons hhead _ ih => rw [List.map_cons, List.map_cons, hhead.1, ih]

theorem Signs.mem_vin {tx tx' : CMutableTransaction} (h : Signs outpoints tx tx')
    {txin' : CTxIn} (hmem : txin' ∈ tx'.vin) :
    ∃ txin ∈ tx.vin, SameInput outpoints txin txin' := by
  have hvin := h.vin
  generalize tx.vin = vin at hvin
  generalize tx'.vin = vin' at hvin hmem
  induction hvin with
  | nil => exact absurd hmem List.not_mem_nil
  | cons hhead _ ih =>
    rcases List.mem_cons.mp hmem with rfl | hmem
    · exact ⟨_, List.mem_cons_self, hhead⟩
    · obtain ⟨txin, htxin, hsame⟩ := ih hmem
      exact ⟨txin, List.mem_cons_of_mem _ htxin, hsame⟩

end Signing

/-! ### The entry -/

theorem inOutPairs_sublist (nDenomAmount nMinRounds nMaxRounds : ℤ) (nSteps : ℕ)
    (inputs : List (CTxDSIn × Bool × CScript)) :
    List.Sublist (inOutPairs nDenomAmount nMinRounds nMaxRounds nSteps inputs)
      (inputs.map fun input => (input.1, ⟨nDenomAmount, input.2.2⟩)) := by
  induction inputs generalizing nSteps with
  | nil => exact List.Sublist.refl []
  | cons input inputs ih =>
    obtain ⟨txdsin, skip, scriptDenom⟩ := input
    rw [inOutPairs, List.map_cons]
    split_ifs
    · exact List.nil_sublist _
    · exact (ih nSteps).cons _
    · exact (ih (nSteps+1)).cons _
    · exact (ih (nSteps+1)).cons_cons _

/-- An entry that a client makes: as many outputs as inputs, and none of them twice. -/
structure OwnEntry (entry : CCoinJoinEntry) : Prop where
  length : entry.vecTxDSIn.length = entry.vecTxOut.length
  prevouts : (entry.vecTxDSIn.map fun txdsin => txdsin.prevout).Nodup
  outputs : entry.vecTxOut.Nodup

/-- The wallet selects different coins and gives out different keys. -/
structure Selected (inputs : List (CTxDSIn × Bool × CScript)) : Prop where
  coins : (inputs.map fun input => input.1.prevout).Nodup
  keys : (inputs.map fun input => input.2.2).Nodup

section Entry

variable {s : CCoinJoinClientSession} {inputs : List (CTxDSIn × Bool × CScript)}
  {pairs : List (CTxDSIn × CTxOut)}

theorem prepareDenominate_some {nMinRounds nMaxRounds : ℤ}
    (h : s.prepareDenominate nMinRounds nMaxRounds inputs = some pairs) :
    isValidDenomination s.nSessionDenom = true ∧
      pairs = inOutPairs (denominationToAmount s.nSessionDenom) nMinRounds nMaxRounds 0 inputs := by
  unfold prepareDenominate at h
  split_ifs at h with hdenom
  refine ⟨eq_true_of_ne_false hdenom, ?_⟩
  cases hpairs : inOutPairs (denominationToAmount s.nSessionDenom) nMinRounds nMaxRounds 0
      inputs with
  | nil =>
    rw [hpairs] at h
    exact nomatch h
  | cons pair rest =>
    rw [hpairs] at h
    exact (Option.some.inj h).symm

theorem ownEntry_of_prepared {nMinRounds nMaxRounds : ℤ} (hselected : Selected inputs)
    (h : s.prepareDenominate nMinRounds nMaxRounds inputs = some pairs)
    (txCollateral : CMutableTransaction) (addr : CService) :
    OwnEntry ⟨pairs.map Prod.fst, pairs.map Prod.snd, txCollateral, addr⟩ := by
  obtain ⟨-, rfl⟩ := prepareDenominate_some h
  have hsublist := inOutPairs_sublist (denominationToAmount s.nSessionDenom) nMinRounds nMaxRounds
    0 inputs
  refine ⟨?_, ?_, ?_⟩
  · rw [List.length_map, List.length_map]
  · have hprevouts := hsublist.map fun pair => pair.1.prevout
    rw [List.map_map] at hprevouts
    rw [List.map_map]
    exact hselected.coins.sublist hprevouts
  · have hscripts := hsublist.map fun pair => pair.2.scriptPubKey
    rw [List.map_map] at hscripts
    have hnodup := hselected.keys.sublist hscripts
    apply List.Nodup.of_map CTxOut.scriptPubKey
    rw [List.map_map]
    exact hnodup

theorem sendDenominate_true {time : ℤ} {diskSpace : Bool}
    (h : (s.sendDenominate time diskSpace pairs).1 = true) :
    (s.sendDenominate time diskSpace pairs).2.vecEntries = s.vecEntries ++
        [⟨pairs.map Prod.fst, pairs.map Prod.snd, s.txMyCollateral, 0⟩] ∧
      (s.sendDenominate time diskSpace pairs).2.nSessionDenom = s.nSessionDenom := by
  unfold sendDenominate at h ⊢
  split_ifs at h ⊢
  exact ⟨rfl, rfl⟩

end Entry

/-! ### What is pushed -/

section Pushed

variable {s : CCoinJoinClientSession} {env : ClientEnv} {received tx : CMutableTransaction}
  {entry : CCoinJoinEntry} {outpoints : List COutPoint}

theorem perm_bip69_vin : received.bip69.vin.Perm received.vin := List.perm_insertionSort _ _

theorem perm_bip69_vout : received.bip69.vout.Perm received.vout := List.perm_insertionSort _ _

theorem ownInputs_some (h : ownInputs tx entry = some outpoints) :
    (∀ txout ∈ entry.vecTxOut, txout ∈ tx.vout) ∧
      (∀ txdsin ∈ entry.vecTxDSIn, txdsin.toCTxIn ∈ tx.vin) ∧
      outpoints = entry.vecTxDSIn.map fun txdsin => txdsin.prevout := by
  unfold ownInputs at h
  split_ifs at h with hall
  rw [List.all_eq_true] at hall
  refine ⟨fun txout hmem => of_decide_eq_true (hall txout hmem), ?_⟩
  generalize entry.vecTxDSIn = vecTxDSIn at h
  clear hall
  induction vecTxDSIn generalizing outpoints with
  | nil => exact ⟨fun txdsin hmem => absurd hmem List.not_mem_nil, (Option.some.inj h).symm⟩
  | cons txdsin rest ih =>
    rw [List.mapM_cons] at h
    cases hfind : tx.vin.find? fun txin => txin = txdsin.toCTxIn with
    | none =>
      rw [hfind] at h
      exact nomatch h
    | some txin =>
      have hfound := List.find?_some hfind
      have hsame : txin = txdsin.toCTxIn := of_decide_eq_true hfound
      rw [hfind, Option.map_some] at h
      obtain ⟨others, hothers, heq⟩ :=
        Option.bind_eq_some_iff.mp ((Option.bind_some _ _).symm.trans h)
      obtain ⟨hmem, rfl⟩ := ih hothers
      refine ⟨fun txdsin' hmem' => ?_, ?_⟩
      · rcases List.mem_cons.mp hmem' with rfl | hmem'
        · exact hsame ▸ List.mem_of_find?_eq_some hfind
        · exact hmem txdsin' hmem'
      · rw [← Option.some.inj heq, hsame]
        rfl

/-- Either the session is given up, or a signed transaction is kept. -/
theorem signFinalTransaction_cases (s : CCoinJoinClientSession) (env : ClientEnv)
    (received : CMutableTransaction) :
    (∃ tx, s.signFinalTransaction env received =
      (none, {s with finalMutableTransaction := tx}.setNull env.time)) ∨
    ∃ outpoints tx signedInputs,
      s.vecEntries.mapM (ownInputs received.bip69) = some outpoints ∧
      Mixable env.view s.nSessionDenom received.bip69.vin received.bip69.vout ∧
      Signs outpoints.flatten received.bip69 tx ∧
      signedInputs = tx.vin.filter (fun txin => txin.prevout ∈ outpoints.flatten) ∧
      signedInputs ≠ [] ∧
      s.signFinalTransaction env received = (some signedInputs, { s with
        finalMutableTransaction := tx
        nState := .SIGNING
        nTimeLastSuccessfulStep := env.time }) := by
  unfold signFinalTransaction
  dsimp only
  split_ifs with hhash
  · exact Or.inl ⟨_, rfl⟩
  cases hvalid : isValidInOuts env.view s.nSessionDenom received.bip69.vin
      received.bip69.vout with
  | error rejection => exact Or.inl ⟨_, rfl⟩
  | ok _ =>
    cases hown : s.vecEntries.mapM (ownInputs received.bip69) with
    | none => exact Or.inl ⟨_, rfl⟩
    | some outpoints =>
      have hsigns := signTransaction_signs ⟨outpoints.flatten, env.findCoins⟩ env.spkMans
        (received.bip69, fun _ => none)
      dsimp only at hsigns ⊢
      generalize signTransaction ⟨outpoints.flatten, env.findCoins⟩ env.spkMans
        (received.bip69, fun _ => none) = result at hsigns ⊢
      obtain ⟨tx, errors⟩ := result
      dsimp only at hsigns ⊢
      split_ifs with herrors
      · exact Or.inl ⟨_, rfl⟩
      cases hsigned : tx.vin.filter fun txin => txin.prevout ∈ outpoints.flatten with
      | nil => exact Or.inl ⟨_, rfl⟩
      | cons first rest =>
        exact Or.inr ⟨outpoints, tx, first :: rest, rfl, isValidInOuts_ok hvalid, hsigns,
          hsigned.symm, List.cons_ne_nil first rest, rfl⟩

/-- The value of the coin that an input spends. -/
def inputValue (view : View) (txin : CTxIn) : ℤ :=
  ((view.getCoin txin.prevout).map fun coin => coin.out.nValue).getD 0

/-- What a client gives and gets in a transaction that it signs. -/
structure Fair (entry : CCoinJoinEntry) (view : View) (received tx : CMutableTransaction)
    (signedInputs : List CTxIn) : Prop where
  /-- Nothing is signed but the inputs of the entry. -/
  own : ∀ txin ∈ signedInputs, ∃ txdsin ∈ entry.vecTxDSIn, txdsin.prevout = txin.prevout
  others : ∀ txin ∈ tx.vin, txin ∉ signedInputs → txin ∈ received.vin
  outputs : ∀ txout ∈ entry.vecTxOut, txout ∈ received.vout
  signs : tx.vout.Perm received.vout ∧
    (tx.vin.map fun txin => txin.prevout).Perm (received.vin.map fun txin => txin.prevout)
  balance : ((received.vout.filter fun txout => txout ∈ entry.vecTxOut).map CTxOut.nValue).sum =
    (signedInputs.map (inputValue view)).sum

theorem sum_of_forall_eq {α : Type*} {l : List α} {f : α → ℤ} {amount : ℤ}
    (h : ∀ a ∈ l, f a = amount) : (l.map f).sum = l.length*amount := by
  have hsum := List.sum_eq_card_nsmul (l.map f) amount fun x hx => by
    obtain ⟨a, ha, rfl⟩ := List.mem_map.mp hx
    exact h a ha
  rw [hsum, List.length_map, nsmul_eq_mul]

theorem fits_value {nSessionDenom : ℤ} (hdenom : isValidDenomination nSessionDenom = true)
    {txout : CTxOut} (h : Fits nSessionDenom txout) :
    txout.nValue = denominationToAmount nSessionDenom := by
  have hpos := denomination_pos hdenom
  rw [← h.1] at hpos ⊢
  exact (denominationToAmount_amountToDenomination hpos).symm

/-- The outputs of the entry are found once each. -/
theorem keptOutputs_perm {vout : List CTxOut} (hentry : OwnEntry entry) (hvout : vout.Nodup)
    (hpresent : ∀ txout ∈ entry.vecTxOut, txout ∈ vout) :
    (vout.filter fun txout => txout ∈ entry.vecTxOut).Perm entry.vecTxOut := by
  rw [List.perm_ext_iff_of_nodup (hvout.filter _) hentry.outputs]
  intro txout
  rw [List.mem_filter, decide_eq_true_eq]
  exact ⟨fun hmem => hmem.2, fun hmem => ⟨hpresent txout hmem, hmem⟩⟩

/-- The inputs of the entry are found once each. -/
theorem signedInputs_perm {vin : List CTxIn} (hentry : OwnEntry entry)
    (hvin : (vin.map fun txin => txin.prevout).Nodup)
    (hpresent : ∀ txdsin ∈ entry.vecTxDSIn, ∃ txin ∈ vin, txin.prevout = txdsin.prevout) :
    ((vin.filter fun txin => txin.prevout ∈
      entry.vecTxDSIn.map fun txdsin => txdsin.prevout).map fun txin => txin.prevout).Perm
        (entry.vecTxDSIn.map fun txdsin => txdsin.prevout) := by
  apply (List.perm_ext_iff_of_nodup ?_ hentry.prevouts).mpr
  · intro prevout
    rw [List.mem_map]
    constructor
    · rintro ⟨txin, hmem, rfl⟩
      exact of_decide_eq_true (List.mem_filter.mp hmem).2
    · intro hmem
      obtain ⟨txdsin, htxdsin, rfl⟩ := List.mem_map.mp hmem
      obtain ⟨txin, htxin, hsame⟩ := hpresent txdsin htxdsin
      exact ⟨txin, List.mem_filter.mpr ⟨htxin, decide_eq_true (hsame ▸ hmem)⟩, hsame⟩
  · exact (List.Sublist.map _ List.filter_sublist).nodup hvin

/-- Both sides have the amount of the session for every input of the entry. -/
theorem balance_of_signs (hentry : OwnEntry entry) {nSessionDenom : ℤ} {view : View}
    (hdenom : isValidDenomination nSessionDenom = true)
    (hmixable : Mixable view nSessionDenom received.bip69.vin received.bip69.vout)
    (houtputs : ∀ txout ∈ entry.vecTxOut, txout ∈ received.vout)
    (hinputs : ∀ txdsin ∈ entry.vecTxDSIn, txdsin.toCTxIn ∈ received.bip69.vin)
    (hsigns : Signs outpoints received.bip69 tx)
    (houtpoints : outpoints = entry.vecTxDSIn.map fun txdsin => txdsin.prevout) :
    ((received.vout.filter fun txout => txout ∈ entry.vecTxOut).map CTxOut.nValue).sum =
      ((tx.vin.filter fun txin => txin.prevout ∈ outpoints).map (inputValue view)).sum := by
  have hvout : received.vout.Nodup :=
    perm_bip69_vout.nodup_iff.mp (List.Nodup.of_map CTxOut.scriptPubKey hmixable.scripts)
  have hvin : (tx.vin.map fun txin => txin.prevout).Nodup := by
    rw [hsigns.prevouts]
    exact hmixable.prevouts
  have hpresent : ∀ txdsin ∈ entry.vecTxDSIn, ∃ txin ∈ tx.vin,
      txin.prevout = txdsin.prevout := by
    intro txdsin hmem
    have hin : txdsin.prevout ∈ tx.vin.map fun txin => txin.prevout := by
      rw [hsigns.prevouts]
      exact List.mem_map.mpr ⟨txdsin.toCTxIn, hinputs txdsin hmem, rfl⟩
    exact List.mem_map.mp hin
  have hamount : ∀ txout ∈ received.vout, txout.nValue = denominationToAmount nSessionDenom :=
    fun txout hmem =>
      fits_value hdenom (hmixable.outputs txout (perm_bip69_vout.mem_iff.mpr hmem))
  have hvalue : ∀ txin ∈ tx.vin, inputValue view txin = denominationToAmount nSessionDenom := by
    intro txin hmem
    obtain ⟨txin', htxin', hprevout, -⟩ := hsigns.mem_vin hmem
    obtain ⟨coin, hcoin, -, hfits⟩ := hmixable.inputs txin' htxin'
    unfold inputValue
    rw [hprevout, hcoin]
    exact fits_value hdenom hfits
  have hsigned := (signedInputs_perm hentry hvin hpresent).length_eq
  rw [List.length_map, List.length_map, ← houtpoints] at hsigned
  calc ((received.vout.filter fun txout => txout ∈ entry.vecTxOut).map CTxOut.nValue).sum
      = (received.vout.filter fun txout => txout ∈ entry.vecTxOut).length*
          denominationToAmount nSessionDenom :=
        sum_of_forall_eq fun txout hmem => hamount txout (List.mem_filter.mp hmem).1
    _ = (tx.vin.filter fun txin => txin.prevout ∈ outpoints).length*
          denominationToAmount nSessionDenom := by
        rw [(keptOutputs_perm hentry hvout houtputs).length_eq, hsigned, hentry.length]
    _ = _ := (sum_of_forall_eq fun txin hmem => hvalue txin (List.mem_filter.mp hmem).1).symm

theorem fair_of_signs (hentry : OwnEntry entry) {nSessionDenom : ℤ} {view : View}
    (hdenom : isValidDenomination nSessionDenom = true)
    (hmixable : Mixable view nSessionDenom received.bip69.vin received.bip69.vout)
    (hown : ownInputs received.bip69 entry = some outpoints)
    (hsigns : Signs outpoints received.bip69 tx) :
    Fair entry view received tx (tx.vin.filter fun txin => txin.prevout ∈ outpoints) := by
  obtain ⟨houtputs, hinputs, houtpoints⟩ := ownInputs_some hown
  have hpresent : ∀ txout ∈ entry.vecTxOut, txout ∈ received.vout := fun txout hmem =>
    perm_bip69_vout.mem_iff.mp (houtputs txout hmem)
  refine ⟨fun txin hmem => ?_, fun txin hmem hnot => ?_, hpresent, ⟨?_, ?_⟩,
    balance_of_signs hentry hdenom hmixable hpresent hinputs hsigns houtpoints⟩
  · have hin := of_decide_eq_true (List.mem_filter.mp hmem).2
    rw [houtpoints] at hin
    obtain ⟨txdsin, htxdsin, hsame⟩ := List.mem_map.mp hin
    exact ⟨txdsin, htxdsin, hsame⟩
  · obtain ⟨txin', htxin', hprevout, -, hsame⟩ := hsigns.mem_vin hmem
    have hother : txin'.prevout ∉ outpoints := fun hin =>
      hnot (List.mem_filter.mpr ⟨hmem, decide_eq_true (hprevout ▸ hin)⟩)
    rw [hsame hother]
    exact perm_bip69_vin.mem_iff.mp htxin'
  · rw [hsigns.vout]
    exact perm_bip69_vout
  · rw [hsigns.prevouts]
    exact perm_bip69_vin.map _

end Pushed

/-! ### Runs -/

/-- The session has the entry, or has been given up. -/
def Entered (entry : CCoinJoinEntry) (nSessionDenom : ℤ) (s : CCoinJoinClientSession) : Prop :=
  s.vecEntries = [] ∨ (s.vecEntries = [entry] ∧ s.nSessionDenom = nSessionDenom)

/-- A message makes the client push the inputs of a fair transaction, or nothing. -/
def PushesFair (entry : CCoinJoinEntry) (s : CCoinJoinClientSession)
    (message : ClientEnv × ClientMessage) : Prop :=
  ∀ signedInputs, (s.processMessage message).1 = some signedInputs →
    ∃ nMsgSessionID received, message.2 = .DSFINALTX nMsgSessionID received ∧
      Fair entry message.1.view received (s.processMessage message).2.finalMutableTransaction
        signedInputs

section Runs

variable {s : CCoinJoinClientSession} {entry : CCoinJoinEntry} {nSessionDenom : ℤ}

theorem processPoolStateUpdate_keeps (s : CCoinJoinClientSession) (env : ClientEnv)
    (psssup : CCoinJoinStatusUpdate) :
    (s.processPoolStateUpdate env psssup).vecEntries = s.vecEntries ∧
      (s.processPoolStateUpdate env psssup).nSessionDenom = s.nSessionDenom := by
  unfold processPoolStateUpdate
  split_ifs
  all_goals exact ⟨rfl, rfl⟩

theorem processMessage_entered (h : Entered entry nSessionDenom s)
    (message : ClientEnv × ClientMessage) :
    Entered entry nSessionDenom (s.processMessage message).2 := by
  obtain ⟨env, message⟩ := message
  unfold processMessage
  dsimp only
  split_ifs
  · exact h
  · exact h
  cases message with
  | DSSTATUSUPDATE psssup =>
    obtain ⟨hentries, hdenom⟩ := processPoolStateUpdate_keeps s env psssup
    unfold Entered
    rw [hentries, hdenom]
    exact h
  | DSFINALTX nMsgSessionID txNew =>
    dsimp only
    split_ifs
    · exact h
    rcases signFinalTransaction_cases s env txNew with ⟨tx, heq⟩ |
      ⟨outpoints, tx, signedInputs, -, -, -, -, -, heq⟩
    · rw [heq]
      exact Or.inl rfl
    · rw [heq]
      exact h
  | DSCOMPLETE nMsgSessionID nMsgMessageID =>
    dsimp only
    split_ifs
    · exact h
    · exact h
    · exact Or.inl rfl

theorem processMessage_fair (hentry : OwnEntry entry)
    (hdenom : isValidDenomination nSessionDenom = true) (h : Entered entry nSessionDenom s)
    (message : ClientEnv × ClientMessage) : PushesFair entry s message := by
  obtain ⟨env, message⟩ := message
  intro signedInputs hpushed
  unfold processMessage at hpushed ⊢
  dsimp only at hpushed ⊢
  split_ifs at hpushed ⊢
  cases message with
  | DSSTATUSUPDATE psssup => exact nomatch hpushed
  | DSFINALTX nMsgSessionID received =>
    refine ⟨nMsgSessionID, received, rfl, ?_⟩
    dsimp only at hpushed ⊢
    split_ifs at hpushed ⊢
    rcases signFinalTransaction_cases s env received with ⟨tx, heq⟩ |
      ⟨outpoints, tx, signed, hown, hmixable, hsigns, rfl, hsome, heq⟩
    · rw [heq] at hpushed
      exact nomatch hpushed
    · rw [heq] at hpushed ⊢
      rw [← Option.some.inj hpushed]
      rcases h with hnone | ⟨hentries, hsession⟩
      · -- a session without entries signs nothing
        rw [hnone, List.mapM_nil] at hown
        refine absurd ?_ hsome
        rw [← Option.some.inj hown]
        exact List.filter_eq_nil_iff.mpr fun txin _ hin =>
          List.not_mem_nil (of_decide_eq_true hin)
      · rw [hentries, List.mapM_cons, List.mapM_nil] at hown
        obtain ⟨own, hown, hrest⟩ := Option.bind_eq_some_iff.mp hown
        rw [hsession] at hmixable
        rw [← Option.some.inj hrest, List.flatten_cons, List.flatten_nil,
          List.append_nil] at hsigns ⊢
        exact fair_of_signs hentry hdenom hmixable hown hsigns
  | DSCOMPLETE nMsgSessionID nMsgMessageID =>
    dsimp only at hpushed
    split_ifs at hpushed

/-- Whatever messages the masternode sends after a client has entered a session, all that the client
signs is fair to it. -/
theorem client_signs_fair {inputs : List (CTxDSIn × Bool × CScript)} (hselected : Selected inputs)
    (hfirst : s.vecEntries = []) {nMinRounds nMaxRounds : ℤ} {pairs : List (CTxDSIn × CTxOut)}
    (hprepared : s.prepareDenominate nMinRounds nMaxRounds inputs = some pairs) {time : ℤ}
    {diskSpace : Bool} (hsent : (s.sendDenominate time diskSpace pairs).1 = true)
    (messages : List (ClientEnv × ClientMessage)) :
    Runs.EveryStep processMessage
      (PushesFair ⟨pairs.map Prod.fst, pairs.map Prod.snd, s.txMyCollateral, 0⟩)
      (s.sendDenominate time diskSpace pairs).2 messages := by
  have hentry := ownEntry_of_prepared hselected hprepared s.txMyCollateral 0
  obtain ⟨hdenom, -⟩ := prepareDenominate_some hprepared
  obtain ⟨hentries, hsession⟩ := sendDenominate_true hsent
  rw [hfirst, List.nil_append] at hentries
  apply Runs.everyStep_of_invariant (Entered _ s.nSessionDenom) ?_
    (Or.inr ⟨hentries, hsession⟩) (Runs.everyStep_true _ messages)
  intro t message h _
  exact ⟨processMessage_fair hentry hdenom h message, processMessage_entered h message⟩

/-- A client mixes one coin, and signs the transaction that spends it. -/
theorem client_signs_fair_one :
    ∃ (s : CCoinJoinClientSession) (entry : CCoinJoinEntry) (message : ClientEnv × ClientMessage),
      (s.processMessage message).1.isSome = true ∧
        Runs.EveryStep processMessage (PushesFair entry) s [message] := by
  let coin : Coin := ⟨⟨COIN/1000+1, payToPublicKeyHash (List.replicate 20 1)⟩, 10⟩
  let txdsin : CTxDSIn := {prevout := ⟨1, 0⟩, nRounds := 0}
  let script := payToPublicKeyHash (List.replicate 20 2)
  let s : CCoinJoinClientSession :=
    { nState := .QUEUE
      nSessionID := 5
      nSessionDenom := 16
      mixingMasternode := some 7
      txMyCollateral := {vin := [{prevout := ⟨2, 0⟩}], vout := []} }
  let env : ClientEnv :=
    { peer := 7
      view := ⟨fun prevout => if prevout = ⟨1, 0⟩ then some coin else none, fun _ => false⟩
      findCoins := fun _ => some coin
      spkMans := [fun _ _ _ => ([1, 2, 3], none)]
      getHash := fun _ => 0 }
  let message : ClientMessage :=
    .DSFINALTX 5 {vin := [txdsin.toCTxIn], vout := [⟨COIN/1000+1, script⟩]}
  have hprepared : s.prepareDenominate 0 0 [(txdsin, false, script)] =
      some [(txdsin, ⟨COIN/1000+1, script⟩)] := by decide
  have hsent : (s.sendDenominate 0 true [(txdsin, ⟨COIN/1000+1, script⟩)]).1 = true := by decide
  exact ⟨(s.sendDenominate 0 true [(txdsin, ⟨COIN/1000+1, script⟩)]).2, _, (env, message),
    by decide, client_signs_fair ⟨by decide, by decide⟩ rfl hprepared hsent [(env, message)]⟩

end Runs

end BabaChain.CoinJoin
