import BabaChain.CoinJoinSessions

/-! What a masternode takes for a signature of the final transaction. The script of the spent coin
is memory only and never set, so a script is checked against an empty one. -/
namespace BabaChain.CoinJoin
open Script Machine ByteReader ByteWriter CCoinJoinServer

variable {m : Machine} {params : PoolParams} {ledger : COutPoint → CTxOut} {s : CCoinJoinServer}
  {txin : CTxIn}

/-! ### The coin's script -/

theorem isPayToPublicKeyHash_eq {script : CScript} (h : isPayToPublicKeyHash script = true) :
    ∃ hash : List UInt8, hash.length = 20 ∧ script = payToPublicKeyHash hash := by
  obtain ⟨hlength, hfirst, hlast⟩ := of_decide_eq_true h
  refine ⟨(script.drop 3).take 20, ?_, ?_⟩
  · rw [List.length_take, List.length_drop, hlength]
    rfl
  · have htail : (script.drop 3).drop 20 = script.drop 23 := List.drop_drop
    have hmiddle : (script.drop 3).take 20 ++ script.drop 23 = script.drop 3 := by
      rw [← htail]
      exact List.take_append_drop 20 (script.drop 3)
    rw [payToPublicKeyHash, ← hfirst, ← hlast, List.append_assoc, hmiddle]
    exact (List.take_append_drop 3 script).symm

/-- A script satisfies the coin that its input spends, in the final transaction. -/
def Satisfies (m : Machine) (ledger : COutPoint → CTxOut) (s : CCoinJoinServer) (txin : CTxIn) :
    Prop :=
  ∃ i txin', s.finalMutableTransaction.vin[i]? = some txin' ∧ SameSpend txin' txin ∧
    m.verifyScript (finalSigned s txin).finalMutableTransaction i txin.scriptSig
      (ledger txin.prevout).scriptPubKey = true

/-- A script that leaves one value does not satisfy a coin of a key. -/
theorem not_satisfies (hcoin : isPayToPublicKeyHash (ledger txin.prevout).scriptPubKey = true)
    (data : List UInt8) (heval : ∀ tx nIn, m.evalScript tx nIn [] txin.scriptSig = some [data]) :
    ¬Satisfies m ledger s txin := by
  rintro ⟨i, txin', -, -, hverify⟩
  obtain ⟨hash, hlength, hscript⟩ := isPayToPublicKeyHash_eq hcoin
  rw [hscript, verifyScript, heval] at hverify
  dsimp only at hverify
  rw [evalScript_payToPublicKeyHash_singleton data hlength] at hverify
  exact nomatch hverify

/-! ### What is accepted -/

/-- No input has the script yet. -/
def Fresh (s : CCoinJoinServer) (txin : CTxIn) : Prop :=
  ∀ txdsin ∈ s.inputs, txdsin.scriptSig ≠ txin.scriptSig

/-- The input is one of the session, and has no script yet. -/
def Unsigned (s : CCoinJoinServer) (txin : CTxIn) : Prop :=
  ∃ txdsin ∈ s.inputs, SameSpend txdsin.toCTxIn txin ∧ txdsin.fHasSig = false

theorem isSignaturesComplete_iff :
    s.isSignaturesComplete = true ↔ ∀ txin, ¬Unsigned s txin := by
  have hall : s.isSignaturesComplete = true ↔ ∀ txdsin ∈ s.inputs, txdsin.fHasSig = true := by
    unfold isSignaturesComplete inputs
    rw [List.all_eq_true, List.forall_mem_flatMap]
    exact forall₂_congr fun entry _ => List.all_eq_true
  rw [hall]
  constructor
  · intro hsigned txin ⟨txdsin, hmem, _, hnot⟩
    exact nomatch hnot.symm.trans (hsigned txdsin hmem)
  · intro hnone txdsin hmem
    by_contra hnot
    exact hnone txdsin.toCTxIn ⟨txdsin, hmem, ⟨rfl, rfl⟩, eq_false_of_ne_true hnot⟩

theorem findInput_mem {txdsin : CTxDSIn} {i : ℕ} (h : s.findInput txin.prevout = some (txdsin, i)) :
    txdsin ∈ s.inputs := by
  have hmem := (List.mem_filter.mp (List.mem_of_getLast? h)).1
  obtain ⟨-, -, heq⟩ := List.mem_zipIdx hmem
  rw [heq]
  exact List.getElem_mem _

theorem exists_findInput {txdsin : CTxDSIn} (hmem : txdsin ∈ s.inputs)
    (hsame : txdsin.prevout = txin.prevout) :
    ∃ txdsin' i, s.findInput txin.prevout = some (txdsin', i) := by
  obtain ⟨i, hi, heq⟩ := List.mem_iff_getElem.mp hmem
  have hzip : (txdsin, i) ∈ s.inputs.zipIdx.filter fun p => p.1.prevout = txin.prevout := by
    refine List.mem_filter.mpr ⟨?_, decide_eq_true hsame⟩
    rw [List.mem_zipIdx_iff_getElem?]
    exact List.getElem?_eq_some_iff.mpr ⟨hi, heq⟩
  cases hlast : s.findInput txin.prevout with
  | none =>
    rw [findInput, List.getLast?_eq_none_iff] at hlast
    rw [hlast] at hzip
    exact absurd hzip List.not_mem_nil
  | some p => exact ⟨p.1, p.2, rfl⟩

/-- For an input of the session, a script is checked against the empty one. -/
theorem isInputScriptSigValid_eq (h : Sound params ledger s) (hunsigned : Unsigned s txin) :
    ∃ tx nIn, s.isInputScriptSigValid m txin = m.verifyScript tx nIn txin.scriptSig [] := by
  obtain ⟨txdsin, hmem, hsame, -⟩ := hunsigned
  obtain ⟨txdsin', i, hfind⟩ := exists_findInput hmem hsame.1
  unfold isInputScriptSigValid
  rw [hfind]
  dsimp only
  rw [h.memory txdsin' (findInput_mem hfind)]
  exact ⟨_, _, rfl⟩

/-- A script that is true by itself is accepted for every input that has none, unless another input
has it. -/
theorem addScriptSig_iff (h : Sound params ledger s) (stack : List (List UInt8))
    (heval : ∀ tx nIn, m.evalScript tx nIn [] txin.scriptSig = some stack)
    (htrue : topIsTrue stack = true) :
    (s.addScriptSig m txin).1 = true ↔ Unsigned s txin ∧ Fresh s txin := by
  have htakes : (s.addScriptSig m txin).1 = true ↔ Takes m s txin := by
    rcases addScriptSig_cases (m := m) h txin with ⟨htakes, heq⟩ | ⟨⟨-, -, other, hother,
      hsame', hsig'⟩, heq⟩ | ⟨hnot, -, heq⟩
    · rw [heq]
      exact iff_of_true rfl htakes
    · rw [heq]
      refine iff_of_false nofun fun ⟨_, _, txdsin, hmem, hsame, hsig⟩ => ?_
      have hinj := List.inj_on_of_nodup_map h.distinct hmem hother (hsame.1.trans hsame'.1.symm)
      rw [hinj] at hsig
      exact nomatch hsig.symm.trans hsig'
    · rw [heq]
      exact iff_of_false nofun hnot
  rw [htakes]
  constructor
  · rintro ⟨hfresh, -, hunsigned⟩
    exact ⟨hunsigned, hfresh⟩
  · rintro ⟨hunsigned, hfresh⟩
    obtain ⟨tx, nIn, hvalid⟩ := isInputScriptSigValid_eq (m := m) h hunsigned
    rw [verifyScript_nil, heval, Option.map_some, htrue] at hvalid
    exact ⟨hfresh, hvalid, hunsigned⟩

/-! ### Honest scripts and others -/

/-- What a client signs an input of the final transaction with: a signature and a key, of which
keys start with a byte that is not zero. -/
structure Honest (m : Machine) (ledger : COutPoint → CTxOut) (s : CCoinJoinServer) (txin : CTxIn) :
    Prop where
  satisfies : Satisfies m ledger s txin
  script : ∃ vchSig header vchKey, txin.scriptSig = pushData vchSig ++ pushData (header :: vchKey) ∧
    vchSig.length ≤ 75 ∧ vchKey.length ∈ [32, 64] ∧ header ≠ 0

theorem addScriptSig_honest_iff (h : Sound params ledger s) (hhonest : Honest m ledger s txin) :
    (s.addScriptSig m txin).1 = true ↔ Unsigned s txin ∧ Fresh s txin := by
  obtain ⟨vchSig, header, vchKey, hscript, hsig, hkey, hheader⟩ := hhonest.script
  have hlength : 32 ≤ vchKey.length ∧ vchKey.length ≤ 64 := by
    rw [List.mem_cons, List.mem_singleton] at hkey
    omega
  apply addScriptSig_iff h [header :: vchKey, vchSig]
  · intro tx nIn
    rw [hscript]
    exact evalScript_pushData_pushData hsig (Nat.succ_le_succ (hlength.2.trans (by decide)))
  · have hsome : vchKey ≠ [] := by
      rintro rfl
      exact absurd hlength.1 (by decide)
    change castToBool (header :: vchKey) = true
    rw [castToBool, if_neg hheader, decide_eq_false hsome]
    rfl

/-- A push of a true value, one for each number. -/
def garbage (j : ℕ) : CScript := pushData (1 :: writeLE 8 j)

theorem garbage_injOn : Set.InjOn garbage {j | j < 2^64} := by
  intro i hi j hj heq
  have hbytes : writeLE 8 i = writeLE 8 j := (List.cons.inj (List.cons.inj heq).2).2
  have hnat := congrArg leNat hbytes
  rw [leNat_writeLE, leNat_writeLE, show 256^8 = 2^64 by rfl, Nat.mod_eq_of_lt hi,
    Nat.mod_eq_of_lt hj] at hnat
  exact hnat

/-- Of as many as there are inputs and one more, one is fresh. -/
theorem exists_fresh_garbage (h : Sound params ledger s) (txin : CTxIn) :
    ∃ j, Fresh s {txin with scriptSig := garbage j} := by
  let scripts : Finset CScript := (s.inputs.map fun txdsin => txdsin.scriptSig).toFinset
  let candidates : Finset CScript := (Finset.range (s.inputs.length+1)).image garbage
  have hsmall : s.inputs.length+1 ≤ 2^64 := by
    have hle := length_inputs_le h
    have hmax := params.max_lt
    unfold COINJOIN_ENTRY_MAX_SIZE at hle
    omega
  have hcandidates : candidates.card = s.inputs.length+1 := by
    rw [Finset.card_image_of_injOn, Finset.card_range]
    exact garbage_injOn.mono fun j hj => (Finset.mem_range.mp hj).trans_le hsmall
  have hscripts : scripts.card ≤ s.inputs.length :=
    (List.toFinset_card_le _).trans_eq (List.length_map _)
  obtain ⟨script, hmem, hnew⟩ := Finset.exists_mem_notMem_of_card_lt_card
    (show scripts.card < candidates.card by omega)
  obtain ⟨j, -, rfl⟩ := Finset.mem_image.mp hmem
  refine ⟨j, fun txdsin htxdsin hsame => hnew ?_⟩
  exact List.mem_toFinset.mpr (List.mem_map.mpr ⟨txdsin, htxdsin, hsame⟩)

/-- While an input has no script, one that does not satisfy its coin is accepted for it. -/
theorem exists_accepted_garbage (h : Sound params ledger s) (hunsigned : Unsigned s txin) :
    ∃ txin', (s.addScriptSig m txin').1 = true ∧ ¬Satisfies m ledger s txin' := by
  obtain ⟨j, hfresh⟩ := exists_fresh_garbage h txin
  have hsize : (1 :: writeLE 8 j).length ≤ 75 := by
    rw [List.length_cons, length_writeLE]
    decide
  refine ⟨{txin with scriptSig := garbage j}, ?_, ?_⟩
  · exact (addScriptSig_iff h _ (fun tx nIn => evalScript_pushData hsize) rfl).mpr
      ⟨hunsigned, hfresh⟩
  · obtain ⟨txdsin, hmem, hsame, -⟩ := hunsigned
    have hfits := h.inputs txdsin hmem
    rw [hsame.1] at hfits
    exact not_satisfies hfits.2 _ fun tx nIn => evalScript_pushData hsize

/-- In every state that a run reaches, only scripts that satisfy their coins are accepted exactly
when nothing is left to sign. An honest script is accepted exactly when its input has none and no
other input has it. -/
theorem signatures_checked_iff (m : Machine) (params : PoolParams) (ledger : COutPoint → CTxOut)
    (messages : List (ServerEnv × ServerMessage)) :
    let s := Runs.final (step m params ledger) {} messages
    ((∀ txin, (s.addScriptSig m txin).1 = true → Satisfies m ledger s txin) ↔
      s.isSignaturesComplete = true) ∧
    ∀ txin, Honest m ledger s txin →
      ((s.addScriptSig m txin).1 = true ↔ Unsigned s txin ∧ Fresh s txin) := by
  intro s
  have h : Sound params ledger s := final_sound messages
  refine ⟨⟨fun hchecked => ?_, fun hcomplete txin haccepted => ?_⟩,
    fun txin hhonest => addScriptSig_honest_iff h hhonest⟩
  · rw [isSignaturesComplete_iff]
    intro txin hunsigned
    obtain ⟨txin', haccepted, hnot⟩ := exists_accepted_garbage (m := m) h hunsigned
    exact hnot (hchecked txin' haccepted)
  · have hnone := isSignaturesComplete_iff.mp hcomplete txin
    rcases addScriptSig_cases (m := m) h txin with ⟨htakes, -⟩ | ⟨-, heq⟩ | ⟨-, -, heq⟩
    · exact absurd htakes.2.2 hnone
    · rw [heq] at haccepted
      exact nomatch haccepted
    · rw [heq] at haccepted
      exact nomatch haccepted

/-- A number is a script that is true, and no signature of a key. -/
theorem not_signatures_checked :
    ¬∀ (m : Machine) (params : PoolParams) (ledger : COutPoint → CTxOut)
      (messages : List (ServerEnv × ServerMessage)) (txin : CTxIn),
      let s := Runs.final (step m params ledger) {} messages
      (s.addScriptSig m txin).1 = true → Satisfies m ledger s txin := by
  intro h
  have hcoin : isPayToPublicKeyHash (Sessions.coins
      (Sessions.spending [OP_1]).prevout).scriptPubKey = true := rfl
  refine not_satisfies hcoin [1] (fun tx nIn => rfl)
    (h Sessions.machine testPoolParams Sessions.coins
      (Sessions.messages.take 5) (Sessions.spending [OP_1]) ?_)
  decide +kernel

end BabaChain.CoinJoin
