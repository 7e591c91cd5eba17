import BabaChain.CoinJoinServer
import Mathlib

/-! What holds of a mixing session in every state that a masternode reaches. -/
namespace BabaChain.CoinJoin
open Script Guards CCoinJoinServer

variable {m : Machine} {params : PoolParams} {ledger : COutPoint → CTxOut} {env : ServerEnv}
  {s : CCoinJoinServer} {txin : CTxIn}

/-! ### Signatures of entries -/

/-- An input spends the same coin in the same way. -/
def SameSpend (txdsin txin : CTxIn) : Prop :=
  txdsin.prevout = txin.prevout ∧ txdsin.nSequence = txin.nSequence

instance (txdsin txin : CTxIn) : Decidable (SameSpend txdsin txin) :=
  inferInstanceAs (Decidable (_ ∧ _))

/-- An input after a script has been added. -/
def signed (txin : CTxIn) (txdsin : CTxDSIn) : CTxDSIn :=
  if SameSpend txdsin.toCTxIn txin then {txdsin with scriptSig := txin.scriptSig, fHasSig := true}
  else txdsin

def signedEntry (txin : CTxIn) (entry : CCoinJoinEntry) : CCoinJoinEntry :=
  {entry with vecTxDSIn := entry.vecTxDSIn.map (signed txin)}

theorem signed_prevout (txin : CTxIn) (txdsin : CTxDSIn) :
    (signed txin txdsin).prevout = txdsin.prevout := by
  unfold signed
  split_ifs
  · rfl
  · rfl

theorem signed_of_not (txdsin : CTxDSIn) (h : ¬SameSpend txdsin.toCTxIn txin) :
    signed txin txdsin = txdsin := if_neg h

theorem map_signed_of_not {l : List CTxDSIn} (h : ∀ txdsin ∈ l, ¬SameSpend txdsin.toCTxIn txin) :
    l.map (signed txin) = l :=
  (List.map_congr_left fun txdsin hmem => signed_of_not txdsin (h txdsin hmem)).trans
    (List.map_id' l)

/-- The script goes to the one input that it is for, if this has no script yet. -/
theorem addEntryScriptSig_some {l l' : List CTxDSIn}
    (hdistinct : (l.map fun txdsin => txdsin.prevout).Nodup)
    (h : addEntryScriptSig txin l = some l') :
    l' = l.map (signed txin) ∧
      ∃ txdsin ∈ l, SameSpend txdsin.toCTxIn txin ∧ txdsin.fHasSig = false := by
  induction l generalizing l' with
  | nil => exact nomatch h
  | cons txdsin l ih =>
    rw [List.map_cons, List.nodup_cons] at hdistinct
    rw [addEntryScriptSig] at h
    split_ifs at h with hsame hsig
    · have hothers : ∀ other ∈ l, ¬SameSpend other.toCTxIn txin := by
        intro other hmem hother
        exact hdistinct.1 (List.mem_map.mpr ⟨other, hmem, hother.1.trans hsame.1.symm⟩)
      refine ⟨?_, txdsin, List.mem_cons_self, hsame, eq_false_of_ne_true hsig⟩
      rw [← Option.some.inj h, List.map_cons, map_signed_of_not hothers, signed,
        if_pos (show SameSpend txdsin.toCTxIn txin from hsame)]
    · obtain ⟨rest, hrest, heq⟩ := Option.map_eq_some_iff.mp h
      obtain ⟨rfl, other, hmem, hother⟩ := ih hdistinct.2 hrest
      refine ⟨?_, other, List.mem_cons_of_mem _ hmem, hother⟩
      rw [← heq, List.map_cons, signed_of_not txdsin hsame]

theorem addEntryScriptSig_none {l : List CTxDSIn}
    (hdistinct : (l.map fun txdsin => txdsin.prevout).Nodup)
    (h : addEntryScriptSig txin l = none) :
    ∀ txdsin ∈ l, SameSpend txdsin.toCTxIn txin → txdsin.fHasSig = true := by
  induction l with
  | nil => exact fun txdsin hmem => absurd hmem List.not_mem_nil
  | cons txdsin l ih =>
    rw [List.map_cons, List.nodup_cons] at hdistinct
    rw [addEntryScriptSig] at h
    intro other hmem hother
    split_ifs at h with hsame hsig
    · rcases List.mem_cons.mp hmem with rfl | hmem
      · exact hsig
      · exact absurd (List.mem_map.mpr ⟨other, hmem, hother.1.trans hsame.1.symm⟩) hdistinct.1
    · rcases List.mem_cons.mp hmem with rfl | hmem
      · exact absurd hother hsame
      · exact ih hdistinct.2 (Option.map_eq_none_iff.mp h) other hmem hother

theorem addEntriesScriptSig_some {es es' : List CCoinJoinEntry}
    (hdistinct : ((es.flatMap CCoinJoinEntry.vecTxDSIn).map fun txdsin => txdsin.prevout).Nodup)
    (h : addEntriesScriptSig txin es = some es') :
    es' = es.map (signedEntry txin) ∧
      ∃ txdsin ∈ es.flatMap CCoinJoinEntry.vecTxDSIn,
        SameSpend txdsin.toCTxIn txin ∧ txdsin.fHasSig = false := by
  induction es generalizing es' with
  | nil => exact nomatch h
  | cons entry es ih =>
    rw [List.flatMap_cons, List.map_append, List.nodup_append] at hdistinct
    obtain ⟨hentry, hrest, hcross⟩ := hdistinct
    rw [addEntriesScriptSig] at h
    rw [List.flatMap_cons]
    cases hadd : addEntryScriptSig txin entry.vecTxDSIn with
    | some vecTxDSIn =>
      obtain ⟨rfl, txdsin, hmem, hsame, hsig⟩ := addEntryScriptSig_some hentry hadd
      rw [hadd] at h
      refine ⟨?_, txdsin, List.mem_append_left _ hmem, hsame, hsig⟩
      have hothers : es.map (signedEntry txin) = es := by
        refine (List.map_congr_left fun other hother => ?_).trans (List.map_id' es)
        unfold signedEntry
        rw [map_signed_of_not]
        intro txdsin' hmem' hsame'
        refine hcross _ (List.mem_map.mpr ⟨txdsin, hmem, rfl⟩) _ (List.mem_map.mpr ⟨txdsin',
          List.mem_flatMap.mpr ⟨other, hother, hmem'⟩, rfl⟩) (hsame.1.trans hsame'.1.symm)
      rw [← Option.some.inj h, List.map_cons, hothers]
      rfl
    | none =>
      rw [hadd] at h
      obtain ⟨rest, hadded, heq⟩ := Option.map_eq_some_iff.mp h
      obtain ⟨rfl, txdsin, hmem, hsame, hsig⟩ := ih hrest hadded
      refine ⟨?_, txdsin, List.mem_append_right _ hmem, hsame, hsig⟩
      have hfirst : signedEntry txin entry = entry := by
        unfold signedEntry
        rw [map_signed_of_not]
        intro txdsin' hmem' hsame'
        exact hcross _ (List.mem_map.mpr ⟨txdsin', hmem', rfl⟩) _
          (List.mem_map.mpr ⟨txdsin, hmem, rfl⟩) (hsame'.1.trans hsame.1.symm)
      rw [← heq, List.map_cons, hfirst]

theorem addEntriesScriptSig_none {es : List CCoinJoinEntry}
    (hdistinct : ((es.flatMap CCoinJoinEntry.vecTxDSIn).map fun txdsin => txdsin.prevout).Nodup)
    (h : addEntriesScriptSig txin es = none) :
    ∀ txdsin ∈ es.flatMap CCoinJoinEntry.vecTxDSIn,
      SameSpend txdsin.toCTxIn txin → txdsin.fHasSig = true := by
  induction es with
  | nil => exact fun txdsin hmem => absurd hmem List.not_mem_nil
  | cons entry es ih =>
    rw [List.flatMap_cons, List.map_append, List.nodup_append] at hdistinct
    rw [addEntriesScriptSig] at h
    intro txdsin hmem hsame
    rw [List.flatMap_cons, List.mem_append] at hmem
    cases hadd : addEntryScriptSig txin entry.vecTxDSIn with
    | some vecTxDSIn =>
      rw [hadd] at h
      exact nomatch h
    | none =>
      rw [hadd] at h
      rcases hmem with hmem | hmem
      · exact addEntryScriptSig_none hdistinct.1 hadd txdsin hmem hsame
      · exact ih hdistinct.2.1 (Option.map_eq_none_iff.mp h) txdsin hmem hsame

theorem inputs_signed (es : List CCoinJoinEntry) :
    (es.map (signedEntry txin)).flatMap CCoinJoinEntry.vecTxDSIn =
      (es.flatMap CCoinJoinEntry.vecTxDSIn).map (signed txin) := by
  rw [List.flatMap_map, List.map_flatMap]
  rfl

theorem setScriptSig_inputs (l : List CTxDSIn) :
    setScriptSig txin (l.map CTxDSIn.toCTxIn) = (l.map (signed txin)).map CTxDSIn.toCTxIn := by
  unfold setScriptSig
  rw [List.map_map, List.map_map]
  apply List.map_congr_left
  intro txdsin _
  dsimp only [Function.comp]
  by_cases hsame : SameSpend txdsin.toCTxIn txin
  · rw [signed, if_pos hsame]
    exact if_pos hsame
  · rw [signed, if_neg hsame]
    exact if_neg hsame

/-! ### The invariant -/

/-- What an input spends, and how. -/
def spend (txin : CTxIn) : COutPoint × BitVec 32 := (txin.prevout, txin.nSequence)

structure Sound (params : PoolParams) (ledger : COutPoint → CTxOut) (s : CCoinJoinServer) :
    Prop where
  idle_iff : s.nSessionID = 0 ↔ s.nState = .IDLE
  collaterals_iff : s.nState = .IDLE ↔ s.vecSessionCollaterals = []
  entries_le : s.vecEntries.length ≤ s.vecSessionCollaterals.length
  collaterals_le : s.vecSessionCollaterals.length ≤ params.nPoolMaxParticipants
  distinct : (s.inputs.map fun txdsin => txdsin.prevout).Nodup
  inputs : ∀ txdsin ∈ s.inputs, Fits s.nSessionDenom (ledger txdsin.prevout)
  outputs : ∀ txout ∈ s.outputs, Fits s.nSessionDenom txout
  counts : ∀ entry ∈ s.vecEntries, entry.vecTxDSIn.length = entry.vecTxOut.length
  sizes : ∀ entry ∈ s.vecEntries, entry.vecTxDSIn.length ≤ COINJOIN_ENTRY_MAX_SIZE
  denomination : s.nState ≠ .IDLE → 0 < s.nSessionDenom
  memory : ∀ txdsin ∈ s.inputs, txdsin.prevPubKey = []
  /-- Up to their scripts, the inputs of the final transaction are those of the entries. -/
  vin : s.nState = .SIGNING → (s.finalMutableTransaction.vin.map spend).Perm
    (s.inputs.map fun txdsin => spend txdsin.toCTxIn)
  vout : s.nState = .SIGNING → s.finalMutableTransaction.vout.Perm s.outputs
  unsigned : s.nState ≠ .SIGNING → s.finalMutableTransaction.vin = []

/-- The same with the scripts. -/
def Merged (s : CCoinJoinServer) : Prop :=
  s.nState = .SIGNING →
    s.finalMutableTransaction.vin.Perm (s.inputs.map CTxDSIn.toCTxIn)

theorem merged_of_ne (h : s.nState ≠ .SIGNING) : Merged s := fun hsigning => absurd hsigning h

/-! ### Resets -/

theorem init_sound : Sound params ledger {} where
  idle_iff := ⟨fun _ => rfl, fun _ => rfl⟩
  collaterals_iff := ⟨fun _ => rfl, fun _ => rfl⟩
  entries_le := le_rfl
  collaterals_le := Nat.zero_le _
  distinct := List.nodup_nil
  inputs _ hmem := absurd hmem List.not_mem_nil
  outputs _ hmem := absurd hmem List.not_mem_nil
  counts _ hmem := absurd hmem List.not_mem_nil
  sizes _ hmem := absurd hmem List.not_mem_nil
  denomination hstate := absurd rfl hstate
  memory _ hmem := absurd hmem List.not_mem_nil
  vin hstate := nomatch hstate
  vout hstate := nomatch hstate
  unsigned _ := rfl

theorem setNull_sound (env : ServerEnv) (s : CCoinJoinServer) :
    Sound params ledger (s.setNull env) :=
  {init_sound with}

theorem setNull_merged (env : ServerEnv) (s : CCoinJoinServer) : Merged (s.setNull env) :=
  nofun

/-- The clients of a session are gone. -/
def AllGone (env : ServerEnv) (s : CCoinJoinServer) : Prop :=
  s.vecEntries ≠ [] ∧ ∀ entry ∈ s.vecEntries, env.connected entry.addr = false

theorem relayStatus_cases (env : ServerEnv) (s : CCoinJoinServer) :
    (s.relayStatus env = s ∧ ¬AllGone env s) ∨
      (s.relayStatus env = s.setNull env ∧ AllGone env s) := by
  unfold relayStatus AllGone
  dsimp only
  split_ifs with hnone hall
  · refine Or.inl ⟨rfl, fun ⟨hsome, hgone⟩ => ?_⟩
    obtain ⟨entry, hmem⟩ := List.exists_mem_of_ne_nil _ hsome
    rw [List.countP_eq_zero] at hnone
    apply hnone entry hmem
    rw [hgone entry hmem]
    rfl
  · refine Or.inr ⟨rfl, fun hempty => ?_, fun entry hmem => ?_⟩
    · rw [hempty] at hnone
      exact hnone rfl
    · have hgone := List.countP_eq_length.mp hall entry hmem
      rw [Bool.not_eq_true'] at hgone
      exact hgone
  · refine Or.inl ⟨rfl, fun ⟨_, hgone⟩ => hall ?_⟩
    rw [List.countP_eq_length]
    intro entry hmem
    rw [hgone entry hmem]
    rfl

theorem relayStatus_induction {P : CCoinJoinServer → Prop} (hs : P s) (hnull : P (s.setNull env)) :
    P (s.relayStatus env) := by
  rcases relayStatus_cases env s with ⟨heq, -⟩ | ⟨heq, -⟩
  · rw [heq]
    exact hs
  · rw [heq]
    exact hnull

theorem relayToEntries_induction {P : CCoinJoinServer → Prop} (hs : P s)
    (hnull : P (s.setNull env)) : P (s.relayToEntries env) := by
  unfold relayToEntries
  split_ifs
  · exact hs
  · exact relayStatus_induction hs hnull

/-! ### Users and entries -/

/-- A change of the state that leaves the session and what it holds as it was. -/
theorem Sound.setState (h : Sound params ledger s) {nState : PoolState} (hidle : nState ≠ .IDLE)
    (hsigning : nState ≠ .SIGNING) (hstate : s.nState ≠ .IDLE) (hstate' : s.nState ≠ .SIGNING) :
    Sound params ledger (s.setState env nState) :=
  { h with
    idle_iff := iff_of_false (fun hzero => hstate (h.idle_iff.mp hzero)) hidle
    collaterals_iff := iff_of_false hidle fun hnone => hstate (h.collaterals_iff.mpr hnone)
    denomination := fun _ => h.denomination hstate
    vin := fun hsign => absurd hsign hsigning
    vout := fun hsign => absurd hsign hsigning
    unsigned := fun _ => h.unsigned hstate' }

theorem isAcceptableDSA_ok {dsa : CCoinJoinAccept} (h : isAcceptableDSA env dsa = .ok ()) :
    isValidDenomination dsa.nDenom = true := by
  unfold isAcceptableDSA at h
  rw [refuse_then_ok_iff, Bool.not_eq_false] at h
  exact h.1

theorem createNewSession_sound (h : Sound params ledger s) {dsa : CCoinJoinAccept}
    {s' : CCoinJoinServer} (hok : s.createNewSession env dsa = .ok s') :
    Sound params ledger s' ∧ s'.nState = .QUEUE := by
  unfold createNewSession at hok
  rw [refuse_then_ok_iff, refuse_then_ok_iff, not_ne_iff, not_ne_iff] at hok
  obtain ⟨-, hidle, hok⟩ := hok
  obtain ⟨⟨⟩, hdsa, hok⟩ := bind_ok_iff.mp hok
  have hcollaterals := h.collaterals_iff.mp hidle
  have hentries : s.vecEntries = [] := by
    have hle := h.entries_le
    rw [hcollaterals] at hle
    exact List.length_eq_zero_iff.mp (Nat.le_zero.mp hle)
  have hinputs : s.inputs = [] := by rw [inputs, hentries, List.flatMap_nil]
  have houtputs : s.outputs = [] := by rw [outputs, hentries, List.flatMap_nil]
  rw [← Except.ok.inj hok]
  refine ⟨?_, rfl⟩
  exact
    { h with
      idle_iff := iff_of_false (by dsimp only; omega) nofun
      collaterals_iff := iff_of_false nofun (List.append_ne_nil_of_right_ne_nil _ nofun)
      entries_le := by
        rw [hentries]
        exact Nat.zero_le _
      collaterals_le := by
        rw [hcollaterals]
        exact params.min_pos.trans_le params.min_le_max
      inputs := fun txdsin hmem => absurd (hinputs ▸ hmem) List.not_mem_nil
      outputs := fun txout hmem => absurd (houtputs ▸ hmem) List.not_mem_nil
      denomination := fun _ => denomination_pos (isAcceptableDSA_ok hdsa)
      vin := nofun
      vout := nofun
      unsigned := fun _ => h.unsigned (hidle ▸ nofun) }

theorem addUserToExistingSession_sound (h : Sound params ledger s) {dsa : CCoinJoinAccept}
    {s' : CCoinJoinServer} (hok : s.addUserToExistingSession params env dsa = .ok s') :
    Sound params ledger s' ∧ s'.nState = .QUEUE := by
  unfold addUserToExistingSession at hok
  rw [refuse_then_ok_iff, not_or, Bool.not_eq_true] at hok
  obtain ⟨⟨-, hready⟩, hok⟩ := hok
  obtain ⟨⟨⟩, -, hok⟩ := bind_ok_iff.mp hok
  rw [refuse_then_ok_iff, refuse_then_ok_iff, not_ne_iff] at hok
  obtain ⟨hqueue, -, hok⟩ := hok
  have hroom : s.vecSessionCollaterals.length < params.nPoolMaxParticipants := by
    unfold isSessionReady at hready
    rw [hqueue] at hready
    dsimp only at hready
    rw [Bool.or_eq_false_iff, decide_eq_false_iff_not, not_le] at hready
    exact hready.1
  rw [← Except.ok.inj hok]
  refine ⟨?_, hqueue⟩
  exact
    { h with
      collaterals_iff := iff_of_false (hqueue ▸ nofun)
        (List.append_ne_nil_of_right_ne_nil _ nofun)
      entries_le := by
        rw [List.length_append]
        exact h.entries_le.trans (Nat.le_add_right _ _)
      collaterals_le := by
        rw [List.length_append]
        exact hroom }

/-- What every step that commits nothing keeps. -/
structure Keeps (params : PoolParams) (ledger : COutPoint → CTxOut) (s : CCoinJoinServer)
    (result : ServerOutput × CCoinJoinServer) : Prop where
  sound : Sound params ledger result.2
  merged : Merged s → Merged result.2
  dstx : result.1.dstx = none

theorem processDSACCEPT_keeps (h : Sound params ledger s) (dsa : CCoinJoinAccept) :
    Keeps params ledger s (s.processDSACCEPT params env dsa) := by
  unfold processDSACCEPT
  split_ifs
  · exact ⟨h, id, rfl⟩
  · exact ⟨h, id, rfl⟩
  · exact ⟨h, id, rfl⟩
  · exact ⟨h, id, rfl⟩
  · cases hok : s.createNewSession env dsa with
    | error nMessageID => exact ⟨h, id, rfl⟩
    | ok s' =>
      obtain ⟨hnext, hqueue⟩ := createNewSession_sound h hok
      exact ⟨hnext, fun _ => merged_of_ne (hqueue ▸ nofun), rfl⟩
  · cases hok : s.addUserToExistingSession params env dsa with
    | error nMessageID => exact ⟨h, id, rfl⟩
    | ok s' =>
      obtain ⟨hnext, hqueue⟩ := addUserToExistingSession_sound h hok
      exact ⟨hnext, fun _ => merged_of_ne (hqueue ▸ nofun), rfl⟩

theorem inputs_append (s : CCoinJoinServer) (entry : CCoinJoinEntry) :
    ({s with vecEntries := s.vecEntries ++ [entry]} : CCoinJoinServer).inputs =
      s.inputs ++ entry.vecTxDSIn := by
  unfold inputs
  rw [List.flatMap_append, List.flatMap_singleton]

theorem outputs_append (s : CCoinJoinServer) (entry : CCoinJoinEntry) :
    ({s with vecEntries := s.vecEntries ++ [entry]} : CCoinJoinServer).outputs =
      s.outputs ++ entry.vecTxOut := by
  unfold outputs
  rw [List.flatMap_append, List.flatMap_singleton]

/-- An entry is taken when its inputs are new to the session and mixable. -/
theorem addEntry_ok {entry : CCoinJoinEntry} {s' : CCoinJoinServer}
    (hok : s.addEntry ledger env entry = .ok s') :
    s' = {s with vecEntries := s.vecEntries ++ [entry]} ∧
      s.vecEntries.length < s.vecSessionCollaterals.length ∧
      entry.vecTxDSIn.length ≤ COINJOIN_ENTRY_MAX_SIZE ∧
      (∀ txin ∈ entry.vecTxDSIn, ∀ txdsin ∈ s.inputs, txdsin.prevout ≠ txin.prevout) ∧
      Mixable (view ledger env) s.nSessionDenom (entry.vecTxDSIn.map CTxDSIn.toCTxIn)
        entry.vecTxOut := by
  unfold addEntry at hok
  rw [refuse_then_ok_iff, refuse_then_ok_iff, refuse_then_ok_iff, refuse_then_ok_iff] at hok
  obtain ⟨hroom, -, hsize, hnew, hok⟩ := hok
  obtain ⟨⟨⟩, hvalid, hok⟩ := bind_ok_iff.mp hok
  push Not at hnew
  exact ⟨(Except.ok.inj hok).symm, not_le.mp hroom, not_lt.mp hsize, hnew,
    isValidInOuts_ok (mapError_ok_iff.mp hvalid)⟩

theorem addEntry_sound (h : Sound params ledger s) (hsigning : s.nState ≠ .SIGNING)
    {entry : CCoinJoinEntry} {s' : CCoinJoinServer}
    (hmemory : ∀ txdsin ∈ entry.vecTxDSIn, txdsin.prevPubKey = [])
    (hok : s.addEntry ledger env entry = .ok s') : Sound params ledger s' := by
  obtain ⟨rfl, hroom, hsize, hnew, hmixable⟩ := addEntry_ok hok
  have hfits : ∀ txdsin ∈ entry.vecTxDSIn, Fits s.nSessionDenom (ledger txdsin.prevout) := by
    intro txdsin hmem
    obtain ⟨coin, hcoin, -, hfits⟩ := hmixable.inputs _ (List.mem_map.mpr ⟨txdsin, hmem, rfl⟩)
    obtain ⟨nHeight, -, rfl⟩ := Option.map_eq_some_iff.mp hcoin
    exact hfits
  have hprevouts := hmixable.prevouts
  rw [List.map_map] at hprevouts
  have hcount := hmixable.length
  rw [List.length_map] at hcount
  exact
    { h with
      entries_le := by
        rw [List.length_append]
        exact hroom
      distinct := by
        rw [inputs_append, List.map_append, List.nodup_append]
        refine ⟨h.distinct, hprevouts, fun a ha b hb => ?_⟩
        obtain ⟨txdsin, htxdsin, rfl⟩ := List.mem_map.mp ha
        obtain ⟨txin, htxin, rfl⟩ := List.mem_map.mp hb
        exact hnew txin htxin txdsin htxdsin
      inputs := by
        rw [inputs_append]
        exact List.forall_mem_append.mpr ⟨h.inputs, hfits⟩
      outputs := by
        rw [outputs_append]
        exact List.forall_mem_append.mpr ⟨h.outputs, hmixable.outputs⟩
      counts := List.forall_mem_append.mpr ⟨h.counts, List.forall_mem_singleton.mpr hcount⟩
      sizes := List.forall_mem_append.mpr ⟨h.sizes, List.forall_mem_singleton.mpr hsize⟩
      memory := by
        rw [inputs_append]
        exact List.forall_mem_append.mpr ⟨h.memory, hmemory⟩
      vin := fun hsign => absurd hsign hsigning
      vout := fun hsign => absurd hsign hsigning }

/-! ### The final transaction -/

variable (env) in
theorem createFinalTransaction_sound (h : Sound params ledger s) (hidle : s.nState ≠ .IDLE) :
    Sound params ledger (s.createFinalTransaction env) ∧
      Merged (s.createFinalTransaction env) := by
  have hvin : (sortInputs (s.inputs.map CTxDSIn.toCTxIn)).Perm
      (s.inputs.map CTxDSIn.toCTxIn) := List.perm_insertionSort _ _
  unfold createFinalTransaction
  apply relayToEntries_induction (P := fun s' => Sound params ledger s' ∧ Merged s')
  · refine ⟨?_, fun _ => hvin⟩
    exact
      { h with
        idle_iff := iff_of_false (fun hzero => hidle (h.idle_iff.mp hzero)) nofun
        collaterals_iff := iff_of_false nofun fun hnone => hidle (h.collaterals_iff.mpr hnone)
        denomination := fun _ => h.denomination hidle
        vin := fun _ => (hvin.map spend).trans (List.Perm.of_eq (List.map_map))
        vout := fun _ => List.perm_insertionSort _ _
        unsigned := fun hnot => absurd rfl hnot }
  · exact ⟨setNull_sound env _, setNull_merged env _⟩

theorem commitFinalTransaction_snd (env : ServerEnv) (s : CCoinJoinServer) :
    ∃ s' : CCoinJoinServer, (s.commitFinalTransaction env).2 = s'.setNull env := by
  unfold commitFinalTransaction
  dsimp only
  split_ifs
  · exact ⟨s, rfl⟩
  · exact ⟨s.relayToEntries env, rfl⟩
  · exact ⟨s.relayToEntries env, rfl⟩

variable (env) in
theorem checkPool_sound (h : Sound params ledger s) :
    Sound params ledger (s.checkPool params env).2 ∧
      (Merged s → Merged (s.checkPool params env).2) := by
  unfold checkPool
  split_ifs with hfull htimeout hsigned
  · obtain ⟨hsound, hmerged⟩ := createFinalTransaction_sound env h (hfull.1 ▸ nofun)
    exact ⟨hsound, fun _ => hmerged⟩
  · obtain ⟨hsound, hmerged⟩ := createFinalTransaction_sound env h (htimeout.1 ▸ nofun)
    exact ⟨hsound, fun _ => hmerged⟩
  · obtain ⟨s', heq⟩ := commitFinalTransaction_snd env s
    rw [heq]
    exact ⟨setNull_sound env s', fun _ => setNull_merged env s'⟩
  · exact ⟨h, id⟩

/-- A transaction is committed in a state that is signed, when the mempool takes it. -/
def Commits (env : ServerEnv) (s : CCoinJoinServer) : Prop :=
  s.nState = .SIGNING ∧ s.isSignaturesComplete = true ∧ env.lockMain = true ∧
    env.aTMPIfSaneFee s.finalMutableTransaction = true ∧
    env.hasDSTX s.finalMutableTransaction = false

/-- Where it is committed, there are inputs enough and the masternode can be named. -/
def CommitsWell (params : PoolParams) (env : ServerEnv) (s : CCoinJoinServer) : Prop :=
  Commits env s → params.nPoolMinParticipants ≤ s.inputs.length ∧
    ¬(isNullOutPoint env.outpoint = true ∧ env.proTxHash = 0)

theorem checkPool_dstx_iff {dstx : CCoinJoinBroadcastTx} :
    (s.checkPool params env).1 = some dstx ↔
      Commits env s ∧ dstx = ⟨s.finalMutableTransaction, env.outpoint, env.proTxHash⟩ := by
  unfold checkPool Commits
  split_ifs with hfull htimeout hsigned
  · exact iff_of_false nofun fun hcommits => nomatch hfull.1.symm.trans hcommits.1.1
  · exact iff_of_false nofun fun hcommits => nomatch htimeout.1.symm.trans hcommits.1.1
  · unfold commitFinalTransaction
    dsimp only
    split_ifs with hrefused hknown
    · refine iff_of_false nofun fun hcommits => ?_
      rcases hrefused with hlock | haccept
      · exact nomatch hlock.symm.trans hcommits.1.2.2.1
      · exact nomatch haccept.symm.trans hcommits.1.2.2.2.1
    · exact iff_of_false nofun fun hcommits => nomatch hknown.symm.trans hcommits.1.2.2.2.2
    · rw [not_or, Bool.not_eq_false, Bool.not_eq_false] at hrefused
      rw [Option.some.injEq, eq_comm, iff_and_self]
      exact fun _ => ⟨hsigned.1, hsigned.2, hrefused.1, hrefused.2, eq_false_of_ne_true hknown⟩
  · exact iff_of_false nofun fun hcommits => hsigned ⟨hcommits.1.1, hcommits.1.2.1⟩

theorem length_inputs_eq (h : Sound params ledger s) : s.inputs.length = s.outputs.length := by
  unfold inputs outputs
  rw [List.length_flatMap, List.length_flatMap]
  exact congrArg List.sum (List.map_congr_left h.counts)

theorem length_inputs_le (h : Sound params ledger s) :
    s.inputs.length ≤ params.nPoolMaxParticipants*COINJOIN_ENTRY_MAX_SIZE := by
  unfold inputs
  rw [List.length_flatMap]
  have hsum := List.sum_le_card_nsmul
    (s.vecEntries.map fun entry => entry.vecTxDSIn.length) COINJOIN_ENTRY_MAX_SIZE fun n hn => by
      obtain ⟨entry, hmem, rfl⟩ := List.mem_map.mp hn
      exact h.sizes entry hmem
  rw [List.length_map, smul_eq_mul] at hsum
  exact hsum.trans (Nat.mul_le_mul_right _ (h.entries_le.trans h.collaterals_le))

/-- The structure rule leaves only the least number of inputs and the name of the masternode
open. -/
theorem isValidStructure_iff (h : Sound params ledger s) (hsigning : s.nState = .SIGNING) :
    CCoinJoinBroadcastTx.isValidStructure params
      ⟨s.finalMutableTransaction, env.outpoint, env.proTxHash⟩ = true ↔
      params.nPoolMinParticipants ≤ s.inputs.length ∧
        ¬(isNullOutPoint env.outpoint = true ∧ env.proTxHash = 0) := by
  have hvin : s.finalMutableTransaction.vin.length = s.inputs.length := by
    have hlength := (h.vin hsigning).length_eq
    rw [List.length_map, List.length_map] at hlength
    exact hlength
  have hvout : s.finalMutableTransaction.vout.length = s.inputs.length :=
    (h.vout hsigning).length_eq.trans (length_inputs_eq h).symm
  have houtputs : (s.finalMutableTransaction.vout.all fun txOut =>
      isDenominatedAmount txOut.nValue && isPayToPublicKeyHash txOut.scriptPubKey) = true := by
    rw [List.all_eq_true]
    intro txout hmem
    have hfits := h.outputs txout ((h.vout hsigning).mem_iff.mp hmem)
    have hpos := h.denomination (hsigning ▸ nofun)
    rw [Bool.and_eq_true]
    exact ⟨decide_eq_true (hfits.1.symm ▸ hpos), hfits.2⟩
  unfold CCoinJoinBroadcastTx.isValidStructure
  dsimp only
  rw [hvin, hvout, houtputs, if_neg (not_not.mpr rfl),
    if_neg (not_lt.mpr (length_inputs_le h))]
  split_ifs with hnull hfew
  all_goals rw [Bool.and_eq_true, decide_eq_true_eq] at hnull
  · exact iff_of_false nofun fun hboth => hboth.2 hnull
  · exact iff_of_false nofun fun hboth => absurd hboth.1 (not_le.mpr hfew)
  · exact iff_of_true rfl ⟨not_lt.mp hfew, hnull⟩

theorem checkPool_valid_iff (h : Sound params ledger s) :
    (∀ dstx, (s.checkPool params env).1 = some dstx → dstx.isValidStructure params = true) ↔
      CommitsWell params env s := by
  unfold CommitsWell
  constructor
  · intro hall hcommits
    exact (isValidStructure_iff h hcommits.1).mp (hall _ (checkPool_dstx_iff.mpr ⟨hcommits, rfl⟩))
  · intro hwell dstx hdstx
    obtain ⟨hcommits, rfl⟩ := checkPool_dstx_iff.mp hdstx
    exact (isValidStructure_iff h hcommits.1).mpr (hwell hcommits)

theorem processDSVIN_keeps (h : Sound params ledger s) (peer : CService) (vecTxDSIn : List CTxIn)
    (txCollateral : CMutableTransaction) (vecTxOut : List CTxOut) :
    Keeps params ledger s
      (s.processDSVIN params ledger env peer vecTxDSIn txCollateral vecTxOut) := by
  unfold processDSVIN
  split_ifs with hready
  · exact ⟨h, id, rfl⟩
  cases hadd : s.addEntry ledger env
      ⟨vecTxDSIn.map readTxDSIn, vecTxOut, txCollateral, peer⟩ with
  | error nMessageID => exact ⟨h, id, rfl⟩
  | ok s' =>
    have hsigning : s.nState ≠ .SIGNING := by
      intro hsigning
      unfold isSessionReady at hready
      rw [hsigning] at hready
      exact hready rfl
    have hmemory : ∀ txdsin ∈ vecTxDSIn.map readTxDSIn, txdsin.prevPubKey = [] := by
      intro txdsin hmem
      obtain ⟨txin, -, rfl⟩ := List.mem_map.mp hmem
      rfl
    have hstate : s'.nState ≠ .SIGNING := by
      rw [(addEntry_ok hadd).1]
      exact hsigning
    have hadded := addEntry_sound h hsigning hmemory hadd
    have hpool := checkPool_sound env hadded
    refine ⟨?_, fun _ => ?_, ?_⟩
    · exact relayStatus_induction hpool.1 (setNull_sound env _)
    · exact relayStatus_induction (hpool.2 (merged_of_ne hstate)) (setNull_merged env _)
    · dsimp only
      cases hdstx : (s'.checkPool params env).1 with
      | none => rfl
      | some dstx => exact absurd (checkPool_dstx_iff.mp hdstx).1.1 hstate

/-! ### Scripts -/

/-- A script for an input that has one already would be taken for the final transaction only. -/
def Overwrites (m : Machine) (s : CCoinJoinServer) (txin : CTxIn) : Prop :=
  (∀ txdsin ∈ s.inputs, txdsin.scriptSig ≠ txin.scriptSig) ∧ s.isInputScriptSigValid m txin = true ∧
    ∃ txdsin ∈ s.inputs, SameSpend txdsin.toCTxIn txin ∧ txdsin.fHasSig = true

/-- A script is taken for an input that has none. -/
def Takes (m : Machine) (s : CCoinJoinServer) (txin : CTxIn) : Prop :=
  (∀ txdsin ∈ s.inputs, txdsin.scriptSig ≠ txin.scriptSig) ∧ s.isInputScriptSigValid m txin = true ∧
    ∃ txdsin ∈ s.inputs, SameSpend txdsin.toCTxIn txin ∧ txdsin.fHasSig = false

/-- The final transaction with a script. -/
def finalSigned (s : CCoinJoinServer) (txin : CTxIn) : CCoinJoinServer :=
  let tx := s.finalMutableTransaction
  {s with finalMutableTransaction := {tx with vin := setScriptSig txin tx.vin}}

/-- The session with a script for one of its inputs. -/
def sessionSigned (s : CCoinJoinServer) (txin : CTxIn) : CCoinJoinServer :=
  {finalSigned s txin with vecEntries := s.vecEntries.map (signedEntry txin)}

/-- An input that is not in the entries is not in the final transaction. -/
theorem finalSigned_of_not (h : Sound params ledger s)
    (hnone : ∀ txdsin ∈ s.inputs, ¬SameSpend txdsin.toCTxIn txin) : finalSigned s txin = s := by
  have hvin : setScriptSig txin s.finalMutableTransaction.vin = s.finalMutableTransaction.vin := by
    by_cases hsigning : s.nState = .SIGNING
    · refine (List.map_congr_left fun txin' hmem => if_neg ?_).trans (List.map_id' _)
      intro hsame
      have hspend := (h.vin hsigning).mem_iff.mp (List.mem_map.mpr ⟨txin', hmem, rfl⟩)
      obtain ⟨txdsin, htxdsin, heq⟩ := List.mem_map.mp hspend
      obtain ⟨hprevout, hsequence⟩ := Prod.mk.inj heq
      exact hnone txdsin htxdsin ⟨hprevout.trans hsame.1, hsequence.trans hsame.2⟩
    · rw [h.unsigned hsigning]
      rfl
  unfold finalSigned
  dsimp only
  rw [hvin]

/-- What a script does. -/
theorem addScriptSig_cases (h : Sound params ledger s) (txin : CTxIn) :
    (Takes m s txin ∧ s.addScriptSig m txin = (true, sessionSigned s txin)) ∨
      (Overwrites m s txin ∧ s.addScriptSig m txin = (false, finalSigned s txin)) ∨
      (¬Takes m s txin ∧ ¬Overwrites m s txin ∧ s.addScriptSig m txin = (false, s)) := by
  have hadd : s.addScriptSig m txin =
      if s.inputs.any fun txdsin => txdsin.scriptSig = txin.scriptSig then (false, s)
      else if s.isInputScriptSigValid m txin = false then (false, s)
      else (addEntriesScriptSig txin s.vecEntries).elim (false, finalSigned s txin)
        fun vecEntries => (true, {finalSigned s txin with vecEntries := vecEntries}) := by
    rw [addScriptSig]
    dsimp only
    cases addEntriesScriptSig txin s.vecEntries with
    | some vecEntries => rfl
    | none => rfl
  rw [hadd]
  unfold Takes Overwrites
  split_ifs with hold hvalid
  · obtain ⟨txdsin, hmem, hsame⟩ := List.any_eq_true.mp hold
    refine Or.inr (Or.inr ⟨fun hnew => ?_, fun hnew => ?_, rfl⟩)
    · exact hnew.1 txdsin hmem (of_decide_eq_true hsame)
    · exact hnew.1 txdsin hmem (of_decide_eq_true hsame)
  · refine Or.inr (Or.inr ⟨fun hnew => ?_, fun hnew => ?_, rfl⟩)
    · cases hvalid.symm.trans hnew.2.1
    · cases hvalid.symm.trans hnew.2.1
  have hnew : ∀ txdsin ∈ s.inputs, txdsin.scriptSig ≠ txin.scriptSig := by
    intro txdsin hmem hsame
    exact hold (List.any_eq_true.mpr ⟨txdsin, hmem, decide_eq_true hsame⟩)
  rw [Bool.not_eq_false] at hvalid
  cases hentries : addEntriesScriptSig txin s.vecEntries with
  | some vecEntries =>
    obtain ⟨rfl, htakes⟩ := addEntriesScriptSig_some h.distinct hentries
    exact Or.inl ⟨⟨hnew, hvalid, htakes⟩, rfl⟩
  | none =>
    have hsigs := addEntriesScriptSig_none h.distinct hentries
    by_cases hsame : ∃ txdsin ∈ s.inputs, SameSpend txdsin.toCTxIn txin
    · obtain ⟨txdsin, hmem, hsame⟩ := hsame
      exact Or.inr (Or.inl ⟨⟨hnew, hvalid, txdsin, hmem, hsame, hsigs txdsin hmem hsame⟩, rfl⟩)
    · push Not at hsame
      refine Or.inr (Or.inr ⟨?_, ?_, ?_⟩)
      · rintro ⟨-, -, txdsin, hmem, hspend, -⟩
        exact hsame txdsin hmem hspend
      · rintro ⟨-, -, txdsin, hmem, hspend, -⟩
        exact hsame txdsin hmem hspend
      · rw [Option.elim_none, finalSigned_of_not h hsame]

theorem map_spend_setScriptSig (vin : List CTxIn) :
    (setScriptSig txin vin).map spend = vin.map spend := by
  unfold setScriptSig
  rw [List.map_map]
  apply List.map_congr_left
  intro txin' _
  dsimp only [Function.comp]
  split_ifs
  · rfl
  · rfl

theorem spend_signed (txdsin : CTxDSIn) :
    spend (signed txin txdsin).toCTxIn = spend txdsin.toCTxIn := by
  unfold signed
  split_ifs
  · rfl
  · rfl

theorem finalSigned_sound (h : Sound params ledger s) (txin : CTxIn) :
    Sound params ledger (finalSigned s txin) :=
  { h with
    vin := fun hsigning => by
      change ((setScriptSig txin s.finalMutableTransaction.vin).map spend).Perm _
      rw [map_spend_setScriptSig]
      exact h.vin hsigning
    vout := h.vout
    unsigned := fun hsigning => by
      change setScriptSig txin s.finalMutableTransaction.vin = []
      rw [h.unsigned hsigning]
      rfl }

theorem inputs_sessionSigned (s : CCoinJoinServer) (txin : CTxIn) :
    (sessionSigned s txin).inputs = s.inputs.map (signed txin) :=
  inputs_signed s.vecEntries

theorem outputs_sessionSigned (s : CCoinJoinServer) (txin : CTxIn) :
    (sessionSigned s txin).outputs = s.outputs := by
  unfold outputs sessionSigned
  rw [List.flatMap_map]
  rfl

theorem sessionSigned_sound (h : Sound params ledger s) (txin : CTxIn) :
    Sound params ledger (sessionSigned s txin) := by
  have hfinal := finalSigned_sound h txin
  have hprevouts : ((s.inputs.map (signed txin)).map fun txdsin => txdsin.prevout) =
      s.inputs.map fun txdsin => txdsin.prevout := by
    rw [List.map_map]
    exact List.map_congr_left fun txdsin _ => signed_prevout txin txdsin
  have hspends : ((s.inputs.map (signed txin)).map fun txdsin => spend txdsin.toCTxIn) =
      s.inputs.map fun txdsin => spend txdsin.toCTxIn := by
    rw [List.map_map]
    exact List.map_congr_left fun txdsin _ => spend_signed txdsin
  exact
    { hfinal with
      entries_le := by
        unfold sessionSigned
        rw [List.length_map]
        exact h.entries_le
      distinct := by
        rw [inputs_sessionSigned, hprevouts]
        exact h.distinct
      inputs := by
        rw [inputs_sessionSigned]
        intro txdsin' hmem
        obtain ⟨txdsin, htxdsin, rfl⟩ := List.mem_map.mp hmem
        rw [signed_prevout]
        exact h.inputs txdsin htxdsin
      outputs := by
        rw [outputs_sessionSigned]
        exact h.outputs
      counts := by
        intro entry' hmem
        obtain ⟨entry, hentry, rfl⟩ := List.mem_map.mp hmem
        exact (List.length_map _).trans (h.counts entry hentry)
      sizes := by
        intro entry' hmem
        obtain ⟨entry, hentry, rfl⟩ := List.mem_map.mp hmem
        exact (List.length_map _).trans_le (h.sizes entry hentry)
      memory := by
        rw [inputs_sessionSigned]
        intro txdsin' hmem
        obtain ⟨txdsin, htxdsin, rfl⟩ := List.mem_map.mp hmem
        rw [← h.memory txdsin htxdsin]
        unfold signed
        split_ifs
        · rfl
        · rfl
      vin := by
        rw [inputs_sessionSigned, hspends]
        exact hfinal.vin
      vout := by
        rw [outputs_sessionSigned]
        exact hfinal.vout }

theorem sessionSigned_merged (hmerged : Merged s) (txin : CTxIn) :
    Merged (sessionSigned s txin) := by
  intro hsigning
  rw [inputs_sessionSigned, ← setScriptSig_inputs]
  exact (hmerged hsigning).map _

/-- A script that is only taken for the final transaction is in none of the entries. -/
theorem finalSigned_not_merged (h : Sound params ledger s) (hsigning : s.nState = .SIGNING)
    (hover : Overwrites m s txin) : ¬Merged (finalSigned s txin) := by
  intro hmerged
  obtain ⟨hnew, -, txdsin, hmem, hsame, -⟩ := hover
  have hspend := (h.vin hsigning).mem_iff.mpr (List.mem_map.mpr ⟨txdsin, hmem, rfl⟩)
  obtain ⟨txin', htxin', heq⟩ := List.mem_map.mp hspend
  obtain ⟨hprevout, hsequence⟩ := Prod.mk.inj heq
  have hset : {txin' with scriptSig := txin.scriptSig} ∈
      (finalSigned s txin).finalMutableTransaction.vin := by
    refine List.mem_map.mpr ⟨txin', htxin', if_pos ⟨?_, ?_⟩⟩
    · exact hprevout.trans hsame.1
    · exact hsequence.trans hsame.2
  obtain ⟨other, hother, heq⟩ := List.mem_map.mp ((hmerged hsigning).mem_iff.mp hset)
  have hscript := congrArg CTxIn.scriptSig heq
  exact hnew other hother hscript

/-- No script of a message overwrites another. -/
def Clean (m : Machine) : List CTxIn → CCoinJoinServer → Prop
  | [], _ => True
  | txin :: vecTxIn, s =>
    ¬Overwrites m s txin ∧ (Takes m s txin → Clean m vecTxIn (sessionSigned s txin))

/-- The addresses of the clients. -/
def clients (s : CCoinJoinServer) : List CService := s.vecEntries.map CCoinJoinEntry.addr

theorem clients_sessionSigned (s : CCoinJoinServer) (txin : CTxIn) :
    clients (sessionSigned s txin) = clients s := by
  unfold clients sessionSigned
  rw [List.map_map]
  rfl

/-- The scripts of a message keep what holds of the session, and leave the final transaction with
the scripts of the entries unless one is overwritten. -/
theorem addScriptSigs_spec (h : Sound params ledger s) (vecTxIn : List CTxIn) :
    Sound params ledger (addScriptSigs m vecTxIn s).2 ∧
      (addScriptSigs m vecTxIn s).2.nState = s.nState ∧
      clients (addScriptSigs m vecTxIn s).2 = clients s ∧
      (Merged s → Clean m vecTxIn s → Merged (addScriptSigs m vecTxIn s).2) ∧
      (s.nState = .SIGNING → ¬Clean m vecTxIn s →
        (addScriptSigs m vecTxIn s).1 = false ∧ ¬Merged (addScriptSigs m vecTxIn s).2) := by
  induction vecTxIn generalizing s with
  | nil => exact ⟨h, rfl, rfl, fun hmerged _ => hmerged, fun _ hnot => absurd trivial hnot⟩
  | cons txin vecTxIn ih =>
    rw [addScriptSigs, Clean]
    rcases addScriptSig_cases (m := m) h txin with ⟨htakes, heq⟩ | ⟨hover, heq⟩ |
      ⟨hnot, hkeep, heq⟩
    · rw [heq]
      dsimp only
      obtain ⟨hsound, hstate, hclients, hmerged, hbroken⟩ := ih (sessionSigned_sound h txin)
      refine ⟨hsound, hstate, hclients.trans (clients_sessionSigned s txin),
        fun hm hclean => hmerged (sessionSigned_merged hm txin) (hclean.2 htakes),
        fun hsigning hdirty => hbroken hsigning fun hclean => hdirty ⟨fun hover => ?_,
          fun _ => hclean⟩⟩
      -- with distinct inputs a script is not for a signed and an unsigned one
      obtain ⟨-, -, txdsin, hmem, hsame, hsig⟩ := htakes
      obtain ⟨-, -, other, hother, hsame', hsig'⟩ := hover
      have hinj := List.inj_on_of_nodup_map h.distinct hmem hother
        (hsame.1.trans hsame'.1.symm)
      rw [hinj] at hsig
      exact nomatch hsig.symm.trans hsig'
    · rw [heq]
      exact ⟨finalSigned_sound h txin, rfl, rfl, fun _ hclean => absurd hover hclean.1,
        fun hsigning _ => ⟨rfl, finalSigned_not_merged h hsigning hover⟩⟩
    · rw [heq]
      exact ⟨h, rfl, rfl, fun hmerged _ => hmerged,
        fun _ hdirty => absurd ⟨hkeep, fun htakes => absurd htakes hnot⟩ hdirty⟩

theorem allGone_congr {s' : CCoinJoinServer} (h : clients s' = clients s) :
    AllGone env s' ↔ AllGone env s := by
  have hclients : ∀ t : CCoinJoinServer, AllGone env t ↔
      clients t ≠ [] ∧ ∀ addr ∈ clients t, env.connected addr = false := by
    intro t
    unfold AllGone clients
    rw [Ne, Ne, List.map_eq_nil_iff, List.forall_mem_map]
  rw [hclients, hclients, h]

/-! ### Steps -/

/-- In a step no script is overwritten while a client is left, and a transaction that is committed
has inputs enough. -/
def Orderly (m : Machine) (params : PoolParams) (s : CCoinJoinServer)
    (message : ServerEnv × ServerMessage) : Prop :=
  match message with
  | (env, .DSSIGNFINALTX vecTxIn) => env.isBlockchainSynced = true →
      (s.nState = .SIGNING → ¬AllGone env s → Clean m vecTxIn s) ∧
        ((addScriptSigs m vecTxIn s).1 = true →
          CommitsWell params env (addScriptSigs m vecTxIn s).2)
  | (env, .doMaintenance) => env.isBlockchainSynced = true → env.shutdownRequested = false →
      CommitsWell params env s
  | _ => True

/-- What a step leads to, and what it commits. -/
structure StepsTo (params : PoolParams) (ledger : COutPoint → CTxOut)
    (result : ServerOutput × CCoinJoinServer) : Prop where
  sound : Sound params ledger result.2
  merged : Merged result.2
  valid : ∀ dstx, result.1.dstx = some dstx → dstx.isValidStructure params = true

theorem Keeps.stepsTo {result : ServerOutput × CCoinJoinServer}
    (h : Keeps params ledger s result) (hmerged : Merged s) : StepsTo params ledger result :=
  ⟨h.sound, h.merged hmerged, fun _ hdstx => nomatch h.dstx.symm.trans hdstx⟩

theorem processDSSIGNFINALTX_stepsTo (h : Sound params ledger s) (hmerged : Merged s)
    {vecTxIn : List CTxIn} (hclean : s.nState = .SIGNING → ¬AllGone env s → Clean m vecTxIn s)
    (hwell : (addScriptSigs m vecTxIn s).1 = true →
      CommitsWell params env (addScriptSigs m vecTxIn s).2) :
    StepsTo params ledger (s.processDSSIGNFINALTX m params env vecTxIn) := by
  obtain ⟨hsound, hstate, hclients, hkeeps, hbroken⟩ := addScriptSigs_spec (m := m) h vecTxIn
  unfold processDSSIGNFINALTX
  have hmerges : Merged (addScriptSigs m vecTxIn s).2 ∨
      (AllGone env s ∧ (addScriptSigs m vecTxIn s).1 = false) := by
    by_cases hsigning : s.nState = .SIGNING
    · by_cases hall : Clean m vecTxIn s
      · exact Or.inl (hkeeps hmerged hall)
      · by_cases hgone : AllGone env s
        · exact Or.inr ⟨hgone, (hbroken hsigning hall).1⟩
        · exact absurd (hclean hsigning hgone) hall
    · exact Or.inl (merged_of_ne (hstate ▸ hsigning))
  generalize addScriptSigs m vecTxIn s = result at *
  obtain ⟨ok, s'⟩ := result
  dsimp only at hsound hstate hclients hmerges hwell
  cases ok with
  | false =>
    dsimp only
    refine ⟨relayStatus_induction hsound (setNull_sound env s'), ?_, nofun⟩
    dsimp only
    rcases hmerges with hmerges | ⟨hgone, -⟩
    · exact relayStatus_induction hmerges (setNull_merged env s')
    · rcases relayStatus_cases env s' with ⟨-, hnot⟩ | ⟨heq, -⟩
      · exact absurd ((allGone_congr hclients).mpr hgone) hnot
      · rw [heq]
        exact setNull_merged env s'
  | true =>
    have hmerges' : Merged s' := hmerges.resolve_right fun hno => nomatch hno.2
    have hpool := checkPool_sound env hsound
    exact ⟨hpool.1, hpool.2 hmerges', (checkPool_valid_iff hsound).mpr (hwell rfl)⟩

theorem checkForCompleteQueue_cases (params : PoolParams) (env : ServerEnv) (s : CCoinJoinServer) :
    s.checkForCompleteQueue params env = s ∨
      (s.nState = .QUEUE ∧
        s.checkForCompleteQueue params env = s.setState env .ACCEPTING_ENTRIES) := by
  unfold checkForCompleteQueue
  split_ifs with hqueue
  · exact Or.inr ⟨hqueue.1, rfl⟩
  · exact Or.inl rfl

theorem commitsWell_checkForCompleteQueue :
    CommitsWell params env (s.checkForCompleteQueue params env) ↔ CommitsWell params env s := by
  rcases checkForCompleteQueue_cases params env s with heq | ⟨hqueue, heq⟩
  · rw [heq]
  · rw [heq]
    refine iff_of_true (fun hcommits => nomatch hcommits.1) fun hcommits => ?_
    exact nomatch hqueue.symm.trans hcommits.1

variable (env) in
theorem checkForCompleteQueue_sound (h : Sound params ledger s) :
    Sound params ledger (s.checkForCompleteQueue params env) := by
  rcases checkForCompleteQueue_cases params env s with heq | ⟨hqueue, heq⟩
  · rw [heq]
    exact h
  · rw [heq]
    exact h.setState nofun nofun (hqueue ▸ nofun) (hqueue ▸ nofun)

variable (params env) in
theorem checkForCompleteQueue_merged (hmerged : Merged s) :
    Merged (s.checkForCompleteQueue params env) := by
  rcases checkForCompleteQueue_cases params env s with heq | ⟨-, heq⟩
  · rw [heq]
    exact hmerged
  · rw [heq]
    exact nofun

theorem checkTimeout_induction {P : CCoinJoinServer → Prop} (hs : P s) (hnull : P (s.setNull env)) :
    P (s.checkTimeout env) := by
  unfold checkTimeout
  split_ifs
  · exact hnull
  · exact hs

/-- No message breaks what holds of a session up to the scripts. -/
theorem step_sound (h : Sound params ledger s) (message : ServerEnv × ServerMessage) :
    Sound params ledger (step m params ledger s message).2 := by
  obtain ⟨env, message⟩ := message
  unfold step
  cases message with
  | DSACCEPT peer dsa =>
    dsimp only
    split_ifs
    · exact (processDSACCEPT_keeps h dsa).sound
    · exact h
  | DSVIN peer vecTxDSIn txCollateral vecTxOut =>
    dsimp only
    split_ifs
    · exact (processDSVIN_keeps h peer vecTxDSIn txCollateral vecTxOut).sound
    · exact h
  | DSSIGNFINALTX vecTxIn =>
    dsimp only
    split_ifs
    · have hsound := (addScriptSigs_spec (m := m) h vecTxIn).1
      unfold processDSSIGNFINALTX
      generalize addScriptSigs m vecTxIn s = result at *
      obtain ⟨ok, s'⟩ := result
      cases ok with
      | false => exact relayStatus_induction hsound (setNull_sound env s')
      | true => exact (checkPool_sound env hsound).1
    · exact h
  | doMaintenance =>
    dsimp only [doMaintenance]
    split_ifs
    · exact h
    · have hpool := checkPool_sound env
        (checkForCompleteQueue_sound env h)
      exact checkTimeout_induction hpool.1 (setNull_sound env _)

theorem final_sound (messages : List (ServerEnv × ServerMessage)) :
    Sound params ledger (Runs.final (step m params ledger) {} messages) :=
  Runs.final_invariant (C := fun _ _ => True) (Sound params ledger)
    (fun _ message h _ => step_sound h message) init_sound (Runs.everyStep_true _ messages)

theorem step_stepsTo (h : Sound params ledger s) (hmerged : Merged s)
    (message : ServerEnv × ServerMessage) (horderly : Orderly m params s message) :
    StepsTo params ledger (step m params ledger s message) := by
  have hsame : StepsTo params ledger (({}, s) : ServerOutput × CCoinJoinServer) :=
    ⟨h, hmerged, nofun⟩
  obtain ⟨env, message⟩ := message
  unfold step
  cases message with
  | DSACCEPT peer dsa =>
    dsimp only
    split_ifs
    · exact (processDSACCEPT_keeps h dsa).stepsTo hmerged
    · exact hsame
  | DSVIN peer vecTxDSIn txCollateral vecTxOut =>
    dsimp only
    split_ifs
    · exact (processDSVIN_keeps h peer vecTxDSIn txCollateral vecTxOut).stepsTo hmerged
    · exact hsame
  | DSSIGNFINALTX vecTxIn =>
    dsimp only
    split_ifs with hsynced
    · exact processDSSIGNFINALTX_stepsTo h hmerged (horderly hsynced).1 (horderly hsynced).2
    · exact hsame
  | doMaintenance =>
    dsimp only [doMaintenance]
    split_ifs with hstopped
    · exact hsame
    · rw [not_or, Bool.not_eq_false, Bool.not_eq_true] at hstopped
      have hsound := checkForCompleteQueue_sound env h
      have hqueue := checkForCompleteQueue_merged params env hmerged
      have hpool := checkPool_sound env hsound
      have hwell := commitsWell_checkForCompleteQueue.mpr (horderly hstopped.1 hstopped.2)
      refine ⟨?_, ?_, (checkPool_valid_iff hsound).mpr hwell⟩
      · exact checkTimeout_induction hpool.1 (setNull_sound env _)
      · exact checkTimeout_induction (hpool.2 hqueue) (setNull_merged env _)

theorem orderly_of_step (h : Sound params ledger s) (message : ServerEnv × ServerMessage)
    (hmerged : Merged (step m params ledger s message).2)
    (hvalid : ∀ dstx, (step m params ledger s message).1.dstx = some dstx →
      dstx.isValidStructure params = true) : Orderly m params s message := by
  obtain ⟨env, message⟩ := message
  unfold step at hmerged hvalid
  cases message with
  | DSACCEPT peer dsa => trivial
  | DSVIN peer vecTxDSIn txCollateral vecTxOut => trivial
  | DSSIGNFINALTX vecTxIn =>
    intro hsynced
    dsimp only at hmerged hvalid
    rw [if_pos hsynced] at hmerged hvalid
    obtain ⟨hsound, -, hclients, -, hbroken⟩ := addScriptSigs_spec (m := m) h vecTxIn
    unfold processDSSIGNFINALTX at hmerged hvalid
    constructor
    · intro hsigning hleft
      by_contra hdirty
      obtain ⟨hrefused, hnot⟩ := hbroken hsigning hdirty
      generalize addScriptSigs m vecTxIn s = result at *
      obtain ⟨ok, s'⟩ := result
      dsimp only at hrefused
      subst hrefused
      rcases relayStatus_cases env s' with ⟨heq, -⟩ | ⟨-, hgone⟩
      · dsimp only at hmerged
        rw [heq] at hmerged
        exact hnot hmerged
      · exact hleft ((allGone_congr hclients).mp hgone)
    · intro hok
      generalize addScriptSigs m vecTxIn s = result at *
      obtain ⟨ok, s'⟩ := result
      dsimp only at hok
      subst hok
      exact (checkPool_valid_iff hsound).mp hvalid
  | doMaintenance =>
    intro hsynced hrunning
    dsimp only [doMaintenance] at hvalid
    rw [if_neg (by rw [hsynced, hrunning]; decide)] at hvalid
    have hsound := checkForCompleteQueue_sound env h
    exact commitsWell_checkForCompleteQueue.mp ((checkPool_valid_iff hsound).mp hvalid)

/-! ### Runs -/

/-- A session whose parts agree with each other. -/
structure Consistent (params : PoolParams) (ledger : COutPoint → CTxOut) (s : CCoinJoinServer) :
    Prop where
  idle_iff : s.nSessionID = 0 ↔ s.nState = .IDLE
  collaterals_iff : s.nState = .IDLE ↔ s.vecSessionCollaterals = []
  entries_le : s.vecEntries.length ≤ s.vecSessionCollaterals.length
  collaterals_le : s.vecSessionCollaterals.length ≤ params.nPoolMaxParticipants
  distinct : (s.inputs.map fun txdsin => txdsin.prevout).Nodup
  denomination : ∀ txdsin ∈ s.inputs,
    amountToDenomination (ledger txdsin.prevout).nValue = s.nSessionDenom
  counts : ∀ entry ∈ s.vecEntries, entry.vecTxDSIn.length = entry.vecTxOut.length
  vin : s.nState = .SIGNING →
    s.finalMutableTransaction.vin.Perm (s.inputs.map CTxDSIn.toCTxIn)
  vout : s.nState = .SIGNING → s.finalMutableTransaction.vout.Perm s.outputs

theorem Sound.consistent (h : Sound params ledger s) (hmerged : Merged s) :
    Consistent params ledger s where
  idle_iff := h.idle_iff
  collaterals_iff := h.collaterals_iff
  entries_le := h.entries_le
  collaterals_le := h.collaterals_le
  distinct := h.distinct
  denomination txdsin hmem := (h.inputs txdsin hmem).1
  counts := h.counts
  vin := hmerged
  vout := h.vout

/-- A step leads to a consistent session, and what it commits is valid for every node. -/
def Proper (m : Machine) (params : PoolParams) (ledger : COutPoint → CTxOut) (s : CCoinJoinServer)
    (message : ServerEnv × ServerMessage) : Prop :=
  Consistent params ledger (step m params ledger s message).2 ∧
    ∀ dstx, (step m params ledger s message).1.dstx = some dstx →
      dstx.isValidStructure params = true

theorem session_iff (m : Machine) (params : PoolParams) (ledger : COutPoint → CTxOut)
    (messages : List (ServerEnv × ServerMessage)) :
    Runs.EveryStep (step m params ledger) (Proper m params ledger) {} messages ↔
      Runs.EveryStep (step m params ledger) (Orderly m params) {} messages := by
  apply Runs.everyStep_iff (fun s => Sound params ledger s ∧ Merged s)
  · intro s message h horderly
    have hnext := step_stepsTo h.1 h.2 message horderly
    exact ⟨⟨hnext.sound.consistent hnext.merged, hnext.valid⟩, hnext.sound, hnext.merged⟩
  · intro s message h hproper
    exact orderly_of_step h.1 message hproper.1.vin hproper.2
  · exact ⟨init_sound, merged_of_ne nofun⟩

/-- Distinct coins, not too many, that go to outputs of the same total. -/
structure Balanced (params : PoolParams) (ledger : COutPoint → CTxOut) (tx : CMutableTransaction) :
    Prop where
  distinct : (tx.vin.map fun txin => txin.prevout).Nodup
  size : tx.vin.length ≤ params.nPoolMaxParticipants*COINJOIN_ENTRY_MAX_SIZE
  balance : (tx.vout.map CTxOut.nValue).sum =
    (tx.vin.map fun txin => (ledger txin.prevout).nValue).sum

theorem Sound.balanced (h : Sound params ledger s) (hsigning : s.nState = .SIGNING) :
    Balanced params ledger s.finalMutableTransaction := by
  have hvin := h.vin hsigning
  have hprevouts := hvin.map Prod.fst
  rw [List.map_map, List.map_map] at hprevouts
  have hdenomination := h.denomination (by rw [hsigning]; decide)
  have hvalue {txout : CTxOut} (hfits : Fits s.nSessionDenom txout) :
      txout.nValue = denominationToAmount s.nSessionDenom := by
    rw [← hfits.1] at hdenomination ⊢
    exact (denominationToAmount_amountToDenomination hdenomination).symm
  have hsame : s.outputs.map CTxOut.nValue =
      s.inputs.map fun txdsin => (ledger txdsin.prevout).nValue := by
    calc s.outputs.map CTxOut.nValue
        = s.outputs.map fun _ => denominationToAmount s.nSessionDenom :=
          List.map_congr_left fun txout hmem => hvalue (h.outputs txout hmem)
      _ = s.inputs.map fun _ => denominationToAmount s.nSessionDenom := by
          rw [List.map_const', List.map_const', length_inputs_eq h]
      _ = s.inputs.map fun txdsin => (ledger txdsin.prevout).nValue :=
          (List.map_congr_left fun txdsin hmem => hvalue (h.inputs txdsin hmem)).symm
  have hledger := hprevouts.map fun prevout => (ledger prevout).nValue
  rw [List.map_map, List.map_map] at hledger
  refine ⟨hprevouts.nodup_iff.mpr h.distinct, ?_, ?_⟩
  · have hlength := hvin.length_eq
    rw [List.length_map, List.length_map] at hlength
    exact hlength ▸ length_inputs_le h
  · calc (s.finalMutableTransaction.vout.map CTxOut.nValue).sum
        = (s.outputs.map CTxOut.nValue).sum := ((h.vout hsigning).map _).sum_eq
      _ = (s.inputs.map fun txdsin => (ledger txdsin.prevout).nValue).sum := by rw [hsame]
      _ = _ := hledger.sum_eq.symm

/-- Whatever messages come, a transaction that is to be signed takes in what it pays out. -/
theorem final_balanced (messages : List (ServerEnv × ServerMessage))
    (hsigning : (Runs.final (step m params ledger) {} messages).nState = .SIGNING) :
    Balanced params ledger
      (Runs.final (step m params ledger) {} messages).finalMutableTransaction :=
  (final_sound messages).balanced hsigning

/-! ### A transaction with too few inputs -/

namespace Sessions

def machine : Machine := ⟨id, fun _ _ _ _ _ => none, fun _ _ _ _ _ => none⟩

/-- Every coin is of the smallest denomination. -/
def coins (_ : COutPoint) : CTxOut := ⟨COIN/1000+1, payToPublicKeyHash (List.replicate 20 0)⟩

def envAt (time : ℤ) : ServerEnv :=
  {time := time, coinHeight := fun _ => some 1, outpoint := ⟨1, 0⟩, proTxHash := 1}

def spending (scriptSig : CScript) : CTxIn := {prevout := ⟨2, 0⟩, scriptSig := scriptSig}

/-- Two users of whom one mixes a coin and the other none. -/
def messages : List (ServerEnv × ServerMessage) :=
  [(envAt 0, .DSACCEPT 1 ⟨16, {}⟩),
   (envAt 0, .DSACCEPT 2 ⟨16, {}⟩),
   (envAt 30, .doMaintenance),
   (envAt 30, .DSVIN 1 [spending []] {}
     [⟨COIN/1000+1, payToPublicKeyHash (List.replicate 20 1)⟩]),
   (envAt 30, .DSVIN 2 [] {} []),
   (envAt 30, .DSSIGNFINALTX [spending [OP_1]])]

end Sessions

theorem final_balanced_two : Balanced testPoolParams Sessions.coins
    (Runs.final (step Sessions.machine testPoolParams Sessions.coins) {}
      (Sessions.messages.take 5)).finalMutableTransaction :=
  final_balanced _ (by decide +kernel)

theorem not_session : ¬∀ messages : List (ServerEnv × ServerMessage),
    Runs.EveryStep (step Sessions.machine testPoolParams Sessions.coins)
      (Proper Sessions.machine testPoolParams Sessions.coins) {} messages := by
  intro h
  obtain ⟨-, -, -, -, -, hlast, -⟩ := h Sessions.messages
  have hfew : ((step Sessions.machine testPoolParams Sessions.coins
      (Runs.final (step Sessions.machine testPoolParams Sessions.coins) {}
        (Sessions.messages.take 5))
      (Sessions.envAt 30, .DSSIGNFINALTX [Sessions.spending [OP_1]])).1.dstx.map
        (CCoinJoinBroadcastTx.isValidStructure testPoolParams)) = some false := by
    decide +kernel
  obtain ⟨dstx, hdstx, hinvalid⟩ := Option.map_eq_some_iff.mp hfew
  exact nomatch hinvalid.symm.trans (hlast.2 dstx hdstx)

end BabaChain.CoinJoin
