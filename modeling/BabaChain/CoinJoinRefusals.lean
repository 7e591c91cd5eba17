import BabaChain.CoinJoinSessions

/-! What a script that is refused leaves of a session, and what becomes of the scripts that were
taken. -/
namespace BabaChain.CoinJoin
open Script Guards CCoinJoinServer

variable {m : Machine} {params : PoolParams} {ledger : COutPoint → CTxOut} {env : ServerEnv}
  {s s' : CCoinJoinServer} {txin : CTxIn} {vecTxIn : List CTxIn}

/-- The final transaction and the entries are as they were. -/
def Untouched (s s' : CCoinJoinServer) : Prop :=
  s'.finalMutableTransaction = s.finalMutableTransaction ∧ s'.vecEntries = s.vecEntries

/-- The scripts of a message, each of which leaves the session untouched where it is refused. -/
def Refuses (m : Machine) : List CTxIn → CCoinJoinServer → Prop
  | [], _ => True
  | txin :: vecTxIn, s =>
    ((s.addScriptSig m txin).1 = false → Untouched s (s.addScriptSig m txin).2) ∧
      ((s.addScriptSig m txin).1 = true → Refuses m vecTxIn (s.addScriptSig m txin).2)

/-! ### Refused scripts -/

theorem takes_not_overwrites (h : Sound params ledger s) (htakes : Takes m s txin) :
    ¬Overwrites m s txin := by
  intro hover
  obtain ⟨-, -, txdsin, hmem, hsame, hsig⟩ := htakes
  obtain ⟨-, -, other, hother, hsame', hsig'⟩ := hover
  have hinj := List.inj_on_of_nodup_map h.distinct hmem hother (hsame.1.trans hsame'.1.symm)
  rw [hinj] at hsig
  exact nomatch hsig.symm.trans hsig'

/-- A script for an input that has one already changes the final transaction, unless there is none
yet. -/
theorem untouched_finalSigned_iff (h : Sound params ledger s) (hmerged : Merged s)
    (hover : Overwrites m s txin) : Untouched s (finalSigned s txin) ↔ s.nState ≠ .SIGNING := by
  constructor
  · intro huntouched hsigning
    apply finalSigned_not_merged h hsigning hover
    intro _
    rw [huntouched.1]
    exact hmerged hsigning
  · intro hsigning
    refine ⟨?_, rfl⟩
    unfold finalSigned
    dsimp only
    have hvin : setScriptSig txin s.finalMutableTransaction.vin =
        s.finalMutableTransaction.vin := by
      rw [h.unsigned hsigning]
      rfl
    rw [hvin]

theorem refuses_iff (h : Sound params ledger s) (hmerged : Merged s) :
    Refuses m vecTxIn s ↔ (s.nState = .SIGNING → Clean m vecTxIn s) := by
  induction vecTxIn generalizing s with
  | nil => exact iff_of_true trivial fun _ => trivial
  | cons txin vecTxIn ih =>
    rw [Refuses, Clean]
    rcases addScriptSig_cases (m := m) h txin with ⟨htakes, heq⟩ | ⟨hover, heq⟩ |
      ⟨hnot, hkeep, heq⟩
    · rw [heq, ih (sessionSigned_sound h txin) (sessionSigned_merged hmerged txin)]
      have hnot := takes_not_overwrites h htakes
      constructor
      · intro hrest hsigning
        exact ⟨hnot, fun _ => hrest.2 rfl hsigning⟩
      · intro hclean
        exact ⟨fun hno => absurd hno.symm Bool.false_ne_true,
          fun _ hsigning => (hclean hsigning).2 htakes⟩
    · rw [heq, imp_iff_right rfl, untouched_finalSigned_iff h hmerged hover]
      constructor
      · intro hrest hsigning
        exact absurd hsigning hrest.1
      · intro hclean
        exact ⟨fun hsigning => (hclean hsigning).1 hover,
          fun hyes => absurd hyes Bool.false_ne_true⟩
    · rw [heq]
      refine iff_of_true ⟨fun _ => ⟨rfl, rfl⟩, fun hyes => absurd hyes Bool.false_ne_true⟩
        fun _ => ⟨hkeep, fun htakes => ?_⟩
      exact absurd htakes hnot

/-! ### Scripts that were taken -/

/-- The inputs that have a script are still there. -/
def Holds (s s' : CCoinJoinServer) : Prop :=
  ∀ txdsin ∈ s.inputs, txdsin.fHasSig = true → txdsin ∈ s'.inputs

/-- The session is over, or the inputs that have a script are still there. -/
def EndsOrHolds (s s' : CCoinJoinServer) : Prop := s'.vecEntries = [] ∨ Holds s s'

theorem endsOrHolds_setNull (env : ServerEnv) (s s' : CCoinJoinServer) :
    EndsOrHolds s (s'.setNull env) := Or.inl rfl

theorem holds_of_entries (h : s'.vecEntries = s.vecEntries) : Holds s s' := by
  intro txdsin hmem _
  unfold inputs
  rwa [h]

theorem checkPool_endsOrHolds {s₀ : CCoinJoinServer} (h : Holds s₀ s) :
    EndsOrHolds s₀ (s.checkPool params env).2 := by
  have hcreate : EndsOrHolds s₀ (s.createFinalTransaction env) := by
    apply relayToEntries_induction
    · exact Or.inr h
    · exact endsOrHolds_setNull env s₀ _
  unfold checkPool
  split_ifs
  · exact hcreate
  · exact hcreate
  · obtain ⟨s', heq⟩ := commitFinalTransaction_snd env s
    rw [heq]
    exact endsOrHolds_setNull env s₀ s'
  · exact Or.inr h

/-- An input that has a script is not given another. -/
theorem addScriptSigs_holds (h : Sound params ledger s) :
    Holds s (addScriptSigs m vecTxIn s).2 := by
  induction vecTxIn generalizing s with
  | nil => exact holds_of_entries rfl
  | cons txin vecTxIn ih =>
    rw [addScriptSigs]
    rcases addScriptSig_cases (m := m) h txin with ⟨htakes, heq⟩ | ⟨-, heq⟩ | ⟨-, -, heq⟩
    · rw [heq]
      intro txdsin hmem hsig
      apply ih (sessionSigned_sound h txin) txdsin _ hsig
      have hother : ¬SameSpend txdsin.toCTxIn txin := fun hsame =>
        takes_not_overwrites h htakes ⟨htakes.1, htakes.2.1, txdsin, hmem, hsame, hsig⟩
      rw [inputs_sessionSigned, ← signed_of_not txdsin hother]
      exact List.mem_map_of_mem hmem
    · rw [heq]
      exact holds_of_entries rfl
    · rw [heq]
      exact holds_of_entries rfl

theorem createNewSession_entries {dsa : CCoinJoinAccept}
    (hok : s.createNewSession env dsa = .ok s') : s'.vecEntries = s.vecEntries := by
  unfold createNewSession at hok
  rw [refuse_then_ok_iff, refuse_then_ok_iff] at hok
  obtain ⟨-, -, hok⟩ := hok
  obtain ⟨-, -, hok⟩ := bind_ok_iff.mp hok
  rw [← Except.ok.inj hok]

theorem addUserToExistingSession_entries {dsa : CCoinJoinAccept}
    (hok : s.addUserToExistingSession params env dsa = .ok s') : s'.vecEntries = s.vecEntries := by
  unfold addUserToExistingSession at hok
  rw [refuse_then_ok_iff] at hok
  obtain ⟨-, hok⟩ := hok
  obtain ⟨-, -, hok⟩ := bind_ok_iff.mp hok
  rw [refuse_then_ok_iff, refuse_then_ok_iff] at hok
  obtain ⟨-, -, hok⟩ := hok
  rw [← Except.ok.inj hok]

theorem processDSACCEPT_entries (dsa : CCoinJoinAccept) :
    (s.processDSACCEPT params env dsa).2.vecEntries = s.vecEntries := by
  unfold processDSACCEPT
  split_ifs
  · rfl
  · rfl
  · rfl
  · rfl
  · cases hok : s.createNewSession env dsa with
    | error nMessageID => rfl
    | ok s' => exact createNewSession_entries hok
  · cases hok : s.addUserToExistingSession params env dsa with
    | error nMessageID => rfl
    | ok s' => exact addUserToExistingSession_entries hok

theorem processDSVIN_endsOrHolds (peer : CService) (vecTxDSIn : List CTxIn)
    (txCollateral : CMutableTransaction) (vecTxOut : List CTxOut) :
    EndsOrHolds s (s.processDSVIN params ledger env peer vecTxDSIn txCollateral vecTxOut).2 := by
  unfold processDSVIN
  split_ifs
  · exact Or.inr (holds_of_entries rfl)
  cases hadd : s.addEntry ledger env
      ⟨vecTxDSIn.map readTxDSIn, vecTxOut, txCollateral, peer⟩ with
  | error nMessageID => exact Or.inr (holds_of_entries rfl)
  | ok s' =>
    have hholds : Holds s s' := by
      intro txdsin hmem _
      rw [(addEntry_ok hadd).1, inputs_append]
      exact List.mem_append_left _ hmem
    exact relayStatus_induction (checkPool_endsOrHolds hholds) (endsOrHolds_setNull env s _)

theorem step_endsOrHolds (h : Sound params ledger s) (message : ServerEnv × ServerMessage) :
    EndsOrHolds s (step m params ledger s message).2 := by
  have hsame : EndsOrHolds s s := Or.inr (holds_of_entries rfl)
  obtain ⟨env, message⟩ := message
  unfold step
  cases message with
  | DSACCEPT peer dsa =>
    refine Or.inr (holds_of_entries ?_)
    dsimp only
    split_ifs
    · exact processDSACCEPT_entries dsa
    · rfl
  | DSVIN peer vecTxDSIn txCollateral vecTxOut =>
    dsimp only
    split_ifs
    · exact processDSVIN_endsOrHolds peer vecTxDSIn txCollateral vecTxOut
    · exact hsame
  | DSSIGNFINALTX vecTxIn =>
    dsimp only
    split_ifs
    · have hholds : Holds s (addScriptSigs m vecTxIn s).2 := addScriptSigs_holds h
      unfold processDSSIGNFINALTX
      generalize addScriptSigs m vecTxIn s = result at *
      obtain ⟨ok, s'⟩ := result
      cases ok with
      | false => exact relayStatus_induction (Or.inr hholds) (endsOrHolds_setNull env s s')
      | true => exact checkPool_endsOrHolds hholds
    · exact hsame
  | doMaintenance =>
    dsimp only [doMaintenance]
    split_ifs
    · exact hsame
    · have hqueue : Holds s (s.checkForCompleteQueue params env) := by
        rcases checkForCompleteQueue_cases params env s with heq | ⟨-, heq⟩
        · rw [heq]
          exact holds_of_entries rfl
        · rw [heq]
          exact holds_of_entries rfl
      exact checkTimeout_induction (checkPool_endsOrHolds hqueue) (endsOrHolds_setNull env s _)

/-- What the final transaction has for an input of the entries is the script of that input. -/
theorem Merged.scriptSig_eq (hmerged : Merged s) (h : Sound params ledger s) {txdsin : CTxDSIn}
    (hmem : txdsin ∈ s.inputs) (htxin : txin ∈ s.finalMutableTransaction.vin)
    (hprevout : txin.prevout = txdsin.prevout) : txin.scriptSig = txdsin.scriptSig := by
  by_cases hsigning : s.nState = .SIGNING
  · have hin := (hmerged hsigning).mem_iff.mp htxin
    obtain ⟨other, hother, heq⟩ := List.mem_map.mp hin
    subst heq
    have hinj := List.inj_on_of_nodup_map h.distinct hother hmem hprevout
    rw [hinj]
  · rw [h.unsigned hsigning] at htxin
    exact absurd htxin List.not_mem_nil

/-- A refused script leaves the session untouched, and until the session is over a script that was
taken is that of its input, in the entry and in the final transaction. -/
structure WriteOnce (m : Machine) (params : PoolParams) (ledger : COutPoint → CTxOut)
    (s : CCoinJoinServer) (message : ServerEnv × ServerMessage) : Prop where
  refused : ∀ env vecTxIn, message = (env, .DSSIGNFINALTX vecTxIn) →
    env.isBlockchainSynced = true → Refuses m vecTxIn s
  taken : EndsOrHolds s (step m params ledger s message).2
  merged : ∀ txdsin ∈ (step m params ledger s message).2.inputs, txdsin.fHasSig = true →
    ∀ txin ∈ (step m params ledger s message).2.finalMutableTransaction.vin,
      txin.prevout = txdsin.prevout → txin.scriptSig = txdsin.scriptSig

/-- While signatures are collected, no script of the message is for an input that has one. -/
def Spares (m : Machine) (s : CCoinJoinServer) (message : ServerEnv × ServerMessage) : Prop :=
  ∀ env vecTxIn, message = (env, .DSSIGNFINALTX vecTxIn) → env.isBlockchainSynced = true →
    s.nState = .SIGNING → Clean m vecTxIn s

theorem step_merged (h : Sound params ledger s) (hmerged : Merged s)
    (message : ServerEnv × ServerMessage) (hspares : Spares m s message) :
    Merged (step m params ledger s message).2 := by
  obtain ⟨env, message⟩ := message
  unfold step
  cases message with
  | DSACCEPT peer dsa =>
    dsimp only
    split_ifs
    · exact (processDSACCEPT_keeps h dsa).merged hmerged
    · exact hmerged
  | DSVIN peer vecTxDSIn txCollateral vecTxOut =>
    dsimp only
    split_ifs
    · exact (processDSVIN_keeps h peer vecTxDSIn txCollateral vecTxOut).merged hmerged
    · exact hmerged
  | DSSIGNFINALTX vecTxIn =>
    dsimp only
    split_ifs with hsynced
    · obtain ⟨hsound, hstate, -, hkeeps, -⟩ := addScriptSigs_spec (m := m) h vecTxIn
      have hmerges : Merged (addScriptSigs m vecTxIn s).2 := by
        by_cases hsigning : s.nState = .SIGNING
        · exact hkeeps hmerged (hspares env vecTxIn rfl hsynced hsigning)
        · exact merged_of_ne (hstate ▸ hsigning)
      unfold processDSSIGNFINALTX
      generalize addScriptSigs m vecTxIn s = result at *
      obtain ⟨ok, s'⟩ := result
      cases ok with
      | false => exact relayStatus_induction hmerges (setNull_merged env s')
      | true => exact (checkPool_sound env hsound).2 hmerges
    · exact hmerged
  | doMaintenance =>
    dsimp only [doMaintenance]
    split_ifs
    · exact hmerged
    · obtain ⟨-, hpool⟩ :=
        (checkPool_sound env (checkForCompleteQueue_sound env h) : Sound params ledger _ ∧ _)
      have hqueue := checkForCompleteQueue_merged params env hmerged
      exact checkTimeout_induction (hpool hqueue) (setNull_merged env _)

/-- In a run, refused scripts leave the session untouched and scripts that were taken stay, exactly
where no script comes for an input that has one while signatures are collected. -/
theorem write_once_iff (m : Machine) (params : PoolParams) (ledger : COutPoint → CTxOut)
    (messages : List (ServerEnv × ServerMessage)) :
    Runs.EveryStep (step m params ledger) (WriteOnce m params ledger) {} messages ↔
      Runs.EveryStep (step m params ledger) (Spares m) {} messages := by
  apply Runs.everyStep_iff (fun s => Sound params ledger s ∧ Merged s)
  · intro s message h hspares
    have hsound := step_sound (m := m) h.1 message
    have hmerged := step_merged h.1 h.2 message hspares
    refine ⟨⟨?_, step_endsOrHolds h.1 message, ?_⟩, hsound, hmerged⟩
    · intro env vecTxIn hmessage hsynced
      exact (refuses_iff h.1 h.2).mpr (hspares env vecTxIn hmessage hsynced)
    · intro txdsin hmem _ txin htxin hprevout
      exact hmerged.scriptSig_eq hsound hmem htxin hprevout
  · intro s message h honce env vecTxIn hmessage hsynced
    exact (refuses_iff h.1 h.2).mp (honce.refused env vecTxIn hmessage hsynced)
  · exact ⟨init_sound, merged_of_ne nofun⟩

namespace Refusals

def spendingOther : CTxIn := {prevout := ⟨3, 0⟩}

/-- Two users with a coin each, of whom one has signed. -/
def messages : List (ServerEnv × ServerMessage) :=
  [(Sessions.envAt 0, .DSACCEPT 1 ⟨16, {}⟩),
   (Sessions.envAt 0, .DSACCEPT 2 ⟨16, {}⟩),
   (Sessions.envAt 30, .doMaintenance),
   (Sessions.envAt 30, .DSVIN 1 [Sessions.spending []] {}
     [⟨COIN/1000+1, payToPublicKeyHash (List.replicate 20 1)⟩]),
   (Sessions.envAt 30, .DSVIN 2 [spendingOther] {}
     [⟨COIN/1000+1, payToPublicKeyHash (List.replicate 20 2)⟩]),
   (Sessions.envAt 30, .DSSIGNFINALTX [Sessions.spending [OP_1]])]

end Refusals

/-- A second script for the input that is signed is refused, and is in the final transaction. -/
theorem not_write_once : ¬∀ messages : List (ServerEnv × ServerMessage),
    Runs.EveryStep (step Sessions.machine testPoolParams Sessions.coins)
      (WriteOnce Sessions.machine testPoolParams Sessions.coins) {} messages := by
  intro h
  have hrun := h (Refusals.messages ++
    [(Sessions.envAt 30, .DSSIGNFINALTX [Sessions.spending [OP_1, OP_1]])])
  rw [Runs.everyStep_append] at hrun
  have hrefused := (hrun.2.1.refused _ _ rfl rfl).1
  have hchanged : ¬((addScriptSig Sessions.machine
      (Runs.final (step Sessions.machine testPoolParams Sessions.coins) {} Refusals.messages)
      (Sessions.spending [OP_1, OP_1])).1 = false →
        (addScriptSig Sessions.machine
          (Runs.final (step Sessions.machine testPoolParams Sessions.coins) {} Refusals.messages)
          (Sessions.spending [OP_1, OP_1])).2.finalMutableTransaction =
        (Runs.final (step Sessions.machine testPoolParams Sessions.coins) {}
          Refusals.messages).finalMutableTransaction) := by
    decide +kernel
  exact hchanged fun hno => (hrefused hno).1

end BabaChain.CoinJoin
