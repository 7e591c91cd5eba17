import BabaChain.ClockIndependence
import BabaChain.Lib.OrdMap

/-! What a stake transaction locks, and what it takes to remove the lock again. -/
namespace BabaChain.Staking
open MachineInt Runs Std OrdMap

/-- The value of an output of the transaction. -/
def outputValue (tx : CTransaction) (outpoint : COutPoint) : Option ℤ :=
  if outpoint.hash = tx.hash then tx.vout[outpoint.n.toNat]?.map CTxOut.nValue else none

/-- The lock that an accepted stake transaction creates. -/
def stakeLockOf (nNow : ℤ) (tx : CTransaction) (payload : CStakeTransactionPayload) : CStakeLock :=
  ⟨⟨tx.hash, 0⟩, wrap 64 (nNow+payload.nLockTime), payload.nStakeAmount, payload.stakePubKey⟩

/-- A transaction that reaches a node when its clock reads the given time. -/
abbrev TimedTx := ℤ × CTransaction

def connectStep (p : Params) (s : State) (a : TimedTx) : Bool × State :=
  connectTransaction p a.1 a.2 s

/-- If the step removes the lock, then it connects an unstake transaction, the lock has
expired, and the transaction is signed by the owner. -/
def RemovesRightly (Signed : CTransaction → CPubKey → Prop) (p : Params) (lock : CStakeLock)
    (s : State) (a : TimedTx) : Prop :=
  getStakeLock lock.outpoint s = some lock →
    getStakeLock lock.outpoint (connectStep p s a).2 ≠ some lock →
      a.2.nType = TRANSACTION_UNSTAKE ∧ lock.isExpired a.1 = true ∧ Signed a.2 lock.ownerPubKey

/-- An unstake transaction that names the expired lock and its owner's key is signed by the
owner. -/
def OwnerSigns (Signed : CTransaction → CPubKey → Prop) (lock : CStakeLock) (s : State)
    (a : TimedTx) : Prop :=
  getStakeLock lock.outpoint s = some lock → lock.isExpired a.1 = true →
    ¬(a.2.vin = [] ∨ a.2.vout = []) → a.2.nType = TRANSACTION_UNSTAKE →
      ∀ payload, decodePayload readUnstakePayload a.2 = some payload →
        payload.stakeOutpoint = lock.outpoint → payload.stakePubKey = lock.ownerPubKey →
          Signed a.2 lock.ownerPubKey

variable {Signed : CTransaction → CPubKey → Prop} {p : Params} {s : State} {lock : CStakeLock}
  {nNow : ℤ} {tx : CTransaction}

section Total

theorem wrap_wrap_add (x y : ℤ) : wrap 64 (wrap 64 x+y) = wrap 64 (x+y) := by
  unfold wrap
  exact Int.bmod_add_bmod

theorem foldl_wrap_add (outs : List CTxOut) (t : ℤ) :
    outs.foldl (fun total vout => wrap 64 (total+vout.nValue)) (wrap 64 t) =
      wrap 64 (t+(outs.map CTxOut.nValue).sum) := by
  induction outs generalizing t with
  | nil => simp only [List.foldl_nil, List.map_nil, List.sum_nil, add_zero]
  | cons out outs ih =>
    rw [List.foldl_cons, wrap_wrap_add, ih, List.map_cons, List.sum_cons, add_assoc]

theorem totalOutput_eq (tx : CTransaction) :
    totalOutput tx = wrap 64 (tx.vout.map CTxOut.nValue).sum := by
  have h := foldl_wrap_add tx.vout 0
  rw [zero_add] at h
  exact h

/-- The total is the first output's value exactly when the other outputs make nothing. -/
theorem totalOutput_eq_first_iff {out : CTxOut} {outs : List CTxOut} (hvout : tx.vout = out :: outs)
    (hrange : InRange 64 out.nValue) :
    totalOutput tx = out.nValue ↔ totalOutput {tx with vout := tx.vout.tail} = 0 := by
  rw [totalOutput_eq, totalOutput_eq, hvout, List.tail_cons, List.map_cons, List.sum_cons]
  unfold wrap InRange at *
  norm_num at hrange ⊢
  simp only [Int.bmod]
  norm_num
  split_ifs <;> omega

end Total

section Locks

theorem createStakeLock_keeps {o outpoint : COutPoint} {nLockDuration nAmount : ℤ}
    {ownerPubKey : CPubKey} (hlock : getStakeLock o s = some lock) :
    getStakeLock o (createStakeLock nNow outpoint nLockDuration nAmount ownerPubKey s).2 =
      some lock := by
  unfold createStakeLock
  split_ifs with hmem
  · exact hlock
  · unfold getStakeLock at hlock ⊢
    dsimp only
    rw [getElem?_insert, if_neg, hlock]
    rintro rfl
    exact hmem (mem_iff_exists.mpr ⟨lock, hlock⟩)

theorem processStakeTransaction_keeps {o : COutPoint} {payload : CStakeTransactionPayload}
    (hlock : getStakeLock o s = some lock) :
    getStakeLock o (processStakeTransaction nNow tx payload s).2 = some lock := by
  unfold processStakeTransaction
  split_ifs
  · exact hlock
  · exact createStakeLock_keeps hlock

theorem processValidatorRegistration_keeps {o : COutPoint}
    {payload : CValidatorRegistrationPayload} (hlock : getStakeLock o s = some lock) :
    getStakeLock o (processValidatorRegistration nNow payload s).2 = some lock := by
  unfold processValidatorRegistration registerValidator
  split_ifs
  · exact hlock
  · exact hlock
  · exact hlock

theorem getStakeLock_remove {o outpoint : COutPoint} (hlock : getStakeLock o s = some lock) :
    getStakeLock o (removeStakeLock outpoint s).2 = if outpoint = o then none else some lock := by
  unfold removeStakeLock
  split_ifs with hmem ho ho
  · exact (getElem?_erase _ _ _).trans (if_pos ho)
  · exact ((getElem?_erase _ _ _).trans (if_neg ho)).trans hlock
  · exact absurd (mem_iff_exists.mpr ⟨lock, ho ▸ hlock⟩) hmem
  · exact hlock

theorem validateUnstake_iff {payload : CUnstakeTransactionPayload}
    (hlock : getStakeLock payload.stakeOutpoint s = some lock) :
    validateUnstakeTransaction nNow payload s = true ↔
      lock.isExpired nNow = true ∧ payload.stakePubKey = lock.ownerPubKey := by
  unfold validateUnstakeTransaction
  rw [hlock]
  dsimp only
  cases lock.isExpired nNow with
  | false => exact iff_of_false Bool.false_ne_true fun h => Bool.false_ne_true h.1
  | true =>
    rw [Bool.not_true, if_neg Bool.false_ne_true, decide_eq_true_iff]
    exact ⟨fun h => ⟨rfl, h.symm⟩, fun h => h.2.symm⟩

/-- A lock that is held goes exactly when an unstake transaction names it and its owner's key
after the expiry. -/
theorem lock_removed_iff (hlock : getStakeLock lock.outpoint s = some lock) (a : TimedTx) :
    getStakeLock lock.outpoint (connectStep p s a).2 ≠ some lock ↔
      ¬(a.2.vin = [] ∨ a.2.vout = []) ∧ a.2.nType = TRANSACTION_UNSTAKE ∧
        lock.isExpired a.1 = true ∧
        ∃ payload, decodePayload readUnstakePayload a.2 = some payload ∧
          payload.stakeOutpoint = lock.outpoint ∧ payload.stakePubKey = lock.ownerPubKey := by
  obtain ⟨nNow, tx⟩ := a
  unfold connectStep
  dsimp only
  by_cases hbad : tx.vin = [] ∨ tx.vout = []
  · rw [connect_malformed nNow hbad]
    exact iff_of_false (fun h => h hlock) fun h => h.1 hbad
  by_cases hunstake : tx.nType = TRANSACTION_UNSTAKE
  · rw [connect_unstake nNow hbad hunstake]
    cases decodePayload readUnstakePayload tx with
    | none =>
      refine iff_of_false (fun h => h hlock) ?_
      rintro ⟨_, _, _, payload, hpayload, _⟩
      cases hpayload
    | some payload =>
      dsimp only
      by_cases ho : payload.stakeOutpoint = lock.outpoint
      · have hvalid := @validateUnstake_iff _ _ nNow payload (ho ▸ hlock)
        by_cases hv : validateUnstakeTransaction nNow payload s = true
        · -- the accepted unstake transaction takes the lock
          rw [if_pos hv, getStakeLock_remove hlock, if_pos ho]
          obtain ⟨hexpired, hkey⟩ := hvalid.mp hv
          exact iff_of_true (Option.some_ne_none lock).symm
            ⟨hbad, hunstake, hexpired, payload, rfl, ho, hkey⟩
        · rw [if_neg hv]
          refine iff_of_false (fun h => h hlock) ?_
          rintro ⟨_, _, hexpired, payload', hpayload', _, hkey⟩
          cases hpayload'
          exact hv (hvalid.mpr ⟨hexpired, hkey⟩)
      · -- an unstake transaction of another lock
        refine iff_of_false (fun h => h ?_) ?_
        · split_ifs
          · rw [getStakeLock_remove hlock, if_neg ho]
          · exact hlock
        · rintro ⟨_, _, _, payload', hpayload', ho', _⟩
          cases hpayload'
          exact ho ho'
  -- no other transaction removes a lock
  refine iff_of_false (fun h => h ?_) fun h => hunstake h.2.1
  by_cases hstake : tx.nType = TRANSACTION_STAKE
  · rw [connect_stake nNow hbad hstake]
    cases decodePayload readStakePayload tx with
    | none => exact hlock
    | some payload =>
      dsimp only
      split_ifs
      · exact processStakeTransaction_keeps hlock
      · exact hlock
  by_cases hregister : tx.nType = TRANSACTION_VALIDATOR_REGISTER
  · rw [connect_register nNow hbad hregister]
    cases decodePayload readRegistrationPayload tx with
    | none => exact hlock
    | some payload =>
      dsimp only
      split_ifs
      · exact processValidatorRegistration_keeps hlock
      · exact hlock
  · rw [connect_other nNow hbad hstake hunstake hregister]
    exact hlock

theorem removesRightly_iff (a : TimedTx) :
    RemovesRightly Signed p lock s a ↔ OwnerSigns Signed lock s a := by
  unfold RemovesRightly OwnerSigns
  refine forall_congr' fun hlock => ?_
  rw [lock_removed_iff hlock]
  constructor
  · intro h hexpired hok htype payload hpayload ho hkey
    exact (h ⟨hok, htype, hexpired, payload, hpayload, ho, hkey⟩).2.2
  · rintro h ⟨hok, htype, hexpired, payload, hpayload, ho, hkey⟩
    exact ⟨htype, hexpired, h hexpired hok htype payload hpayload ho hkey⟩

theorem everyStep_removesRightly_iff (s : State) (later : List TimedTx) :
    EveryStep (connectStep p) (RemovesRightly Signed p lock) s later ↔
      EveryStep (connectStep p) (OwnerSigns Signed lock) s later := by
  apply everyStep_iff (fun _ => True)
  · exact fun s a _ h => ⟨(removesRightly_iff a).mpr h, trivial⟩
  · exact fun s a _ h => (removesRightly_iff a).mp h
  · trivial

end Locks

/-- The lock that an accepted stake transaction leaves. -/
theorem processStake_creates {payload : CStakeTransactionPayload}
    (hcreated : (processStakeTransaction nNow tx payload s).1 = true) :
    tx.vout ≠ [] ∧ getStakeLock ⟨tx.hash, 0⟩ (processStakeTransaction nNow tx payload s).2 =
      some (stakeLockOf nNow tx payload) := by
  unfold processStakeTransaction createStakeLock at *
  split_ifs at * with hvout hmem
  exact ⟨hvout, (getElem?_insert _ _ _ _).trans (if_pos rfl)⟩

/-- The lock of an accepted stake transaction covers an output worth the amount it records, and is
removed only after its expiry by a transaction that its owner signed, exactly when the outputs
after the first make nothing and every unstake transaction that names the expired lock and its
owner's key is signed by the owner. -/
theorem stake_locks_what_it_stakes_iff (Signed : CTransaction → CPubKey → Prop) (p : Params)
    (nNow : ℤ) (s : State) (tx : CTransaction) (payload : CStakeTransactionPayload)
    (later : List TimedTx) (hrange : ∀ out ∈ tx.vout, InRange 64 out.nValue)
    (hvalid : validateStakeTransaction tx payload p = true)
    (hcreated : (processStakeTransaction nNow tx payload s).1 = true) :
    (∃ lock, getStakeLock ⟨tx.hash, 0⟩ (processStakeTransaction nNow tx payload s).2 = some lock ∧
        lock.nAmount = payload.nStakeAmount ∧ outputValue tx lock.outpoint = some lock.nAmount ∧
        EveryStep (connectStep p) (RemovesRightly Signed p lock)
          (processStakeTransaction nNow tx payload s).2 later) ↔
      totalOutput {tx with vout := tx.vout.tail} = 0 ∧
        EveryStep (connectStep p) (OwnerSigns Signed (stakeLockOf nNow tx payload))
          (processStakeTransaction nNow tx payload s).2 later := by
  obtain ⟨hvout, hlock⟩ := processStake_creates hcreated
  have htotal : totalOutput tx = payload.nStakeAmount := by
    unfold validateStakeTransaction at hvalid
    split_ifs at hvalid
    exact of_decide_eq_true hvalid
  obtain ⟨out, outs, hcons⟩ := List.exists_cons_of_ne_nil hvout
  have hfirst := totalOutput_eq_first_iff hcons (hrange out (hcons ▸ List.mem_cons_self))
  have hvalue : outputValue tx ⟨tx.hash, 0⟩ = some out.nValue := by
    unfold outputValue
    rw [if_pos rfl, hcons]
    rfl
  rw [hlock]
  constructor
  · rintro ⟨lock, hsome, hamount, hcovers, hsteps⟩
    cases hsome
    refine ⟨hfirst.mp ?_, (everyStep_removesRightly_iff _ later).mp hsteps⟩
    rw [htotal, ← hamount]
    exact Option.some.inj (hcovers.symm.trans hvalue)
  · rintro ⟨hrest, hsteps⟩
    refine ⟨stakeLockOf nNow tx payload, rfl, rfl, ?_, ?_⟩
    · exact hvalue.trans (congrArg some ((hfirst.mpr hrest).symm.trans htotal))
    · exact (everyStep_removesRightly_iff _ later).mpr hsteps

theorem stakeOwner_length : (List.replicate 32 (7 : UInt8)).length = CPubKey.getLen 2-1 := rfl

/-- The key of `sampleStake`, and its payload. -/
def stakeOwner : CPubKey := ⟨2, List.replicate 32 7, stakeOwner_length⟩

def samplePayload : CStakeTransactionPayload := ⟨COIN, stakeOwner, 28800⟩

/-- A coin staked by one output, and its owner's signed unstake ten hours later. -/
theorem stake_locks_what_it_stakes_iff_sample :
    ∃ lock, getStakeLock ⟨sampleStake.hash, 0⟩
        (processStakeTransaction 1000000 sampleStake samplePayload {}).2 = some lock ∧
      lock.nAmount = samplePayload.nStakeAmount ∧
      outputValue sampleStake lock.outpoint = some lock.nAmount ∧
      EveryStep (connectStep mainParams)
        (RemovesRightly (fun tx _ => tx = sampleUnstake) mainParams lock)
        (processStakeTransaction 1000000 sampleStake samplePayload {}).2
        [(1036000, sampleUnstake)] := by
  apply (stake_locks_what_it_stakes_iff (fun tx _ => tx = sampleUnstake) mainParams 1000000 {}
    sampleStake samplePayload [(1036000, sampleUnstake)] (by decide) (by decide)
    (by decide)).mpr
  refine ⟨by decide, ?_, trivial⟩
  intro _ _ _ _ _ _ _ _
  rfl

/-- A coin staked in two halves: the lock records the coin and covers the first half. -/
theorem split_stake_underlocked :
    ¬∀ (Signed : CTransaction → CPubKey → Prop) (p : Params) (nNow : ℤ) (s : State)
      (tx : CTransaction) (payload : CStakeTransactionPayload) (later : List TimedTx),
      (∀ out ∈ tx.vout, InRange 64 out.nValue) → validateStakeTransaction tx payload p = true →
      (processStakeTransaction nNow tx payload s).1 = true →
      ∃ lock, getStakeLock ⟨tx.hash, 0⟩ (processStakeTransaction nNow tx payload s).2 = some lock ∧
        lock.nAmount = payload.nStakeAmount ∧ outputValue tx lock.outpoint = some lock.nAmount ∧
        EveryStep (connectStep p) (RemovesRightly Signed p lock)
          (processStakeTransaction nNow tx payload s).2 later := by
  intro h
  obtain ⟨lock, hlock, -, hcovers, -⟩ := h (fun _ _ => True) mainParams 1000000 {}
    {sampleStake with vout := [⟨COIN/2, []⟩, ⟨COIN/2, []⟩]} samplePayload [] (by decide)
    (by decide) (by decide)
  have hstored : getStakeLock ⟨1, 0⟩ (processStakeTransaction 1000000
      {sampleStake with vout := [⟨COIN/2, []⟩, ⟨COIN/2, []⟩]} samplePayload {}).2 =
      some ⟨⟨1, 0⟩, 1028800, COIN, stakeOwner⟩ := by decide
  cases hlock.symm.trans hstored
  revert hcovers
  decide

end BabaChain.Staking
