import BabaChain.Lib.Runs
import BabaChain.StakingTransactions

/-! Two nodes that connect the same transactions at different local times. -/
namespace BabaChain.Staking
open MachineInt Runs Std

/-- What a node is asked: to connect a transaction, or whether an output is
locked at a given time. -/
inductive Action where
  | connect (tx : CTransaction)
  | query (outpoint : COutPoint) (nCurrentTime : ℤ)
deriving DecidableEq

/-- A node's answer to an action that reaches it when its clock reads `nNow`. -/
def step (p : Params) (s : State) : SInt 64 × Action → Bool × State
  | (nNow, .connect tx) => connectTransaction p nNow tx s
  | (nNow, .query outpoint nCurrentTime) => (isStakeLocked nNow outpoint nCurrentTime s, s)

/-- An action that reaches two nodes when their clocks read `nA` and `nB`. -/
structure Event where
  nA : SInt 64
  nB : SInt 64
  action : Action

def Event.atA (e : Event) : SInt 64 × Action := (e.nA, e.action)

def Event.atB (e : Event) : SInt 64 × Action := (e.nB, e.action)

/-- A valid stake transaction whose first output is not locked yet. -/
def CreatesLock (p : Params) (s : State) (tx : CTransaction) : Prop :=
  ¬(tx.vin = [] ∨ tx.vout = []) ∧ tx.nType = TRANSACTION_STAKE ∧
    (⟨tx.hash, 0⟩ : COutPoint) ∉ s.mapStakeLocks ∧
    ∃ payload, decodePayload readStakePayload tx = some payload ∧
      validateStakeTransaction tx payload p = true

/-- An unstake transaction of the owner of a lock. -/
def RedeemsLock (s : State) (tx : CTransaction) (lock : CStakeLock) : Prop :=
  ¬(tx.vin = [] ∨ tx.vout = []) ∧ tx.nType = TRANSACTION_UNSTAKE ∧
    ∃ payload, decodePayload readUnstakePayload tx = some payload ∧
      getStakeLock payload.stakeOutpoint s = some lock ∧ lock.ownerPubKey = payload.stakePubKey

/-- The two clocks are on the same side of everything the action compares with
the time, and equal where it stores the time in a lock. -/
def ClocksAgree (p : Params) (s : State) (nA nB : ℤ) : Action → Prop
  | .connect tx => (CreatesLock p s tx → nA = nB) ∧
      ∀ lock, RedeemsLock s tx lock → lock.isExpired nA = lock.isExpired nB
  | .query outpoint nCurrentTime => nCurrentTime = 0 → ∀ lock,
      getStakeLock outpoint s = some lock → lock.isExpired nA = lock.isExpired nB

/-- Two nodes hold the same locks and have registered the same keys. -/
def SameLocks (s t : State) : Prop :=
  s.mapStakeLocks = t.mapStakeLocks ∧ ∀ k, k ∈ s.mapValidators ↔ k ∈ t.mapValidators

variable {p : Params} {s t : State} {nA nB : SInt 64} {tx : CTransaction}

section Connect

theorem connect_malformed (nNow : ℤ) (hbad : tx.vin = [] ∨ tx.vout = []) :
    connectTransaction p nNow tx s = (false, s) := by
  simp only [connectTransaction, validateStakingTransaction, if_pos hbad, Bool.false_eq_true,
    if_false]

theorem connect_stake (nNow : ℤ) (hok : ¬(tx.vin = [] ∨ tx.vout = []))
    (ht : tx.nType = TRANSACTION_STAKE) :
    connectTransaction p nNow tx s =
      match decodePayload readStakePayload tx with
      | none => (false, s)
      | some payload =>
        if validateStakeTransaction tx payload p then
          (true, (processStakeTransaction nNow tx payload s).2)
        else (false, s) := by
  unfold connectTransaction validateStakingTransaction processStakingTransaction
  rw [if_neg hok, if_pos ht, if_pos ht]
  cases decodePayload readStakePayload tx with
  | none => rfl
  | some payload => rfl

theorem connect_unstake (nNow : ℤ) (hok : ¬(tx.vin = [] ∨ tx.vout = []))
    (ht : tx.nType = TRANSACTION_UNSTAKE) :
    connectTransaction p nNow tx s =
      match decodePayload readUnstakePayload tx with
      | none => (false, s)
      | some payload =>
        if validateUnstakeTransaction nNow payload s then
          (true, (removeStakeLock payload.stakeOutpoint s).2)
        else (false, s) := by
  have hne : tx.nType ≠ TRANSACTION_STAKE := by
    rw [ht]
    decide
  unfold connectTransaction validateStakingTransaction processStakingTransaction
  rw [if_neg hok, if_neg hne, if_pos ht, if_neg hne, if_pos ht]
  cases decodePayload readUnstakePayload tx with
  | none => rfl
  | some payload => rfl

theorem connect_register (nNow : ℤ) (hok : ¬(tx.vin = [] ∨ tx.vout = []))
    (ht : tx.nType = TRANSACTION_VALIDATOR_REGISTER) :
    connectTransaction p nNow tx s =
      match decodePayload readRegistrationPayload tx with
      | none => (false, s)
      | some payload =>
        if validateValidatorRegistration tx payload p s then
          (true, (processValidatorRegistration nNow payload s).2)
        else (false, s) := by
  have hne : tx.nType ≠ TRANSACTION_STAKE := by
    rw [ht]
    decide
  have hne' : tx.nType ≠ TRANSACTION_UNSTAKE := by
    rw [ht]
    decide
  unfold connectTransaction validateStakingTransaction processStakingTransaction
  rw [if_neg hok, if_neg hne, if_neg hne', if_pos ht, if_neg hne, if_neg hne', if_pos ht]
  cases decodePayload readRegistrationPayload tx with
  | none => rfl
  | some payload => rfl

theorem connect_other (nNow : ℤ) (hok : ¬(tx.vin = [] ∨ tx.vout = []))
    (h1 : tx.nType ≠ TRANSACTION_STAKE) (h2 : tx.nType ≠ TRANSACTION_UNSTAKE)
    (h3 : tx.nType ≠ TRANSACTION_VALIDATOR_REGISTER) :
    connectTransaction p nNow tx s = (true, s) := by
  simp only [connectTransaction, validateStakingTransaction, processStakingTransaction,
    if_neg hok, if_neg h1, if_neg h2, if_neg h3, if_true]

end Connect

theorem wrap_add_inj {d : ℤ} (h : wrap 64 ((nA : ℤ)+d) = wrap 64 ((nB : ℤ)+d)) : (nA : ℤ) = nB := by
  have hA := nA.2
  have hB := nB.2
  unfold InRange at hA hB
  -- the clocks are less than a full period apart
  simp only [wrap, Int.bmod] at h
  norm_num at h hA hB
  split_ifs at h <;> omega

theorem SameLocks.getStakeLock_eq (h : SameLocks s t) (o : COutPoint) :
    getStakeLock o s = getStakeLock o t := by
  unfold getStakeLock
  rw [h.1]

theorem SameLocks.isValidatorRegistered_eq (h : SameLocks s t) (k : CPubKey) :
    isValidatorRegistered k s = isValidatorRegistered k t :=
  decide_eq_decide.mpr (h.2 k)

theorem SameLocks.isStakeLocked_eq (h : SameLocks s t) {o : COutPoint} {n : ℤ} {a b : ℤ}
    (hc : n = 0 → ∀ lock, getStakeLock o s = some lock → lock.isExpired a = lock.isExpired b) :
    isStakeLocked a o n s = isStakeLocked b o n t := by
  unfold isStakeLocked
  rw [← h.1]
  cases hl : s.mapStakeLocks[o]? with
  | none => rfl
  | some lock =>
    by_cases hn : n = 0
    · simp only [if_pos hn, hc hn lock hl]
    · simp only [if_neg hn]

theorem SameLocks.validateRegistration_eq (h : SameLocks s t)
    (payload : CValidatorRegistrationPayload) :
    validateValidatorRegistration tx payload p s = validateValidatorRegistration tx payload p t := by
  unfold validateValidatorRegistration
  rw [h.isValidatorRegistered_eq]

theorem SameLocks.processRegistration (h : SameLocks s t) (a b : ℤ)
    (payload : CValidatorRegistrationPayload) :
    SameLocks (processValidatorRegistration a payload s).2
      (processValidatorRegistration b payload t).2 := by
  unfold processValidatorRegistration registerValidator
  rw [h.isValidatorRegistered_eq]
  by_cases hr : isValidatorRegistered payload.validatorPubKey t = true
  · rw [if_pos hr, if_pos hr]
    exact h
  · have ht : payload.validatorPubKey ∉ t.mapValidators := fun hm => hr (decide_eq_true hm)
    have hs : payload.validatorPubKey ∉ s.mapValidators := fun hm => ht ((h.2 _).mp hm)
    rw [if_neg hr, if_neg hr, if_neg ht, if_neg hs]
    refine ⟨h.1, fun k => ?_⟩
    -- the registration times differ, the registered keys do not
    simp only [ExtTreeMap.mem_insert, h.2 k]

theorem SameLocks.removeLock (h : SameLocks s t) (o : COutPoint) :
    SameLocks (removeStakeLock o s).2 (removeStakeLock o t).2 := by
  unfold removeStakeLock
  rw [h.1]
  by_cases hm : o ∈ t.mapStakeLocks
  · rw [if_pos hm, if_pos hm]
    exact ⟨rfl, h.2⟩
  · rw [if_neg hm, if_neg hm]
    exact h

theorem SameLocks.createLock (h : SameLocks s t) (n d a : ℤ) (o : COutPoint) (k : CPubKey) :
    SameLocks (createStakeLock n o d a k s).2 (createStakeLock n o d a k t).2 := by
  unfold createStakeLock
  rw [h.1]
  by_cases hm : o ∈ t.mapStakeLocks
  · rw [if_pos hm, if_pos hm]
    exact h
  · rw [if_neg hm, if_neg hm]
    exact ⟨rfl, h.2⟩

/-- An owner's unstake is judged by the side of the expiry its clock is on. -/
theorem validateUnstake_eq_expired {a : ℤ} {payload : CUnstakeTransactionPayload}
    {lock : CStakeLock} (hl : getStakeLock payload.stakeOutpoint s = some lock)
    (hk : lock.ownerPubKey = payload.stakePubKey) :
    validateUnstakeTransaction a payload s = lock.isExpired a := by
  unfold validateUnstakeTransaction
  rw [hl]
  cases he : lock.isExpired a with
  | false => simp only [he, Bool.not_false, if_true]
  | true => simp only [he, Bool.not_true, Bool.false_eq_true, if_false, hk, decide_true]

theorem validateUnstake_eq_false {a : ℤ} {payload : CUnstakeTransactionPayload}
    (hno : ∀ lock, getStakeLock payload.stakeOutpoint s = some lock →
      lock.ownerPubKey ≠ payload.stakePubKey) :
    validateUnstakeTransaction a payload s = false := by
  unfold validateUnstakeTransaction
  cases hl : getStakeLock payload.stakeOutpoint s with
  | none => rfl
  | some lock =>
    have hk := hno lock hl
    cases lock.isExpired a <;> simp [hk]

theorem SameLocks.validateUnstake_eq (h : SameLocks s t) (a b : ℤ)
    (payload : CUnstakeTransactionPayload)
    (hc : ∀ lock, getStakeLock payload.stakeOutpoint s = some lock →
      lock.ownerPubKey = payload.stakePubKey → lock.isExpired a = lock.isExpired b) :
    validateUnstakeTransaction a payload s = validateUnstakeTransaction b payload t := by
  by_cases hex : ∃ lock, getStakeLock payload.stakeOutpoint s = some lock ∧
      lock.ownerPubKey = payload.stakePubKey
  · obtain ⟨lock, hl, hk⟩ := hex
    rw [validateUnstake_eq_expired hl hk, hc lock hl hk,
      ← validateUnstake_eq_expired (h.getStakeLock_eq _ ▸ hl) hk]
  · push Not at hex
    rw [validateUnstake_eq_false hex,
      validateUnstake_eq_false (fun lock hl => hex lock ((h.getStakeLock_eq _).trans hl))]

/-- Where the clocks agree, both nodes give the same verdict and still hold the
same locks. -/
theorem connect_same (h : SameLocks s t) (hc : ClocksAgree p s nA nB (.connect tx)) :
    (connectTransaction p nA tx s).1 = (connectTransaction p nB tx t).1 ∧
      SameLocks (connectTransaction p nA tx s).2 (connectTransaction p nB tx t).2 := by
  by_cases hbad : tx.vin = [] ∨ tx.vout = []
  · rw [connect_malformed _ hbad, connect_malformed _ hbad]
    exact ⟨rfl, h⟩
  -- one case for each transaction type, in the order of the source
  by_cases h1 : tx.nType = TRANSACTION_STAKE
  · rw [connect_stake _ hbad h1, connect_stake _ hbad h1]
    cases hd : decodePayload readStakePayload tx with
    | none => exact ⟨rfl, h⟩
    | some payload =>
      dsimp only
      by_cases hv : validateStakeTransaction tx payload p = true
      · rw [if_pos hv, if_pos hv]
        refine ⟨rfl, ?_⟩
        have hout : tx.vout ≠ [] := fun ho => hbad (Or.inr ho)
        unfold processStakeTransaction
        rw [if_neg hout, if_neg hout]
        by_cases hm : (⟨tx.hash, 0⟩ : COutPoint) ∈ s.mapStakeLocks
        · -- both nodes already have the lock and leave it as it is
          have hm' : (⟨tx.hash, 0⟩ : COutPoint) ∈ t.mapStakeLocks := h.1 ▸ hm
          simp only [createStakeLock, if_pos hm, if_pos hm']
          exact h
        · -- a new lock takes the clock's time, which is the same on both
          rw [hc.1 ⟨hbad, h1, hm, payload, hd, hv⟩]
          exact h.createLock _ _ _ _ _
      · rw [if_neg hv, if_neg hv]
        exact ⟨rfl, h⟩
  by_cases h2 : tx.nType = TRANSACTION_UNSTAKE
  · rw [connect_unstake _ hbad h2, connect_unstake _ hbad h2]
    cases hd : decodePayload readUnstakePayload tx with
    | none => exact ⟨rfl, h⟩
    | some payload =>
      dsimp only
      -- the clocks are on one side of the expiry
      have hv := h.validateUnstake_eq nA nB payload
        (fun lock hl hk => hc.2 lock ⟨hbad, h2, payload, hd, hl, hk⟩)
      rw [hv]
      split
      · exact ⟨rfl, h.removeLock _⟩
      · exact ⟨rfl, h⟩
  by_cases h3 : tx.nType = TRANSACTION_VALIDATOR_REGISTER
  · rw [connect_register _ hbad h3, connect_register _ hbad h3]
    cases hd : decodePayload readRegistrationPayload tx with
    | none => exact ⟨rfl, h⟩
    | some payload =>
      dsimp only
      rw [h.validateRegistration_eq]
      split
      · exact ⟨rfl, h.processRegistration _ _ _⟩
      · exact ⟨rfl, h⟩
  · rw [connect_other _ hbad h1 h2 h3, connect_other _ hbad h1 h2 h3]
    exact ⟨rfl, h⟩

theorem step_same {a : Action} (h : SameLocks s t) (hc : ClocksAgree p s nA nB a) :
    (step p s (nA,a)).1 = (step p t (nB,a)).1 ∧ SameLocks (step p s (nA,a)).2 (step p t (nB,a)).2 := by
  cases a with
  | connect tx => exact connect_same h hc
  | query o n => exact ⟨h.isStakeLocked_eq hc, h⟩

/-- A stake transaction stored at two different times leaves different locks. -/
theorem createsLock_differs (h : SameLocks s t) (hcl : CreatesLock p s tx) (hne : (nA : ℤ) ≠ nB) :
    (connectTransaction p nA tx s).2.mapStakeLocks ≠
      (connectTransaction p nB tx t).2.mapStakeLocks := by
  obtain ⟨hbad, h1, hm, payload, hd, hv⟩ := hcl
  have hm' : (⟨tx.hash, 0⟩ : COutPoint) ∉ t.mapStakeLocks := h.1 ▸ hm
  have hout : tx.vout ≠ [] := fun ho => hbad (Or.inr ho)
  rw [connect_stake _ hbad h1, connect_stake _ hbad h1, hd]
  simp only [if_pos hv, processStakeTransaction, if_neg hout, createStakeLock, if_neg hm,
    if_neg hm']
  intro heq
  -- equal maps would hold equal lock times at the new outpoint
  have hg := congrArg (fun m : ExtTreeMap COutPoint CStakeLock => m[(⟨tx.hash, 0⟩ : COutPoint)]?) heq
  simp only [ExtTreeMap.getElem?_insert_self, Option.some.injEq, CStakeLock.mk.injEq, true_and,
    and_true] at hg
  exact hne (wrap_add_inj hg)

/-- An owner's unstake seen from two sides of the expiry gets two verdicts. -/
theorem redeemsLock_differs (h : SameLocks s t) {lock : CStakeLock} (hr : RedeemsLock s tx lock)
    (hne : lock.isExpired nA ≠ lock.isExpired nB) :
    (connectTransaction p nA tx s).1 ≠ (connectTransaction p nB tx t).1 := by
  obtain ⟨hbad, h2, payload, hd, hl, hk⟩ := hr
  have hl' : getStakeLock payload.stakeOutpoint t = some lock := h.getStakeLock_eq _ ▸ hl
  rw [connect_unstake _ hbad h2, connect_unstake _ hbad h2, hd]
  simp only [validateUnstake_eq_expired hl hk, validateUnstake_eq_expired hl' hk]
  revert hne
  cases lock.isExpired nA <;> cases lock.isExpired nB <;> simp

theorem step_differs {a : Action} (h : SameLocks s t) (hc : ¬ClocksAgree p s nA nB a) :
    (step p s (nA,a)).1 ≠ (step p t (nB,a)).1 ∨
      (step p s (nA,a)).2.mapStakeLocks ≠ (step p t (nB,a)).2.mapStakeLocks := by
  cases a with
  | connect tx =>
    rw [ClocksAgree, not_and_or] at hc
    rcases hc with hc | hc
    · push Not at hc
      exact Or.inr (createsLock_differs h hc.1 hc.2)
    · push Not at hc
      obtain ⟨lock, hr, hne⟩ := hc
      exact Or.inl (redeemsLock_differs h hr hne)
  | query o n =>
    unfold ClocksAgree at hc
    push Not at hc
    obtain ⟨rfl, lock, hl, hne⟩ := hc
    left
    have hl' : getStakeLock o t = some lock := h.getStakeLock_eq _ ▸ hl
    unfold getStakeLock at hl hl'
    simp only [step, isStakeLocked, if_true, hl, hl']
    exact fun heq => hne (Bool.not_inj heq)

/-- Two nodes that start alike give the same verdicts and lock answers and hold
the same expiry times, along a whole run, exactly when their clocks agree at
every step. -/
theorem staking_clock_independent_iff (p : Params) (s : State) (es : List Event) :
    Agree (step p) State.mapStakeLocks Event.atA Event.atB s s es ↔
      EveryStep (fun s e => step p s e.atA) (fun s e => ClocksAgree p s e.nA e.nB e.action) s es := by
  apply agree_iff_everyStep SameLocks
  · exact fun s t h => h.1
  · exact fun s t e h hc => step_same h hc
  · exact fun s t e h hc => step_differs h hc
  · exact ⟨rfl, fun _ => Iff.rfl⟩

/-- A key whose bytes have a valid form. -/
def sampleKey : List UInt8 := 2 :: List.replicate 32 7

/-- One coin staked for the minimum age. -/
def sampleStake : CTransaction where
  hash := 1
  nType := TRANSACTION_STAKE
  vin := [⟨⟨0, 0⟩⟩]
  vout := [⟨COIN, []⟩]
  vExtraPayload := [0x00, 0xe1, 0xf5, 0x05, 0, 0, 0, 0, 33]++sampleKey++[0x80, 0x70, 0, 0, 0, 0, 0, 0]

/-- The owner's unstake of it. -/
def sampleUnstake : CTransaction where
  hash := 2
  nType := TRANSACTION_UNSTAKE
  vin := [⟨⟨0, 0⟩⟩]
  vout := [⟨COIN, []⟩]
  vExtraPayload := List.replicate 31 0++[1, 0, 0, 0, 0, 33]++sampleKey

/-- A node that sees both transactions ten hours apart accepts the unstake, one
that syncs them at once rejects it. -/
theorem staking_verdict_depends_on_clock :
    outputs (step mainParams) {} [(⟨1000000, by decide⟩, .connect sampleStake),
        (⟨1036000, by decide⟩, .connect sampleUnstake)] = [true, true] ∧
      outputs (step mainParams) {} [(⟨1036000, by decide⟩, .connect sampleStake),
        (⟨1036000, by decide⟩, .connect sampleUnstake)] = [true, false] ∧
      ¬∀ es, Agree (step mainParams) State.mapStakeLocks Event.atA Event.atB {} {} es := by
  have hA : outputs (step mainParams) {} [(⟨1000000, by decide⟩, .connect sampleStake),
      (⟨1036000, by decide⟩, .connect sampleUnstake)] = [true, true] := by decide
  have hB : outputs (step mainParams) {} [(⟨1036000, by decide⟩, .connect sampleStake),
      (⟨1036000, by decide⟩, .connect sampleUnstake)] = [true, false] := by decide
  refine ⟨hA, hB, fun h => ?_⟩
  have hag := (h [⟨⟨1000000, by decide⟩, ⟨1036000, by decide⟩, .connect sampleStake⟩,
    ⟨⟨1036000, by decide⟩, ⟨1036000, by decide⟩, .connect sampleUnstake⟩] _ List.prefix_rfl).1
  simp only [List.map_cons, List.map_nil, Event.atA, Event.atB] at hag
  rw [hA, hB] at hag
  contradiction

end BabaChain.Staking
