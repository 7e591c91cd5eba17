import BabaChain.ValidatorManager

/-! The coins behind a stake: whom they belong to when the stake is registered, and
whether they are still there when it weighs in. -/
namespace BabaChain.PoS
open Std (ExtTreeMap)
open OrdMap Runs CValidatorManager

section Ownership

def OP_DUP : UInt8 := 0x76
def OP_HASH160 : UInt8 := 0xa9
def OP_EQUALVERIFY : UInt8 := 0x88
def OP_CHECKSIG : UInt8 := 0xac
def OP_RETURN : UInt8 := 0x6a

/-- A push of fewer than 76 bytes. -/
def pushBytes (bytes : List UInt8) : List UInt8 := UInt8.ofNat bytes.length :: bytes

/-- `GetScriptForRawPubKey`. -/
def scriptForRawPubKey (pubkey : CPubKey) : List UInt8 := pushBytes (keyBytes pubkey)++[OP_CHECKSIG]

/-- `GetScriptForDestination` of the key's hash. -/
def scriptForPKHash (Hash160 : List UInt8 → uint160) (pubkey : CPubKey) : List UInt8 :=
  [OP_DUP, OP_HASH160]++pushBytes (writeUint160 (Hash160 (keyBytes pubkey)))++
    [OP_EQUALVERIFY, OP_CHECKSIG]

/-- The script is a pay-to-pubkey or a pay-to-pubkey-hash of the key. -/
def PaysToKey (Hash160 : List UInt8 → uint160) (scriptPubKey : List UInt8) (pubkey : CPubKey) :
    Prop :=
  scriptPubKey = scriptForRawPubKey pubkey ∨ scriptPubKey = scriptForPKHash Hash160 pubkey

instance (Hash160 : List UInt8 → uint160) (scriptPubKey : List UInt8) (pubkey : CPubKey) :
    Decidable (PaysToKey Hash160 scriptPubKey pubkey) :=
  inferInstanceAs (Decidable (_ ∨ _))

/-- The stake's coin is unspent, of the claimed amount and the validator's own. -/
def OwnsStake (Hash160 : List UInt8 → uint160) (regTx : CValidatorRegTx) (view : CCoinsViewCache) :
    Prop :=
  ∃ coin, view[regTx.stakeOutPoint]? = some coin ∧ coin.isSpent = false ∧
    coin.out.nValue = regTx.nStakeAmount ∧ PaysToKey Hash160 coin.out.scriptPubKey regTx.validatorPubKey

theorem getCoin_eq_some {view : CCoinsViewCache} {o : COutPoint} {coin : Coin} :
    getCoin view o = some coin ↔ view[o]? = some coin ∧ coin.isSpent = false := by
  unfold getCoin
  rw [Option.filter_eq_some_iff, Bool.not_eq_true']

/-- An accepted registration stakes coins of the validator's own exactly when the
coin that the checks look at is, unless one of the checks refuses it anyway. -/
theorem accepted_owns_iff (Hash : List UInt8 → uint256) (Hash160 : List UInt8 → uint160)
    (VerifyECDSA : CPubKey → uint256 → List UInt8 → Bool) (regTx : CValidatorRegTx)
    (view : CCoinsViewCache) (m : CValidatorManager) :
    (validateValidatorRegTx Hash VerifyECDSA regTx view m = .ok () →
        OwnsStake Hash160 regTx view) ↔
      (regTx.nVersion ≠ CURRENT_VERSION ∨ regTx.nStakeAmount < MIN_VALIDATOR_STAKE ∨
        hasValidator (getValidatorHash Hash regTx.validatorPubKey) m.registry = true ∨
        isStakeUsed regTx.stakeOutPoint m.registry = true ∨
        verifyValidatorRegSignature Hash VerifyECDSA regTx = false) ∨
      ∀ coin, getCoin view regTx.stakeOutPoint = some coin →
        coin.out.nValue = regTx.nStakeAmount →
          PaysToKey Hash160 coin.out.scriptPubKey regTx.validatorPubKey := by
  rw [validateValidatorRegTx_eq_ok]
  constructor
  · intro h
    rw [or_iff_not_imp_left]
    -- no other check fails, so acceptance is what makes the coin the validator's own
    intro hchecks coin hcoin hvalue
    push Not at hchecks
    obtain ⟨hv, hm, hn, hu, hs⟩ := hchecks
    have hu := Bool.eq_false_iff.mpr hu
    rw [isStakeUsed, decide_eq_false_iff_not, notMem_iff] at hu
    obtain ⟨coin', hcoin', _, _, hpays⟩ :=
      h ⟨hv, hm, hasValidator_eq_false.mp (Bool.eq_false_iff.mpr hn), hu, ⟨coin, hcoin, hvalue⟩,
        Bool.eq_true_of_not_eq_false hs⟩
    have hsame := (getCoin_eq_some.mp hcoin).1
    rw [hcoin', Option.some.injEq] at hsame
    exact hsame ▸ hpays
  · rintro h ⟨hv, hm, hn, hu, ⟨coin, hcoin, hvalue⟩, hs⟩
    have hused : isStakeUsed regTx.stakeOutPoint m.registry = false := by
      rw [isStakeUsed, decide_eq_false_iff_not, notMem_iff]
      exact hu
    -- the transaction passed all five checks, so none of them fails
    rcases h with (h | h | h | h | h) | hpays
    · exact absurd hv h
    · exact absurd hm (not_le.mpr h)
    · rw [hasValidator_eq_false.mpr hn] at h
      contradiction
    · rw [hused] at h
      contradiction
    · rw [hs] at h
      contradiction
    · obtain ⟨hget, hspent⟩ := getCoin_eq_some.mp hcoin
      exact ⟨coin, hget, hspent, hvalue, hpays coin hcoin hvalue⟩

/-- A hash of 20 bytes that keeps the low ones. -/
def lowHash160 (bytes : List UInt8) : uint160 := BitVec.ofNat 160 (ByteReader.leNat bytes)

/-- One validator registers the coins of another key as its stake. -/
theorem foreign_coins_accepted :
    ¬(validateValidatorRegTx lowHash tagVerify (sampleReg (sampleKey 1) ⟨1, 0⟩)
          (sampleView (scriptForPKHash lowHash160 (sampleKey 2)) [⟨1, 0⟩]) init = .ok () →
        OwnsStake lowHash160 (sampleReg (sampleKey 1) ⟨1, 0⟩)
          (sampleView (scriptForPKHash lowHash160 (sampleKey 2)) [⟨1, 0⟩])) := by
  intro h
  obtain ⟨coin, hget, _, _, hpays⟩ := h (by decide +kernel)
  have hcoin : (sampleView (scriptForPKHash lowHash160 (sampleKey 2)) [⟨1, 0⟩])[
      (sampleReg (sampleKey 1) ⟨1, 0⟩).stakeOutPoint]? =
        some ⟨⟨1000*COIN, scriptForPKHash lowHash160 (sampleKey 2)⟩⟩ := by
    decide +kernel
  rw [hcoin, Option.some.injEq] at hget
  subst hget
  revert hpays
  decide +kernel

end Ownership

section Backing

/-- The manager next to the coin view it is called with. -/
structure Node where
  manager : CValidatorManager
  view : CCoinsViewCache
deriving DecidableEq

inductive NodeOp where
  | regTx (now : ℤ) (txHash : uint256) (regTx : CValidatorRegTx) (pindex : CBlockIndex)
  | deregTx (txHash : uint256) (deregTx : CValidatorDeregTx)
  | spendCoin (outpoint : COutPoint)
  | addCoin (outpoint : COutPoint) (coin : Coin)
deriving DecidableEq

/-- `CCoinsViewCache::AddCoin` without overwriting: an unspent coin stays, and an
unspendable one is not added. -/
def addCoin (outpoint : COutPoint) (coin : Coin) (view : CCoinsViewCache) : Bool × CCoinsViewCache :=
  if coin.isSpent then (false, view)
  else if coin.out.scriptPubKey.head? = some OP_RETURN ∨ 10000 < coin.out.scriptPubKey.length then
    (true, view)
  else if (getCoin view outpoint).isSome then (false, view)
  else (true, view.insert outpoint coin)

def spendCoin (outpoint : COutPoint) (view : CCoinsViewCache) : Bool × CCoinsViewCache :=
  (decide (outpoint ∈ view), view.erase outpoint)

section Step

variable (Hash : List UInt8 → uint256) (VerifyECDSA : CPubKey → uint256 → List UInt8 → Bool)

def nodeStep (n : Node) : NodeOp → Bool × Node
  | .regTx now txHash regTx pindex =>
    let (accepted, manager) :=
      managerStep Hash VerifyECDSA n.manager (.regTx now txHash regTx pindex n.view)
    (accepted, {n with manager := manager})
  | .deregTx txHash deregTx =>
    let (accepted, manager) := managerStep Hash VerifyECDSA n.manager (.deregTx txHash deregTx)
    (accepted, {n with manager := manager})
  | .spendCoin outpoint =>
    let (spent, view) := spendCoin outpoint n.view
    (spent, {n with view := view})
  | .addCoin outpoint coin =>
    let (added, view) := addCoin outpoint coin n.view
    (added, {n with view := view})

end Step

/-- The coin view has an unspent coin of the staked amount at the outpoint. -/
def Backed (view : CCoinsViewCache) (v : CValidator) : Prop :=
  ∃ coin, getCoin view v.stakeInput.prevout = some coin ∧ coin.out.nValue = v.nStakeAmount

instance (view : CCoinsViewCache) (v : CValidator) : Decidable (Backed view v) :=
  inferInstanceAs (Decidable (∃ coin ∈ getCoin view v.stakeInput.prevout,
    coin.out.nValue = v.nStakeAmount))

/-- No coin that a registered validator stakes is spent. -/
def SparesStakes (n : Node) : NodeOp → Prop
  | .spendCoin outpoint => isStakeUsed outpoint n.manager.registry = false
  | _ => True

instance (n : Node) (op : NodeOp) : Decidable (SparesStakes n op) := by
  cases op <;> (dsimp only [SparesStakes]; infer_instance)

/-- Every entry is active and backed. -/
structure AllBacked (Hash : List UInt8 → uint256) (n : Node) : Prop where
  consistent : Consistent Hash n.manager.registry
  active : ∀ (h : uint256) (v : CValidator), n.manager.registry.mapValidators[h]? = some v →
    v.status = .ACTIVE
  backed : ∀ (h : uint256) (v : CValidator), n.manager.registry.mapValidators[h]? = some v →
    Backed n.view v

variable {Hash : List UInt8 → uint256} {VerifyECDSA : CPubKey → uint256 → List UInt8 → Bool}
variable {n : Node}

theorem allBacked_init (Hash : List UInt8 → uint256) (view : CCoinsViewCache) :
    AllBacked Hash ⟨init, view⟩ := by
  refine ⟨consistent_empty Hash, fun h v hv => ?_, fun h v hv => ?_⟩
  · rw [show init.registry.mapValidators[h]? = none from ExtTreeMap.getElem?_empty] at hv
    contradiction
  · rw [show init.registry.mapValidators[h]? = none from ExtTreeMap.getElem?_empty] at hv
    contradiction

theorem AllBacked.regTx (hn : AllBacked Hash n) (now : ℤ) (txHash : uint256)
    (regTx : CValidatorRegTx) (pindex : CBlockIndex) :
    AllBacked Hash (nodeStep Hash VerifyECDSA n (.regTx now txHash regTx pindex)).2 := by
  dsimp only [nodeStep, managerStep]
  by_cases he : RegTakesEffect Hash VerifyECDSA txHash regTx pindex n.view n.manager
  · obtain ⟨db, hdb⟩ := he.opened
    have hstep : processValidatorRegTx Hash VerifyECDSA now txHash regTx pindex n.view n.manager = _ :=
      processValidatorRegTx_effect hdb he
    rw [hstep]
    -- every entry is the new validator or was there before
    have hentry (h : uint256) (v : CValidator)
        (hv : (addValidator Hash (regValidator now regTx pindex)
          n.manager.registry).mapValidators[h]? = some v) :
        v = regValidator now regTx pindex ∨ n.manager.registry.mapValidators[h]? = some v := by
      unfold addValidator at hv
      rw [getElem?_insert] at hv
      split_ifs at hv
      · exact Or.inl (Option.some.inj hv).symm
      · exact Or.inr hv
    refine ⟨hn.consistent.add he.accepted.new he.accepted.unused he.valid, fun h v hv => ?_,
      fun h v hv => ?_⟩
    · rcases hentry h v hv with rfl | hold
      · rfl
      · exact hn.active h v hold
    · rcases hentry h v hv with rfl | hold
      · exact he.accepted.coin
      · exact hn.backed h v hold
  · rw [processValidatorRegTx_unchanged hn.consistent he]
    exact hn

theorem AllBacked.deregTx (hn : AllBacked Hash n) (txHash : uint256)
    (deregTx : CValidatorDeregTx) :
    AllBacked Hash (nodeStep Hash VerifyECDSA n (.deregTx txHash deregTx)).2 := by
  dsimp only [nodeStep, managerStep]
  by_cases he : DeregTakesEffect Hash VerifyECDSA txHash deregTx n.manager
  · obtain ⟨v, hv⟩ := he.accepted.known
    rw [processValidatorDeregTx_effect hv he]
    have hentry (h : uint256) (w : CValidator)
        (hw : (dropValidator (getValidatorHash Hash deregTx.validatorPubKey) v
          n.manager.registry).mapValidators[h]? = some w) :
        n.manager.registry.mapValidators[h]? = some w := by
      unfold dropValidator at hw
      rw [getElem?_erase] at hw
      split_ifs at hw
      exact hw
    exact ⟨hn.consistent.drop hv, fun h w hw => hn.active h w (hentry h w hw),
      fun h w hw => hn.backed h w (hentry h w hw)⟩
  · rw [processValidatorDeregTx_unchanged he]
    exact hn

theorem AllBacked.spendCoin (hn : AllBacked Hash n) {o : COutPoint}
    (ho : isStakeUsed o n.manager.registry = false) :
    AllBacked Hash (nodeStep Hash VerifyECDSA n (.spendCoin o)).2 := by
  refine ⟨hn.consistent, hn.active, fun h v hv => ?_⟩
  rw [isStakeUsed, decide_eq_false_iff_not, notMem_iff] at ho
  -- the spent coin is nobody's stake, so this one is still there
  have hne : v.stakeInput.prevout ≠ o := hn.consistent.stake_none ho hv
  obtain ⟨coin, hcoin, hvalue⟩ := hn.backed h v hv
  refine ⟨coin, ?_, hvalue⟩
  rw [getCoin_eq_some] at hcoin ⊢
  refine ⟨?_, hcoin.2⟩
  dsimp only [nodeStep, PoS.spendCoin]
  rw [getElem?_erase, if_neg hne.symm]
  exact hcoin.1

theorem AllBacked.addCoin (hn : AllBacked Hash n) (o : COutPoint) (coin : Coin) :
    AllBacked Hash (nodeStep Hash VerifyECDSA n (.addCoin o coin)).2 := by
  refine ⟨hn.consistent, hn.active, fun h v hv => ?_⟩
  have hb := hn.backed h v hv
  dsimp only [nodeStep, PoS.addCoin]
  split_ifs with hspent hscript hthere
  · exact hb
  · exact hb
  · exact hb
  · obtain ⟨staked, hstaked, hvalue⟩ := hb
    refine ⟨staked, ?_, hvalue⟩
    -- the staked coin is unspent, so the new one lies elsewhere
    have hne : o ≠ v.stakeInput.prevout := by
      rintro rfl
      rw [hstaked] at hthere
      exact hthere rfl
    rw [getCoin_eq_some] at hstaked ⊢
    rw [getElem?_insert, if_neg hne]
    exact hstaked

theorem AllBacked.step (hn : AllBacked Hash n) {op : NodeOp} (hop : SparesStakes n op) :
    AllBacked Hash (nodeStep Hash VerifyECDSA n op).2 := by
  cases op with
  | regTx now txHash regTx pindex => exact hn.regTx now txHash regTx pindex
  | deregTx txHash deregTx => exact hn.deregTx txHash deregTx
  | spendCoin o => exact hn.spendCoin hop
  | addCoin o coin => exact hn.addCoin o coin

/-- Spending a stake leaves its validator eligible, once the stake is old enough. -/
theorem exists_unbacked (hn : AllBacked Hash n) {op : NodeOp} (hop : ¬SparesStakes n op) :
    ∃ t, ∃ v ∈ getEligibleValidators t (nodeStep Hash VerifyECDSA n op).2.manager.registry,
      ¬Backed (nodeStep Hash VerifyECDSA n op).2.view v := by
  cases op with
  | spendCoin o =>
    have hused : o ∈ n.manager.registry.mapStakeToValidator := by
      by_contra hnot
      exact hop (decide_eq_false hnot)
    obtain ⟨h, hh⟩ := mem_iff_exists.mp hused
    obtain ⟨v, hv, ho⟩ := (hn.consistent.stake o h).mp hh
    refine ⟨v.stakeInput.nTime+MIN_STAKE_AGE, v, ?_, ?_⟩
    · -- old enough at that time, and nothing took it off the active list
      have hstatus := hn.active h v hv
      refine mem_getEligibleValidators.mpr ⟨h, (hn.consistent.active h).mpr ⟨v, hv, hstatus⟩, hv, ?_⟩
      have hage : v.stakeInput.getAge (v.stakeInput.nTime+MIN_STAKE_AGE) = MIN_STAKE_AGE :=
        add_sub_cancel_left _ _
      rw [CValidator.isEligible, CValidator.isActive, decide_eq_true hstatus,
        CStakeInput.isEligible, hage]
      decide
    · rintro ⟨coin, hcoin, _⟩
      have hget := (getCoin_eq_some.mp hcoin).1
      dsimp only [nodeStep, PoS.spendCoin] at hget
      rw [getElem?_erase, if_pos ho.symm] at hget
      contradiction
  | regTx | deregTx | addCoin => exact (hop trivial).elim

/-- Whatever is spent meanwhile, the eligible validators are backed by unspent
coins at every point of a run, exactly when no step spends a registered stake. -/
theorem eligible_backed_iff (Hash : List UInt8 → uint256)
    (VerifyECDSA : CPubKey → uint256 → List UInt8 → Bool) (view : CCoinsViewCache)
    (ops : List NodeOp) :
    (∀ bs, bs <+: ops → ∀ t,
      ∀ v ∈ getEligibleValidators t
        (final (nodeStep Hash VerifyECDSA) ⟨init, view⟩ bs).manager.registry,
        Backed (final (nodeStep Hash VerifyECDSA) ⟨init, view⟩ bs).view v) ↔
      EveryStep (nodeStep Hash VerifyECDSA) SparesStakes ⟨init, view⟩ ops := by
  apply forall_prefix_iff (AllBacked Hash)
    (fun n => ∀ t, ∀ v ∈ getEligibleValidators t n.manager.registry, Backed n.view v) _
    (fun n op hn => hn.step) _ (allBacked_init Hash view)
  · intro n hn t v hv
    obtain ⟨h, _, hget, _⟩ := mem_getEligibleValidators.mp hv
    exact hn.backed h v hget
  · intro n op hn hop hall
    obtain ⟨t, v, hv, hnot⟩ := @exists_unbacked Hash VerifyECDSA n hn op hop
    exact hnot (hall t v hv)

/-- The same thousand coins, moved to a new outpoint and registered again. -/
def movedStake : List NodeOp :=
  [.regTx 1000 7 (sampleReg (sampleKey 1) ⟨1, 0⟩) ⟨900, 5⟩,
   .spendCoin ⟨1, 0⟩,
   .addCoin ⟨2, 0⟩ ⟨⟨1000*COIN, []⟩⟩,
   .regTx 1000 8 (sampleReg (sampleKey 2) ⟨2, 0⟩) ⟨900, 5⟩]

theorem moved_stake_weighs_twice :
    let n := final (nodeStep lowHash tagVerify) ⟨init, sampleView [] [⟨1, 0⟩]⟩ movedStake
    (getEligibleValidators 50000 n.manager.registry).map CValidator.nStakeAmount =
        [1000*COIN, 1000*COIN] ∧
      ¬∀ v ∈ getEligibleValidators 50000 n.manager.registry, Backed n.view v := by
  decide +kernel

end Backing

end BabaChain.PoS
