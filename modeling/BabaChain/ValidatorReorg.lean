import BabaChain.ValidatorPersistence

/-! The manager under a chain that grows and is cut back: what connected and
disconnected blocks leave behind, compared with the active chain alone. -/
namespace BabaChain.PoS.CValidatorManager
open Std (ExtTreeMap)
open OrdMap Runs

/-- A transaction as a block brings it, with the clock and the view it meets. -/
inductive BlockTx where
  | reg (now : ℤ) (txHash : uint256) (regTx : CValidatorRegTx) (view : CCoinsViewCache)
  | dereg (txHash : uint256) (deregTx : CValidatorDeregTx)
deriving DecidableEq

def BlockTx.hash : BlockTx → uint256
  | .reg _ txHash _ _ => txHash
  | .dereg txHash _ => txHash

structure CBlock where
  pindex : CBlockIndex
  vtx : List BlockTx
deriving DecidableEq

section Chain

variable (Hash : List UInt8 → uint256) (VerifyECDSA : CPubKey → uint256 → List UInt8 → Bool)

def processTx (pindex : CBlockIndex) (m : CValidatorManager) :
    BlockTx → Except String Unit × CValidatorManager
  | .reg now txHash regTx view =>
    processValidatorRegTx Hash VerifyECDSA now txHash regTx pindex view m
  | .dereg txHash deregTx => processValidatorDeregTx Hash VerifyECDSA txHash deregTx m

def undoTx (m : CValidatorManager) : BlockTx → Bool × CValidatorManager
  | .reg _ _ regTx _ => undoValidatorRegTx Hash regTx m
  | .dereg _ _ => undoValidatorDeregTx Hash m

/-- The transactions in order, up to the first that is refused. -/
def connectTxs (pindex : CBlockIndex) : List BlockTx → CValidatorManager → Bool × CValidatorManager
  | [], m => (true, m)
  | tx :: vtx, m =>
    match processTx Hash VerifyECDSA pindex m tx with
    | (.ok (), m) => connectTxs pindex vtx m
    | (.error _, m) => (false, m)

/-- The transactions in reverse order. -/
def disconnectTxs (vtx : List BlockTx) (m : CValidatorManager) : CValidatorManager :=
  vtx.reverse.foldl (fun m tx => (undoTx Hash m tx).2) m

/-- The manager next to the active chain, its tip first. -/
structure ChainState where
  manager : CValidatorManager
  chain : List CBlock
deriving DecidableEq

inductive ChainOp where
  | connect (block : CBlock)
  | disconnect
deriving DecidableEq

/-- The answer is whether the block joined or left the chain. -/
def chainStep (s : ChainState) : ChainOp → Bool × ChainState
  | .connect block =>
    match connectTxs Hash VerifyECDSA block.pindex block.vtx s.manager with
    | (true, m) => (true, ⟨m, block :: s.chain⟩)
    | (false, m) => (false, ⟨m, s.chain⟩)
  | .disconnect =>
    match s.chain with
    | [] => (false, s)
    | block :: rest => (true, ⟨disconnectTxs Hash block.vtx s.manager, rest⟩)

/-- The chain processed once, from the empty manager. -/
def replay : List CBlock → Option CValidatorManager
  | [] => some init
  | block :: rest =>
    match replay rest with
    | none => none
    | some m =>
      match connectTxs Hash VerifyECDSA block.pindex block.vtx m with
      | (true, m) => some m
      | (false, _) => none

/-- The registry and the database are those of the active chain. -/
def FollowsChain (s : ChainState) : Prop :=
  (replay Hash VerifyECDSA s.chain).map (fun m => (m.registry, m.m_db)) =
    some (s.manager.registry, s.manager.m_db)

instance (s : ChainState) : Decidable (FollowsChain Hash VerifyECDSA s) :=
  inferInstanceAs (Decidable (_ = _))

/-- The step connects or disconnects a block: none is refused. -/
def Joins (s : ChainState) (op : ChainOp) : Prop := (chainStep Hash VerifyECDSA s op).1 = true

instance (s : ChainState) (op : ChainOp) : Decidable (Joins Hash VerifyECDSA s op) :=
  inferInstanceAs (Decidable (_ = _))

/-- Every deregistration comes after a registration of the same key, one of the
given key hashes or one in the list. -/
def OwnDeregs : List uint256 → List BlockTx → Prop
  | _, [] => True
  | keys, .reg _ _ regTx _ :: vtx =>
    OwnDeregs (getValidatorHash Hash regTx.validatorPubKey :: keys) vtx
  | keys, .dereg _ deregTx :: vtx =>
    getValidatorHash Hash deregTx.validatorPubKey ∈ keys ∧ OwnDeregs keys vtx

instance OwnDeregs.decidable : ∀ keys vtx, Decidable (OwnDeregs Hash keys vtx)
  | _, [] => .isTrue trivial
  | keys, .reg _ _ regTx _ :: vtx =>
    OwnDeregs.decidable (getValidatorHash Hash regTx.validatorPubKey :: keys) vtx
  | keys, .dereg _ deregTx :: vtx =>
    have : Decidable (OwnDeregs Hash keys vtx) := OwnDeregs.decidable keys vtx
    inferInstanceAs (Decidable (getValidatorHash Hash deregTx.validatorPubKey ∈ keys ∧ _))

/-- No transaction has been processed before, here or earlier in the block. -/
def Fresh (vtx : List BlockTx) (m : CValidatorManager) : Prop :=
  (∀ tx ∈ vtx, tx.hash ∉ m.processedTxs) ∧ (vtx.map BlockTx.hash).Nodup

instance (vtx : List BlockTx) (m : CValidatorManager) : Decidable (Fresh vtx m) :=
  inferInstanceAs (Decidable (_ ∧ _))

/-- A connected block brings only transactions that have never been processed, and
a disconnected one deregisters only validators of its own. -/
def Revertible (s : ChainState) : ChainOp → Prop
  | .connect block => Fresh block.vtx s.manager
  | .disconnect => ∀ block ∈ s.chain.head?, OwnDeregs Hash [] block.vtx

instance (s : ChainState) (op : ChainOp) : Decidable (Revertible Hash s op) := by
  cases op <;> (dsimp only [Revertible]; infer_instance)

end Chain

section Rules

variable {Hash : List UInt8 → uint256} {VerifyECDSA : CPubKey → uint256 → List UInt8 → Bool}
variable {m m' m₀ : CValidatorManager} {pindex : CBlockIndex}

/-- The key hashes that a list of transactions registers. -/
def regKeys (Hash : List UInt8 → uint256) (vtx : List BlockTx) : List uint256 :=
  vtx.filterMap fun
    | .reg _ _ regTx _ => some (getValidatorHash Hash regTx.validatorPubKey)
    | .dereg _ _ => none

/-- Managers that differ in their processed caches only, the first knowing less. -/
structure SameStores (m₀ m : CValidatorManager) : Prop where
  registry : m₀.registry = m.registry
  m_db : m₀.m_db = m.m_db
  processed : ∀ txHash, txHash ∈ m₀.processedTxs → txHash ∈ m.processedTxs

theorem SameStores.synced (hs : SameStores m₀ m) (hm : Synced Hash m₀) : Synced Hash m := by
  refine ⟨?_, ?_⟩
  · rw [← hs.registry]
    exact hm.consistent
  · rw [← hs.registry, ← hs.m_db, hm.stored]

theorem synced_connectTxs (hm : Synced Hash m) (pindex : CBlockIndex) (vtx : List BlockTx) :
    Synced Hash (connectTxs Hash VerifyECDSA pindex vtx m).2 := by
  induction vtx generalizing m with
  | nil => exact hm
  | cons tx vtx ih =>
    have hstep : Synced Hash (processTx Hash VerifyECDSA pindex m tx).2 := by
      cases tx with
      | reg now txHash regTx view => exact hm.regTx now txHash regTx pindex view
      | dereg txHash deregTx => exact hm.deregTx txHash deregTx
    rw [connectTxs]
    generalize processTx Hash VerifyECDSA pindex m tx = result at hstep
    obtain ⟨e | u, m₁⟩ := result
    · exact hstep
    · exact ih hstep

theorem Synced.connected {vtx : List BlockTx} (hm : Synced Hash m)
    (hok : connectTxs Hash VerifyECDSA pindex vtx m = (true, m')) : Synced Hash m' := by
  have h : Synced Hash (connectTxs Hash VerifyECDSA pindex vtx m).2 :=
    synced_connectTxs hm pindex vtx
  rwa [hok] at h

/-- A new transaction that is accepted takes effect. -/
theorem regTakesEffect_of_ok {now : ℤ} {txHash : uint256} {regTx : CValidatorRegTx}
    {view : CCoinsViewCache} (hp : txHash ∉ m.processedTxs)
    (hok : processValidatorRegTx Hash VerifyECDSA now txHash regTx pindex view m = (.ok (), m')) :
    RegTakesEffect Hash VerifyECDSA txHash regTx pindex view m := by
  by_contra he
  exact processValidatorRegTx_refused hp he (congrArg Prod.fst hok)

theorem deregTakesEffect_of_ok {txHash : uint256} {deregTx : CValidatorDeregTx}
    (hp : txHash ∉ m.processedTxs)
    (hok : processValidatorDeregTx Hash VerifyECDSA txHash deregTx m = (.ok (), m')) :
    DeregTakesEffect Hash VerifyECDSA txHash deregTx m := by
  by_contra he
  exact processValidatorDeregTx_refused hp he (congrArg Prod.fst hok)

/-- What follows a processed transaction in a list of new ones is still new. -/
theorem Fresh.rest {tx : BlockTx} {vtx : List BlockTx} (hfresh : Fresh (tx :: vtx) m)
    (hmem : ∀ txHash, txHash ∈ m'.processedTxs ↔ tx.hash = txHash ∨ txHash ∈ m.processedTxs) :
    Fresh vtx m' := by
  obtain ⟨_, hrest⟩ := List.forall_mem_cons.mp hfresh.1
  obtain ⟨hne, hnodup⟩ := List.nodup_cons.mp hfresh.2
  refine ⟨fun t ht hin => ?_, hnodup⟩
  rcases (hmem t.hash).mp hin with heq | hold
  · exact hne (heq ▸ List.mem_map_of_mem ht)
  · exact hrest t ht hold

/-- An accepted transaction, new to the manager, takes effect in the same way on a
manager with the same stores. -/
theorem processTx_congr (hs : SameStores m₀ m) {tx : BlockTx} (hp : tx.hash ∉ m.processedTxs)
    (hok : processTx Hash VerifyECDSA pindex m tx = (.ok (), m')) :
    ∃ m₀', processTx Hash VerifyECDSA pindex m₀ tx = (.ok (), m₀') ∧ SameStores m₀' m' ∧
      ∀ txHash, txHash ∈ m'.processedTxs ↔ tx.hash = txHash ∨ txHash ∈ m.processedTxs := by
  have hp₀ : tx.hash ∉ m₀.processedTxs := fun hmem => hp (hs.processed _ hmem)
  have hprocessed (txHash : uint256) (hmem : txHash ∈ m₀.processedTxs.insert tx.hash) :
      txHash ∈ m.processedTxs.insert tx.hash :=
    mem_set_insert.mpr ((mem_set_insert.mp hmem).imp_right (hs.processed txHash))
  cases tx with
  | reg now txHash regTx view =>
    dsimp only [processTx] at hok ⊢
    have he : RegTakesEffect Hash VerifyECDSA txHash regTx pindex view m :=
      regTakesEffect_of_ok hp hok
    obtain ⟨db, hdb⟩ := he.opened
    -- the checks read the registry and the database, and these are the same
    have he₀ : RegTakesEffect Hash VerifyECDSA txHash regTx pindex view m₀ := by
      obtain ⟨_, ⟨hv, hm, hn, hu, hc, hsig⟩, hvalid, _⟩ := he
      refine ⟨hp₀, ⟨hv, hm, ?_, ?_, hc, hsig⟩, hvalid, db, hs.m_db.trans hdb⟩
      · rw [hs.registry]
        exact hn
      · rw [hs.registry]
        exact hu
    rw [processValidatorRegTx_effect hdb he, Prod.mk.injEq] at hok
    obtain ⟨-, rfl⟩ := hok
    refine ⟨_, processValidatorRegTx_effect (hs.m_db.trans hdb) he₀, ⟨?_, rfl, hprocessed⟩,
      fun _ => mem_set_insert⟩
    dsimp only
    rw [hs.registry]
  | dereg txHash deregTx =>
    dsimp only [processTx] at hok ⊢
    have he : DeregTakesEffect Hash VerifyECDSA txHash deregTx m :=
      deregTakesEffect_of_ok hp hok
    obtain ⟨v, hv⟩ := he.accepted.known
    have hv₀ := hv
    rw [← hs.registry] at hv₀
    have he₀ : DeregTakesEffect Hash VerifyECDSA txHash deregTx m₀ :=
      ⟨hp₀, he.accepted.version, ⟨v, hv₀⟩, he.accepted.signature⟩
    rw [processValidatorDeregTx_effect hv he, Prod.mk.injEq] at hok
    obtain ⟨-, rfl⟩ := hok
    refine ⟨_, processValidatorDeregTx_effect hv₀ he₀, ⟨?_, ?_, hprocessed⟩,
      fun _ => mem_set_insert⟩
    · dsimp only
      rw [hs.registry]
    · dsimp only
      rw [hs.m_db]

/-- What an accepted transaction does to the entries. -/
theorem processTx_entries (hm : Synced Hash m) {tx : BlockTx} (hp : tx.hash ∉ m.processedTxs)
    (hok : processTx Hash VerifyECDSA pindex m tx = (.ok (), m')) :
    Synced Hash m' ∧
      match tx with
      | .reg _ _ regTx _ =>
        m.registry.mapValidators[getValidatorHash Hash regTx.validatorPubKey]? = none ∧
          ∀ a, getValidatorHash Hash regTx.validatorPubKey ≠ a →
            m'.registry.mapValidators[a]? = m.registry.mapValidators[a]?
      | .dereg _ deregTx => ∀ a, getValidatorHash Hash deregTx.validatorPubKey ≠ a →
          m'.registry.mapValidators[a]? = m.registry.mapValidators[a]? := by
  cases tx with
  | reg now txHash regTx view =>
    dsimp only [processTx] at hok ⊢
    have he : RegTakesEffect Hash VerifyECDSA txHash regTx pindex view m :=
      regTakesEffect_of_ok hp hok
    have hsynced : Synced Hash
        (processValidatorRegTx Hash VerifyECDSA now txHash regTx pindex view m).2 :=
      hm.regTx now txHash regTx pindex view
    rw [hok] at hsynced
    refine ⟨hsynced, he.accepted.new, fun a ha => ?_⟩
    rw [processValidatorRegTx_effect hm.stored he, Prod.mk.injEq] at hok
    obtain ⟨-, rfl⟩ := hok
    dsimp only [addValidator, regValidator, CValidator.create]
    rw [getElem?_insert, if_neg ha]
  | dereg txHash deregTx =>
    dsimp only [processTx] at hok ⊢
    have he : DeregTakesEffect Hash VerifyECDSA txHash deregTx m :=
      deregTakesEffect_of_ok hp hok
    obtain ⟨v, hv⟩ := he.accepted.known
    have hsynced : Synced Hash (processValidatorDeregTx Hash VerifyECDSA txHash deregTx m).2 :=
      hm.deregTx txHash deregTx
    rw [hok] at hsynced
    refine ⟨hsynced, fun a ha => ?_⟩
    rw [processValidatorDeregTx_effect hv he, Prod.mk.injEq] at hok
    obtain ⟨-, rfl⟩ := hok
    dsimp only [dropValidator]
    rw [getElem?_erase, if_neg ha]

/-- An accepted list of new transactions, processed by a manager with the same
stores, is accepted there too and leads to the same stores. -/
theorem connectTxs_congr {vtx : List BlockTx} (hs : SameStores m₀ m) (hfresh : Fresh vtx m)
    (hok : connectTxs Hash VerifyECDSA pindex vtx m = (true, m')) :
    ∃ m₀', connectTxs Hash VerifyECDSA pindex vtx m₀ = (true, m₀') ∧ SameStores m₀' m' ∧
      ∀ txHash, txHash ∈ m.processedTxs → txHash ∈ m'.processedTxs := by
  induction vtx generalizing m m₀ with
  | nil =>
    obtain rfl : m = m' := congrArg Prod.snd hok
    exact ⟨m₀, rfl, hs, fun _ h => h⟩
  | cons tx vtx ih =>
    have hp := hfresh.1 tx List.mem_cons_self
    rw [connectTxs] at hok ⊢
    generalize hstep : processTx Hash VerifyECDSA pindex m tx = result at hok
    obtain ⟨e | u, m₁⟩ := result
    · -- a list with a refused transaction is not accepted
      exact absurd (congrArg Prod.fst hok) Bool.false_ne_true
    · obtain ⟨m₁', hstep', hs', hmem⟩ := processTx_congr hs hp hstep
      obtain ⟨m₂, hok₂, hs₂, hkept⟩ := ih hs' (hfresh.rest hmem) hok
      rw [hstep']
      exact ⟨m₂, hok₂, hs₂, fun txHash h => hkept _ ((hmem txHash).mpr (Or.inr h))⟩

/-- Up to the keys that it registers, an accepted list of new transactions keeps
the entries, when it deregisters none of those from before. -/
theorem connectTxs_entries {vtx : List BlockTx} {keys : List uint256} {base : CValidatorRegistry}
    (hm : Synced Hash m) (hfresh : Fresh vtx m) (hown : OwnDeregs Hash keys vtx)
    (hkeys : ∀ a ∈ keys, base.mapValidators[a]? = none)
    (hsame : ∀ a, a ∉ keys → m.registry.mapValidators[a]? = base.mapValidators[a]?)
    (hok : connectTxs Hash VerifyECDSA pindex vtx m = (true, m')) :
    (∀ a ∈ regKeys Hash vtx, base.mapValidators[a]? = none) ∧
      ∀ a, a ∉ keys → a ∉ regKeys Hash vtx →
        m'.registry.mapValidators[a]? = base.mapValidators[a]? := by
  induction vtx generalizing m keys with
  | nil =>
    obtain rfl : m = m' := congrArg Prod.snd hok
    exact ⟨fun a ha => absurd ha List.not_mem_nil, fun a ha _ => hsame a ha⟩
  | cons tx vtx ih =>
    have hp := hfresh.1 tx List.mem_cons_self
    rw [connectTxs] at hok
    generalize hstep : processTx Hash VerifyECDSA pindex m tx = result at hok
    obtain ⟨e | u, m₁⟩ := result
    · exact absurd (congrArg Prod.fst hok) Bool.false_ne_true
    obtain ⟨_, _, _, hmem⟩ := processTx_congr ⟨rfl, rfl, fun _ h => h⟩ hp hstep
    obtain ⟨hm₁, hentries⟩ := processTx_entries hm hp hstep
    have hfresh₁ : Fresh vtx m₁ := hfresh.rest hmem
    cases tx with
    | reg now txHash regTx view =>
      obtain ⟨hnone, hother⟩ := hentries
      -- the registered key was free, so it was free at the start
      have hbase : base.mapValidators[getValidatorHash Hash regTx.validatorPubKey]? = none := by
        by_cases hk : getValidatorHash Hash regTx.validatorPubKey ∈ keys
        · exact hkeys _ hk
        · rw [← hsame _ hk, hnone]
      obtain ⟨hregs, hrest'⟩ := ih hm₁ hfresh₁ hown (List.forall_mem_cons.mpr ⟨hbase, hkeys⟩)
        (fun a ha => by
          rw [List.mem_cons, not_or] at ha
          rw [hother a (Ne.symm ha.1), hsame a ha.2]) hok
      refine ⟨List.forall_mem_cons.mpr ⟨hbase, hregs⟩, fun a ha hnot => ?_⟩
      obtain ⟨hhead, htail⟩ := not_or.mp (mt List.mem_cons.mpr hnot)
      exact hrest' a (fun hmem => (List.mem_cons.mp hmem).elim hhead ha) htail
    | dereg txHash deregTx =>
      -- the deregistered key is one of the block's own, so no other entry moves
      obtain ⟨hkey, hown⟩ := hown
      exact ih hm₁ hfresh₁ hown hkeys (fun a ha => by
        rw [hentries a (fun heq => ha (heq ▸ hkey)), hsame a ha]) hok

/-- Undoing a list of transactions takes out the keys that it registers, and
nothing else. -/
theorem undoTxs_entries (vtx : List BlockTx) (hm : Synced Hash m) :
    Synced Hash (vtx.foldl (fun m tx => (undoTx Hash m tx).2) m) ∧
      (vtx.foldl (fun m tx => (undoTx Hash m tx).2) m).processedTxs = m.processedTxs ∧
      ∀ a, (vtx.foldl (fun m tx => (undoTx Hash m tx).2) m).registry.mapValidators[a]? =
        if a ∈ regKeys Hash vtx then none else m.registry.mapValidators[a]? := by
  induction vtx generalizing m with
  | nil => exact ⟨hm, rfl, fun a => (if_neg List.not_mem_nil).symm⟩
  | cons tx vtx ih =>
    cases tx with
    | reg now txHash regTx view =>
      have hstep : (undoTx Hash m (.reg now txHash regTx view)).2 = _ :=
        congrArg Prod.snd undoValidatorRegTx_eq
      have hdrop := hm.drop (h := getValidatorHash Hash regTx.validatorPubKey)
      obtain ⟨hsynced, hprocessed, hget⟩ := ih hdrop
      rw [List.foldl_cons, hstep]
      refine ⟨hsynced, hprocessed, fun a => ?_⟩
      have hkeys : a ∈ regKeys Hash (.reg now txHash regTx view :: vtx) ↔
          a = getValidatorHash Hash regTx.validatorPubKey ∨ a ∈ regKeys Hash vtx := List.mem_cons
      have herase : (deregisterValidator (getValidatorHash Hash regTx.validatorPubKey)
          m.registry).2.mapValidators[a]? =
            if getValidatorHash Hash regTx.validatorPubKey = a then none
            else m.registry.mapValidators[a]? := by
        cases hv : m.registry.mapValidators[getValidatorHash Hash regTx.validatorPubKey]? with
        | none =>
          rw [deregisterValidator_none hv]
          split_ifs with ha
          · rw [← ha, hv]
          · rfl
        | some v =>
          rw [deregisterValidator_some hv]
          exact getElem?_erase _ _ _
      rw [hget]
      dsimp only
      rw [herase]
      by_cases hin : a ∈ regKeys Hash vtx
      · rw [if_pos hin, if_pos (hkeys.mpr (Or.inr hin))]
      · rw [if_neg hin]
        by_cases ha : getValidatorHash Hash regTx.validatorPubKey = a
        · rw [if_pos ha, if_pos (hkeys.mpr (Or.inl ha.symm))]
        · rw [if_neg ha, if_neg (mt hkeys.mp (not_or.mpr ⟨Ne.symm ha, hin⟩))]
    | dereg txHash deregTx =>
      -- undoing a deregistration only loads what the database already holds
      have hstep : (undoTx Hash m (.dereg txHash deregTx)).2 = m :=
        congrArg Prod.snd hm.loadValidators_eq
      rw [List.foldl_cons, hstep]
      exact ih hm

/-- Disconnecting what was connected brings the stores back. -/
theorem disconnect_connect {vtx : List BlockTx} (hm : Synced Hash m₀) (hfresh : Fresh vtx m₀)
    (hown : OwnDeregs Hash [] vtx)
    (hok : connectTxs Hash VerifyECDSA pindex vtx m₀ = (true, m)) (hs : SameStores m m') :
    (disconnectTxs Hash vtx m').registry = m₀.registry ∧
      (disconnectTxs Hash vtx m').m_db = m₀.m_db ∧
      (disconnectTxs Hash vtx m').processedTxs = m'.processedTxs := by
  obtain ⟨hregs, hrest⟩ := connectTxs_entries hm hfresh hown
    (fun a ha => absurd ha List.not_mem_nil) (fun a _ => rfl) hok
  obtain ⟨hsynced, hprocessed, hget⟩ :=
    undoTxs_entries vtx.reverse (hs.synced (hm.connected hok))
  have hkeys (a : uint256) : a ∈ regKeys Hash vtx.reverse ↔ a ∈ regKeys Hash vtx := by
    unfold regKeys
    rw [List.filterMap_reverse, List.mem_reverse]
  -- the other maps of a consistent registry are determined by its entries
  have hregistry : (disconnectTxs Hash vtx m').registry = m₀.registry := by
    apply hsynced.consistent.eq_of_mapValidators hm.consistent
    apply ExtTreeMap.ext_getElem?
    intro a
    rw [hget, ← hs.registry]
    by_cases ha : a ∈ regKeys Hash vtx
    · rw [if_pos ((hkeys a).mpr ha), hregs a ha]
    · rw [if_neg (mt (hkeys a).mp ha), hrest a List.not_mem_nil ha]
  refine ⟨hregistry, ?_, hprocessed⟩
  have hstored : (disconnectTxs Hash vtx m').m_db =
    some ⟨(disconnectTxs Hash vtx m').registry.mapValidators,
      (disconnectTxs Hash vtx m').registry.mapStakeToValidator⟩ := hsynced.stored
  rw [hstored, hregistry, hm.stored]

/-- The manager that a chain of new transactions leads to from the empty one. -/
inductive Replays (Hash : List UInt8 → uint256)
    (VerifyECDSA : CPubKey → uint256 → List UInt8 → Bool) :
    List CBlock → CValidatorManager → Prop where
  | nil : Replays Hash VerifyECDSA [] init
  | cons {block : CBlock} {rest : List CBlock} {m m' : CValidatorManager}
      (earlier : Replays Hash VerifyECDSA rest m) (fresh : Fresh block.vtx m)
      (connected : connectTxs Hash VerifyECDSA block.pindex block.vtx m = (true, m')) :
      Replays Hash VerifyECDSA (block :: rest) m'

theorem Replays.replay_eq {chain : List CBlock} (h : Replays Hash VerifyECDSA chain m) :
    replay Hash VerifyECDSA chain = some m ∧ Synced Hash m := by
  induction h with
  | nil => exact ⟨rfl, synced_init Hash⟩
  | @cons block rest m m' earlier fresh connected ih =>
    obtain ⟨hrest, hm⟩ := ih
    refine ⟨?_, hm.connected connected⟩
    rw [replay, hrest]
    dsimp only
    rw [connected]

/-- The stores are those of the chain's manager, whatever else was processed. -/
def OnChain (Hash : List UInt8 → uint256)
    (VerifyECDSA : CPubKey → uint256 → List UInt8 → Bool) (s : ChainState) : Prop :=
  ∃ m₀, Replays Hash VerifyECDSA s.chain m₀ ∧ SameStores m₀ s.manager

theorem OnChain.followsChain {s : ChainState} (hs : OnChain Hash VerifyECDSA s) :
    FollowsChain Hash VerifyECDSA s := by
  obtain ⟨m₀, hreplay, hsame⟩ := hs
  unfold FollowsChain
  rw [hreplay.replay_eq.1, Option.map_some, hsame.registry, hsame.m_db]

/-- One block more or one block less. -/
theorem OnChain.step {s : ChainState} {op : ChainOp} (hs : OnChain Hash VerifyECDSA s)
    (hjoins : Joins Hash VerifyECDSA s op) (hrev : Revertible Hash s op) :
    OnChain Hash VerifyECDSA (chainStep Hash VerifyECDSA s op).2 := by
  obtain ⟨manager, chain⟩ := s
  obtain ⟨m₀, hreplay, hsame⟩ := hs
  cases op with
  | connect block =>
    unfold Joins at hjoins
    rw [chainStep] at hjoins ⊢
    generalize hc : connectTxs Hash VerifyECDSA block.pindex block.vtx manager = result
      at hjoins ⊢
    obtain ⟨accepted, m⟩ := result
    cases accepted with
    | false => exact absurd hjoins Bool.false_ne_true
    | true =>
      -- the chain's own manager has processed less, so the block is new to it too
      have hfresh : Fresh block.vtx m₀ :=
        ⟨fun tx htx hmem => hrev.1 tx htx (hsame.processed _ hmem), hrev.2⟩
      obtain ⟨m₁, hc₁, hsame₁, -⟩ := connectTxs_congr hsame hrev hc
      exact ⟨m₁, hreplay.cons hfresh hc₁, hsame₁⟩
  | disconnect =>
    cases hreplay with
    | nil => exact absurd hjoins Bool.false_ne_true
    | @cons block rest m₁ _ earlier fresh connected =>
      -- `m₁` is what the chain without its last block leads to
      have hm₁ := earlier.replay_eq.2
      have hown : OwnDeregs Hash [] block.vtx := hrev block rfl
      obtain ⟨hregistry, hdb, hprocessed⟩ :=
        disconnect_connect hm₁ fresh hown connected hsame
      obtain ⟨_, _, _, hkept⟩ := connectTxs_congr ⟨rfl, rfl, fun _ h => h⟩ fresh connected
      refine ⟨m₁, earlier, hregistry.symm, hdb.symm, fun txHash hmem => ?_⟩
      have hmem' : txHash ∈ manager.processedTxs := hsame.processed _ (hkept _ hmem)
      dsimp only [chainStep]
      rwa [hprocessed]

/-- Over any blocks connected and disconnected, all of them revertible, the
registry and the database are those of the chain that is left. -/
theorem reorgs_follow_chain (Hash : List UInt8 → uint256)
    (VerifyECDSA : CPubKey → uint256 → List UInt8 → Bool) (ops : List ChainOp)
    (hjoins : EveryStep (chainStep Hash VerifyECDSA) (Joins Hash VerifyECDSA) ⟨init, []⟩ ops)
    (hrev : EveryStep (chainStep Hash VerifyECDSA) (Revertible Hash) ⟨init, []⟩ ops) :
    ∀ bs, bs <+: ops →
      FollowsChain Hash VerifyECDSA (final (chainStep Hash VerifyECDSA) ⟨init, []⟩ bs) := by
  intro bs hbs
  apply OnChain.followsChain
  apply prefix_invariant (OnChain Hash VerifyECDSA) ?_ ?_ (everyStep_and hjoins hrev) hbs
  · intro s op hs hC
    exact hs.step hC.1 hC.2
  · exact ⟨init, .nil, rfl, rfl, fun _ h => h⟩

/-- Blocks of one or two sample transactions. -/
def registers (txHash : uint256) (key : UInt8) : BlockTx :=
  .reg 1000 txHash (sampleReg (sampleKey key) ⟨key.toNat, 0⟩) (sampleView [] [⟨key.toNat, 0⟩])

def deregisters (txHash : uint256) (key : UInt8) : BlockTx :=
  .dereg txHash (sampleDereg (sampleKey key))

/-- A block with a registration, and one that registers and deregisters, cut off again. -/
def revertibleRun : List ChainOp :=
  [.connect ⟨⟨900, 5⟩, [registers 7 1]⟩,
    .connect ⟨⟨910, 6⟩, [registers 8 2, deregisters 9 2]⟩,
    .disconnect,
    .connect ⟨⟨920, 6⟩, [deregisters 10 1]⟩]

theorem reorgs_follow_chain_revertibleRun :
    FollowsChain lowHash tagVerify (final (chainStep lowHash tagVerify) ⟨init, []⟩ revertibleRun) :=
  reorgs_follow_chain lowHash tagVerify revertibleRun (by decide +kernel) (by decide +kernel)
    revertibleRun List.prefix_rfl

/-- A deregistration is never undone, and a registration brought back by the new
chain is skipped. Every block joins or leaves the chain. -/
theorem reorg_diverges :
    (EveryStep (chainStep lowHash tagVerify) (Joins lowHash tagVerify) ⟨init, []⟩
        [.connect ⟨⟨900, 5⟩, [registers 7 1]⟩, .connect ⟨⟨910, 6⟩, [deregisters 8 1]⟩,
          .disconnect] ∧
      ¬FollowsChain lowHash tagVerify (final (chainStep lowHash tagVerify) ⟨init, []⟩
        [.connect ⟨⟨900, 5⟩, [registers 7 1]⟩, .connect ⟨⟨910, 6⟩, [deregisters 8 1]⟩,
          .disconnect])) ∧
    EveryStep (chainStep lowHash tagVerify) (Joins lowHash tagVerify) ⟨init, []⟩
        [.connect ⟨⟨900, 5⟩, [registers 7 1]⟩, .disconnect,
          .connect ⟨⟨910, 5⟩, [registers 7 1]⟩] ∧
      ¬FollowsChain lowHash tagVerify (final (chainStep lowHash tagVerify) ⟨init, []⟩
        [.connect ⟨⟨900, 5⟩, [registers 7 1]⟩, .disconnect,
          .connect ⟨⟨910, 5⟩, [registers 7 1]⟩]) := by
  decide +kernel

end Rules

end BabaChain.PoS.CValidatorManager
