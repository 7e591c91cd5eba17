import BabaChain.ListRuns
import BabaChain.ProviderTxChecks
import Mathlib

/-! What building a list from a block does to the masternodes, step by step. -/
namespace BabaChain.Evo.ByValue
open BLS OrdMap OwnedCounts Guards
open Std (ExtTreeMap)

variable {G : Type*} [DecidableEq G] {codec : KeyCodec G} {sha256d : List UInt8 → uint256}
  {env : Environment G}

/-- What leaves a state's keys, addresses, ports and version alone. -/
structure Alike (a b : CDeterministicMNState G) : Prop where
  nVersion : b.nVersion = a.nVersion
  nRegisteredHeight : b.nRegisteredHeight = a.nRegisteredHeight
  keyIDOwner : b.keyIDOwner = a.keyIDOwner
  pubKeyOperator : b.pubKeyOperator = a.pubKeyOperator
  keyIDVoting : b.keyIDVoting = a.keyIDVoting
  netInfo : b.netInfo = a.netInfo
  scriptPayout : b.scriptPayout = a.scriptPayout
  scriptOperatorPayout : b.scriptOperatorPayout = a.scriptOperatorPayout
  platformNodeID : b.platformNodeID = a.platformNodeID
  platformP2PPort : b.platformP2PPort = a.platformP2PPort
  platformHTTPPort : b.platformHTTPPort = a.platformHTTPPort

namespace CDeterministicMNList

variable (codec sha256d) in
/-- A step of the build: a state is touched, a provider transaction of the block is
applied, or a masternode is removed. -/
inductive BuildStep (pindexPrev : CBlockIndex) (txs : List (CTransaction G)) :
    CDeterministicMNList G → CDeterministicMNList G → Prop
  | touch {N N' : CDeterministicMNList G} (dmn : CDeterministicMN G)
    (newState : CDeterministicMNState G) (hmn : N.mnMap[dmn.proTxHash]? = some dmn)
    (halike : Alike dmn.pdmnState newState)
    (hok : N.updateMN codec sha256d dmn newState = .ok N') : BuildStep pindexPrev txs N N'
  | service {N N' : CDeterministicMNList G} (tx : CTransaction G) (proTx : CProUpServTx)
    (dmn : CDeterministicMN G) (htx : tx ∈ txs)
    (hpayload : tx.payload = .providerUpdateService (some proTx))
    (hhash : proTx.proTxHash = dmn.proTxHash) (hmn : N.mnMap[dmn.proTxHash]? = some dmn)
    (htype : proTx.nType = dmn.nType)
    (hok : N.updateMN codec sha256d dmn
      (serviceState (pindexPrev.nHeight+1) pindexPrev.isV24Active proTx dmn.pdmnState) = .ok N') :
    BuildStep pindexPrev txs N N'
  | registrar {N N' : CDeterministicMNList G} (tx : CTransaction G) (proTx : CProUpRegTx G)
    (dmn : CDeterministicMN G) (htx : tx ∈ txs)
    (hpayload : tx.payload = .providerUpdateRegistrar (some proTx))
    (hhash : proTx.proTxHash = dmn.proTxHash) (hmn : N.mnMap[dmn.proTxHash]? = some dmn)
    (hok : N.updateMN codec sha256d dmn
      (registrarState codec (pindexPrev.nHeight+1) proTx dmn.pdmnState) = .ok N') :
    BuildStep pindexPrev txs N N'
  | revoke {N N' : CDeterministicMNList G} (tx : CTransaction G) (proTx : CProUpRevTx)
    (dmn : CDeterministicMN G) (htx : tx ∈ txs)
    (hpayload : tx.payload = .providerUpdateRevoke (some proTx))
    (hhash : proTx.proTxHash = dmn.proTxHash) (hmn : N.mnMap[dmn.proTxHash]? = some dmn)
    (hok : N.updateMN codec sha256d dmn
      (revokedState (pindexPrev.nHeight+1) proTx dmn.pdmnState) = .ok N') :
    BuildStep pindexPrev txs N N'
  | remove {N N' : CDeterministicMNList G} (h : uint256) (dmn : CDeterministicMN G)
    (hmn : N.mnMap[h]? = some dmn) (hok : N.removeMN codec sha256d h = .ok N') :
    BuildStep pindexPrev txs N N'
  | register {N N' : CDeterministicMNList G} (tx : CTransaction G) (proTx : CProRegTx G)
    (htx : tx ∈ txs) (hpayload : tx.payload = .providerRegister (some proTx))
    (hok : N.addMN codec sha256d (registeredBy (pindexPrev.nHeight+1) tx proTx N) true = .ok N') :
    BuildStep pindexPrev txs N N'

variable {pindexPrev : CBlockIndex} {txs : List (CTransaction G)} {N N' N₀ : CDeterministicMNList G}
  {dmn : CDeterministicMN G}

section Invariant

theorem given_makeNetInfo (nVersion : UInt16) : GivenAddresses (.makeNetInfo nVersion) := by
  rw [NetInfo.makeNetInfo]
  split_ifs
  · refine ⟨?_, ?_⟩
    · show List.Perm [] (List.flatMap Prod.snd (∅ : ExtTreeMap UInt8 NetInfoList).toList)
      exact List.Perm.refl []
    · show (0 : ℕ)+4 < 2^32
      norm_num
  · refine ⟨trivial, ?_⟩
    show (0 : ℕ)+4 < 2^32
    norm_num

/-- A key that is taken away leaves no hash behind. -/
theorem kept_default (k : CBLSLazyPublicKey G) :
    Kept codec sha256d (.operatorKey k) (.operatorKey {}) := by
  apply kept_of_oneEncoding
  intro heq
  have hdefault : k.isDefault = true := by
    by_contra hne
    rw [Bool.not_eq_true] at hne
    rw [keyEqual, CBLSLazyPublicKey.equal, hne] at heq
    exact Bool.false_ne_true heq
  have hzero : ∀ k : CBLSLazyPublicKey G, k.isDefault = true → ownBytes codec k = zeroBytes := by
    intro k hk
    rw [ownBytes, CBLSLazyPublicKey.serialize, if_pos]
    rw [CBLSLazyPublicKey.isDefault, Bool.and_comm] at hk
    exact hk
  rw [hzero k hdefault, hzero {} rfl]

theorem follows_of_alike (hinv : N.Inv codec sha256d) (hmn : N.mnMap[dmn.proTxHash]? = some dmn)
    {newState : CDeterministicMNState G} (halike : Alike dmn.pdmnState newState) :
    Follows codec sha256d dmn.pdmnState newState := by
  obtain ⟨hgiven, howner⟩ := registered_given hinv hmn
  refine ⟨?_, ?_, ?_, ?_⟩
  · rw [halike.keyIDOwner]
    exact howner
  · rw [halike.pubKeyOperator]
    exact fun _ => rfl
  · rw [halike.netInfo]
    exact hgiven.1
  · rw [halike.netInfo]
    exact hgiven.2

omit [DecidableEq G] in
/-- What a service update keeps and what it sets. -/
theorem serviceState_spec (nHeight : ℤ) (is_v24_deployed : Bool) (proTx : CProUpServTx)
    (state : CDeterministicMNState G) :
    (serviceState nHeight is_v24_deployed proTx state).keyIDOwner = state.keyIDOwner ∧
    (serviceState nHeight is_v24_deployed proTx state).pubKeyOperator = state.pubKeyOperator ∧
    (serviceState nHeight is_v24_deployed proTx state).netInfo = proTx.netInfo ∧
    (serviceState nHeight is_v24_deployed proTx state).platformNodeID =
      (if proTx.nType = .Evo then proTx.platformNodeID else state.platformNodeID) ∧
    (serviceState nHeight is_v24_deployed proTx state).nVersion =
      (if is_v24_deployed then (proTx.nVersion.toNat : ℤ) else state.nVersion) ∧
    (serviceState nHeight is_v24_deployed proTx state).platformP2PPort =
      (if proTx.nType = .Evo ∧ proTx.nVersion < ProTxVersion.ExtAddr then proTx.platformP2PPort
        else state.platformP2PPort) ∧
    (serviceState nHeight is_v24_deployed proTx state).platformHTTPPort =
      (if proTx.nType = .Evo ∧ proTx.nVersion < ProTxVersion.ExtAddr then proTx.platformHTTPPort
        else state.platformHTTPPort) := by
  simp only [serviceState]
  split_ifs <;> simp_all [CDeterministicMNState.revive]

omit [DecidableEq G] in
theorem banIfNotBanned_alike (nHeight : ℤ) (state : CDeterministicMNState G) :
    Alike state (state.banIfNotBanned nHeight) := by
  rw [CDeterministicMNState.banIfNotBanned]
  split_ifs
  · exact ⟨rfl, rfl, rfl, rfl, rfl, rfl, rfl, rfl, rfl, rfl, rfl⟩
  · exact ⟨rfl, rfl, rfl, rfl, rfl, rfl, rfl, rfl, rfl, rfl, rfl⟩

/-- What a registrar update keeps and what it sets: with an equal key the operator's
fields stay, with another one they are reset. -/
theorem registrarState_spec (nHeight : ℤ) (proTx : CProUpRegTx G) (state : CDeterministicMNState G) :
    (registrarState codec nHeight proTx state).keyIDOwner = state.keyIDOwner ∧
    (registrarState codec nHeight proTx state).platformP2PPort = state.platformP2PPort ∧
    (registrarState codec nHeight proTx state).platformHTTPPort = state.platformHTTPPort ∧
    (keyEqual codec state.pubKeyOperator proTx.pubKeyOperator = true ∧
        (registrarState codec nHeight proTx state).pubKeyOperator = state.pubKeyOperator ∧
        (registrarState codec nHeight proTx state).netInfo = state.netInfo ∧
        (registrarState codec nHeight proTx state).platformNodeID = state.platformNodeID ∧
        (registrarState codec nHeight proTx state).nVersion = state.nVersion ∨
      keyEqual codec state.pubKeyOperator proTx.pubKeyOperator = false ∧
        (registrarState codec nHeight proTx state).pubKeyOperator = proTx.pubKeyOperator ∧
        (registrarState codec nHeight proTx state).netInfo =
          .makeNetInfo (UInt16.ofInt proTx.nVersion.toNat) ∧
        (registrarState codec nHeight proTx state).platformNodeID = 0 ∧
        (registrarState codec nHeight proTx state).nVersion = proTx.nVersion.toNat) := by
  rw [registrarState]
  cases heq : keyEqual codec state.pubKeyOperator proTx.pubKeyOperator with
  | true =>
    rw [if_pos rfl]
    exact ⟨rfl, rfl, rfl, Or.inl ⟨rfl, rfl, rfl, rfl, rfl⟩⟩
  | false =>
    -- the version was reset to the legacy one, so the transaction's is taken
    have hban := banIfNotBanned_alike nHeight state.resetOperatorFields
    have hlegacy : ¬(ProTxVersion.BasicBLS.toNat : ℤ) <
        (state.resetOperatorFields.banIfNotBanned nHeight).nVersion := by
      rw [hban.nVersion]
      show ¬(2 : ℤ) < 1
      norm_num
    rw [if_neg Bool.false_ne_true, rekeyedState]
    dsimp only
    rw [if_neg hlegacy]
    refine ⟨?_, ?_, ?_, Or.inr ⟨rfl, rfl, rfl, ?_, rfl⟩⟩
    · exact hban.keyIDOwner
    · exact hban.platformP2PPort
    · exact hban.platformHTTPPort
    · exact hban.platformNodeID

omit [DecidableEq G] in
theorem revokedState_spec (nHeight : ℤ) (proTx : CProUpRevTx) (state : CDeterministicMNState G) :
    (revokedState nHeight proTx state).keyIDOwner = state.keyIDOwner ∧
    (revokedState nHeight proTx state).pubKeyOperator = {} ∧
    (revokedState nHeight proTx state).netInfo = .makeNetInfo ProTxVersion.LegacyBLS ∧
    (revokedState nHeight proTx state).platformNodeID = 0 ∧
    (revokedState nHeight proTx state).nVersion = 1 ∧
    (revokedState nHeight proTx state).platformP2PPort = state.platformP2PPort ∧
    (revokedState nHeight proTx state).platformHTTPPort = state.platformHTTPPort := by
  have hban := banIfNotBanned_alike nHeight state.resetOperatorFields
  exact ⟨hban.keyIDOwner, hban.pubKeyOperator, hban.netInfo, hban.platformNodeID, hban.nVersion,
    hban.platformP2PPort, hban.platformHTTPPort⟩

omit [DecidableEq G] in
/-- A registered state takes everything but its heights from the transaction. -/
theorem registeredBy_alike (nHeight : ℤ) (tx : CTransaction G) (proTx : CProRegTx G)
    (N : CDeterministicMNList G) :
    Alike {CDeterministicMNState.ofProRegTx proTx with nRegisteredHeight := nHeight}
      (registeredBy nHeight tx proTx N).pdmnState := by
  rw [registeredBy]
  dsimp only
  split_ifs
  · exact banIfNotBanned_alike nHeight _
  · exact ⟨rfl, rfl, rfl, rfl, rfl, rfl, rfl, rfl, rfl, rfl, rfl⟩

/-- Whatever a step updates, it follows the old state. -/
theorem follows_service (hinv : N.Inv codec sha256d) (hmn : N.mnMap[dmn.proTxHash]? = some dmn)
    (nHeight : ℤ) (is_v24_deployed : Bool) (proTx : CProUpServTx) :
    Follows codec sha256d dmn.pdmnState
      (serviceState nHeight is_v24_deployed proTx dmn.pdmnState) := by
  obtain ⟨howner, hkey, hinfo, -⟩ := serviceState_spec nHeight is_v24_deployed proTx dmn.pdmnState
  refine ⟨?_, ?_, ?_, ?_⟩
  · rw [howner]
    exact (registered_given hinv hmn).2
  · rw [hkey]
    exact fun _ => rfl
  · rw [hinfo]
    exact proTx.given.1
  · rw [hinfo]
    exact proTx.given.2

theorem follows_registrar (hinv : N.Inv codec sha256d) (hmn : N.mnMap[dmn.proTxHash]? = some dmn)
    (nHeight : ℤ) (proTx : CProUpRegTx G) :
    Follows codec sha256d dmn.pdmnState (registrarState codec nHeight proTx dmn.pdmnState) := by
  obtain ⟨hgiven, hset⟩ := registered_given hinv hmn
  obtain ⟨howner, -, -, hcases⟩ := @registrarState_spec _ _ codec nHeight proTx dmn.pdmnState
  rcases hcases with ⟨-, hkey, hinfo, -⟩ | ⟨hne, hkey, hinfo, -⟩
  · refine ⟨by rw [howner]; exact hset, by rw [hkey]; exact fun _ => rfl, ?_, ?_⟩
    · rw [hinfo]
      exact hgiven.1
    · rw [hinfo]
      exact hgiven.2
  · refine ⟨by rw [howner]; exact hset, fun heq => ?_, ?_, ?_⟩
    · rw [hkey, UniqueProperty.equal, hne] at heq
      exact absurd heq Bool.false_ne_true
    · rw [hinfo]
      exact (given_makeNetInfo _).1
    · rw [hinfo]
      exact (given_makeNetInfo _).2

theorem follows_revoke (hinv : N.Inv codec sha256d) (hmn : N.mnMap[dmn.proTxHash]? = some dmn)
    (nHeight : ℤ) (proTx : CProUpRevTx) :
    Follows codec sha256d dmn.pdmnState (revokedState nHeight proTx dmn.pdmnState) := by
  obtain ⟨howner, hkey, hinfo, -⟩ := revokedState_spec nHeight proTx dmn.pdmnState
  refine ⟨?_, ?_, ?_, ?_⟩
  · rw [howner]
    exact (registered_given hinv hmn).2
  · rw [hkey]
    exact kept_default dmn.pdmnState.pubKeyOperator
  · rw [hinfo]
    exact (given_makeNetInfo _).1
  · rw [hinfo]
    exact (given_makeNetInfo _).2

/-- What a successful update leaves behind. -/
theorem updated_of_ok (hinv : N.Inv codec sha256d) (hmn : N.mnMap[dmn.proTxHash]? = some dmn)
    {newState : CDeterministicMNState G} (hfollows : Follows codec sha256d dmn.pdmnState newState)
    (hok : N.updateMN codec sha256d dmn newState = .ok N') :
    N'.Inv codec sha256d ∧ N.Admits codec sha256d {dmn with pdmnState := newState} ∧
      N' = {N with
        mnMap := N.mnMap.insert dmn.proTxHash {dmn with pdmnState := newState}
        mnUniquePropertyMap := N'.mnUniquePropertyMap} := by
  rcases updateMN_spec hinv hmn hfollows with ⟨hadmits, N₁, hok₁, heq, hinv₁⟩ | ⟨-, reason, herr⟩
  · rw [hok] at hok₁
    obtain rfl := Except.ok.inj hok₁
    exact ⟨hinv₁, hadmits, heq⟩
  · rw [hok] at herr
    cases herr

omit [DecidableEq G] in
/-- What a successful registration leaves behind. -/
theorem added_of_ok (hinv : N.Inv codec sha256d) (hgiven : GivenAddresses dmn.pdmnState.netInfo)
    (hok : N.addMN codec sha256d dmn true = .ok N') :
    N'.Inv codec sha256d ∧ N.mnMap[dmn.proTxHash]? = none ∧ N.Admits codec sha256d dmn ∧
      N'.mnMap = N.mnMap.insert dmn.proTxHash dmn ∧ N'.nHeight = N.nHeight ∧
      N'.blockHash = N.blockHash ∧ N'.nTotalRegisteredCount = bump N.nTotalRegisteredCount dmn := by
  rcases addMN_spec hinv true hgiven.1 hgiven.2 with
    ⟨⟨hnew, -, hadmits⟩, N₁, hok₁, heq, hcount, hinv₁⟩ | ⟨-, reason, herr⟩
  · rw [hok] at hok₁
    obtain rfl := Except.ok.inj hok₁
    exact ⟨hinv₁, hnew, hadmits, by rw [heq], by rw [heq], by rw [heq], hcount⟩
  · rw [hok] at herr
    cases herr

omit [DecidableEq G] in
theorem removed_of_ok (hinv : N.Inv codec sha256d) {h : uint256} (hmn : N.mnMap[h]? = some dmn)
    (hok : N.removeMN codec sha256d h = .ok N') :
    N'.Inv codec sha256d ∧ N' = {N with
      mnMap := N.mnMap.erase h
      mnInternalIdMap := N.mnInternalIdMap.erase dmn.internalId
      mnUniquePropertyMap := N'.mnUniquePropertyMap} := by
  obtain ⟨N₁, hok₁, heq, hinv₁⟩ := removeMN_spec hinv hmn
  rw [hok] at hok₁
  obtain rfl := Except.ok.inj hok₁
  exact ⟨hinv₁, heq⟩

omit [DecidableEq G] in
theorem given_registeredBy (nHeight : ℤ) (tx : CTransaction G) (proTx : CProRegTx G)
    (N : CDeterministicMNList G) :
    GivenAddresses (registeredBy nHeight tx proTx N).pdmnState.netInfo := by
  rw [(registeredBy_alike nHeight tx proTx N).netInfo]
  exact proTx.given

/-- Every step keeps the maps of the list in step with its masternodes. -/
theorem BuildStep.inv (hstep : BuildStep codec sha256d pindexPrev txs N N')
    (hinv : N.Inv codec sha256d) : N'.Inv codec sha256d := by
  cases hstep with
  | touch dmn newState hmn halike hok =>
    exact (updated_of_ok hinv hmn (follows_of_alike hinv hmn halike) hok).1
  | service tx proTx dmn _ _ _ hmn _ hok =>
    exact (updated_of_ok hinv hmn (follows_service hinv hmn _ _ proTx) hok).1
  | registrar tx proTx dmn _ _ _ hmn hok =>
    exact (updated_of_ok hinv hmn (follows_registrar hinv hmn _ proTx) hok).1
  | revoke tx proTx dmn _ _ _ hmn hok =>
    exact (updated_of_ok hinv hmn (follows_revoke hinv hmn _ proTx) hok).1
  | remove h dmn hmn hok => exact (removed_of_ok hinv hmn hok).1
  | register tx proTx _ _ hok => exact (added_of_ok hinv (given_registeredBy _ tx proTx N) hok).1

end Invariant

section Inversion

/-- What the build has reached: a list that steps lead to, with its maps in step. -/
structure Reached (codec : KeyCodec G) (sha256d : List UInt8 → uint256) (pindexPrev : CBlockIndex)
    (txs : List (CTransaction G)) (N₀ N : CDeterministicMNList G) : Prop where
  steps : Relation.ReflTransGen (BuildStep codec sha256d pindexPrev txs) N₀ N
  inv : N.Inv codec sha256d

theorem Reached.step (h : Reached codec sha256d pindexPrev txs N₀ N)
    (hstep : BuildStep codec sha256d pindexPrev txs N N') :
    Reached codec sha256d pindexPrev txs N₀ N' :=
  ⟨h.steps.tail hstep, hstep.inv h.inv⟩

omit [DecidableEq G] in
theorem orThrow_ok_iff {α : Type*} {r : Except String α} {a : α} : orThrow r = .ok a ↔ r = .ok a :=
  mapError_ok_iff

/-- An update by hash of a masternode that is there updates that masternode. -/
theorem updateMNByHash_ok {h : uint256} {newState : CDeterministicMNState G}
    (hmn : N.mnMap[h]? = some dmn) (hok : orThrow (N.updateMNByHash codec sha256d h newState) = .ok N') :
    N.updateMN codec sha256d dmn newState = .ok N' := by
  rw [orThrow_ok_iff, updateMNByHash, getMN, hmn] at hok
  exact hok

/-- A loop over masternodes that are in the list as they are visited. -/
theorem loop_reached {f : CDeterministicMNList G → CDeterministicMN G → Built (CDeterministicMNList G)}
    {dmns : List (CDeterministicMN G)}
    (hstep : ∀ (dmn : CDeterministicMN G) (N N' : CDeterministicMNList G),
      N.mnMap[dmn.proTxHash]? = some dmn → f N dmn = .ok N' →
        N' = N ∨ ∃ newState, Alike dmn.pdmnState newState ∧
          N.updateMN codec sha256d dmn newState = .ok N')
    (hnodup : (dmns.map CDeterministicMN.proTxHash).Nodup)
    (hreached : Reached codec sha256d pindexPrev txs N₀ N)
    (hmns : ∀ dmn ∈ dmns, N.mnMap[dmn.proTxHash]? = some dmn) (hok : dmns.foldlM f N = .ok N') :
    Reached codec sha256d pindexPrev txs N₀ N' := by
  induction dmns generalizing N with
  | nil =>
    obtain rfl := Except.ok.inj hok
    exact hreached
  | cons dmn dmns ih =>
    obtain ⟨hnot, hnodup'⟩ := List.nodup_cons.mp hnodup
    obtain ⟨hmn, hrest⟩ := List.forall_mem_cons.mp hmns
    rw [List.foldlM_cons, bind_ok_iff] at hok
    obtain ⟨N₁, hone, hok⟩ := hok
    rcases hstep dmn N N₁ hmn hone with rfl | ⟨newState, halike, hupdate⟩
    · exact ih hnodup' hreached hrest hok
    · refine ih hnodup' (hreached.step (.touch dmn newState hmn halike hupdate)) (fun dmn' hmem => ?_)
        hok
      have heq := (updated_of_ok hreached.inv hmn (follows_of_alike hreached.inv hmn halike)
        hupdate).2.2
      rw [heq]
      dsimp only
      rw [getElem?_insert, if_neg]
      · exact hrest dmn' hmem
      · intro hsame
        exact hnot (hsame ▸ List.mem_map_of_mem hmem)

omit [DecidableEq G] in
theorem mns_hashes_nodup (hinv : N.Inv codec sha256d) :
    (N.mns.map CDeterministicMN.proTxHash).Nodup := by
  rw [mns_hashes hinv]
  exact ExtTreeMap.nodup_keys

theorem confirm_ok {dmn : CDeterministicMN G} (hmn : N.mnMap[dmn.proTxHash]? = some dmn)
    (hok : N.confirm codec sha256d env pindexPrev dmn = .ok N') :
    N' = N ∨ ∃ newState, Alike dmn.pdmnState newState ∧
      N.updateMN codec sha256d dmn newState = .ok N' := by
  rw [confirm] at hok
  split_ifs at hok
  · exact Or.inl (Except.ok.inj hok).symm
  · refine Or.inr ⟨_, ?_, updateMNByHash_ok hmn hok⟩
    exact ⟨rfl, rfl, rfl, rfl, rfl, rfl, rfl, rfl, rfl, rfl, rfl⟩
  · exact Or.inl (Except.ok.inj hok).symm

omit [DecidableEq G] in
theorem foldlM_orThrow {γ : Type*} {f : CDeterministicMNList G → γ → Except String (CDeterministicMNList G)}
    {xs : List γ} (hok : orThrow (xs.foldlM f N) = .ok N') :
    xs.foldlM (fun N x => orThrow (f N x)) N = .ok N' := by
  rw [orThrow_ok_iff] at hok
  induction xs generalizing N with
  | nil => exact congrArg Except.ok (Except.ok.inj hok)
  | cons x xs ih =>
    rw [List.foldlM_cons, bind_ok_iff] at hok
    obtain ⟨N₁, hone, hok⟩ := hok
    rw [List.foldlM_cons, bind_ok_iff]
    exact ⟨N₁, orThrow_ok_iff.mpr hone, ih hok⟩

theorem decreaseScores_reached (h : Reached codec sha256d pindexPrev txs N₀ N)
    (hok : orThrow (N.decreaseScores codec sha256d) = .ok N') :
    Reached codec sha256d pindexPrev txs N₀ N' := by
  rw [CDeterministicMNList.decreaseScores, validMNs, List.filter_filter] at hok
  apply loop_reached _ _ h _ (foldlM_orThrow hok)
  · intro dmn N N' _ hone
    rw [orThrow_ok_iff, poSeDecrease] at hone
    refine Or.inr ⟨_, ?_, hone⟩
    exact ⟨rfl, rfl, rfl, rfl, rfl, rfl, rfl, rfl, rfl, rfl, rfl⟩
  · exact (mns_hashes_nodup h.inv).sublist (List.filter_sublist.map _)
  · intro dmn hmem
    exact (mem_mns h.inv).mp (List.mem_of_mem_filter hmem)

omit [DecidableEq G] in
/-- A property of the list has a holder, which a lookup finds. -/
theorem getUniquePropertyMN_eq_some (hinv : N.Inv codec sha256d) {v : UniqueProperty G} :
    N.getUniquePropertyMN codec sha256d v = some dmn ↔ N.mnMap[dmn.proTxHash]? = some dmn ∧
      getUniquePropertyHash codec sha256d v ∈ dmn.hashes codec sha256d := by
  rw [getUniquePropertyMN, Option.bind_eq_some_iff]
  constructor
  · rintro ⟨p, hp, hmn⟩
    have hmem : getUniquePropertyHash codec sha256d v ∈ N.held codec sha256d p.1 :=
      hinv.properties.mem_iff.mpr ⟨p.2, hp⟩
    have hkey := hinv.key p.1 dmn hmn
    rw [held_of_some hmn] at hmem
    exact ⟨hkey ▸ hmn, hmem⟩
  · rintro ⟨hmn, hmem⟩
    rw [← @held_of_some _ codec sha256d N dmn _ hmn] at hmem
    obtain ⟨c, hc⟩ := hinv.properties.mem_iff.mp hmem
    exact ⟨_, hc, hmn⟩

omit [DecidableEq G] in
theorem hasUniqueProperty_iff (hinv : N.Inv codec sha256d) {v : UniqueProperty G} :
    N.hasUniqueProperty codec sha256d v = true ↔
      ∃ h, getUniquePropertyHash codec sha256d v ∈ N.held codec sha256d h := by
  rw [hasUniqueProperty, Option.isSome_iff_exists]
  constructor
  · rintro ⟨p, hp⟩
    exact ⟨p.1, hinv.properties.mem_iff.mpr ⟨p.2, hp⟩⟩
  · rintro ⟨h, hmem⟩
    obtain ⟨c, hc⟩ := hinv.properties.mem_iff.mp hmem
    exact ⟨_, hc⟩

theorem replaceByCollateral_reached (h : Reached codec sha256d pindexPrev txs N₀ N)
    {outpoint : COutPoint} (hok : N.replaceByCollateral codec sha256d outpoint = .ok N') :
    Reached codec sha256d pindexPrev txs N₀ N' ∧
      N'.nTotalRegisteredCount = N.nTotalRegisteredCount := by
  rw [replaceByCollateral] at hok
  cases hfound : N.getMNByCollateral codec sha256d outpoint with
  | none =>
    rw [hfound] at hok
    obtain rfl := Except.ok.inj hok
    exact ⟨h, rfl⟩
  | some dmn =>
    rw [hfound] at hok
    dsimp only at hok
    rw [orThrow_ok_iff] at hok
    have hmn := ((getUniquePropertyMN_eq_some h.inv).mp hfound).1
    have heq := (removed_of_ok h.inv hmn hok).2
    exact ⟨h.step (.remove dmn.proTxHash dmn hmn hok), by rw [heq]⟩

theorem applyProRegTx_reached (h : Reached codec sha256d pindexPrev txs N₀ N)
    {getCoin : COutPoint → Option CTxOut} {tx : CTransaction G} {proTx : CProRegTx G} (htx : tx ∈ txs)
    (hpayload : tx.payload = .providerRegister (some proTx))
    (hok : N.applyProRegTx codec sha256d (pindexPrev.nHeight+1) getCoin tx proTx = .ok N') :
    Reached codec sha256d pindexPrev txs N₀ N' := by
  simp only [applyProRegTx, bind_ok_iff, refuse_ok_iff, exists_const] at hok
  obtain ⟨-, N₁, hreplace, -, -, -, hadd⟩ := hok
  obtain ⟨h₁, hcount⟩ := replaceByCollateral_reached h hreplace
  rw [orThrow_ok_iff] at hadd
  have hsame : registeredBy (pindexPrev.nHeight+1) tx proTx N =
      registeredBy (pindexPrev.nHeight+1) tx proTx N₁ := by
    rw [registeredBy, registeredBy, hcount]
  rw [hsame] at hadd
  exact h₁.step (.register tx proTx htx hpayload hadd)

omit [DecidableEq G] in
/-- An update by a transaction updates the masternode that it names. -/
theorem entry_of_getMN (hinv : N.Inv codec sha256d) {h : uint256} (hmn : N.getMN h = some dmn) :
    h = dmn.proTxHash ∧ N.mnMap[dmn.proTxHash]? = some dmn := by
  have hkey := hinv.key h dmn hmn
  exact ⟨hkey.symm, hkey ▸ hmn⟩

theorem handleQuorumCommitment_reached (h : Reached codec sha256d pindexPrev txs N₀ N)
    {qc : CFinalCommitmentTxPayload} {members : List uint256}
    (hok : N.handleQuorumCommitment codec sha256d qc members = .ok N') :
    Reached codec sha256d pindexPrev txs N₀ N' := by
  rw [handleQuorumCommitment] at hok
  refine foldlM_keeps (Reached codec sha256d pindexPrev txs N₀) (fun m _ N N' h hone => ?_) h hok
  rw [punishMember] at hone
  split_ifs at hone
  · exact Except.ok.inj hone ▸ h
  · rw [orThrow_ok_iff, poSePunish] at hone
    cases hmn : N.getMN m.1 with
    | none =>
      rw [hmn] at hone
      cases hone
    | some dmn =>
      rw [hmn] at hone
      dsimp only at hone
      obtain ⟨hhash, hentry⟩ := entry_of_getMN h.inv hmn
      have hupdate := updateMNByHash_ok hmn (orThrow_ok_iff.mpr hone)
      refine h.step (.touch dmn _ hentry ?_ hupdate)
      simp only [CDeterministicMNState.banIfNotBanned]
      split_ifs
      all_goals exact ⟨rfl, rfl, rfl, rfl, rfl, rfl, rfl, rfl, rfl, rfl, rfl⟩
  · exact Except.ok.inj hone ▸ h

theorem applySpecialTx_reached (h : Reached codec sha256d pindexPrev txs N₀ N)
    {getCoin : COutPoint → Option CTxOut} {tx : CTransaction G} (htx : tx ∈ txs)
    (hok : N.applySpecialTx codec sha256d env pindexPrev getCoin tx = .ok N') :
    Reached codec sha256d pindexPrev txs N₀ N' := by
  rw [applySpecialTx] at hok
  split at hok
  · exact applyProRegTx_reached h htx ‹_› hok
  · rename_i proTx hpayload
    simp only [applyProUpServTx, bind_ok_iff] at hok
    obtain ⟨-, -, hok⟩ := hok
    cases hmn : N.getMN proTx.proTxHash with
    | none =>
      rw [hmn] at hok
      cases hok
    | some dmn =>
      rw [hmn] at hok
      simp only [bind_ok_iff, refuse_ok_iff, exists_const, not_not] at hok
      obtain ⟨htype, -, hok⟩ := hok
      obtain ⟨hhash, hentry⟩ := entry_of_getMN h.inv hmn
      exact h.step (.service tx proTx dmn htx hpayload hhash hentry htype (updateMNByHash_ok hmn hok))
  · rename_i proTx hpayload
    rw [applyProUpRegTx] at hok
    cases hmn : N.getMN proTx.proTxHash with
    | none =>
      rw [hmn] at hok
      cases hok
    | some dmn =>
      rw [hmn] at hok
      obtain ⟨hhash, hentry⟩ := entry_of_getMN h.inv hmn
      exact h.step (.registrar tx proTx dmn htx hpayload hhash hentry (updateMNByHash_ok hmn hok))
  · rename_i proTx hpayload
    rw [applyProUpRevTx] at hok
    cases hmn : N.getMN proTx.proTxHash with
    | none =>
      rw [hmn] at hok
      cases hok
    | some dmn =>
      rw [hmn] at hok
      obtain ⟨hhash, hentry⟩ := entry_of_getMN h.inv hmn
      exact h.step (.revoke tx proTx dmn htx hpayload hhash hentry (updateMNByHash_ok hmn hok))
  · rename_i qc hpayload
    rw [applyCommitment] at hok
    split at hok
    · exact Except.ok.inj hok ▸ h
    · split at hok
      · cases hok
      · dsimp only at hok
        split_ifs at hok
        exact handleQuorumCommitment_reached h hok
  -- payloads that do not decode, and transactions of other types
  · cases hok
  · cases hok
  · cases hok
  · cases hok
  · cases hok
  · exact Except.ok.inj hok ▸ h

theorem spendCollateral_reached (h : Reached codec sha256d pindexPrev txs N₀ N) {prevout : COutPoint}
    (hok : N.spendCollateral codec sha256d prevout = .ok N') :
    Reached codec sha256d pindexPrev txs N₀ N' := by
  rw [spendCollateral] at hok
  cases hfound : N.getMNByCollateral codec sha256d prevout with
  | none =>
    rw [hfound] at hok
    exact Except.ok.inj hok ▸ h
  | some dmn =>
    rw [hfound] at hok
    dsimp only at hok
    have hmn := ((getUniquePropertyMN_eq_some h.inv).mp hfound).1
    split_ifs at hok
    · exact h.step (.remove dmn.proTxHash dmn hmn (orThrow_ok_iff.mp hok))
    · exact Except.ok.inj hok ▸ h

omit [DecidableEq G] in
theorem paidState_alike (nHeight : ℤ) (isMNRewardReallocation : Bool) (dmn : CDeterministicMN G) :
    Alike dmn.pdmnState (paidState nHeight isMNRewardReallocation dmn) :=
  ⟨rfl, rfl, rfl, rfl, rfl, rfl, rfl, rfl, rfl, rfl, rfl⟩

theorem payPayee_reached (h : Reached codec sha256d pindexPrev txs N₀ N)
    {payee : Option (CDeterministicMN G)}
    (hok : N.payPayee codec sha256d pindexPrev payee = .ok N') :
    Reached codec sha256d pindexPrev txs N₀ N' := by
  rw [payPayee] at hok
  cases hmn : payee.bind fun payee => N.getMN payee.proTxHash with
  | none =>
    rw [hmn] at hok
    exact Except.ok.inj hok ▸ h
  | some dmn =>
    rw [hmn] at hok
    obtain ⟨p, -, hget⟩ := Option.bind_eq_some_iff.mp hmn
    obtain ⟨-, hentry⟩ := entry_of_getMN h.inv hget
    exact h.step (.touch dmn _ hentry (paidState_alike _ _ dmn) (updateMNByHash_ok hentry hok))

theorem resetPayments_ok {payee : Option (CDeterministicMN G)}
    (hmn : N.mnMap[dmn.proTxHash]? = some dmn)
    (hok : N.resetPayments codec sha256d pindexPrev payee dmn = .ok N') :
    N' = N ∨ ∃ newState, Alike dmn.pdmnState newState ∧
      N.updateMN codec sha256d dmn newState = .ok N' := by
  rw [resetPayments] at hok
  split_ifs at hok
  · exact Or.inl (Except.ok.inj hok).symm
  · exact Or.inl (Except.ok.inj hok).symm
  · exact Or.inl (Except.ok.inj hok).symm
  · refine Or.inr ⟨_, ?_, updateMNByHash_ok hmn hok⟩
    exact ⟨rfl, rfl, rfl, rfl, rfl, rfl, rfl, rfl, rfl, rfl, rfl⟩

/-- The list that the steps start from. -/
def startOf (pindexPrev : CBlockIndex) (L : CDeterministicMNList G) : CDeterministicMNList G :=
  {L with blockHash := 0, nHeight := pindexPrev.nHeight+1}

omit [DecidableEq G] in
theorem startOf_inv {L : CDeterministicMNList G} (hinv : L.Inv codec sha256d) :
    (startOf pindexPrev L).Inv codec sha256d :=
  ⟨hinv.key, hinv.ids, hinv.registered, hinv.properties⟩

/-- A list that is built is reached by steps from the list before. -/
theorem build_reached {L : CDeterministicMNList G} (hinv : L.Inv codec sha256d)
    {getCoin : COutPoint → Option CTxOut}
    (hok : L.buildNewListFromBlock codec sha256d env pindexPrev getCoin txs = .ok N) :
    Reached codec sha256d pindexPrev txs (startOf pindexPrev L) N := by
  simp only [buildNewListFromBlock, bind_ok_iff] at hok
  obtain ⟨N₁, hconfirm, N₂, hdecrease, N₃, htxs, N₄, hspend, N₅, hpay, hreset⟩ := hok
  have h₀ : Reached codec sha256d pindexPrev txs (startOf pindexPrev L) (startOf pindexPrev L) :=
    ⟨.refl, startOf_inv hinv⟩
  have h₁ : Reached codec sha256d pindexPrev txs (startOf pindexPrev L) N₁ :=
    loop_reached (fun dmn N N' hmn hone => confirm_ok hmn hone) (mns_hashes_nodup hinv) h₀
      (fun dmn hmem => (mem_mns hinv).mp hmem) hconfirm
  have h₂ := decreaseScores_reached h₁ hdecrease
  have h₃ : Reached codec sha256d pindexPrev txs (startOf pindexPrev L) N₃ :=
    foldlM_keeps _ (fun tx htx N N' h hone => applySpecialTx_reached h htx hone) h₂ htxs
  have h₄ : Reached codec sha256d pindexPrev txs (startOf pindexPrev L) N₄ :=
    foldlM_keeps _ (fun prevout _ N N' h hone => spendCollateral_reached h hone) h₃ hspend
  have h₅ := payPayee_reached h₄ hpay
  exact loop_reached (fun dmn N N' hmn hone => resetPayments_ok hmn hone) (mns_hashes_nodup h₅.inv) h₅
    (fun dmn hmem => (mem_mns h₅.inv).mp hmem) hreset

end Inversion

end CDeterministicMNList

end BabaChain.Evo.ByValue
