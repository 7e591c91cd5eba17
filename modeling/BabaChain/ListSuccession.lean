import BabaChain.BuildSteps
import Mathlib

/-! How the list of a block follows the one of the block before, where the
transactions of the block passed their checks against that one. -/
namespace BabaChain.Evo.ByValue
open BLS OrdMap OwnedCounts Guards
open Std (ExtTreeMap)

variable {G : Type*} [DecidableEq G] {codec : KeyCodec G} {sha256d : List UInt8 → uint256}
  {env : Environment G} {pindexPrev : CBlockIndex} {txs : List (CTransaction G)}

namespace CDeterministicMNList

variable {L N N' : CDeterministicMNList G} {dmn : CDeterministicMN G} {k : uint256}

section Checks

/-- Whoever has the property in the list is this masternode. -/
def OwnIn (codec : KeyCodec G) (sha256d : List UInt8 → uint256) (L : CDeterministicMNList G)
    (proTxHash k : uint256) : Prop :=
  ∀ h, k ∈ L.held codec sha256d h → h = proTxHash

/-- Nobody has the property in the list. -/
def FreeIn (codec : KeyCodec G) (sha256d : List UInt8 → uint256) (L : CDeterministicMNList G)
    (k : uint256) : Prop :=
  ∀ h, k ∉ L.held codec sha256d h

omit [DecidableEq G] in
theorem freeIn_of_not_has (hinv : L.Inv codec sha256d) {v : UniqueProperty G}
    (hnot : ¬L.hasUniqueProperty codec sha256d v = true) :
    FreeIn codec sha256d L (getUniquePropertyHash codec sha256d v) :=
  fun h hmem => hnot ((hasUniqueProperty_iff hinv).mpr ⟨h, hmem⟩)

omit [DecidableEq G] in
/-- A holder that has the attribute that is asked for. -/
theorem holder_of_not_refused (hinv : L.Inv codec sha256d) {v : UniqueProperty G} {α : Type*}
    {f : CDeterministicMN G → α} {a : α}
    (hnot : ¬(L.hasUniqueProperty codec sha256d v = true ∧
      (L.getUniquePropertyMN codec sha256d v).map f ≠ some a)) {h : uint256}
    (hmem : getUniquePropertyHash codec sha256d v ∈ L.held codec sha256d h) :
    ∃ dmn, L.mnMap[h]? = some dmn ∧ f dmn = a := by
  have hhas := (hasUniqueProperty_iff hinv).mpr ⟨h, hmem⟩
  have hmap : (L.getUniquePropertyMN codec sha256d v).map f = some a := by
    by_contra hne
    exact hnot ⟨hhas, hne⟩
  obtain ⟨dmn, hfound, hf⟩ := Option.map_eq_some_iff.mp hmap
  obtain ⟨hmn, hk⟩ := (getUniquePropertyMN_eq_some hinv).mp hfound
  rw [← @held_of_some _ codec sha256d L dmn _ hmn] at hk
  exact ⟨dmn, hinv.properties.owner_unique hk hmem ▸ hmn, hf⟩

omit [DecidableEq G] in
theorem ownIn_of_not_refused (hinv : L.Inv codec sha256d) {v : UniqueProperty G} {proTxHash : uint256}
    (hnot : ¬(L.hasUniqueProperty codec sha256d v = true ∧
      (L.getUniquePropertyMN codec sha256d v).map CDeterministicMN.proTxHash ≠ some proTxHash)) :
    OwnIn codec sha256d L proTxHash (getUniquePropertyHash codec sha256d v) := by
  intro h hmem
  obtain ⟨dmn, hmn, hhash⟩ := holder_of_not_refused hinv hnot hmem
  rw [← hhash, hinv.key h dmn hmn]

omit [DecidableEq G] in
/-- The hashes of a masternode's properties, one kind after the other. -/
theorem mem_hashes_iff (howner : dmn.pdmnState.keyIDOwner ≠ 0) :
    k ∈ dmn.hashes codec sha256d ↔
      k = getUniquePropertyHash codec sha256d (.outpoint dmn.collateralOutpoint : UniqueProperty G) ∨
      k ∈ entryHashes codec sha256d dmn.pdmnState.netInfo ∨
      k = getUniquePropertyHash codec sha256d (.keyID dmn.pdmnState.keyIDOwner : UniqueProperty G) ∨
      k ∈ hashOf codec sha256d (.operatorKey dmn.pdmnState.pubKeyOperator) ∨
      dmn.nType = .Evo ∧
        k ∈ hashOf codec sha256d (.nodeID dmn.pdmnState.platformNodeID : UniqueProperty G) := by
  have hkeyID : hashOf codec sha256d (.keyID dmn.pdmnState.keyIDOwner : UniqueProperty G) =
      [getUniquePropertyHash codec sha256d (.keyID dmn.pdmnState.keyIDOwner)] := by
    rw [hashOf, UniqueProperty.isNull, decide_eq_false howner, if_neg Bool.false_ne_true]
  rw [hashes_eq howner, hkeyID]
  simp only [Multiset.mem_add, Multiset.mem_singleton, Multiset.mem_coe, List.mem_singleton]
  by_cases htype : dmn.nType = .Evo
  · simp only [htype, if_true, true_and]
  · simp only [htype, if_false, false_and, List.not_mem_nil]

omit [DecidableEq G] in
theorem mem_entryHashes {info : NetInfo} : k ∈ entryHashes codec sha256d (G := G) info ↔
    ∃ e ∈ info.getEntries, ∃ v, (netInfoProperty e : NamedProperty G).2 = some v ∧
      k = getUniquePropertyHash codec sha256d v := by
  rw [entryHashes, ByValue.hashes, List.mem_filterMap]
  constructor
  · rintro ⟨p, hp, hk⟩
    obtain ⟨e, he, rfl⟩ := List.mem_map.mp hp
    obtain ⟨v, hv, hk⟩ := Option.map_eq_some_iff.mp hk
    exact ⟨e, he, v, hv, hk.symm⟩
  · rintro ⟨e, he, v, hv, rfl⟩
    exact ⟨netInfoProperty e, List.mem_map_of_mem he, by rw [propertyHash, hv, Option.map_some]⟩

omit [DecidableEq G] in
theorem mem_hashOf {v : UniqueProperty G} (hk : k ∈ hashOf codec sha256d v) :
    k = getUniquePropertyHash codec sha256d v := by
  rw [hashOf] at hk
  split_ifs at hk
  · exact absurd hk List.not_mem_nil
  · exact List.mem_singleton.mp hk

/-- What the checks against a list say of a service update. -/
theorem checkProUpServTx_ok (hinv : L.Inv codec sha256d) {check_sigs : Bool} {tx : CTransaction G}
    {proTx : CProUpServTx} {u : PUnit}
    (hok : L.checkProUpServTx codec sha256d env pindexPrev check_sigs tx proTx = .ok u) :
    (∃ dmn, L.mnMap[proTx.proTxHash]? = some dmn) ∧
      (∀ k ∈ entryHashes codec sha256d (G := G) proTx.netInfo,
        OwnIn codec sha256d L proTx.proTxHash k) ∧
      (proTx.nType = .Evo → OwnIn codec sha256d L proTx.proTxHash
        (getUniquePropertyHash codec sha256d (.nodeID proTx.platformNodeID : UniqueProperty G))) := by
  simp only [checkProUpServTx, bind_ok_iff] at hok
  obtain ⟨-, -, -, -, -, -, hok⟩ := hok
  cases hmn : L.getMN proTx.proTxHash with
  | none =>
    rw [hmn] at hok
    cases hok
  | some dmn =>
    rw [hmn] at hok
    simp only [bind_ok_iff, refuse_ok_iff, exists_const] at hok
    obtain ⟨_, -, _, hentries, hnode, -⟩ := hok
    refine ⟨⟨dmn, hmn⟩, fun k hk => ?_, fun hevo => ?_⟩
    · obtain ⟨e, he, v, hv, rfl⟩ := mem_entryHashes.mp hk
      have hone := forM_ok_iff.mp hentries e he
      rw [checkEntryForMN, hv] at hone
      exact ownIn_of_not_refused hinv (refuse_ok_iff.mp hone)
    · exact ownIn_of_not_refused hinv fun h => hnode ⟨hevo, h⟩

theorem checkProUpRegTx_ok (hinv : L.Inv codec sha256d) {getCoin : COutPoint → Option CTxOut}
    {check_sigs : Bool} {tx : CTransaction G} {proTx : CProUpRegTx G} {u : PUnit}
    (hok : L.checkProUpRegTx codec sha256d env pindexPrev getCoin check_sigs tx proTx = .ok u) :
    (∃ dmn, L.mnMap[proTx.proTxHash]? = some dmn) ∧ OwnIn codec sha256d L proTx.proTxHash
      (getUniquePropertyHash codec sha256d (.operatorKey proTx.pubKeyOperator)) := by
  simp only [checkProUpRegTx, bind_ok_iff] at hok
  obtain ⟨-, -, hok⟩ := hok
  split at hok
  · cases hok
  · cases hmn : L.getMN proTx.proTxHash with
    | none =>
      rw [hmn] at hok
      cases hok
    | some dmn =>
      rw [hmn] at hok
      simp only [bind_ok_iff, refuse_ok_iff, exists_const] at hok
      obtain ⟨-, -, -, hok⟩ := hok
      split at hok
      · cases hok
      · split at hok
        · cases hok
        · simp only [bind_ok_iff, refuse_ok_iff, exists_const] at hok
          obtain ⟨-, hkey, -⟩ := hok
          exact ⟨⟨dmn, hmn⟩, ownIn_of_not_refused hinv hkey⟩

theorem checkProUpRevTx_ok {check_sigs : Bool} {tx : CTransaction G} {proTx : CProUpRevTx} {u : PUnit}
    (hok : L.checkProUpRevTx codec sha256d env pindexPrev check_sigs tx proTx = .ok u) :
    ∃ dmn, L.mnMap[proTx.proTxHash]? = some dmn := by
  simp only [checkProUpRevTx, bind_ok_iff] at hok
  obtain ⟨-, -, hok⟩ := hok
  cases hmn : L.getMN proTx.proTxHash with
  | none =>
    rw [hmn] at hok
    cases hok
  | some dmn => exact ⟨dmn, hmn⟩

/-- What the checks against a list say of a registration: its addresses are new, or
belong to the masternode that it replaces, and its keys are new. -/
theorem checkProRegTx_ok (hinv : L.Inv codec sha256d) {getCoin : COutPoint → Option CTxOut}
    {check_sigs : Bool} {tx : CTransaction G} {proTx : CProRegTx G} {u : PUnit}
    (hok : L.checkProRegTx codec sha256d env pindexPrev getCoin check_sigs tx proTx = .ok u) :
    (∀ k ∈ entryHashes codec sha256d (G := G) proTx.netInfo, ∀ h, k ∈ L.held codec sha256d h →
        ∃ dmn, L.mnMap[h]? = some dmn ∧ dmn.collateralOutpoint = collateralOf tx proTx) ∧
      FreeIn codec sha256d L
        (getUniquePropertyHash codec sha256d (.keyID proTx.keyIDOwner : UniqueProperty G)) ∧
      FreeIn codec sha256d L
        (getUniquePropertyHash codec sha256d (.operatorKey proTx.pubKeyOperator)) ∧
      (proTx.nType = .Evo → FreeIn codec sha256d L
        (getUniquePropertyHash codec sha256d (.nodeID proTx.platformNodeID : UniqueProperty G))) := by
  simp only [checkProRegTx, bind_ok_iff, refuse_ok_iff, exists_const] at hok
  obtain ⟨-, -, -, -, -, -, -, hok⟩ := hok
  split at hok
  · cases hok
  · simp only [bind_ok_iff, refuse_ok_iff, exists_const] at hok
    obtain ⟨-, _, hentries, hkeys, hnode, -⟩ := hok
    rw [not_or] at hkeys
    refine ⟨fun k hk h hmem => ?_, freeIn_of_not_has hinv hkeys.1, freeIn_of_not_has hinv hkeys.2,
      fun hevo => freeIn_of_not_has hinv fun hhas => hnode ⟨hevo, hhas⟩⟩
    obtain ⟨e, he, v, hv, rfl⟩ := mem_entryHashes.mp hk
    have hone := forM_ok_iff.mp hentries e he
    rw [checkEntryForCollateral, hv] at hone
    exact holder_of_not_refused hinv (refuse_ok_iff.mp hone) hmem

end Checks

section Tracking

/-- The hash that a masternode's collateral is counted under. -/
def outpointHash (codec : KeyCodec G) (sha256d : List UInt8 → uint256) (dmn : CDeterministicMN G) :
    uint256 :=
  getUniquePropertyHash codec sha256d (.outpoint dmn.collateralOutpoint : UniqueProperty G)

/-- How a list that is being built relates to the one it started from: masternodes
of both stay the same ones and take nothing that another one of the old list has;
new masternodes take such a thing only from one that is gone, or it is their
collateral. -/
structure Tracks (codec : KeyCodec G) (sha256d : List UInt8 → uint256)
    (L N : CDeterministicMNList G) : Prop where
  inv : N.Inv codec sha256d
  same : ∀ (h : uint256) (dmn dmn' : CDeterministicMN G), L.mnMap[h]? = some dmn →
    N.mnMap[h]? = some dmn' → dmn' = {dmn with pdmnState := dmn'.pdmnState}
  own : ∀ (h h' k : uint256), L.mnMap[h']? ≠ none → k ∈ N.held codec sha256d h' →
    k ∈ L.held codec sha256d h → h = h'
  new : ∀ (h h' k : uint256) (dmn' : CDeterministicMN G), L.mnMap[h']? = none →
    N.mnMap[h']? = some dmn' → k ∈ dmn'.hashes codec sha256d → k ∈ L.held codec sha256d h →
      N.mnMap[h]? = none ∨ k = outpointHash codec sha256d dmn'

/-- Every masternode is there by a transaction of the chain, under its hash, and
with the owner key that it gave. -/
def RegisteredIn (T : Set (CTransaction G)) (N : CDeterministicMNList G) : Prop :=
  ∀ (h : uint256) (dmn : CDeterministicMN G), N.mnMap[h]? = some dmn → ∃ tx ∈ T, tx.hash = h ∧
    ∃ proTx, tx.payload = .providerRegister (some proTx) ∧ dmn.pdmnState.keyIDOwner = proTx.keyIDOwner

omit [DecidableEq G] in
/-- The property that a masternode's collateral is. -/
theorem outpointHash_mem (dmn : CDeterministicMN G) :
    outpointHash codec sha256d dmn ∈ dmn.hashes codec sha256d := by
  rw [CDeterministicMN.hashes, CDeterministicMN.uniqueProperties, Multiset.mem_coe]
  exact List.mem_cons_self

omit [DecidableEq G] in
theorem hashes_of_alike {newState : CDeterministicMNState G} (halike : Alike dmn.pdmnState newState) :
    CDeterministicMN.hashes codec sha256d {dmn with pdmnState := newState} =
      dmn.hashes codec sha256d := by
  rw [CDeterministicMN.hashes, CDeterministicMN.hashes, CDeterministicMN.uniqueProperties,
    CDeterministicMN.uniqueProperties]
  dsimp only
  rw [halike.netInfo, halike.keyIDOwner, halike.pubKeyOperator, halike.platformNodeID]

omit [DecidableEq G] in
theorem tracks_start (hinv : L.Inv codec sha256d) : Tracks codec sha256d L (startOf pindexPrev L) where
  inv := startOf_inv hinv
  same h dmn dmn' hmn hmn' := by
    have hmn'' : L.mnMap[h]? = some dmn' := hmn'
    obtain rfl := Option.some_inj.mp (hmn.symm.trans hmn'')
    rfl
  own h h' k _ hk hk' := hinv.properties.owner_unique hk' hk
  new h h' k dmn' hnone hmn' _ _ := by
    have hmn'' : L.mnMap[h']? = some dmn' := hmn'
    exact absurd (hnone.symm.trans hmn'') nofun

omit [DecidableEq G] in
/-- What is held once one masternode has a new state. -/
theorem held_of_update {newState : CDeterministicMNState G}
    (heq : N' = {N with
      mnMap := N.mnMap.insert dmn.proTxHash {dmn with pdmnState := newState}
      mnUniquePropertyMap := N'.mnUniquePropertyMap}) (h : uint256) :
    N'.mnMap[h]? = (if dmn.proTxHash = h then some {dmn with pdmnState := newState}
      else N.mnMap[h]?) ∧
    N'.held codec sha256d h = if dmn.proTxHash = h then
      CDeterministicMN.hashes codec sha256d {dmn with pdmnState := newState}
      else N.held codec sha256d h := by
  have hget : N'.mnMap[h]? = if dmn.proTxHash = h then some {dmn with pdmnState := newState}
      else N.mnMap[h]? := by
    rw [heq]
    exact getElem?_insert _ _ _ _
  refine ⟨hget, ?_⟩
  split_ifs with hsame
  · rw [if_pos hsame] at hget
    exact held_of_some hget
  · rw [if_neg hsame] at hget
    rw [held, held, hget]

omit [DecidableEq G] in
theorem Tracks.touch (ht : Tracks codec sha256d L N) (hmn : N.mnMap[dmn.proTxHash]? = some dmn)
    {newState : CDeterministicMNState G} (halike : Alike dmn.pdmnState newState)
    (hinv' : N'.Inv codec sha256d)
    (heq : N' = {N with
      mnMap := N.mnMap.insert dmn.proTxHash {dmn with pdmnState := newState}
      mnUniquePropertyMap := N'.mnUniquePropertyMap}) : Tracks codec sha256d L N' := by
  have hheld : ∀ h, N'.held codec sha256d h = N.held codec sha256d h := by
    intro h
    rw [(held_of_update heq h).2]
    split_ifs with hsame
    · subst hsame
      rw [hashes_of_alike halike, held_of_some hmn]
    · rfl
  refine ⟨hinv', fun h d d' hd hd' => ?_, fun h h' k hin hk hk' => ?_,
    fun h h' k d' hnone hd' hk hk' => ?_⟩
  · rw [(@held_of_update _ codec sha256d _ _ _ _ heq h).1] at hd'
    split_ifs at hd' with hsame
    · subst hsame
      have hold := ht.same _ d dmn hd hmn
      rw [← Option.some_inj.mp hd', hold]
    · exact ht.same h d d' hd hd'
  · rw [hheld] at hk
    exact ht.own h h' k hin hk hk'
  · have hgone : ∀ h : uint256, N.mnMap[h]? = none → N'.mnMap[h]? = none := by
      intro h hn
      rw [(@held_of_update _ codec sha256d _ _ _ _ heq h).1, if_neg, hn]
      rintro rfl
      exact absurd (hn.symm.trans hmn) nofun
    rw [(@held_of_update _ codec sha256d _ _ _ _ heq h').1] at hd'
    split_ifs at hd' with hsame
    · subst hsame
      obtain rfl := Option.some_inj.mp hd'
      rw [hashes_of_alike halike] at hk
      exact (ht.new h _ k dmn hnone hmn hk hk').imp (hgone h) id
    · exact (ht.new h h' k d' hnone hd' hk hk').imp (hgone h) id

omit [DecidableEq G] in
/-- An update of a masternode of the old list, to properties that nobody else had
there. -/
theorem Tracks.update (ht : Tracks codec sha256d L N) (hmn : N.mnMap[dmn.proTxHash]? = some dmn)
    (hold : ∃ dmn₀, L.mnMap[dmn.proTxHash]? = some dmn₀) {newState : CDeterministicMNState G}
    (hnew : ∀ k ∈ CDeterministicMN.hashes codec sha256d {dmn with pdmnState := newState},
      k ∈ dmn.hashes codec sha256d ∨ OwnIn codec sha256d L dmn.proTxHash k)
    (hinv' : N'.Inv codec sha256d)
    (heq : N' = {N with
      mnMap := N.mnMap.insert dmn.proTxHash {dmn with pdmnState := newState}
      mnUniquePropertyMap := N'.mnUniquePropertyMap}) : Tracks codec sha256d L N' := by
  obtain ⟨dmn₀, hmn₀⟩ := hold
  refine ⟨hinv', fun h d d' hd hd' => ?_, fun h h' k hin hk hk' => ?_,
    fun h h' k d' hnone hd' hk hk' => ?_⟩
  · rw [(@held_of_update _ codec sha256d _ _ _ _ heq h).1] at hd'
    split_ifs at hd' with hsame
    · subst hsame
      have hold := ht.same _ d dmn hd hmn
      rw [← Option.some_inj.mp hd', hold]
    · exact ht.same h d d' hd hd'
  · rw [(held_of_update heq h').2] at hk
    split_ifs at hk with hsame
    · subst hsame
      rcases hnew k hk with hk | hown
      · exact ht.own h _ k hin (by rw [held_of_some hmn]; exact hk) hk'
      · exact hown h hk'
    · exact ht.own h h' k hin hk hk'
  · rw [(@held_of_update _ codec sha256d _ _ _ _ heq h').1] at hd'
    split_ifs at hd' with hsame
    · subst hsame
      exact absurd (hnone.symm.trans hmn₀) nofun
    · refine (ht.new h h' k d' hnone hd' hk hk').imp (fun hn => ?_) id
      rw [(@held_of_update _ codec sha256d _ _ _ _ heq h).1, if_neg, hn]
      rintro rfl
      exact absurd (hn.symm.trans hmn) nofun

omit [DecidableEq G] in
theorem Tracks.remove (ht : Tracks codec sha256d L N) {h₀ : uint256} (hinv' : N'.Inv codec sha256d)
    (hmap : N'.mnMap = N.mnMap.erase h₀) : Tracks codec sha256d L N' := by
  have hsub : ∀ (h : uint256) (d : CDeterministicMN G), N'.mnMap[h]? = some d →
      N.mnMap[h]? = some d := by
    intro h d hd
    rw [hmap, getElem?_erase] at hd
    split_ifs at hd
    exact hd
  have hgone : ∀ h : uint256, N.mnMap[h]? = none → N'.mnMap[h]? = none := by
    intro h hn
    rw [hmap, getElem?_erase, hn, ite_self]
  refine ⟨hinv', fun h d d' hd hd' => ht.same h d d' hd (hsub h d' hd'), fun h h' k hin hk hk' => ?_,
    fun h h' k d' hnone hd' hk hk' => (ht.new h h' k d' hnone (hsub h' d' hd') hk hk').imp
      (hgone h) id⟩
  cases hd : N'.mnMap[h']? with
  | none =>
    rw [held_of_none hd] at hk
    exact absurd hk (Multiset.notMem_zero k)
  | some d =>
    rw [held_of_some hd, ← held_of_some (hsub h' d hd)] at hk
    exact ht.own h h' k hin hk hk'

omit [DecidableEq G] in
/-- A registration that the checks against the old list allow. -/
theorem Tracks.register (ht : Tracks codec sha256d L N) (hfresh : L.mnMap[dmn.proTxHash]? = none)
    (hadmits : N.Admits codec sha256d dmn)
    (hnew : ∀ k ∈ dmn.hashes codec sha256d, ∀ h, k ∈ L.held codec sha256d h →
      k = outpointHash codec sha256d dmn ∨
      ∃ dmn₀, L.mnMap[h]? = some dmn₀ ∧ dmn₀.collateralOutpoint = dmn.collateralOutpoint)
    (hinv' : N'.Inv codec sha256d) (hmap : N'.mnMap = N.mnMap.insert dmn.proTxHash dmn) :
    Tracks codec sha256d L N' := by
  have hget : ∀ h : uint256, N'.mnMap[h]? = if dmn.proTxHash = h then some dmn else N.mnMap[h]? := by
    intro h
    rw [hmap, getElem?_insert]
  have hheldL : ∀ h k, k ∈ L.held codec sha256d h → dmn.proTxHash ≠ h := by
    rintro h k hk rfl
    rw [held_of_none hfresh] at hk
    exact Multiset.notMem_zero k hk
  have hgone : ∀ h k, k ∈ L.held codec sha256d h → N.mnMap[h]? = none → N'.mnMap[h]? = none := by
    intro h k hk hn
    rw [hget, if_neg (hheldL h k hk), hn]
  refine ⟨hinv', fun h d d' hd hd' => ?_, fun h h' k hin hk hk' => ?_,
    fun h h' k d' hnone hd' hk hk' => ?_⟩
  · rw [hget] at hd'
    split_ifs at hd' with hsame
    · subst hsame
      exact absurd (hfresh.symm.trans hd) nofun
    · exact ht.same h d d' hd hd'
  · have hne : dmn.proTxHash ≠ h' := by
      rintro rfl
      exact hin hfresh
    rw [held, hget, if_neg hne] at hk
    exact ht.own h h' k hin hk hk'
  · rw [hget] at hd'
    split_ifs at hd' with hsame
    · obtain rfl := Option.some_inj.mp hd'
      rcases hnew k hk h hk' with hout | ⟨dmn₀, hmn₀, hcollateral⟩
      · exact Or.inr hout
      · -- the holder's collateral is the registered one, so it has been replaced
        left
        apply hgone h k hk'
        by_contra hstill
        obtain ⟨d, hd⟩ := Option.ne_none_iff_exists'.mp hstill
        have hsame' := ht.same h dmn₀ d hmn₀ hd
        have hcollateral' : d.collateralOutpoint = dmn.collateralOutpoint :=
          (congrArg CDeterministicMN.collateralOutpoint hsame').trans hcollateral
        have houtpoint : outpointHash codec sha256d dmn ∈ N.held codec sha256d h := by
          rw [held_of_some hd, outpointHash, ← hcollateral']
          exact outpointHash_mem d
        exact hadmits.free h (Ne.symm (hheldL h k hk')) _ (outpointHash_mem dmn) houtpoint
    · exact (ht.new h h' k d' hnone hd' hk hk').imp (hgone h k hk') id

end Tracking

section Succession
variable {T : Set (CTransaction G)} {check_sigs : Bool} {getCoin : COutPoint → Option CTxOut}

omit [DecidableEq G] in
theorem RegisteredIn.update (h : RegisteredIn T N) (hmn : N.mnMap[dmn.proTxHash]? = some dmn)
    {newState : CDeterministicMNState G} (howner : newState.keyIDOwner = dmn.pdmnState.keyIDOwner)
    (hmap : N'.mnMap = N.mnMap.insert dmn.proTxHash {dmn with pdmnState := newState}) :
    RegisteredIn T N' := by
  intro h' d hd
  rw [hmap, getElem?_insert] at hd
  split_ifs at hd with hsame
  · subst hsame
    obtain ⟨tx, htx, hhash, proTx, hpayload, hkey⟩ := h _ dmn hmn
    refine ⟨tx, htx, hhash, proTx, hpayload, ?_⟩
    rw [← Option.some_inj.mp hd]
    exact howner.trans hkey
  · exact h h' d hd

/-- A masternode is there by a transaction, and it keeps the owner key of it. -/
theorem BuildStep.registeredIn (hstep : BuildStep codec sha256d pindexPrev txs N N')
    (hinv : N.Inv codec sha256d) (hsub : ∀ tx ∈ txs, tx ∈ T) (h : RegisteredIn T N) :
    RegisteredIn T N' := by
  have hupdate : ∀ {dmn : CDeterministicMN G} {newState : CDeterministicMNState G},
      N.mnMap[dmn.proTxHash]? = some dmn → Follows codec sha256d dmn.pdmnState newState →
      newState.keyIDOwner = dmn.pdmnState.keyIDOwner →
      N.updateMN codec sha256d dmn newState = .ok N' → RegisteredIn T N' := by
    intro dmn newState hmn hfollows howner hok
    have heq := (updated_of_ok hinv hmn hfollows hok).2.2
    exact h.update hmn howner (by rw [heq])
  cases hstep with
  | touch dmn newState hmn halike hok =>
    exact hupdate hmn (follows_of_alike hinv hmn halike) halike.keyIDOwner hok
  | service tx proTx dmn _ _ _ hmn _ hok =>
    exact hupdate hmn (follows_service hinv hmn _ _ proTx) (serviceState_spec _ _ proTx _).1 hok
  | registrar tx proTx dmn _ _ _ hmn hok =>
    exact hupdate hmn (follows_registrar hinv hmn _ proTx)
      (@registrarState_spec _ _ codec _ proTx dmn.pdmnState).1 hok
  | revoke tx proTx dmn _ _ _ hmn hok =>
    exact hupdate hmn (follows_revoke hinv hmn _ proTx) (revokedState_spec _ proTx _).1 hok
  | remove h₀ dmn hmn hok =>
    have heq := (removed_of_ok hinv hmn hok).2
    intro h' d hd
    rw [heq] at hd
    dsimp only at hd
    rw [getElem?_erase] at hd
    split_ifs at hd
    exact h h' d hd
  | register tx proTx htx hpayload hok =>
    obtain ⟨-, -, -, hmap, -⟩ := added_of_ok hinv (given_registeredBy _ tx proTx N) hok
    intro h' d hd
    rw [hmap, getElem?_insert] at hd
    split_ifs at hd with hsame
    · refine ⟨tx, hsub tx htx, hsame, proTx, hpayload, ?_⟩
      rw [← Option.some_inj.mp hd]
      exact (registeredBy_alike _ tx proTx N).keyIDOwner
    · exact h h' d hd

omit [DecidableEq G] in
theorem getEntries_makeNetInfo (nVersion : UInt16) :
    (NetInfo.makeNetInfo nVersion).getEntries = [] := by
  rw [NetInfo.makeNetInfo]
  split_ifs
  · rfl
  · rfl

omit [DecidableEq G] in
/-- A masternode whose state is changed, with the operator's fields kept or empty. -/
theorem own_hashes (hreg : dmn.Registered) {newState : CDeterministicMNState G} {h : uint256}
    (howner : newState.keyIDOwner = dmn.pdmnState.keyIDOwner)
    (hentries : newState.netInfo = dmn.pdmnState.netInfo ∨
      ∀ k ∈ entryHashes codec sha256d (G := G) newState.netInfo, OwnIn codec sha256d L h k)
    (hkey : newState.pubKeyOperator = dmn.pdmnState.pubKeyOperator ∨
      ∀ k ∈ hashOf codec sha256d (.operatorKey newState.pubKeyOperator), OwnIn codec sha256d L h k)
    (hnode : newState.platformNodeID = dmn.pdmnState.platformNodeID ∨ (dmn.nType = .Evo →
      ∀ k ∈ hashOf codec sha256d (.nodeID newState.platformNodeID : UniqueProperty G),
        OwnIn codec sha256d L h k)) :
    ∀ k ∈ CDeterministicMN.hashes codec sha256d {dmn with pdmnState := newState},
      k ∈ dmn.hashes codec sha256d ∨ OwnIn codec sha256d L h k := by
  intro k hk
  have hset : dmn.pdmnState.keyIDOwner ≠ 0 := ((present_uniqueProperties dmn).mp hreg.present).2.2
  have hset' : newState.keyIDOwner ≠ 0 := howner ▸ hset
  rw [@mem_hashes_iff _ codec sha256d {dmn with pdmnState := newState} k hset'] at hk
  rw [mem_hashes_iff hset]
  rcases hk with hk | hk | hk | hk | ⟨hevo, hk⟩
  · exact Or.inl (Or.inl hk)
  · rcases hentries with hsame | hown
    · rw [hsame] at hk
      exact Or.inl (Or.inr (Or.inl hk))
    · exact Or.inr (hown k hk)
  · rw [howner] at hk
    exact Or.inl (Or.inr (Or.inr (Or.inl hk)))
  · rcases hkey with hsame | hown
    · rw [hsame] at hk
      exact Or.inl (Or.inr (Or.inr (Or.inr (Or.inl hk))))
    · exact Or.inr (hown k hk)
  · rcases hnode with hsame | hown
    · rw [hsame] at hk
      exact Or.inl (Or.inr (Or.inr (Or.inr (Or.inr ⟨hevo, hk⟩))))
    · exact Or.inr (hown hevo k hk)

omit [DecidableEq G] in
/-- An empty value has no hash to own. -/
theorem own_of_isNull {v : UniqueProperty G} (hnull : v.isNull = true) {h : uint256} :
    ∀ k ∈ hashOf codec sha256d v, OwnIn codec sha256d L h k := by
  intro k hk
  rw [hashOf, if_pos hnull] at hk
  exact absurd hk List.not_mem_nil

omit [DecidableEq G] in
theorem own_makeNetInfo (nVersion : UInt16) {h : uint256} :
    ∀ k ∈ entryHashes codec sha256d (G := G) (.makeNetInfo nVersion), OwnIn codec sha256d L h k := by
  intro k hk
  rw [entryHashes, getEntries_makeNetInfo] at hk
  exact absurd hk List.not_mem_nil

/-- No registration that passes its checks is there already. -/
theorem fresh_of_passed (hT : Set.InjOn CTransaction.hash T) (hinv : L.Inv codec sha256d)
    (h : RegisteredIn T L) {tx : CTransaction G} {proTx : CProRegTx G} (htx : tx ∈ T)
    (hpayload : tx.payload = .providerRegister (some proTx)) {u : PUnit}
    (hok : L.checkProRegTx codec sha256d env pindexPrev getCoin check_sigs tx proTx = .ok u) :
    L.mnMap[tx.hash]? = none := by
  by_contra hne
  obtain ⟨d, hd⟩ := Option.ne_none_iff_exists'.mp hne
  obtain ⟨tx', htx', hhash, proTx', hpayload', howner⟩ := h _ d hd
  have hsame : tx' = tx := hT htx' htx hhash
  rw [hsame, hpayload] at hpayload'
  have hproTx : proTx = proTx' := Option.some_inj.mp (SpecialPayload.providerRegister.inj hpayload')
  obtain ⟨-, hfree, -⟩ := checkProRegTx_ok hinv hok
  apply hfree tx.hash
  rw [held_of_some hd, mem_hashes_iff (registered_given hinv hd).2, howner, hproTx]
  exact Or.inr (Or.inr (Or.inl rfl))

/-- Every step keeps to what the checks against the old list allow. -/
theorem BuildStep.tracks (hstep : BuildStep codec sha256d pindexPrev txs N N')
    (hinv : L.Inv codec sha256d) (hT : Set.InjOn CTransaction.hash T) (hreg : RegisteredIn T L)
    (hsub : ∀ tx ∈ txs, tx ∈ T)
    (hpass : ∀ tx ∈ txs, ∃ u,
      L.checkSpecialTx codec sha256d env pindexPrev getCoin check_sigs tx = .ok u)
    (ht : Tracks codec sha256d L N) : Tracks codec sha256d L N' := by
  cases hstep with
  | touch dmn newState hmn halike hok =>
    obtain ⟨hinv', -, heq⟩ := updated_of_ok ht.inv hmn (follows_of_alike ht.inv hmn halike) hok
    exact ht.touch hmn halike hinv' heq
  | service tx proTx dmn htx hpayload hhash hmn htype hok =>
    obtain ⟨hinv', -, heq⟩ := updated_of_ok ht.inv hmn (follows_service ht.inv hmn _ _ proTx) hok
    obtain ⟨u, hpassed⟩ := hpass tx htx
    rw [checkSpecialTx, hpayload] at hpassed
    obtain ⟨hold, hentries, hnode⟩ := checkProUpServTx_ok hinv hpassed
    rw [hhash] at hold hentries hnode
    obtain ⟨howner, hkey, hinfo, hid, -⟩ := serviceState_spec (pindexPrev.nHeight+1)
      pindexPrev.isV24Active proTx dmn.pdmnState
    refine ht.update hmn hold (own_hashes (ht.inv.registered _ dmn hmn) howner (Or.inr ?_)
      (Or.inl hkey) (Or.inr fun hevo k hk => ?_)) hinv' heq
    · rw [hinfo]
      exact hentries
    · rw [hid, if_pos (htype.trans hevo)] at hk
      rw [mem_hashOf hk]
      exact hnode (htype.trans hevo)
  | registrar tx proTx dmn htx hpayload hhash hmn hok =>
    obtain ⟨hinv', -, heq⟩ := updated_of_ok ht.inv hmn (follows_registrar ht.inv hmn _ proTx) hok
    obtain ⟨u, hpassed⟩ := hpass tx htx
    rw [checkSpecialTx, hpayload] at hpassed
    obtain ⟨hold, hown⟩ := checkProUpRegTx_ok hinv hpassed
    rw [hhash] at hold hown
    obtain ⟨howner, -, -, hcases⟩ :=
      @registrarState_spec _ _ codec (pindexPrev.nHeight+1) proTx dmn.pdmnState
    refine ht.update hmn hold ?_ hinv' heq
    rcases hcases with ⟨-, hkey, hinfo, hid, -⟩ | ⟨-, hkey, hinfo, hid, -⟩
    · exact own_hashes (ht.inv.registered _ dmn hmn) howner (Or.inl hinfo) (Or.inl hkey) (Or.inl hid)
    · refine own_hashes (ht.inv.registered _ dmn hmn) howner (Or.inr ?_) (Or.inr fun k hk => ?_)
        (Or.inr fun _ => ?_)
      · rw [hinfo]
        exact own_makeNetInfo _
      · rw [hkey] at hk
        rw [mem_hashOf hk]
        exact hown
      · rw [hid]
        exact own_of_isNull rfl
  | revoke tx proTx dmn htx hpayload hhash hmn hok =>
    obtain ⟨hinv', -, heq⟩ := updated_of_ok ht.inv hmn (follows_revoke ht.inv hmn _ proTx) hok
    obtain ⟨u, hpassed⟩ := hpass tx htx
    rw [checkSpecialTx, hpayload] at hpassed
    have hold := checkProUpRevTx_ok hpassed
    rw [hhash] at hold
    obtain ⟨howner, hkey, hinfo, hid, -⟩ := revokedState_spec (pindexPrev.nHeight+1) proTx dmn.pdmnState
    refine ht.update hmn hold (own_hashes (ht.inv.registered _ dmn hmn) howner (Or.inr ?_)
      (Or.inr ?_) (Or.inr fun _ => ?_)) hinv' heq
    · rw [hinfo]
      exact own_makeNetInfo _
    · rw [hkey]
      exact own_of_isNull rfl
    · rw [hid]
      exact own_of_isNull rfl
  | remove h₀ dmn hmn hok =>
    obtain ⟨hinv', heq⟩ := removed_of_ok ht.inv hmn hok
    exact ht.remove hinv' (by rw [heq])
  | register tx proTx htx hpayload hok =>
    obtain ⟨hinv', -, hadmits, hmap, -⟩ := added_of_ok ht.inv (given_registeredBy _ tx proTx N) hok
    obtain ⟨u, hpassed⟩ := hpass tx htx
    rw [checkSpecialTx, hpayload] at hpassed
    have hfresh := fresh_of_passed hT hinv hreg (hsub tx htx) hpayload hpassed
    obtain ⟨hentries, howner, hkey, hnode⟩ := checkProRegTx_ok hinv hpassed
    refine ht.register hfresh hadmits (fun k hk h hmem => ?_) hinv' hmap
    have hgiven := hinv'.registered tx.hash _ (by rw [hmap]; exact (getElem?_insert _ _ _ _).trans (if_pos rfl))
    have hset := ((present_uniqueProperties _).mp hgiven.present).2.2
    have halike := registeredBy_alike (pindexPrev.nHeight+1) tx proTx N
    rw [mem_hashes_iff hset, halike.netInfo, halike.keyIDOwner, halike.pubKeyOperator,
      halike.platformNodeID] at hk
    rcases hk with hk | hk | hk | hk | ⟨hevo, hk⟩
    · exact Or.inl hk
    · exact Or.inr (hentries k hk h hmem)
    · exact absurd (hk ▸ hmem) (howner h)
    · exact absurd (mem_hashOf hk ▸ hmem) (hkey h)
    · exact absurd (mem_hashOf hk ▸ hmem) (hnode hevo h)

/-- What is built from a list for transactions that pass their checks against it. -/
theorem build_tracks (hinv : L.Inv codec sha256d) (hT : Set.InjOn CTransaction.hash T)
    (hreg : RegisteredIn T L) (hsub : ∀ tx ∈ txs, tx ∈ T)
    (hpass : ∀ tx ∈ txs, ∃ u,
      L.checkSpecialTx codec sha256d env pindexPrev getCoin check_sigs tx = .ok u)
    (hok : L.buildNewListFromBlock codec sha256d env pindexPrev getCoin txs = .ok N) :
    Tracks codec sha256d L N ∧ RegisteredIn T N := by
  have hsteps := (build_reached hinv hok).steps
  have hstart : RegisteredIn T (startOf pindexPrev L) := hreg
  clear hok
  induction hsteps with
  | refl => exact ⟨tracks_start hinv, hstart⟩
  | tail _ hstep ih =>
    obtain ⟨ht, hr⟩ := ih
    exact ⟨hstep.tracks hinv hT hreg hsub hpass ht, hstep.registeredIn ht.inv hsub hr⟩

end Succession

end CDeterministicMNList

end BabaChain.Evo.ByValue
