import BabaChain.ListSuccession
import Mathlib

/-! Lists of a chain, and when the difference of two of them that follow each other
leads from the one to the other. -/
namespace BabaChain.Evo.ByValue
open BLS OrdMap OwnedCounts Guards
open Std (ExtTreeMap ExtTreeSet)

variable {G : Type*} [DecidableEq G] {codec : KeyCodec G} {sha256d : List UInt8 → uint256}
  {env : Environment G}

namespace CDeterministicMNList

variable {L L' M N : CDeterministicMNList G} {dmn dmn' : CDeterministicMN G}

section Collaterals

/-- No new masternode has a collateral that counts for something a masternode of
both lists had in the old one. -/
def CollateralsFree (codec : KeyCodec G) (sha256d : List UInt8 → uint256)
    (L L' : CDeterministicMNList G) : Prop :=
  ∀ (h h' : uint256) (dmn' : CDeterministicMN G), L.mnMap[h']? = none →
    L'.mnMap[h']? = some dmn' → outpointHash codec sha256d dmn' ∈ L.held codec sha256d h →
      L'.mnMap[h]? = none

omit [DecidableEq G] in
theorem succeeds_of_tracks (ht : Tracks codec sha256d L L')
    (hfree : CollateralsFree codec sha256d L L') : Succeeds codec sha256d L L' := by
  refine ⟨ht.same, fun k h h' hk hk' hne => ?_⟩
  by_cases hin : L.mnMap[h']? = none
  · obtain ⟨dmn', hmn'⟩ : ∃ dmn', L'.mnMap[h']? = some dmn' := by
      by_contra hnot
      rw [held_of_none (Option.not_isSome_iff_eq_none.mp fun hsome =>
        hnot (Option.isSome_iff_exists.mp hsome))] at hk'
      exact Multiset.notMem_zero k hk'
    rw [held_of_some hmn'] at hk'
    rcases ht.new h h' k dmn' hin hmn' hk' hk with hgone | hout
    · exact hgone
    · exact hfree h h' dmn' hin hmn' (hout ▸ hk)
  · exact absurd (ht.own h h' k hin hk' hk) hne

omit [DecidableEq G] in
/-- A masternode that shares a property with one of the list is never added. -/
theorem addMN_conflict {dmns : List (CDeterministicMN G)} {h k : uint256}
    (hinv : N.Inv codec sha256d) (hheld : k ∈ N.held codec sha256d h) (hmem : dmn ∈ dmns)
    (hk : k ∈ dmn.hashes codec sha256d) (hne : dmn.proTxHash ≠ h)
    (hgiven : ∀ dmn ∈ dmns, GivenAddresses dmn.pdmnState.netInfo) :
    ∃ reason, dmns.foldlM (fun list dmn => list.addMN codec sha256d dmn true) N = .error reason := by
  induction dmns generalizing N with
  | nil => exact absurd hmem List.not_mem_nil
  | cons d dmns ih =>
    rw [List.foldlM_cons]
    cases hok : N.addMN codec sha256d d true with
    | error reason => exact ⟨reason, rfl⟩
    | ok N₁ =>
      obtain ⟨hinv₁, hnew, hadmits, hmap, -⟩ :=
        added_of_ok hinv (hgiven d List.mem_cons_self) hok
      have hother : h ≠ d.proTxHash := by
        rintro rfl
        rw [held_of_none hnew] at hheld
        exact Multiset.notMem_zero k hheld
      rcases List.mem_cons.mp hmem with rfl | hmem
      · exact absurd hheld (hadmits.free h hother k hk)
      · refine ih hinv₁ ?_ hmem fun d hd => hgiven d (List.mem_cons_of_mem _ hd)
        rw [held, hmap, getElem?_insert, if_neg (Ne.symm hother)]
        exact hheld

/-- The difference can be applied only where new collaterals are free. -/
theorem collateralsFree_of_ok (hinv : L.Inv codec sha256d) (hinv' : L'.Inv codec sha256d)
    {us : List (UInt64 × CDeterministicMNStateDiff G)} {blockHash : uint256} {nHeight : ℤ}
    (hok : L.applyDiff codec sha256d blockHash nHeight
      {L.buildDiff codec L' with updatedMNs := us} = .ok M) : CollateralsFree codec sha256d L L' := by
  intro h h' dmn' hnone hmn' hheld
  by_contra hstill
  obtain ⟨L₁, hremove, hinv₁, -, -, -, hstay⟩ := removal_spec hinv hinv' blockHash nHeight
  have hkey := hinv'.key h' dmn' hmn'
  subst hkey
  obtain ⟨dmn, hmn⟩ : ∃ dmn, L.mnMap[h]? = some dmn := by
    by_contra hnot
    rw [held_of_none (Option.not_isSome_iff_eq_none.mp fun hsome =>
      hnot (Option.isSome_iff_exists.mp hsome))] at hheld
    exact Multiset.notMem_zero _ hheld
  have hheld₁ : outpointHash codec sha256d dmn' ∈ L₁.held codec sha256d h := by
    rw [held_of_some ((hstay h dmn).mpr ⟨hmn, hstill⟩), ← held_of_some hmn]
    exact hheld
  have hne : dmn'.proTxHash ≠ h := by
    rintro rfl
    cases hnone.symm.trans hmn
  obtain ⟨reason, herr⟩ := addMN_conflict hinv₁ hheld₁ ((mem_addedMNs hinv hinv').mpr ⟨hmn', hnone⟩)
    (outpointHash_mem dmn') hne fun d hd =>
      (registered_given hinv' ((mem_addedMNs hinv hinv').mp hd).1).1
  rw [applyDiff, hremove] at hok
  have hbind : (Except.ok L₁ >>= fun list : CDeterministicMNList G =>
      (L.buildDiff codec L').addedMNs.foldlM (fun list dmn => list.addMN codec sha256d dmn true) list) =
      (Except.error reason : Except String (CDeterministicMNList G)) := herr
  rw [hbind] at hok
  cases hok

end Collaterals

section Chain

/-- A list that is built from another one for a block of transactions of the chain,
all of which pass their checks. -/
inductive Next (codec : KeyCodec G) (sha256d : List UInt8 → uint256) (env : Environment G)
    (T : Set (CTransaction G)) (L : CDeterministicMNList G) : CDeterministicMNList G → Prop
  | block (pindexPrev : CBlockIndex) (getCoin : COutPoint → Option CTxOut) (check_sigs : Bool)
    (txs : List (CTransaction G)) (N : CDeterministicMNList G) (blockHash : uint256)
    (hsub : ∀ tx ∈ txs, tx ∈ T)
    (hpass : ∀ tx ∈ txs,
      L.checkSpecialTx codec sha256d env pindexPrev getCoin check_sigs tx = .ok ())
    (hbuild : L.buildNewListFromBlock codec sha256d env pindexPrev getCoin txs = .ok N) :
    Next codec sha256d env T L {N with blockHash}

/-- A masternode that has been read back. Its key may come in another encoding. -/
structure Reread (dmn dmn' : CDeterministicMN G) : Prop where
  same : dmn' = {dmn with pdmnState := dmn'.pdmnState}
  keyIDOwner : dmn'.pdmnState.keyIDOwner = dmn.pdmnState.keyIDOwner
  given : GivenAddresses dmn'.pdmnState.netInfo

variable (codec sha256d) in
/-- The loop of `Unserialize` that adds what it reads to an empty list. -/
def addAllRead (list : CDeterministicMNList G) (dmns : List (CDeterministicMN G)) :
    Except String (CDeterministicMNList G) :=
  dmns.foldlM (fun list dmn => list.addMN codec sha256d dmn false) list

/-- The lists of a chain's blocks: built from the one before, rebuilt from it by their
difference, or read back. -/
inductive ListAt (codec : KeyCodec G) (sha256d : List UInt8 → uint256) (env : Environment G)
    (T : Set (CTransaction G)) : CDeterministicMNList G → Prop
  | initial (blockHash : uint256) (nHeight : ℤ) : ListAt codec sha256d env T {blockHash, nHeight}
  | built {L L' : CDeterministicMNList G} (hL : ListAt codec sha256d env T L)
    (hnext : Next codec sha256d env T L L') : ListAt codec sha256d env T L'
  | rebuilt {L L' M : CDeterministicMNList G} (hL : ListAt codec sha256d env T L)
    (hnext : Next codec sha256d env T L L') (us : List (UInt64 × CDeterministicMNStateDiff G))
    (hus : us.Perm (L.buildDiff codec L').updatedMNs)
    (hok : L.applyDiff codec sha256d L'.blockHash L'.nHeight
      {L.buildDiff codec L' with updatedMNs := us} = .ok M) : ListAt codec sha256d env T M
  | reread {L M : CDeterministicMNList G} (hL : ListAt codec sha256d env T L)
    (dmns : List (CDeterministicMN G)) (hdmns : ∀ dmn' ∈ dmns, ∃ dmn ∈ L.mns, Reread dmn dmn')
    (hok : addAllRead codec sha256d {
      blockHash := L.blockHash
      nHeight := L.nHeight
      nTotalRegisteredCount := L.nTotalRegisteredCount} dmns = .ok M) : ListAt codec sha256d env T M

variable {T : Set (CTransaction G)}

theorem Next.tracks (hnext : Next codec sha256d env T L L') (hinv : L.Inv codec sha256d)
    (hT : Set.InjOn CTransaction.hash T) (hreg : RegisteredIn T L) :
    Tracks codec sha256d L L' ∧ RegisteredIn T L' := by
  cases hnext with
  | block pindexPrev getCoin check_sigs txs N blockHash hsub hpass hbuild =>
    obtain ⟨ht, hreg'⟩ := build_tracks hinv hT hreg hsub (fun tx htx => ⟨_, hpass tx htx⟩) hbuild
    exact ⟨⟨⟨ht.inv.key, ht.inv.ids, ht.inv.registered, ht.inv.properties⟩, ht.same, ht.own, ht.new⟩,
      hreg'⟩

omit [DecidableEq G] in
theorem reread_all {dmns : List (CDeterministicMN G)} (hdmns : ∀ dmn' ∈ dmns, ∃ dmn ∈ L.mns, Reread dmn dmn')
    (hinvL : L.Inv codec sha256d) (hL : RegisteredIn T L) (hinv : N.Inv codec sha256d)
    (hN : RegisteredIn T N)
    (hok : addAllRead codec sha256d N dmns = .ok M) :
    M.Inv codec sha256d ∧ RegisteredIn T M := by
  induction dmns generalizing N with
  | nil =>
    obtain rfl := Except.ok.inj hok
    exact ⟨hinv, hN⟩
  | cons d dmns ih =>
    obtain ⟨⟨dmn, hmem, hread⟩, hrest⟩ := List.forall_mem_cons.mp hdmns
    rw [addAllRead, List.foldlM_cons, bind_ok_iff] at hok
    obtain ⟨N₁, hone, hok⟩ := hok
    obtain ⟨hinv₁, hmap⟩ := addMN_step hinv hread.given hone
    refine ih hrest hinv₁ (fun h d' hd => ?_) hok
    rw [hmap, getElem?_insert] at hd
    split_ifs at hd with hsame
    · obtain rfl := Option.some_inj.mp hd
      have hhash : dmn.proTxHash = h := by
        rw [← hsame, hread.same]
      obtain ⟨tx, htx, hhash', proTx, hpayload, howner⟩ := hL h dmn (hhash ▸ (mem_mns hinvL).mp hmem)
      exact ⟨tx, htx, hhash', proTx, hpayload, hread.keyIDOwner.trans howner⟩
    · exact hN h d' hd

theorem applied_keyIDOwner (L : CDeterministicMNList G) (dmn' : CDeterministicMN G) :
    (applied codec L dmn').pdmnState.keyIDOwner = dmn'.pdmnState.keyIDOwner := by
  rw [applied]
  cases L.getMN dmn'.proTxHash with
  | none => rfl
  | some dmn => rfl

/-- Every list of the chain has its maps in step, and its masternodes from
transactions. -/
theorem ListAt.spec (hL : ListAt codec sha256d env T L) (hT : Set.InjOn CTransaction.hash T) :
    L.Inv codec sha256d ∧ RegisteredIn T L := by
  have hempty : ∀ (blockHash : uint256) (nHeight : ℤ) (count : UInt32), RegisteredIn T
      ({blockHash, nHeight, nTotalRegisteredCount := count} : CDeterministicMNList G) := by
    intro blockHash nHeight count h dmn hmn
    rw [ExtTreeMap.getElem?_empty] at hmn
    exact absurd hmn (Option.some_ne_none dmn).symm
  induction hL with
  | initial blockHash nHeight => exact ⟨inv_empty blockHash nHeight 0, hempty _ _ _⟩
  | built hL hnext ih =>
    obtain ⟨ht, hreg'⟩ := hnext.tracks ih.1 hT ih.2
    exact ⟨ht.inv, hreg'⟩
  | rebuilt hL hnext us hus hok ih =>
    obtain ⟨ht, hreg'⟩ := hnext.tracks ih.1 hT ih.2
    have hsucc := succeeds_of_tracks ht (collateralsFree_of_ok ih.1 ht.inv hok)
    obtain ⟨M', hok', hinvM, -, -, -, hget⟩ := applyDiff_buildDiff ih.1 ht.inv hsucc hus _ _
    obtain rfl := Except.ok.inj (hok.symm.trans hok')
    refine ⟨hinvM, fun h d hd => ?_⟩
    rw [hget] at hd
    obtain ⟨d', hd', rfl⟩ := Option.map_eq_some_iff.mp hd
    obtain ⟨tx, htx, hhash, proTx, hpayload, howner⟩ := hreg' h d' hd'
    exact ⟨tx, htx, hhash, proTx, hpayload, (applied_keyIDOwner _ d').trans howner⟩
  | reread hL dmns hdmns hok ih =>
    exact reread_all hdmns ih.1 ih.2 (inv_empty _ _ _) (hempty _ _ _) hok

end Chain

section Exactness

variable (codec) in
/-- The same masternode, with states that do not differ in any field. -/
structure SameMN (dmn dmn' : CDeterministicMN G) : Prop where
  same : dmn = {dmn' with pdmnState := dmn.pdmnState}
  fields : ∀ f, Field.differs codec dmn.pdmnState dmn'.pdmnState f = false

variable (codec) in
/-- The same list: its masternodes, both indexes, its block. -/
structure SameList (M L' : CDeterministicMNList G) : Prop where
  mnMap : ∀ h : uint256, Option.Rel (SameMN codec) M.mnMap[h]? L'.mnMap[h]?
  mnInternalIdMap : M.mnInternalIdMap = L'.mnInternalIdMap
  mnUniquePropertyMap : M.mnUniquePropertyMap = L'.mnUniquePropertyMap
  nHeight : M.nHeight = L'.nHeight
  blockHash : M.blockHash = L'.blockHash

/-- The difference, with the updates in any order, leads from the one list to the
other. -/
def RoundTrips (codec : KeyCodec G) (sha256d : List UInt8 → uint256)
    (L L' : CDeterministicMNList G) : Prop :=
  ∀ us : List (UInt64 × CDeterministicMNStateDiff G), us.Perm (L.buildDiff codec L').updatedMNs →
    ∃ M, L.applyDiff codec sha256d L'.blockHash L'.nHeight
      {L.buildDiff codec L' with updatedMNs := us} = .ok M ∧ SameList codec M L'

/-- No masternode of both lists has an operator key that counts as its old one and has
other bytes. -/
def KeysKept (codec : KeyCodec G) (sha256d : List UInt8 → uint256)
    (L L' : CDeterministicMNList G) : Prop :=
  ∀ (h : uint256) (dmn dmn' : CDeterministicMN G), L.mnMap[h]? = some dmn →
    L'.mnMap[h]? = some dmn' → Kept codec sha256d (.operatorKey dmn.pdmnState.pubKeyOperator)
      (.operatorKey dmn'.pdmnState.pubKeyOperator)

/-- What the difference brings is what the new list has. -/
theorem applied_same (L : CDeterministicMNList G) (dmn' : CDeterministicMN G) :
    SameMN codec (applied codec L dmn') dmn' := by
  cases hmn : L.mnMap[dmn'.proTxHash]? with
  | none =>
    rw [applied_of_none hmn]
    exact ⟨rfl, Field.differs_self _⟩
  | some dmn =>
    rw [applied_of_some hmn]
    refine ⟨rfl, fun f => ?_⟩
    cases f with
    | pubKeyOperator =>
      simp only [Field.differs, blend]
      split_ifs with hequal
      · rw [hequal, Bool.not_true]
      · rw [keyEqual_self, Bool.not_true]
    | netInfo =>
      simp only [Field.differs, blend]
      split_ifs with hequal
      · rw [hequal, Bool.not_true]
      · rw [NetInfo.isEqual_self, Bool.not_true]
    | _ =>
      simp only [Field.differs, blend, bne_self_eq_false, ne_eq, not_true_eq_false, decide_false]

omit [DecidableEq G] in
theorem hashOf_inj {v v' : UniqueProperty G}
    (h : (hashOf codec sha256d v : Multiset uint256) = hashOf codec sha256d v') :
    hashOf codec sha256d v = hashOf codec sha256d v' := by
  have hperm := Multiset.coe_eq_coe.mp h
  have hlength : (hashOf codec sha256d v').length ≤ 1 := hashOf_length v'
  match hl : hashOf codec sha256d v', hlength with
  | [], _ =>
    rw [hl] at hperm
    exact List.perm_nil.mp hperm
  | [k], _ =>
    rw [hl] at hperm
    exact List.perm_singleton.mp hperm

/-- Its properties are counted alike where its key has kept its hash. -/
theorem hashes_applied_iff (hinv : L.Inv codec sha256d) (hreg : dmn'.Registered)
    (hmn : L.mnMap[dmn'.proTxHash]? = some dmn) :
    (applied codec L dmn').hashes codec sha256d = dmn'.hashes codec sha256d ↔
      Kept codec sha256d (.operatorKey dmn.pdmnState.pubKeyOperator)
        (.operatorKey dmn'.pdmnState.pubKeyOperator) := by
  have hreg' := hinv.registered _ dmn hmn
  obtain ⟨-, -, howner⟩ := (present_uniqueProperties dmn').mp hreg.present
  have happlied := @hashes_eq _ codec sha256d
    {dmn' with pdmnState := blend codec dmn.pdmnState dmn'.pdmnState} howner
  have hentries : (entryHashes codec sha256d (if dmn.pdmnState.netInfo.isEqual
      dmn'.pdmnState.netInfo then dmn.pdmnState.netInfo else dmn'.pdmnState.netInfo) :
      Multiset uint256) = entryHashes codec sha256d dmn'.pdmnState.netInfo := by
    split_ifs with hequal
    · have hperm := NetInfo.perm_of_isEqual hreg'.coherent hreg.coherent hequal
      exact Multiset.coe_eq_coe.mpr ((hperm.map _).filterMap _)
    · rfl
  rw [applied_of_some hmn, happlied, hashes_eq howner]
  simp only [blend, hentries, add_right_inj, add_left_inj]
  cases hkey : keyEqual codec dmn.pdmnState.pubKeyOperator dmn'.pdmnState.pubKeyOperator with
  | true =>
    simp only [if_true]
    exact ⟨fun h _ => hashOf_inj h, fun hkept => congrArg _ (hkept hkey)⟩
  | false =>
    simp only [Bool.false_eq_true, if_false, true_iff]
    intro heq
    exact absurd (hkey.symm.trans heq) Bool.false_ne_true

/-- The difference of a list and one that follows it leads from the one to the other
exactly where keys have kept their hashes and new collaterals are free. -/
theorem roundTrips_iff (hinv : L.Inv codec sha256d) (ht : Tracks codec sha256d L L') :
    RoundTrips codec sha256d L L' ↔
      KeysKept codec sha256d L L' ∧ CollateralsFree codec sha256d L L' := by
  have hinv' := ht.inv
  constructor
  · intro htrip
    obtain ⟨M, hok, hlist⟩ := htrip _ (List.Perm.refl _)
    have hfree := collateralsFree_of_ok hinv hinv' hok
    refine ⟨fun h dmn dmn' hmn hmn' => ?_, hfree⟩
    obtain ⟨M', hok', hinvM, -, -, -, hget⟩ :=
      applyDiff_buildDiff hinv hinv' (succeeds_of_tracks ht hfree) (List.Perm.refl _) L'.blockHash L'.nHeight
    obtain rfl := Except.ok.inj (hok.symm.trans hok')
    have hkey := hinv'.key h dmn' hmn'
    subst hkey
    refine (hashes_applied_iff hinv (hinv'.registered _ dmn' hmn') hmn).mp ?_
    -- one index counts what either list holds
    have hheldM : M.held codec sha256d dmn'.proTxHash = (applied codec L dmn').hashes codec sha256d :=
      held_of_some (by rw [hget, hmn']; rfl)
    rw [← hheldM, ← held_of_some hmn']
    ext k
    rw [← hinvM.properties.count, ← hinv'.properties.count, hlist.mnUniquePropertyMap]
  · rintro ⟨hkept, hfree⟩ us hus
    obtain ⟨M, hok, hinvM, hblock, hheight, -, hget⟩ :=
      applyDiff_buildDiff hinv hinv' (succeeds_of_tracks ht hfree) hus L'.blockHash L'.nHeight
    refine ⟨M, hok, ⟨fun h => ?_, ?_, ?_, hheight, hblock⟩⟩
    · rw [hget]
      cases hmn' : L'.mnMap[h]? with
      | none => exact .none
      | some dmn' => exact .some (applied_same L dmn')
    · apply ExtTreeMap.ext_getElem?
      intro id
      apply Option.ext
      intro h
      rw [hinvM.ids, hinv'.ids, hget]
      constructor
      · rintro ⟨d, hd, hid⟩
        obtain ⟨dmn', hmn', rfl⟩ := Option.map_eq_some_iff.mp hd
        have hstatic := (@applied_same _ _ codec L dmn').same
        rw [hstatic] at hid
        exact ⟨dmn', hmn', hid⟩
      · rintro ⟨dmn', hmn', hid⟩
        have hstatic := (@applied_same _ _ codec L dmn').same
        refine ⟨_, by rw [hmn']; rfl, ?_⟩
        rw [hstatic]
        exact hid
    · have hheld : M.held codec sha256d = L'.held codec sha256d := by
        funext h
        cases hmn' : L'.mnMap[h]? with
        | none =>
          rw [held_of_none hmn', held_of_none (by rw [hget, hmn']; rfl)]
        | some dmn' =>
          have hkey := hinv'.key h dmn' hmn'
          subst hkey
          have hheldM : M.held codec sha256d dmn'.proTxHash =
              (applied codec L dmn').hashes codec sha256d := held_of_some (by rw [hget, hmn']; rfl)
          rw [held_of_some hmn', hheldM]
          cases hmn : L.mnMap[dmn'.proTxHash]? with
          | none => rw [applied_of_none hmn]
          | some dmn =>
            exact (hashes_applied_iff hinv (hinv'.registered _ dmn' hmn') hmn).mpr
              (hkept _ dmn dmn' hmn hmn')
      have hcounts := hinvM.properties
      rw [hheld] at hcounts
      exact hcounts.unique hinv'.properties

/-- A list of a chain and the one of the next block. -/
theorem diff_roundTrips_iff {T : Set (CTransaction G)} (hT : Set.InjOn CTransaction.hash T)
    (hL : ListAt codec sha256d env T L) (hnext : Next codec sha256d env T L L') :
    RoundTrips codec sha256d L L' ↔
      KeysKept codec sha256d L L' ∧ CollateralsFree codec sha256d L L' := by
  obtain ⟨hinv, hreg⟩ := hL.spec hT
  exact roundTrips_iff hinv (hnext.tracks hinv hT hreg).1

end Exactness

section Samples

/-- A network that asks nothing of addresses. -/
def anyNet : NetRules where
  isNodeOnMainnet := false
  mainDefaultPort := 9999
  mainDefaultPlatformP2PPort := 26656
  mainDefaultPlatformHTTPPort := 443
  requireRoutableExternalIP := false
  isRoutable _ := true
  isBadPort _ := false
  toStringAddr _ := []

/-- The destination of a script that pays to a key. -/
def keyDestination (script : List UInt8) : Option CTxDestination :=
  if isPayToPublicKeyHash script then
    some (.PKHash ((script.drop 3).take 20 |>.foldr (fun b h => h*256+b.toBitVec.setWidth 160) 0))
  else none

def payToKey (b : UInt8) : List UInt8 := [0x76, 0xa9, 0x14]++List.replicate 20 b++[0x88, 0xac]

/-- A node whose signatures are all good. -/
def signedEnv : Environment Unit where
  net := anyNet
  nMasternodeMinimumConfirmations := 15
  sha256 := digest
  extractDestination := keyDestination
  checkStringSig _ _ := true
  checkServiceSig _ _ := true
  checkRegistrarSig _ _ := true
  checkRevokeSig _ _ := true
  dkgInterval _ := none
  getAncestor _ _ := none
  getAllQuorumMembers _ _ := []
  checkOther _ _ := true

def sampleInputs : List COutPoint := [⟨7, 0⟩]

def sampleInputsHash : uint256 := calcTxInputsHash digest ({hash := 0, vin := sampleInputs} : CTransaction Unit)

/-- A registration of a key in the legacy encoding, without an address. -/
def registration : CTransaction Unit where
  hash := 1
  vin := sampleInputs
  vout := [⟨1000*COIN, payToKey 9⟩]
  payload := .providerRegister (some {
    nVersion := 1
    collateralOutpoint := ⟨0, 0⟩
    netInfo := .mn {}
    keyIDOwner := 3
    pubKeyOperator := readKey true
    keyIDVoting := 4
    scriptPayout := payToKey 8
    inputsHash := sampleInputsHash
    given := given_makeNetInfo 1})

def revocation : CTransaction Unit where
  hash := 2
  vin := sampleInputs
  payload := .providerUpdateRevoke (some {nVersion := 1, proTxHash := 1, inputsHash := sampleInputsHash})

/-- The key that was revoked, in the basic encoding. -/
def rekeying : CTransaction Unit where
  hash := 3
  vin := sampleInputs
  payload := .providerUpdateRegistrar (some {
    nVersion := 2
    proTxHash := 1
    pubKeyOperator := readKey false
    keyIDVoting := 4
    scriptPayout := payToKey 8
    inputsHash := sampleInputsHash})

def spending : CTransaction Unit := {hash := 4, vin := [⟨1, 0⟩]}

def sampleCoin (_ : COutPoint) : Option CTxOut := some ⟨1000*COIN, payToKey 9⟩

def blockBefore (nHeight : ℤ) (isV24Active : Bool) : CBlockIndex := {blockHash := 5, nHeight, isV24Active}

/-- The list of a block, where it can be built. -/
def listAfter (blockHash : uint256) (pindexPrev : CBlockIndex) (txs : List (CTransaction Unit))
    (L : CDeterministicMNList Unit) : CDeterministicMNList Unit :=
  {(L.buildNewListFromBlock oneCodec digest signedEnv pindexPrev sampleCoin txs).toOption.getD {} with
    blockHash}

def listOne : CDeterministicMNList Unit := listAfter 6 (blockBefore 0 false) [registration] {nHeight := 0}

def listTwo : CDeterministicMNList Unit := listAfter 7 (blockBefore 1 true) [revocation, rekeying] listOne

def listSpent : CDeterministicMNList Unit := listAfter 8 (blockBefore 1 true) [spending] listOne

/-- The transactions of the sample chain. -/
def sampleChain : Set (CTransaction Unit) := {registration, revocation, rekeying, spending}

theorem sampleChain_injOn : Set.InjOn CTransaction.hash sampleChain := by
  rintro a (rfl | rfl | rfl | rfl) b (rfl | rfl | rfl | rfl) heq
  all_goals first | rfl | exact absurd heq (by decide)

theorem next_listAfter {blockHash : uint256} {pindexPrev : CBlockIndex} {txs : List (CTransaction Unit)}
    {L : CDeterministicMNList Unit} (hsub : ∀ tx ∈ txs, tx ∈ sampleChain)
    (hpass : ∀ tx ∈ txs,
      L.checkSpecialTx oneCodec digest signedEnv pindexPrev sampleCoin true tx = .ok ())
    (hbuild : (L.buildNewListFromBlock oneCodec digest signedEnv pindexPrev sampleCoin
      txs).toOption.isSome = true) :
    Next oneCodec digest signedEnv sampleChain L (listAfter blockHash pindexPrev txs L) := by
  obtain ⟨N, hN⟩ := Option.isSome_iff_exists.mp hbuild
  rw [listAfter, hN]
  exact .block pindexPrev sampleCoin true txs N blockHash hsub hpass (eq_ok_of_toOption hN)

theorem next_listOne :
    Next oneCodec digest signedEnv sampleChain {nHeight := 0} listOne := by
  refine next_listAfter (fun tx htx => ?_) (fun tx htx => ?_) (by decide +kernel)
  · rw [List.mem_singleton.mp htx]
    exact Or.inl rfl
  · rw [List.mem_singleton.mp htx]
    decide +kernel

theorem next_listTwo : Next oneCodec digest signedEnv sampleChain listOne listTwo := by
  refine next_listAfter (fun tx htx => ?_) (fun tx htx => ?_) (by decide +kernel)
  · simp only [List.mem_cons, List.not_mem_nil, or_false] at htx
    exact Or.inr (htx.imp_right Or.inl)
  · simp only [List.mem_cons, List.not_mem_nil, or_false] at htx
    rcases htx with rfl | rfl
    · decide +kernel
    · decide +kernel

theorem next_listSpent : Next oneCodec digest signedEnv sampleChain listOne listSpent := by
  refine next_listAfter (fun tx htx => ?_) (fun tx htx => ?_) (by decide +kernel)
  · rw [List.mem_singleton.mp htx]
    exact Or.inr (Or.inr (Or.inr rfl))
  · rw [List.mem_singleton.mp htx]
    decide +kernel

theorem diff_roundTrips_iff_registration :
    listOne.mnMap.size = 1 ∧ RoundTrips oneCodec digest {nHeight := 0} listOne := by
  have hempty : ∀ h : uint256, ({nHeight := 0} : CDeterministicMNList Unit).mnMap[h]? = none :=
    fun _ => ExtTreeMap.getElem?_empty
  refine ⟨by decide +kernel,
    (diff_roundTrips_iff sampleChain_injOn (.initial 0 0) next_listOne).mpr ⟨?_, ?_⟩⟩
  · intro h dmn dmn' hmn
    rw [hempty] at hmn
    exact absurd hmn (Option.some_ne_none dmn).symm
  · intro h h' dmn' _ _ hheld
    rw [held_of_none (hempty h)] at hheld
    exact absurd hheld (Multiset.notMem_zero _)

/-- One block takes a key away and brings it back in the other encoding. The
difference leaves the old key, and its hash stays in the index. -/
theorem diff_not_roundTrips : ListAt oneCodec digest signedEnv sampleChain listOne ∧
    Next oneCodec digest signedEnv sampleChain listOne listTwo ∧
    ¬RoundTrips oneCodec digest listOne listTwo := by
  have hL : ListAt oneCodec digest signedEnv sampleChain listOne :=
    .built (.initial 0 0) next_listOne
  refine ⟨hL, next_listTwo, fun htrip => ?_⟩
  obtain ⟨hinv, hreg⟩ := hL.spec sampleChain_injOn
  have ht := (next_listTwo.tracks hinv sampleChain_injOn hreg).1
  have hkept := ((roundTrips_iff hinv ht).mp htrip).1
  have hone : (listOne.mnMap[(1 : uint256)]?.map fun dmn => dmn.pdmnState.pubKeyOperator) =
      some (readKey true) := by
    decide +kernel
  have htwo : (listTwo.mnMap[(1 : uint256)]?.map fun dmn => dmn.pdmnState.pubKeyOperator) =
      some (readKey false) := by
    decide +kernel
  obtain ⟨dmn, hmn, hkey⟩ := Option.map_eq_some_iff.mp hone
  obtain ⟨dmn', hmn', hkey'⟩ := Option.map_eq_some_iff.mp htwo
  have hsame := hkept 1 dmn dmn' hmn hmn'
  rw [hkey, hkey'] at hsame
  exact absurd (hsame (by decide +kernel)) (by decide +kernel)

end Samples

end CDeterministicMNList

end BabaChain.Evo.ByValue
