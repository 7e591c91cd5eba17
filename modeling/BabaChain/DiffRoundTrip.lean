import BabaChain.MasternodeListDiff

/-! A difference of two masternode lists, applied to the first of them. -/
namespace BabaChain.Evo.ByValue
open BLS OrdMap OwnedCounts
open Std (ExtTreeMap ExtTreeSet)

variable {G : Type*} [DecidableEq G] {codec : KeyCodec G} {sha256d : List UInt8 → uint256}

namespace CDeterministicMNList

/-- The new list holds the same masternodes as the old one or other ones, and a
property goes to another masternode only from one that is gone. -/
structure Succeeds (codec : KeyCodec G) (sha256d : List UInt8 → uint256)
    (list newList : CDeterministicMNList G) : Prop where
  same : ∀ (h : uint256) (dmn dmn' : CDeterministicMN G), list.mnMap[h]? = some dmn →
    newList.mnMap[h]? = some dmn' → dmn' = {dmn with pdmnState := dmn'.pdmnState}
  moved : ∀ k h h', k ∈ list.held codec sha256d h → k ∈ newList.held codec sha256d h' → h ≠ h' →
    newList.mnMap[h]? = none

variable (codec) in
/-- A state of the new list as the difference brings it to the old one: a key and
addresses that count as equal stay the old ones. -/
def blend (a b : CDeterministicMNState G) : CDeterministicMNState G :=
  {b with
    pubKeyOperator := if keyEqual codec a.pubKeyOperator b.pubKeyOperator then a.pubKeyOperator
      else b.pubKeyOperator
    netInfo := if a.netInfo.isEqual b.netInfo then a.netInfo else b.netInfo}

variable (codec) in
/-- A masternode of the new list as the difference brings it to the old one. -/
def applied (list : CDeterministicMNList G) (dmn' : CDeterministicMN G) : CDeterministicMN G :=
  match list.getMN dmn'.proTxHash with
  | none => dmn'
  | some dmn => {dmn' with pdmnState := blend codec dmn.pdmnState dmn'.pdmnState}

/-- A masternode of the new list before its state is updated. -/
def beforeUpdate (list : CDeterministicMNList G) (dmn' : CDeterministicMN G) : CDeterministicMN G :=
  (list.getMN dmn'.proTxHash).getD dmn'

variable {list newList : CDeterministicMNList G} {dmn dmn' : CDeterministicMN G}

theorem applied_of_none (h : list.mnMap[dmn'.proTxHash]? = none) : applied codec list dmn' = dmn' := by
  rw [applied, getMN, h]

theorem applied_of_some (h : list.mnMap[dmn'.proTxHash]? = some dmn) :
    applied codec list dmn' = {dmn' with pdmnState := blend codec dmn.pdmnState dmn'.pdmnState} := by
  rw [applied, getMN, h]

theorem applied_proTxHash (list : CDeterministicMNList G) (dmn' : CDeterministicMN G) :
    (applied codec list dmn').proTxHash = dmn'.proTxHash := by
  rw [applied]
  cases list.getMN dmn'.proTxHash with
  | none => rfl
  | some dmn => rfl

/-- An old key in place of an equal new one has the old hash. -/
theorem mem_hashes_applied (hinv : list.Inv codec sha256d) (hreg : dmn'.Registered) {k : uint256}
    (hk : k ∈ (applied codec list dmn').hashes codec sha256d) :
    k ∈ dmn'.hashes codec sha256d ∨ k ∈ list.held codec sha256d dmn'.proTxHash := by
  cases hmn : list.mnMap[dmn'.proTxHash]? with
  | none =>
    rw [applied_of_none hmn] at hk
    exact Or.inl hk
  | some dmn =>
    have hreg' := hinv.registered _ dmn hmn
    obtain ⟨-, -, howner⟩ := (present_uniqueProperties dmn').mp hreg.present
    obtain ⟨-, -, howner'⟩ := (present_uniqueProperties dmn).mp hreg'.present
    have happlied := @hashes_eq _ codec sha256d
      {dmn' with pdmnState := blend codec dmn.pdmnState dmn'.pdmnState} howner
    rw [applied_of_some hmn, happlied] at hk
    rw [held_of_some hmn, hashes_eq howner, hashes_eq howner']
    have hentries : (entryHashes codec sha256d (if dmn.pdmnState.netInfo.isEqual
        dmn'.pdmnState.netInfo then dmn.pdmnState.netInfo else dmn'.pdmnState.netInfo) :
        Multiset uint256) = entryHashes codec sha256d dmn'.pdmnState.netInfo := by
      split_ifs with hequal
      · have hperm := NetInfo.perm_of_isEqual hreg'.coherent hreg.coherent hequal
        exact Multiset.coe_eq_coe.mpr ((hperm.map _).filterMap _)
      · rfl
    simp only [blend, hentries, Multiset.mem_add] at hk
    simp only [Multiset.mem_add]
    cases hkey : keyEqual codec dmn.pdmnState.pubKeyOperator dmn'.pdmnState.pubKeyOperator with
    | true =>
      simp only [hkey, if_true] at hk
      tauto
    | false =>
      simp only [hkey, Bool.false_eq_true, if_false] at hk
      tauto

theorem applied_registered (hinv : list.Inv codec sha256d) (hreg : dmn'.Registered) :
    (applied codec list dmn').Registered := by
  cases hmn : list.mnMap[dmn'.proTxHash]? with
  | none =>
    rw [applied_of_none hmn]
    exact hreg
  | some dmn =>
    have hreg' := hinv.registered _ dmn hmn
    obtain ⟨houtpoint, hentries, howner⟩ := (present_uniqueProperties dmn').mp hreg.present
    obtain ⟨-, hentries', -⟩ := (present_uniqueProperties dmn).mp hreg'.present
    rw [applied_of_some hmn]
    refine ⟨(present_uniqueProperties _).mpr ⟨houtpoint, ?_, howner⟩, ?_, ?_⟩
    · dsimp only [blend]
      split_ifs
      · exact hentries'
      · exact hentries
    · dsimp only [blend]
      split_ifs
      · exact hreg'.coherent
      · exact hreg.coherent
    · dsimp only [blend]
      split_ifs
      · exact hreg'.fits
      · exact hreg.fits

/-- The difference may be applied: an old key that stays is in its scheme. -/
theorem follows_blend {a b : CDeterministicMNState G} (howner : b.keyIDOwner ≠ 0)
    (ha : a.netInfo.Coherent ∧ a.netInfo.getEntries.length+4 < 2^32)
    (hb : b.netInfo.Coherent ∧ b.netInfo.getEntries.length+4 < 2^32) :
    Follows codec sha256d a (blend codec a b) := by
  refine ⟨howner, ?_, ?_, ?_⟩
  · cases hequal : keyEqual codec a.pubKeyOperator b.pubKeyOperator with
    | true =>
      have hkey : (blend codec a b).pubKeyOperator = a.pubKeyOperator := if_pos hequal
      rw [hkey]
      exact fun _ => rfl
    | false =>
      have hkey : (blend codec a b).pubKeyOperator = b.pubKeyOperator :=
        if_neg (by rw [hequal]; exact Bool.false_ne_true)
      rw [hkey]
      intro htrue
      exact absurd (htrue.symm.trans hequal) (by decide)
  · dsimp only [blend]
    split_ifs
    · exact ha.1
    · exact hb.1
  · dsimp only [blend]
    split_ifs
    · exact ha.2
    · exact hb.2

omit [DecidableEq G] in
/-- Without a valid field, nothing is assigned. -/
theorem applyToState_of_empty {d : CDeterministicMNStateDiff G} (h : d.fields = ∅)
    (target : CDeterministicMNState G) : d.applyToState target = target := by
  apply Field.ext_assign target
  intro f
  rw [CDeterministicMNStateDiff.assign_applyToState, h, if_neg (Finset.notMem_empty f)]

omit [DecidableEq G] in
theorem lookup_of_mem {α β : Type*} [BEq α] [LawfulBEq α] {l : List (α × β)} {a : α} {b : β}
    (hnodup : (l.map Prod.fst).Nodup) (hmem : (a, b) ∈ l) : l.lookup a = some b := by
  induction l with
  | nil => exact absurd hmem List.not_mem_nil
  | cons p l ih =>
    obtain ⟨a', b'⟩ := p
    rw [List.map_cons, List.nodup_cons] at hnodup
    rcases List.mem_cons.mp hmem with heq | hmem
    · obtain ⟨rfl, rfl⟩ := Prod.mk.inj heq
      exact List.lookup_cons_self
    · have hne : (a == a') = false := by
        refine beq_false_of_ne fun heq => hnodup.1 ?_
        exact List.mem_map.mpr ⟨(a, b), hmem, heq⟩
      rw [List.lookup_cons, hne]
      exact ih hnodup.2 hmem

/-- Properties of a masternode as the difference brings it are no other masternode's,
neither before its own update nor after it. -/
theorem applied_apart (hinv : list.Inv codec sha256d) (hinv' : newList.Inv codec sha256d)
    (hsucc : Succeeds codec sha256d list newList) {h h' : uint256} {a b : CDeterministicMN G}
    (ha : newList.mnMap[h]? = some a) (hb : newList.mnMap[h']? = some b) (hne : h ≠ h') :
    ∀ k ∈ (applied codec list a).hashes codec sha256d,
      k ∉ (beforeUpdate list b).hashes codec sha256d ∧
        k ∉ (applied codec list b).hashes codec sha256d := by
  have hka := hinv'.key h a ha
  have hkb := hinv'.key h' b hb
  have hheld : ∀ {h : uint256} {dmn : CDeterministicMN G} {k : uint256},
      newList.mnMap[h]? = some dmn → k ∈ (applied codec list dmn).hashes codec sha256d →
      k ∈ newList.held codec sha256d h ∨ k ∈ list.held codec sha256d h := by
    intro h dmn k hmn hk
    rw [held_of_some hmn]
    have hkey := hinv'.key h dmn hmn
    rw [← hkey]
    exact mem_hashes_applied hinv (hinv'.registered h dmn hmn) hk
  -- a property is held by one masternode in either list, and it moves only from one that is gone
  have hapart : ∀ k, k ∈ newList.held codec sha256d h ∨ k ∈ list.held codec sha256d h →
      k ∈ newList.held codec sha256d h' ∨ k ∈ list.held codec sha256d h' → False := by
    rintro k (hk | hk) (hk' | hk')
    · exact hne (hinv'.properties.owner_unique hk hk')
    · have hgone := hsucc.moved k h' h hk' hk (Ne.symm hne)
      rw [hb] at hgone
      exact Option.some_ne_none b hgone
    · have hgone := hsucc.moved k h h' hk hk' hne
      rw [ha] at hgone
      exact Option.some_ne_none a hgone
    · exact hne (hinv.properties.owner_unique hk hk')
  intro k hk
  refine ⟨fun hk' => hapart k (hheld ha hk) ?_, fun hk' => hapart k (hheld ha hk) (hheld hb hk')⟩
  rw [beforeUpdate] at hk'
  cases hmn : list.getMN b.proTxHash with
  | none =>
    rw [hmn, Option.getD_none] at hk'
    rw [held_of_some hb]
    exact Or.inl hk'
  | some dmn =>
    rw [hmn, Option.getD_some] at hk'
    rw [getMN, hkb] at hmn
    rw [held_of_some hmn]
    exact Or.inr hk'

/-- The ids under which states are updated are those of masternodes of both lists. -/
theorem mem_updatedMNs (hinv : list.Inv codec sha256d) (hinv' : newList.Inv codec sha256d)
    {p : UInt64 × CDeterministicMNStateDiff G} :
    p ∈ (list.buildDiff codec newList).updatedMNs ↔ ∃ dmn dmn' : CDeterministicMN G,
      newList.mnMap[dmn'.proTxHash]? = some dmn' ∧ list.mnMap[dmn'.proTxHash]? = some dmn ∧
      (CDeterministicMNStateDiff.ofStates codec dmn.pdmnState dmn'.pdmnState).fields ≠ ∅ ∧
      p = (dmn'.internalId, .ofStates codec dmn.pdmnState dmn'.pdmnState) := by
  rw [(buildDiff_spec hinv hinv').2.1, List.mem_filterMap]
  constructor
  · rintro ⟨dmn', hmem, hchange⟩
    obtain ⟨dmn, hmn, hfields, heq⟩ := stateChange_eq_some.mp hchange
    exact ⟨dmn, dmn', (mem_mns hinv').mp hmem, hmn, hfields, heq⟩
  · rintro ⟨dmn, dmn', hmn', hmn, hfields, heq⟩
    exact ⟨dmn', (mem_mns hinv').mpr hmn', stateChange_eq_some.mpr ⟨dmn, hmn, hfields, heq⟩⟩

theorem updatedMNs_nodup (hinv : list.Inv codec sha256d) (hinv' : newList.Inv codec sha256d) :
    ((list.buildDiff codec newList).updatedMNs.map Prod.fst).Nodup := by
  rw [(buildDiff_spec hinv hinv').2.1]
  have hsub : ((newList.mns.filterMap (stateChange codec list)).map Prod.fst).Sublist
      (newList.mns.map CDeterministicMN.internalId) := by
    generalize newList.mns = dmns
    induction dmns with
    | nil => exact List.Sublist.refl _
    | cons dmn dmns ih =>
      rw [List.filterMap_cons, List.map_cons]
      cases hchange : stateChange codec list dmn with
      | none => exact ih.cons _
      | some p =>
        obtain ⟨_, _, _, heq⟩ := stateChange_eq_some.mp hchange
        rw [List.map_cons, heq]
        exact ih.cons_cons _
  exact (mns_ids_nodup hinv').sublist hsub

/-- A masternode of the new list, after whatever difference is meant for it. -/
theorem updated_beforeUpdate (hinv : list.Inv codec sha256d) (hinv' : newList.Inv codec sha256d)
    (hsucc : Succeeds codec sha256d list newList) {us : List (UInt64 × CDeterministicMNStateDiff G)}
    (hus : us.Perm (list.buildDiff codec newList).updatedMNs) {h : uint256}
    (hmn' : newList.mnMap[h]? = some dmn') :
    updated us (beforeUpdate list dmn') = applied codec list dmn' := by
  have hkey := hinv'.key h dmn' hmn'
  subst hkey
  have hnodup : (us.map Prod.fst).Nodup :=
    (hus.map Prod.fst).nodup_iff.mpr (updatedMNs_nodup hinv hinv')
  -- a difference under the id of this masternode is its own
  have hown : ∀ d, us.lookup dmn'.internalId = some d → ∃ dmn,
      list.mnMap[dmn'.proTxHash]? = some dmn ∧ d = .ofStates codec dmn.pdmnState dmn'.pdmnState := by
    intro d hlookup
    have hmem : (dmn'.internalId, d) ∈ us := by
      obtain ⟨l₁, l₂, heq, -⟩ := List.lookup_eq_some_iff.mp hlookup
      rw [heq]
      exact List.mem_append_right _ List.mem_cons_self
    obtain ⟨dmn, dmn'', hmn'', hmn, -, heq⟩ := (mem_updatedMNs hinv hinv').mp (hus.mem_iff.mp hmem)
    obtain ⟨hid, rfl⟩ := Prod.mk.inj heq
    have hsame := hinv'.id_injective hmn' hmn'' hid
    rw [← hsame, hmn'] at hmn''
    obtain rfl : dmn' = dmn'' := Option.some_inj.mp hmn''
    exact ⟨dmn, hmn, rfl⟩
  cases hmn : list.mnMap[dmn'.proTxHash]? with
  | none =>
    rw [applied_of_none hmn, beforeUpdate, getMN, hmn, Option.getD_none, updated]
    cases hlookup : us.lookup dmn'.internalId with
    | none => rfl
    | some d =>
      obtain ⟨dmn, hsome, -⟩ := hown d hlookup
      rw [hmn] at hsome
      exact absurd hsome (Option.some_ne_none dmn).symm
  | some dmn =>
    have hsame := hsucc.same _ dmn dmn' hmn hmn'
    have hid : dmn'.internalId = dmn.internalId := by rw [hsame]
    have hblend : (CDeterministicMNStateDiff.ofStates codec dmn.pdmnState
        dmn'.pdmnState).applyToState dmn.pdmnState = blend codec dmn.pdmnState dmn'.pdmnState :=
      CDeterministicMNStateDiff.applyToState_ofStates dmn.pdmnState dmn'.pdmnState
    have hresult : applied codec list dmn' =
        {dmn with pdmnState := blend codec dmn.pdmnState dmn'.pdmnState} := by
      rw [applied_of_some hmn]
      have hfields := congrArg (fun d : CDeterministicMN G =>
        {d with pdmnState := blend codec dmn.pdmnState dmn'.pdmnState}) hsame
      exact hfields
    rw [hresult, beforeUpdate, getMN, hmn, Option.getD_some, updated]
    cases hlookup : us.lookup dmn.internalId with
    | none =>
      -- no field differs
      have hempty : (CDeterministicMNStateDiff.ofStates codec dmn.pdmnState
          dmn'.pdmnState).fields = ∅ := by
        by_contra hne
        have hmem := hus.mem_iff.mpr ((mem_updatedMNs hinv hinv').mpr
          ⟨dmn, dmn', hmn', hmn, hne, rfl⟩)
        rw [← hid, lookup_of_mem hnodup hmem] at hlookup
        exact Option.some_ne_none _ hlookup
      rw [← hblend, applyToState_of_empty hempty]
    | some d =>
      rw [← hid] at hlookup
      obtain ⟨dmn'', hmn'', rfl⟩ := hown d hlookup
      rw [hmn] at hmn''
      obtain rfl : dmn = dmn'' := Option.some_inj.mp hmn''
      dsimp only
      rw [hblend]

/-- After the removals, the masternodes of both lists are there, as they were. -/
theorem removal_spec (hinv : list.Inv codec sha256d) (hinv' : newList.Inv codec sha256d)
    (blockHash : uint256) (nHeight : ℤ) :
    ∃ list₁, (list.buildDiff codec newList).removedMns.toList.foldlM (removeById codec sha256d)
        {list with blockHash, nHeight} = .ok list₁ ∧
      list₁.Inv codec sha256d ∧ list₁.blockHash = blockHash ∧ list₁.nHeight = nHeight ∧
      list₁.nTotalRegisteredCount = list.nTotalRegisteredCount ∧
      ∀ (h : uint256) (dmn : CDeterministicMN G), list₁.mnMap[h]? = some dmn ↔
        list.mnMap[h]? = some dmn ∧ newList.mnMap[h]? ≠ none := by
  obtain ⟨-, -, hremoved⟩ := buildDiff_spec hinv hinv'
  have hstart : Inv codec sha256d {list with blockHash, nHeight} := ⟨hinv.1, hinv.2, hinv.3, hinv.4⟩
  have hids : (list.buildDiff codec newList).removedMns.toList.Nodup :=
    ExtTreeSet.distinct_toList.imp Std.ReflCmp.ne_of_cmp_ne_eq
  have hmemRemoved : ∀ id, id ∈ (list.buildDiff codec newList).removedMns.toList ↔
      ∃ dmn : CDeterministicMN G, list.mnMap[dmn.proTxHash]? = some dmn ∧
        newList.mnMap[dmn.proTxHash]? = none ∧ dmn.internalId = id := by
    intro id
    rw [ExtTreeSet.mem_toList, hremoved]
  obtain ⟨list₁, hremove, hinv₁, hblock₁, hheight₁, hcount₁, hget₁⟩ := removeById_all hstart hids
    (fun id hid => by
      obtain ⟨dmn, hmn, -, hid'⟩ := (hmemRemoved id).mp hid
      exact ⟨dmn, hmn, hid'⟩)
  refine ⟨list₁, hremove, hinv₁, hblock₁, hheight₁, hcount₁, fun h dmn => ?_⟩
  rw [hget₁]
  refine and_congr_right fun hmn => ?_
  have hkey := hinv.key h dmn hmn
  subst hkey
  rw [hmemRemoved, not_iff_not]
  constructor
  · rintro ⟨dmn', hmn', hgone, hid⟩
    rw [hinv.id_injective hmn hmn' hid.symm]
    exact hgone
  · exact fun hgone => ⟨dmn, hmn, hgone, rfl⟩

/-- The added ones are those of the new list that the old one lacks. -/
theorem mem_addedMNs (hinv : list.Inv codec sha256d) (hinv' : newList.Inv codec sha256d) :
    dmn ∈ (list.buildDiff codec newList).addedMNs ↔
      newList.mnMap[dmn.proTxHash]? = some dmn ∧ list.mnMap[dmn.proTxHash]? = none := by
  rw [(buildDiff_spec hinv hinv').1.mem_iff, List.mem_filter, mem_mns hinv', hasMN, getMN,
    Bool.not_eq_true', Option.isSome_eq_false_iff, Option.isNone_iff_eq_none]

/-- The difference of two lists, with the updates in any order, brings the first one
to the masternodes of the second. -/
theorem applyDiff_buildDiff (hinv : list.Inv codec sha256d) (hinv' : newList.Inv codec sha256d)
    (hsucc : Succeeds codec sha256d list newList) {us : List (UInt64 × CDeterministicMNStateDiff G)}
    (hus : us.Perm (list.buildDiff codec newList).updatedMNs) (blockHash : uint256) (nHeight : ℤ) :
    ∃ list', list.applyDiff codec sha256d blockHash nHeight
        {list.buildDiff codec newList with updatedMNs := us} = .ok list' ∧
      list'.Inv codec sha256d ∧ list'.blockHash = blockHash ∧ list'.nHeight = nHeight ∧
      list'.nTotalRegisteredCount =
        (list.buildDiff codec newList).addedMNs.foldl bump list.nTotalRegisteredCount ∧
      ∀ h : uint256, list'.mnMap[h]? = newList.mnMap[h]?.map (applied codec list) := by
  obtain ⟨hadded, -, -⟩ := buildDiff_spec hinv hinv'
  -- first, those that are gone
  obtain ⟨list₁, hremove, hinv₁, hblock₁, hheight₁, hcount₁, hstay⟩ :=
    removal_spec hinv hinv' blockHash nHeight
  -- then, those that are new
  have hmemAdded : ∀ dmn, dmn ∈ (list.buildDiff codec newList).addedMNs ↔
      newList.mnMap[dmn.proTxHash]? = some dmn ∧ list.mnMap[dmn.proTxHash]? = none :=
    fun _ => mem_addedMNs hinv hinv'
  have haddable : Addable codec sha256d list₁ (list.buildDiff codec newList).addedMNs := by
    refine ⟨fun dmn hmem => ?_, fun dmn hmem => ⟨?_, ?_⟩, fun dmn hmem h k hk hheld => ?_, ?_⟩
    · exact hinv'.registered _ dmn ((hmemAdded dmn).mp hmem).1
    · rw [← Option.not_isSome_iff_eq_none, Option.isSome_iff_exists]
      rintro ⟨dmn', hmn'⟩
      have hold := ((hstay _ dmn').mp hmn').1
      rw [((hmemAdded dmn).mp hmem).2] at hold
      exact Option.some_ne_none dmn' hold.symm
    · obtain ⟨hmn, hnone⟩ := (hmemAdded dmn).mp hmem
      rw [← Option.not_isSome_iff_eq_none, Option.isSome_iff_exists]
      rintro ⟨h, hid⟩
      obtain ⟨dmn₁, hmn₁, hid₁⟩ := (hinv₁.ids _ h).mp hid
      obtain ⟨hold, hstill⟩ := (hstay h dmn₁).mp hmn₁
      obtain ⟨dmn', hmn'⟩ := Option.ne_none_iff_exists'.mp hstill
      have hsame := hsucc.same h dmn₁ dmn' hold hmn'
      have hid' : dmn'.internalId = dmn.internalId := by
        rw [hsame]
        exact hid₁
      have hkey := hinv'.id_injective hmn' hmn hid'
      rw [hkey, hnone] at hold
      exact Option.some_ne_none dmn₁ hold.symm
    · obtain ⟨hmn, hnone⟩ := (hmemAdded dmn).mp hmem
      cases hmn₁ : list₁.mnMap[h]? with
      | none =>
        rw [held_of_none hmn₁] at hheld
        exact Multiset.notMem_zero k hheld
      | some dmn₁ =>
        obtain ⟨hold, hstill⟩ := (hstay h dmn₁).mp hmn₁
        rw [held_of_some hmn₁] at hheld
        refine hstill (hsucc.moved k h dmn.proTxHash ?_ ?_ fun heq => ?_)
        · rw [held_of_some hold]
          exact hheld
        · rw [held_of_some hmn]
          exact hk
        · rw [heq, hnone] at hold
          exact Option.some_ne_none dmn₁ hold.symm
    · have hnodup : (list.buildDiff codec newList).addedMNs.Nodup :=
        hadded.nodup_iff.mpr ((mns_nodup hinv').filter _)
      apply hnodup.pairwise_of_forall_ne
      intro a ha b hb hne
      have hmna := ((hmemAdded a).mp ha).1
      have hmnb := ((hmemAdded b).mp hb).1
      have hkey : a.proTxHash ≠ b.proTxHash := by
        intro heq
        rw [heq, hmnb] at hmna
        exact hne (Option.some_inj.mp hmna).symm
      refine ⟨hkey, fun hid => hkey (hinv'.id_injective hmna hmnb hid), fun k hk hk' => hkey ?_⟩
      rw [← held_of_some hmna] at hk
      rw [← held_of_some hmnb] at hk'
      exact hinv'.properties.owner_unique hk hk'
  obtain ⟨list₂, hadd, hinv₂, hblock₂, hheight₂, hcount₂, hget₂⟩ := addMN_all hinv₁ haddable
  have hbefore : ∀ h : uint256, list₂.mnMap[h]? = newList.mnMap[h]?.map (beforeUpdate list) := by
    intro h
    apply Option.ext
    intro dmn
    rw [hget₂, hstay, Option.map_eq_some_iff]
    constructor
    · rintro (⟨hold, hstill⟩ | ⟨hmem, rfl⟩)
      · obtain ⟨dmn', hmn'⟩ := Option.ne_none_iff_exists'.mp hstill
        refine ⟨dmn', hmn', ?_⟩
        rw [beforeUpdate, hinv'.key h dmn' hmn', getMN, hold]
        rfl
      · obtain ⟨hmn, hnone⟩ := (hmemAdded dmn).mp hmem
        refine ⟨dmn, hmn, ?_⟩
        rw [beforeUpdate, getMN, hnone]
        rfl
    · rintro ⟨dmn', hmn', rfl⟩
      have hkey := hinv'.key h dmn' hmn'
      subst hkey
      cases hold : list.mnMap[dmn'.proTxHash]? with
      | none =>
        have hsame : beforeUpdate list dmn' = dmn' := by
          rw [beforeUpdate, getMN, hold]
          rfl
        rw [hsame]
        exact Or.inr ⟨(hmemAdded dmn').mpr ⟨hmn', hold⟩, rfl⟩
      | some dmn =>
        have hsame : beforeUpdate list dmn' = dmn := by
          rw [beforeUpdate, getMN, hold]
          rfl
        rw [hsame, hmn']
        exact Or.inl ⟨rfl, Option.some_ne_none dmn'⟩
  -- last, the states that differ
  have hof₂ : ∀ (h : uint256) (dmn : CDeterministicMN G), list₂.mnMap[h]? = some dmn →
      ∃ dmn', newList.mnMap[h]? = some dmn' ∧ beforeUpdate list dmn' = dmn := by
    intro h dmn hmn
    rw [hbefore] at hmn
    exact Option.map_eq_some_iff.mp hmn
  have hupdatable : Updatable codec sha256d list₂ us := by
    refine ⟨(hus.map Prod.fst).nodup_iff.mpr (updatedMNs_nodup hinv hinv'), fun p hp => ?_,
      fun p hp h dmn hmn hid => ?_, fun h dmn hmn => ?_, fun h h' a b ha hb hne k hk => ?_⟩
    · obtain ⟨dmn, dmn', hmn', hmn, -, rfl⟩ := (mem_updatedMNs hinv hinv').mp (hus.mem_iff.mp hp)
      have hsame := hsucc.same _ dmn dmn' hmn hmn'
      have hkey := hinv.key _ dmn hmn
      refine ⟨dmn, ?_, ?_⟩
      · rw [hbefore, hkey, hmn', Option.map_some, beforeUpdate, getMN, hmn]
        rfl
      · rw [hsame]
    · obtain ⟨dmn₀, dmn', hmn', hmn₀, -, rfl⟩ := (mem_updatedMNs hinv hinv').mp (hus.mem_iff.mp hp)
      obtain ⟨dmn'', hmn'', rfl⟩ := hof₂ h dmn hmn
      have hbefore₀ : beforeUpdate list dmn' = dmn₀ := by
        rw [beforeUpdate, getMN, hmn₀]
        rfl
      have hmn₂ : list₂.mnMap[dmn'.proTxHash]? = some dmn₀ := by
        rw [hbefore, hmn', Option.map_some, hbefore₀]
      have hsame := hsucc.same _ dmn₀ dmn' hmn₀ hmn'
      have hid₀ : dmn'.internalId = dmn₀.internalId := by rw [hsame]
      have hkey := hinv₂.id_injective hmn hmn₂ (hid.trans hid₀)
      rw [hkey, hmn₂] at hmn
      rw [← Option.some_inj.mp hmn]
      have hreg := hinv.registered _ dmn₀ hmn₀
      have hreg' := hinv'.registered _ dmn' hmn'
      dsimp only
      rw [CDeterministicMNStateDiff.applyToState_ofStates]
      exact follows_blend ((present_uniqueProperties dmn').mp hreg'.present).2.2
        ⟨hreg.coherent, hreg.fits⟩ ⟨hreg'.coherent, hreg'.fits⟩
    · obtain ⟨dmn', hmn', rfl⟩ := hof₂ h dmn hmn
      rw [updated_beforeUpdate hinv hinv' hsucc hus hmn']
      exact (applied_registered hinv (hinv'.registered h dmn' hmn')).present
    · obtain ⟨a', ha', rfl⟩ := hof₂ h a ha
      obtain ⟨b', hb', rfl⟩ := hof₂ h' b hb
      rw [updated_beforeUpdate hinv hinv' hsucc hus ha'] at hk
      rw [updated_beforeUpdate hinv hinv' hsucc hus hb']
      exact applied_apart hinv hinv' hsucc ha' hb' hne k hk
  obtain ⟨list', hupdate, hinv₃, hblock₃, hheight₃, hcount₃, -, hget₃⟩ :=
    updateById_all hinv₂ hupdatable
  refine ⟨list', ?_, hinv₃, ?_, ?_, ?_, fun h => ?_⟩
  · rw [applyDiff, hremove]
    have hstep : ∀ (l : CDeterministicMNList G) (f : CDeterministicMNList G →
        Except String (CDeterministicMNList G)), (Except.ok l >>= f) = f l := fun l f => rfl
    rw [hstep, hadd, hstep]
    exact hupdate
  · rw [hblock₃, hblock₂, hblock₁]
  · rw [hheight₃, hheight₂, hheight₁]
  · rw [hcount₃, hcount₂, hcount₁]
  · rw [hget₃, hbefore]
    cases hmn' : newList.mnMap[h]? with
    | none => rfl
    | some dmn' =>
      simp only [Option.map_some, updated_beforeUpdate hinv hinv' hsucc hus hmn']

end CDeterministicMNList

end BabaChain.Evo.ByValue
