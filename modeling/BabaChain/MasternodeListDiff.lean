import BabaChain.StateDiff
import BabaChain.ValueListInvariant

/-! Differences of masternode lists. -/
namespace BabaChain.Evo.ByValue
open BLS OrdMap OwnedCounts
open Std (ExtTreeMap ExtTreeSet)

variable {G : Type*}

/-- `updatedMNs` is walked in the order of an unordered map: any order. -/
structure CDeterministicMNListDiff (G : Type*) where
  /-- Memory only. -/
  nHeight : ℤ := -1
  addedMNs : List (CDeterministicMN G) := []
  updatedMNs : List (UInt64 × CDeterministicMNStateDiff G) := []
  removedMns : ExtTreeSet UInt64 := ∅

def CDeterministicMNListDiff.hasChanges (diff : CDeterministicMNListDiff G) : Bool :=
  !diff.addedMNs.isEmpty || !diff.updatedMNs.isEmpty || !diff.removedMns.isEmpty

variable [DecidableEq G] (codec : KeyCodec G) (sha256d : List UInt8 → uint256)

namespace CDeterministicMNList

/-- What `BuildDiff` adds for one masternode of the new list. -/
def visitTo (list : CDeterministicMNList G) (diff : CDeterministicMNListDiff G)
    (toPtr : CDeterministicMN G) : CDeterministicMNListDiff G :=
  match list.getMN toPtr.proTxHash with
  | none => {diff with addedMNs := diff.addedMNs++[toPtr]}
  | some fromPtr =>
    let stateDiff := CDeterministicMNStateDiff.ofStates codec fromPtr.pdmnState toPtr.pdmnState
    -- `emplace` keeps the entry that is there
    if stateDiff.fields = ∅ ∨ toPtr.internalId ∈ diff.updatedMNs.map Prod.fst then diff
    else {diff with updatedMNs := diff.updatedMNs++[(toPtr.internalId, stateDiff)]}

/-- The loop over the old list ends once the sizes agree. -/
def collectRemoved (list newList : CDeterministicMNList G) (added : ℕ) :
    List (CDeterministicMN G) → ExtTreeSet UInt64 → ExtTreeSet UInt64
  | [], removedMns => removedMns
  | fromPtr :: rest, removedMns =>
    if newList.hasMN fromPtr.proTxHash then collectRemoved list newList added rest removedMns
    else
      let removedMns := removedMns.insert fromPtr.internalId
      if list.mnMap.size+added-removedMns.size = newList.mnMap.size then removedMns
      else collectRemoved list newList added rest removedMns

def buildDiff (list newList : CDeterministicMNList G) : CDeterministicMNListDiff G :=
  let diffRet := newList.mns.foldl (visitTo codec list) {}
  let removedMns :=
    if list.mnMap.size+diffRet.addedMNs.length ≠ newList.mnMap.size then
      collectRemoved list newList diffRet.addedMNs.length list.mns ∅
    else ∅
  {diffRet with
    removedMns
    addedMNs := diffRet.addedMNs.mergeSort fun a b => a.internalId ≤ b.internalId}

/-- The third overload of `UpdateMN`. -/
def updateMNByDiff (oldDmn : CDeterministicMN G) (stateDiff : CDeterministicMNStateDiff G)
    (list : CDeterministicMNList G) : Except String (CDeterministicMNList G) :=
  list.updateMN codec sha256d oldDmn (stateDiff.applyToState oldDmn.pdmnState)

def removeById (list : CDeterministicMNList G) (id : UInt64) :
    Except String (CDeterministicMNList G) :=
  match list.getMNByInternalId id with
  | none => .error "can't find a removed masternode"
  | some dmn => list.removeMN codec sha256d dmn.proTxHash

def updateById (list : CDeterministicMNList G) (p : UInt64 × CDeterministicMNStateDiff G) :
    Except String (CDeterministicMNList G) :=
  match list.getMNByInternalId p.1 with
  | none => .error "can't find an updated masternode"
  | some dmn => list.updateMNByDiff codec sha256d dmn p.2

/-- `ApplyDiff` at a block with the given hash and height. -/
def applyDiff (blockHash : uint256) (nHeight : ℤ) (diff : CDeterministicMNListDiff G)
    (list : CDeterministicMNList G) : Except String (CDeterministicMNList G) :=
  diff.removedMns.toList.foldlM (removeById codec sha256d) {list with blockHash, nHeight} >>=
    diff.addedMNs.foldlM (fun list dmn => list.addMN codec sha256d dmn true) >>=
    diff.updatedMNs.foldlM (updateById codec sha256d)

variable {codec sha256d} {list : CDeterministicMNList G}

omit [DecidableEq G] in
theorem getMNByInternalId_eq (hinv : list.Inv codec sha256d) {id : UInt64} {dmn : CDeterministicMN G} :
    list.getMNByInternalId id = some dmn ↔
      list.mnMap[dmn.proTxHash]? = some dmn ∧ dmn.internalId = id := by
  rw [getMNByInternalId, Option.bind_eq_some_iff]
  constructor
  · rintro ⟨h, hid, hmn⟩
    obtain ⟨dmn', hmn', hid'⟩ := (hinv.ids id h).mp hid
    rw [getMN, hmn'] at hmn
    obtain rfl : dmn' = dmn := Option.some_inj.mp hmn
    rw [hinv.key h dmn' hmn']
    exact ⟨hmn', hid'⟩
  · rintro ⟨hmn, hid⟩
    exact ⟨dmn.proTxHash, (hinv.ids id _).mpr ⟨dmn, hmn, hid⟩, hmn⟩

omit [DecidableEq G] in
/-- Masternodes of the list are removed by their ids, each once. -/
theorem removeById_all {ids : List UInt64} (hinv : list.Inv codec sha256d) (hids : ids.Nodup)
    (hmem : ∀ id ∈ ids, ∃ dmn : CDeterministicMN G, list.mnMap[dmn.proTxHash]? = some dmn ∧ dmn.internalId = id) :
    ∃ list', ids.foldlM (removeById codec sha256d) list = .ok list' ∧ list'.Inv codec sha256d ∧
      list'.blockHash = list.blockHash ∧ list'.nHeight = list.nHeight ∧
      list'.nTotalRegisteredCount = list.nTotalRegisteredCount ∧
      ∀ (h : uint256) (dmn : CDeterministicMN G),
        list'.mnMap[h]? = some dmn ↔ list.mnMap[h]? = some dmn ∧ dmn.internalId ∉ ids := by
  induction ids generalizing list with
  | nil =>
    refine ⟨list, rfl, hinv, rfl, rfl, rfl, fun h dmn => ?_⟩
    exact (and_iff_left List.not_mem_nil).symm
  | cons id ids ih =>
    obtain ⟨hnot, hnodup⟩ := List.nodup_cons.mp hids
    obtain ⟨⟨dmn, hmn, hid⟩, hrest⟩ := List.forall_mem_cons.mp hmem
    obtain ⟨list₁, hremove, heq, hinv₁⟩ := removeMN_spec hinv hmn
    have hmap : list₁.mnMap = list.mnMap.erase dmn.proTxHash := by rw [heq]
    have hmem₁ : ∀ id ∈ ids, ∃ dmn : CDeterministicMN G,
        list₁.mnMap[dmn.proTxHash]? = some dmn ∧ dmn.internalId = id := by
      intro id' hid'
      obtain ⟨dmn', hmn', hid''⟩ := hrest id' hid'
      refine ⟨dmn', ?_, hid''⟩
      rw [hmap, getElem?_erase, if_neg, hmn']
      intro hsame
      rw [← hsame, hmn] at hmn'
      rw [← Option.some_inj.mp hmn', hid] at hid''
      exact hnot (hid'' ▸ hid')
    obtain ⟨list', hfold, hinv', hblock, hheight, hcount, hget⟩ := ih hinv₁ hnodup hmem₁
    refine ⟨list', ?_, hinv', ?_, ?_, ?_, fun h dmn' => ?_⟩
    · rw [List.foldlM_cons, removeById, (getMNByInternalId_eq hinv).mpr ⟨hmn, hid⟩]
      dsimp only
      rw [hremove]
      exact hfold
    · rw [hblock, heq]
    · rw [hheight, heq]
    · rw [hcount, heq]
    · rw [hget, hmap, getElem?_erase, List.mem_cons, not_or]
      by_cases hsame : dmn.proTxHash = h
      · subst hsame
        rw [if_pos rfl, hmn]
        constructor
        · rintro ⟨hnone, -⟩
          exact absurd hnone (Option.some_ne_none dmn').symm
        · rintro ⟨hmn', hne, -⟩
          rw [← Option.some_inj.mp hmn'] at hne
          exact absurd hid hne
      · rw [if_neg hsame]
        constructor
        · rintro ⟨hmn', hnotin⟩
          refine ⟨hmn', fun hid' => ?_, hnotin⟩
          have hk := hinv.key h dmn' hmn'
          exact hsame (hinv.id_injective hmn (hk ▸ hmn' : list.mnMap[dmn'.proTxHash]? = some dmn')
            (hid.trans hid'.symm) |>.trans hk)
        · rintro ⟨hmn', -, hnotin⟩
          exact ⟨hmn', hnotin⟩

/-- How adding a masternode bumps the count of registrations. -/
def bump (count : UInt32) (dmn : CDeterministicMN G) : UInt32 :=
  (max (dmn.internalId+1) count.toUInt64).toUInt32

/-- New masternodes that share nothing with each other or with those of the list. -/
structure Addable (codec : KeyCodec G) (sha256d : List UInt8 → uint256)
    (list : CDeterministicMNList G) (dmns : List (CDeterministicMN G)) : Prop where
  registered : ∀ dmn ∈ dmns, dmn.Registered
  new : ∀ dmn ∈ dmns, list.mnMap[dmn.proTxHash]? = none ∧ list.mnInternalIdMap[dmn.internalId]? = none
  free : ∀ dmn ∈ dmns, ∀ h, ∀ k ∈ dmn.hashes codec sha256d, k ∉ list.held codec sha256d h
  apart : dmns.Pairwise fun a b => a.proTxHash ≠ b.proTxHash ∧ a.internalId ≠ b.internalId ∧
    ∀ k ∈ a.hashes codec sha256d, k ∉ b.hashes codec sha256d

omit [DecidableEq G] in
theorem addMN_all {dmns : List (CDeterministicMN G)} (hinv : list.Inv codec sha256d)
    (hadd : Addable codec sha256d list dmns) :
    ∃ list', dmns.foldlM (fun list dmn => list.addMN codec sha256d dmn true) list = .ok list' ∧
      list'.Inv codec sha256d ∧ list'.blockHash = list.blockHash ∧ list'.nHeight = list.nHeight ∧
      list'.nTotalRegisteredCount = dmns.foldl bump list.nTotalRegisteredCount ∧
      ∀ (h : uint256) (dmn : CDeterministicMN G), list'.mnMap[h]? = some dmn ↔
        list.mnMap[h]? = some dmn ∨ dmn ∈ dmns ∧ dmn.proTxHash = h := by
  induction dmns generalizing list with
  | nil =>
    refine ⟨list, rfl, hinv, rfl, rfl, rfl, fun h dmn => ?_⟩
    exact (or_iff_left fun hmem => absurd hmem.1 List.not_mem_nil).symm
  | cons d dmns ih =>
    obtain ⟨hreg, hregs⟩ := List.forall_mem_cons.mp hadd.registered
    obtain ⟨hnew, hnews⟩ := List.forall_mem_cons.mp hadd.new
    obtain ⟨hfree, hfrees⟩ := List.forall_mem_cons.mp hadd.free
    obtain ⟨hapart, haparts⟩ := List.pairwise_cons.mp hadd.apart
    have hadmits : list.Admits codec sha256d d := ⟨hreg.present, fun h _ => hfree h⟩
    rcases addMN_spec hinv true hreg.coherent hreg.fits with
      ⟨-, list₁, hok, heq, hcount, hinv₁⟩ | ⟨hnot, -⟩
    · have hmap : list₁.mnMap = list.mnMap.insert d.proTxHash d := by rw [heq]
      have hids : list₁.mnInternalIdMap = list.mnInternalIdMap.insert d.internalId d.proTxHash := by
        rw [heq]
      have hadd₁ : Addable codec sha256d list₁ dmns := by
        refine ⟨hregs, fun dmn hmem => ⟨?_, ?_⟩, fun dmn hmem h k hk hheld => ?_, haparts⟩
        · rw [hmap, getElem?_insert, if_neg (hapart dmn hmem).1]
          exact (hnews dmn hmem).1
        · rw [hids, getElem?_insert, if_neg (hapart dmn hmem).2.1]
          exact (hnews dmn hmem).2
        · rw [held, hmap, getElem?_insert] at hheld
          split_ifs at hheld
          · exact (hapart dmn hmem).2.2 k hheld hk
          · exact hfrees dmn hmem h k hk hheld
      obtain ⟨list', hfold, hinv', hblock, hheight, hcounts, hget⟩ := ih hinv₁ hadd₁
      refine ⟨list', ?_, hinv', ?_, ?_, ?_, fun h dmn => ?_⟩
      · rw [List.foldlM_cons, hok]
        exact hfold
      · rw [hblock, heq]
      · rw [hheight, heq]
      · rw [hcounts, hcount, if_pos rfl]
        rfl
      · rw [hget, hmap, getElem?_insert, List.mem_cons]
        by_cases hsame : d.proTxHash = h
        · subst hsame
          rw [if_pos rfl, hnew.1]
          constructor
          · rintro (heq | ⟨hmem, hkey⟩)
            · exact Or.inr ⟨Or.inl (Option.some_inj.mp heq).symm, by rw [← Option.some_inj.mp heq]⟩
            · exact absurd hkey.symm (hapart dmn hmem).1
          · rintro (hnone | ⟨rfl | hmem, hkey⟩)
            · exact absurd hnone (Option.some_ne_none dmn).symm
            · exact Or.inl rfl
            · exact Or.inr ⟨hmem, hkey⟩
        · rw [if_neg hsame]
          constructor
          · rintro (hold | ⟨hmem, hkey⟩)
            · exact Or.inl hold
            · exact Or.inr ⟨Or.inr hmem, hkey⟩
          · rintro (hold | ⟨rfl | hmem, hkey⟩)
            · exact Or.inl hold
            · exact absurd hkey hsame
            · exact Or.inr ⟨hmem, hkey⟩
    · exact absurd ⟨hnew.1, hnew.2, hadmits⟩ hnot

/-- A masternode after the state differences that are meant for it. -/
def updated (us : List (UInt64 × CDeterministicMNStateDiff G)) (dmn : CDeterministicMN G) :
    CDeterministicMN G :=
  match us.lookup dmn.internalId with
  | none => dmn
  | some d => {dmn with pdmnState := d.applyToState dmn.pdmnState}

omit [DecidableEq G] in
theorem updated_proTxHash (us : List (UInt64 × CDeterministicMNStateDiff G))
    (dmn : CDeterministicMN G) : (updated us dmn).proTxHash = dmn.proTxHash := by
  rw [updated]
  cases us.lookup dmn.internalId with
  | none => rfl
  | some d => rfl

omit [DecidableEq G] in
theorem updated_internalId (us : List (UInt64 × CDeterministicMNStateDiff G))
    (dmn : CDeterministicMN G) : (updated us dmn).internalId = dmn.internalId := by
  rw [updated]
  cases us.lookup dmn.internalId with
  | none => rfl
  | some d => rfl

omit [DecidableEq G] in
theorem updated_cons {p : UInt64 × CDeterministicMNStateDiff G}
    {us : List (UInt64 × CDeterministicMNStateDiff G)} (hp : p.1 ∉ us.map Prod.fst)
    (dmn : CDeterministicMN G) : updated (p :: us) dmn = updated us (updated [p] dmn) := by
  obtain ⟨id, d⟩ := p
  by_cases hid : dmn.internalId = id
  · have hone : updated [(id, d)] dmn = {dmn with pdmnState := d.applyToState dmn.pdmnState} := by
      rw [updated, hid, List.lookup_cons_self]
    have hlookup : us.lookup id = none := List.lookup_eq_none_iff.mpr fun q hq => by
      refine bne_iff_ne.mpr fun heq => hp ?_
      exact List.mem_map.mpr ⟨q, hq, heq.symm⟩
    rw [hone, updated, updated, hid, List.lookup_cons_self]
    dsimp only
    rw [hlookup]
  · have hne : (dmn.internalId == id) = false := beq_false_of_ne hid
    have hone : updated [(id, d)] dmn = dmn := by
      rw [updated, List.lookup_cons, hne]
      rfl
    rw [hone, updated, updated, List.lookup_cons, hne]

/-- Updates of masternodes of the list, none of which takes what another
masternode has or gets. -/
structure Updatable (codec : KeyCodec G) (sha256d : List UInt8 → uint256)
    (list : CDeterministicMNList G) (us : List (UInt64 × CDeterministicMNStateDiff G)) : Prop where
  nodup : (us.map Prod.fst).Nodup
  known : ∀ p ∈ us, ∃ dmn : CDeterministicMN G,
    list.mnMap[dmn.proTxHash]? = some dmn ∧ dmn.internalId = p.1
  follows : ∀ p ∈ us, ∀ (h : uint256) (dmn : CDeterministicMN G), list.mnMap[h]? = some dmn →
    dmn.internalId = p.1 → Follows codec sha256d dmn.pdmnState (p.2.applyToState dmn.pdmnState)
  present : ∀ (h : uint256) (dmn : CDeterministicMN G), list.mnMap[h]? = some dmn →
    (updated us dmn).uniqueProperties.all present = true
  free : ∀ (h h' : uint256) (dmn dmn' : CDeterministicMN G), list.mnMap[h]? = some dmn →
    list.mnMap[h']? = some dmn' → h ≠ h' → ∀ k ∈ (updated us dmn).hashes codec sha256d,
      k ∉ dmn'.hashes codec sha256d ∧ k ∉ (updated us dmn').hashes codec sha256d

theorem updateById_all {us : List (UInt64 × CDeterministicMNStateDiff G)}
    (hinv : list.Inv codec sha256d) (hus : Updatable codec sha256d list us) :
    ∃ list', us.foldlM (updateById codec sha256d) list = .ok list' ∧ list'.Inv codec sha256d ∧
      list'.blockHash = list.blockHash ∧ list'.nHeight = list.nHeight ∧
      list'.nTotalRegisteredCount = list.nTotalRegisteredCount ∧
      list'.mnInternalIdMap = list.mnInternalIdMap ∧
      ∀ h : uint256, list'.mnMap[h]? = list.mnMap[h]?.map (updated us) := by
  induction us generalizing list with
  | nil =>
    refine ⟨list, rfl, hinv, rfl, rfl, rfl, rfl, fun h => ?_⟩
    exact Option.map_id'.symm
  | cons p us ih =>
    obtain ⟨hp, hnodup⟩ := List.nodup_cons.mp hus.nodup
    obtain ⟨⟨dmn, hmn, hid⟩, hknown⟩ := List.forall_mem_cons.mp hus.known
    have hfollows := hus.follows p List.mem_cons_self dmn.proTxHash dmn hmn hid
    have hone : updated [p] dmn = {dmn with pdmnState := p.2.applyToState dmn.pdmnState} := by
      rw [updated, hid, List.lookup_cons_self]
    have hlast : ∀ dmn' : CDeterministicMN G, dmn'.internalId = p.1 →
        updated (p :: us) dmn' = updated [p] dmn' := by
      intro dmn' hid'
      rw [updated, updated, hid', List.lookup_cons_self, List.lookup_cons_self]
    have hother : ∀ dmn' : CDeterministicMN G, dmn'.internalId ≠ p.1 → updated [p] dmn' = dmn' := by
      intro dmn' hid'
      rw [updated, List.lookup_cons, beq_false_of_ne hid']
      rfl
    have hadmits : list.Admits codec sha256d (updated [p] dmn) := by
      refine ⟨?_, fun h hh k hk hheld => ?_⟩
      · rw [← hlast dmn hid]
        exact hus.present dmn.proTxHash dmn hmn
      · cases hmn' : list.mnMap[h]? with
        | none =>
          rw [held_of_none hmn'] at hheld
          exact Multiset.notMem_zero k hheld
        | some dmn' =>
          rw [held_of_some hmn'] at hheld
          rw [updated_proTxHash] at hh
          rw [← hlast dmn hid] at hk
          exact (hus.free dmn.proTxHash h dmn dmn' hmn hmn' (Ne.symm hh) k hk).1 hheld
    rw [hone] at hadmits
    rcases updateMN_spec hinv hmn hfollows with ⟨-, list₁, hok, heq, hinv₁⟩ | ⟨hnot, -⟩
    · -- the updated list has each masternode after the first difference
      have hget₁ : ∀ h : uint256, list₁.mnMap[h]? = list.mnMap[h]?.map (updated [p]) := by
        intro h
        have hmap : list₁.mnMap = list.mnMap.insert dmn.proTxHash (updated [p] dmn) := by
          rw [heq, hone]
        rw [hmap, getElem?_insert]
        by_cases hsame : dmn.proTxHash = h
        · subst hsame
          rw [if_pos rfl, hmn, Option.map_some]
        · rw [if_neg hsame]
          cases hmn' : list.mnMap[h]? with
          | none => rfl
          | some dmn' =>
            rw [Option.map_some, hother]
            intro hid'
            exact hsame (hinv.id_injective hmn hmn' (hid.trans hid'.symm))
      have hsome : ∀ (h : uint256) (dmn₁ : CDeterministicMN G), list₁.mnMap[h]? = some dmn₁ →
          ∃ dmn, list.mnMap[h]? = some dmn ∧ updated [p] dmn = dmn₁ := by
        intro h dmn₁ hmn₁
        rw [hget₁] at hmn₁
        exact Option.map_eq_some_iff.mp hmn₁
      have hus₁ : Updatable codec sha256d list₁ us := by
        refine ⟨hnodup, fun q hq => ?_, fun q hq h dmn₁ hmn₁ hid₁ => ?_, fun h dmn₁ hmn₁ => ?_,
          fun h h' dmn₁ dmn₁' hmn₁ hmn₁' hne k hk => ?_⟩
        · obtain ⟨dmn', hmn', hid'⟩ := hknown q hq
          refine ⟨updated [p] dmn', ?_, (updated_internalId [p] dmn').trans hid'⟩
          rw [hget₁, updated_proTxHash, hmn', Option.map_some]
        · obtain ⟨dmn', hmn', rfl⟩ := hsome h dmn₁ hmn₁
          rw [updated_internalId] at hid₁
          have hne : dmn'.internalId ≠ p.1 := by
            intro hsame
            exact hp (hsame ▸ hid₁ ▸ List.mem_map_of_mem hq)
          rw [hother dmn' hne]
          exact hus.follows q (List.mem_cons_of_mem p hq) h dmn' hmn' hid₁
        · obtain ⟨dmn', hmn', rfl⟩ := hsome h dmn₁ hmn₁
          rw [← updated_cons hp]
          exact hus.present h dmn' hmn'
        · obtain ⟨dmn', hmn', rfl⟩ := hsome h dmn₁ hmn₁
          obtain ⟨dmn'', hmn'', rfl⟩ := hsome h' dmn₁' hmn₁'
          rw [← updated_cons hp] at hk ⊢
          obtain ⟨hold, hnew⟩ := hus.free h h' dmn' dmn'' hmn' hmn'' hne k hk
          refine ⟨?_, hnew⟩
          by_cases hid'' : dmn''.internalId = p.1
          · rw [← hlast dmn'' hid'']
            exact hnew
          · rw [hother dmn'' hid'']
            exact hold
      obtain ⟨list', hfold, hinv', hblock, hheight, hcount, hids, hget⟩ := ih hinv₁ hus₁
      refine ⟨list', ?_, hinv', ?_, ?_, ?_, ?_, fun h => ?_⟩
      · rw [List.foldlM_cons, updateById, (getMNByInternalId_eq hinv).mpr ⟨hmn, hid⟩]
        dsimp only
        rw [updateMNByDiff, hok]
        exact hfold
      · rw [hblock, heq]
      · rw [hheight, heq]
      · rw [hcount, heq]
      · rw [hids, heq]
      · rw [hget, hget₁, Option.map_map]
        exact congrArg (Option.map · list.mnMap[h]?) (funext fun dmn => (updated_cons hp dmn).symm)
    · exact absurd hadmits hnot

section Building
variable {newList : CDeterministicMNList G}

omit [DecidableEq G] in
theorem mem_mns (hinv : list.Inv codec sha256d) {dmn : CDeterministicMN G} :
    dmn ∈ list.mns ↔ list.mnMap[dmn.proTxHash]? = some dmn := by
  rw [mns, List.mem_map]
  constructor
  · rintro ⟨⟨h, dmn'⟩, hmem, rfl⟩
    have hmn := mem_toList hmem
    rw [hinv.key h dmn' hmn]
    exact hmn
  · intro hmn
    exact ⟨(dmn.proTxHash, dmn), ExtTreeMap.mem_toList_iff_getElem?_eq_some.mpr hmn, rfl⟩

omit [DecidableEq G] in
theorem mns_hashes (hinv : list.Inv codec sha256d) :
    list.mns.map CDeterministicMN.proTxHash = list.mnMap.keys := by
  rw [← ExtTreeMap.map_fst_toList_eq_keys, mns, List.map_map]
  apply List.map_congr_left
  intro p hp
  exact hinv.key p.1 p.2 (mem_toList hp)

omit [DecidableEq G] in
theorem mns_nodup (hinv : list.Inv codec sha256d) : list.mns.Nodup := by
  have hkeys : (list.mns.map CDeterministicMN.proTxHash).Nodup := by
    rw [mns_hashes hinv]
    exact ExtTreeMap.nodup_keys
  exact hkeys.of_map _

omit [DecidableEq G] in
theorem mns_ids_nodup (hinv : list.Inv codec sha256d) :
    (list.mns.map CDeterministicMN.internalId).Nodup := by
  apply (mns_nodup hinv).map_on
  intro a ha b hb hid
  rw [mem_mns hinv] at ha hb
  have hkey := hinv.id_injective ha hb hid
  rw [hkey, hb] at ha
  exact (Option.some_inj.mp ha).symm

omit [DecidableEq G] in
theorem mns_length (list : CDeterministicMNList G) : list.mns.length = list.mnMap.size := by
  rw [mns, List.length_map, ExtTreeMap.length_toList]

variable (codec) in
/-- The state difference that `BuildDiff` records for a masternode of the new list. -/
def stateChange (list : CDeterministicMNList G) (toPtr : CDeterministicMN G) :
    Option (UInt64 × CDeterministicMNStateDiff G) :=
  (list.getMN toPtr.proTxHash).bind fun fromPtr =>
    let stateDiff := CDeterministicMNStateDiff.ofStates codec fromPtr.pdmnState toPtr.pdmnState
    if stateDiff.fields = ∅ then none else some (toPtr.internalId, stateDiff)

theorem stateChange_eq_some {toPtr : CDeterministicMN G} {p : UInt64 × CDeterministicMNStateDiff G} :
    stateChange codec list toPtr = some p ↔ ∃ fromPtr, list.mnMap[toPtr.proTxHash]? = some fromPtr ∧
      (CDeterministicMNStateDiff.ofStates codec fromPtr.pdmnState toPtr.pdmnState).fields ≠ ∅ ∧
      p = (toPtr.internalId,
        CDeterministicMNStateDiff.ofStates codec fromPtr.pdmnState toPtr.pdmnState) := by
  rw [stateChange, Option.bind_eq_some_iff]
  refine exists_congr fun fromPtr => and_congr_right fun _ => ?_
  dsimp only
  split_ifs with hempty
  · simp only [hempty, ne_eq, not_true_eq_false, false_and]
  · simp only [hempty, ne_eq, not_false_eq_true, true_and, Option.some_inj, eq_comm]

theorem foldl_visitTo {dmns : List (CDeterministicMN G)} {diff : CDeterministicMNListDiff G}
    (hids : (dmns.map CDeterministicMN.internalId).Nodup)
    (hnew : ∀ dmn ∈ dmns, dmn.internalId ∉ diff.updatedMNs.map Prod.fst) :
    dmns.foldl (visitTo codec list) diff = {diff with
      addedMNs := diff.addedMNs++dmns.filter fun dmn => !list.hasMN dmn.proTxHash
      updatedMNs := diff.updatedMNs++dmns.filterMap (stateChange codec list)} := by
  induction dmns generalizing diff with
  | nil =>
    rw [List.filter_nil, List.filterMap_nil, List.append_nil, List.append_nil]
    rfl
  | cons dmn dmns ih =>
    rw [List.map_cons, List.nodup_cons] at hids
    obtain ⟨hhead, htail⟩ := List.forall_mem_cons.mp hnew
    rw [List.foldl_cons, List.filter_cons, List.filterMap_cons]
    cases hmn : list.getMN dmn.proTxHash with
    | none =>
      have hvisit : visitTo codec list diff dmn = {diff with addedMNs := diff.addedMNs++[dmn]} := by
        rw [visitTo, hmn]
      have hhas : list.hasMN dmn.proTxHash = false := by rw [hasMN, hmn]; rfl
      have hchange : stateChange codec list dmn = none := by rw [stateChange, hmn]; rfl
      rw [hvisit, @ih {diff with addedMNs := diff.addedMNs++[dmn]} hids.2 htail, hhas, hchange, Bool.not_false, if_pos rfl, List.append_assoc]
      rfl
    | some fromPtr =>
      have hhas : list.hasMN dmn.proTxHash = true := by rw [hasMN, hmn]; rfl
      rw [hhas, Bool.not_true, if_neg Bool.false_ne_true]
      by_cases hempty : (CDeterministicMNStateDiff.ofStates codec fromPtr.pdmnState
          dmn.pdmnState).fields = ∅
      · have hvisit : visitTo codec list diff dmn = diff := by
          rw [visitTo, hmn]
          exact if_pos (Or.inl hempty)
        have hchange : stateChange codec list dmn = none := by
          rw [stateChange, hmn, Option.bind_some]
          exact if_pos hempty
        rw [hvisit, hchange, ih hids.2 htail]
      · have hvisit : visitTo codec list diff dmn = {diff with
            updatedMNs := diff.updatedMNs++[(dmn.internalId,
              CDeterministicMNStateDiff.ofStates codec fromPtr.pdmnState dmn.pdmnState)]} := by
          rw [visitTo, hmn]
          exact if_neg (not_or.mpr ⟨hempty, hhead⟩)
        have hchange : stateChange codec list dmn = some (dmn.internalId,
            CDeterministicMNStateDiff.ofStates codec fromPtr.pdmnState dmn.pdmnState) := by
          rw [stateChange, hmn, Option.bind_some]
          exact if_neg hempty
        rw [hvisit, hchange, ih hids.2 (fun dmn' hmem => ?_), List.append_assoc]
        · rfl
        · rw [List.map_append, List.mem_append, not_or]
          refine ⟨htail dmn' hmem, fun hsame => ?_⟩
          have heq := List.mem_singleton.mp hsame
          exact hids.1 (List.mem_map.mpr ⟨dmn', hmem, heq⟩)

omit [DecidableEq G] in
/-- What the two lists do not share accounts for their sizes. -/
theorem size_add_length (hinv : list.Inv codec sha256d) (hinv' : newList.Inv codec sha256d) :
    list.mnMap.size+(newList.mns.filter fun dmn => !list.hasMN dmn.proTxHash).length =
      newList.mnMap.size+(list.mns.filter fun dmn => !newList.hasMN dmn.proTxHash).length := by
  have hsplit : ∀ a b : CDeterministicMNList G,
      (a.mns.filter fun dmn => b.hasMN dmn.proTxHash).length+
        (a.mns.filter fun dmn => !b.hasMN dmn.proTxHash).length = a.mnMap.size := by
    intro a b
    rw [← mns_length]
    exact (List.length_eq_length_filter_add fun dmn : CDeterministicMN G => b.hasMN dmn.proTxHash).symm
  -- the masternodes of both lists have the same hashes in either
  have hboth : ∀ {a b : CDeterministicMNList G}, a.Inv codec sha256d → b.Inv codec sha256d →
      (a.mns.filter fun dmn => b.hasMN dmn.proTxHash).length ≤
        (b.mns.filter fun dmn => a.hasMN dmn.proTxHash).length := by
    intro a b ha hb
    have hnodup : ((a.mns.filter fun dmn => b.hasMN dmn.proTxHash).map
        CDeterministicMN.proTxHash).Nodup := by
      have hkeys : (a.mns.map CDeterministicMN.proTxHash).Nodup := by
        rw [mns_hashes ha]
        exact ExtTreeMap.nodup_keys
      exact hkeys.sublist (List.filter_sublist.map _)
    have hsub : (a.mns.filter fun dmn => b.hasMN dmn.proTxHash).map CDeterministicMN.proTxHash ⊆
        (b.mns.filter fun dmn => a.hasMN dmn.proTxHash).map CDeterministicMN.proTxHash := by
      intro h hmem
      obtain ⟨dmn, hdmn, rfl⟩ := List.mem_map.mp hmem
      obtain ⟨hmn, hhas⟩ := List.mem_filter.mp hdmn
      obtain ⟨dmn', hdmn'⟩ := Option.isSome_iff_exists.mp hhas
      have hkey := hb.key _ _ hdmn'
      rw [mem_mns ha] at hmn
      refine List.mem_map.mpr ⟨dmn', List.mem_filter.mpr ⟨(mem_mns hb).mpr (hkey.symm ▸ hdmn'), ?_⟩, hkey⟩
      rw [hkey, hasMN, getMN, hmn]
      rfl
    have hle := (List.subperm_of_subset hnodup hsub).length_le
    rw [List.length_map, List.length_map] at hle
    exact hle
  have hlist := hsplit list newList
  have hnew := hsplit newList list
  have hle := hboth hinv hinv'
  have hge := hboth hinv' hinv
  omega

omit [DecidableEq G] in
/-- The loop ends early only once every missing masternode has been found. -/
theorem mem_collectRemoved {dmns : List (CDeterministicMN G)} {added missing : ℕ}
    {removedMns : ExtTreeSet UInt64} (hsize : list.mnMap.size+added = newList.mnMap.size+missing)
    (hids : (dmns.map CDeterministicMN.internalId).Nodup)
    (hnew : ∀ dmn ∈ dmns, dmn.internalId ∉ removedMns)
    (hcount : removedMns.size+(dmns.filter fun dmn => !newList.hasMN dmn.proTxHash).length = missing)
    (id : UInt64) :
    id ∈ collectRemoved list newList added dmns removedMns ↔
      id ∈ removedMns ∨ ∃ dmn ∈ dmns, newList.hasMN dmn.proTxHash = false ∧ dmn.internalId = id := by
  induction dmns generalizing removedMns with
  | nil =>
    rw [collectRemoved]
    refine ⟨Or.inl, ?_⟩
    rintro (h | ⟨dmn, hmem, -⟩)
    · exact h
    · exact absurd hmem List.not_mem_nil
  | cons dmn dmns ih =>
    rw [List.map_cons, List.nodup_cons] at hids
    obtain ⟨hhead, htail⟩ := List.forall_mem_cons.mp hnew
    rw [collectRemoved]
    cases hhas : newList.hasMN dmn.proTxHash with
    | true =>
      rw [List.filter_cons, hhas, Bool.not_true, if_neg Bool.false_ne_true] at hcount
      rw [if_pos rfl, ih hids.2 htail hcount]
      refine or_congr_right ⟨?_, ?_⟩
      · rintro ⟨dmn', hmem, h⟩
        exact ⟨dmn', List.mem_cons_of_mem dmn hmem, h⟩
      · rintro ⟨dmn', hmem, hmissing, hid⟩
        rcases List.mem_cons.mp hmem with rfl | hmem
        · exact absurd (hhas.symm.trans hmissing) (by decide)
        · exact ⟨dmn', hmem, hmissing, hid⟩
    | false =>
      rw [List.filter_cons, hhas, Bool.not_false, if_pos rfl, List.length_cons] at hcount
      rw [if_neg Bool.false_ne_true]
      have hcontains : removedMns.contains dmn.internalId = false := by
        rw [← Bool.not_eq_true, ← ExtTreeSet.mem_iff_contains]
        exact hhead
      have hgrow : (removedMns.insert dmn.internalId).size = removedMns.size+1 := by
        rw [ExtTreeSet.size_insert, hcontains, if_neg Bool.false_ne_true]
      have hstep : ∀ id : UInt64, (id ∈ removedMns.insert dmn.internalId ∨
          ∃ dmn' ∈ dmns, newList.hasMN dmn'.proTxHash = false ∧ dmn'.internalId = id) ↔
          id ∈ removedMns ∨
            ∃ dmn' ∈ dmn :: dmns, newList.hasMN dmn'.proTxHash = false ∧ dmn'.internalId = id := by
        intro id
        rw [mem_set_insert]
        constructor
        · rintro ((rfl | h) | ⟨dmn', hmem, h⟩)
          · exact Or.inr ⟨dmn, List.mem_cons_self, hhas, rfl⟩
          · exact Or.inl h
          · exact Or.inr ⟨dmn', List.mem_cons_of_mem dmn hmem, h⟩
        · rintro (h | ⟨dmn', hmem, h⟩)
          · exact Or.inl (Or.inr h)
          · rcases List.mem_cons.mp hmem with rfl | hmem
            · exact Or.inl (Or.inl h.2)
            · exact Or.inr ⟨dmn', hmem, h⟩
      dsimp only
      split_ifs with hdone
      · -- all are found: none of the rest is missing
        have hnone : (dmns.filter fun dmn => !newList.hasMN dmn.proTxHash) = [] := by
          rw [← List.length_eq_zero_iff]
          omega
        rw [← hstep]
        refine (or_iff_left ?_).symm
        rintro ⟨dmn', hmem, hmissing, -⟩
        have hin : dmn' ∈ dmns.filter fun dmn => !newList.hasMN dmn.proTxHash :=
          List.mem_filter.mpr ⟨hmem, by rw [hmissing]; rfl⟩
        rw [hnone] at hin
        exact List.not_mem_nil hin
      · rw [ih hids.2 _ (by rw [hgrow]; omega), hstep]
        intro dmn' hmem hin
        rcases mem_set_insert.mp hin with heq | hin
        · exact hids.1 (List.mem_map.mpr ⟨dmn', hmem, heq.symm⟩)
        · exact htail dmn' hmem hin

/-- What a difference holds: the new masternodes, the states that differ, and the
ids of those that are gone. -/
theorem buildDiff_spec (hinv : list.Inv codec sha256d) (hinv' : newList.Inv codec sha256d) :
    (list.buildDiff codec newList).addedMNs.Perm
        (newList.mns.filter fun dmn => !list.hasMN dmn.proTxHash) ∧
      (list.buildDiff codec newList).updatedMNs = newList.mns.filterMap (stateChange codec list) ∧
      ∀ id, id ∈ (list.buildDiff codec newList).removedMns ↔
        ∃ dmn : CDeterministicMN G, list.mnMap[dmn.proTxHash]? = some dmn ∧
          newList.mnMap[dmn.proTxHash]? = none ∧ dmn.internalId = id := by
  have hfold : newList.mns.foldl (visitTo codec list) {} = {
      addedMNs := newList.mns.filter fun dmn => !list.hasMN dmn.proTxHash
      updatedMNs := newList.mns.filterMap (stateChange codec list)} :=
    foldl_visitTo (mns_ids_nodup hinv') fun dmn _ => List.not_mem_nil
  have hsize := size_add_length hinv hinv'
  have hmissing : ∀ id : UInt64, (∃ dmn ∈ list.mns, newList.hasMN dmn.proTxHash = false ∧
      dmn.internalId = id) ↔ ∃ dmn : CDeterministicMN G, list.mnMap[dmn.proTxHash]? = some dmn ∧
        newList.mnMap[dmn.proTxHash]? = none ∧ dmn.internalId = id := by
    intro id
    refine exists_congr fun dmn => and_congr (mem_mns hinv) (and_congr_left fun _ => ?_)
    rw [hasMN, getMN, Option.isSome_eq_false_iff, Option.isNone_iff_eq_none]
  rw [buildDiff, hfold]
  refine ⟨List.mergeSort_perm _ _, rfl, fun id => ?_⟩
  dsimp only
  rw [← hmissing]
  split_ifs with hdiffer
  · rw [mem_collectRemoved hsize (mns_ids_nodup hinv) (fun _ _ => ExtTreeSet.not_mem_empty)
      (by rw [ExtTreeSet.size_empty, zero_add])]
    exact or_iff_right ExtTreeSet.not_mem_empty
  · refine iff_of_false ExtTreeSet.not_mem_empty ?_
    rintro ⟨dmn, hmem, hgone, -⟩
    have hnone : (list.mns.filter fun dmn => !newList.hasMN dmn.proTxHash) = [] := by
      rw [← List.length_eq_zero_iff]
      omega
    have hin : dmn ∈ list.mns.filter fun dmn => !newList.hasMN dmn.proTxHash :=
      List.mem_filter.mpr ⟨hmem, by rw [hgone]; rfl⟩
    rw [hnone] at hin
    exact List.not_mem_nil hin

end Building

end CDeterministicMNList

end BabaChain.Evo.ByValue
