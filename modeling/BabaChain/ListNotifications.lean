import BabaChain.DiffExactness

/-! What connecting and disconnecting a block tell of the change of the masternode
list, and which peers are disconnected for it. -/
namespace BabaChain.Evo.ByValue
open BLS OrdMap OwnedCounts Guards
open Std (ExtTreeMap ExtTreeSet)

variable {G : Type*} [DecidableEq G]

structure MNListUpdates (G : Type*) where
  old_list : CDeterministicMNList G
  new_list : CDeterministicMNList G
  diff : CDeterministicMNListDiff G

/-- The lists in force at the tip and at the blocks below it, and the differences in
the database. -/
structure CDeterministicMNManager (G : Type*) where
  tip : CDeterministicMNList G
  below : List (CDeterministicMNList G) := []
  evoDb : ExtTreeMap uint256 (CDeterministicMNListDiff G) := ∅

namespace CDeterministicMNManager
variable (codec : KeyCodec G) (sha256d : List UInt8 → uint256)

def processBlock (newList : CDeterministicMNList G) (manager : CDeterministicMNManager G) :
    CDeterministicMNManager G × Option (MNListUpdates G) :=
  let oldList := manager.tip
  let diff := oldList.buildDiff codec newList
  let updates := if diff.hasChanges then some ⟨newList, oldList, diff⟩ else none
  (⟨newList, oldList :: manager.below, manager.evoDb.insert newList.blockHash diff⟩, updates)

/-- The difference of the tip's block, as the database has it. -/
def readDiff (manager : CDeterministicMNManager G) : CDeterministicMNListDiff G :=
  manager.evoDb[manager.tip.blockHash]?.getD {}

/-- `UndoBlock` of the tip, with the updates of its difference in a given order. -/
def undoBlock (updatedMNs : List (UInt64 × CDeterministicMNStateDiff G))
    (manager : CDeterministicMNManager G) :
    Except String (CDeterministicMNManager G × Option (MNListUpdates G)) :=
  match manager.below with
  | [] => .error "no block to disconnect"
  | prevList :: below =>
    let diff := {manager.readDiff with updatedMNs}
    if diff.hasChanges then do
      let curList ← prevList.applyDiff codec sha256d manager.tip.blockHash manager.tip.nHeight diff
      let inversedDiff := curList.buildDiff codec prevList
      .ok (⟨prevList, below, manager.evoDb⟩, some ⟨curList, prevList, inversedDiff⟩)
    else .ok (⟨prevList, below, manager.evoDb⟩, none)

/-- A block is connected, or the tip is disconnected. -/
inductive Step (env : Environment G) (T : Set (CTransaction G)) (manager : CDeterministicMNManager G) :
    Bool → CDeterministicMNManager G → Option (MNListUpdates G) → Prop
  | connect (newList : CDeterministicMNList G)
    (hnext : CDeterministicMNList.Next codec sha256d env T manager.tip newList)
    (hnew : ∀ list ∈ manager.tip :: manager.below, list.blockHash ≠ newList.blockHash) :
    Step env T manager false (manager.processBlock codec newList).1
      (manager.processBlock codec newList).2
  | disconnect (updatedMNs : List (UInt64 × CDeterministicMNStateDiff G))
    (manager' : CDeterministicMNManager G) (updates : Option (MNListUpdates G))
    (horder : updatedMNs.Perm manager.readDiff.updatedMNs)
    (hok : manager.undoBlock codec sha256d updatedMNs = .ok (manager', updates)) :
    Step env T manager true manager' updates

/-- The managers that connecting and disconnecting lead to. -/
inductive Run (env : Environment G) (T : Set (CTransaction G)) : CDeterministicMNManager G → Prop
  | start (blockHash : uint256) (nHeight : ℤ) : Run env T {tip := {blockHash, nHeight}}
  | step {manager manager' : CDeterministicMNManager G} {undo : Bool}
    {updates : Option (MNListUpdates G)} (hrun : Run env T manager)
    (hstep : Step codec sha256d env T manager undo manager' updates) : Run env T manager'

end CDeterministicMNManager

structure CNode where
  verifiedProRegTxHash : uint256
  verifiedPubKeyHash : uint256
  fDisconnect : Bool := false
deriving DecidableEq

namespace CMNAuth
variable (codec : KeyCodec G) (sha256d : List UInt8 → uint256)

/-- `GetHash` of a key. -/
def keyHash (k : CBLSLazyPublicKey G) : uint256 := sha256d (ownBytes codec k).toList

def doRemove (diff : CDeterministicMNListDiff G) (verifiedDmn : CDeterministicMN G) (pnode : CNode) : Bool :=
  if verifiedDmn.internalId ∈ diff.removedMns then true
  else
    match diff.updatedMNs.lookup verifiedDmn.internalId with
    | none => false
    | some d => decide (.pubKeyOperator ∈ d.fields) &&
      decide (keyHash codec sha256d d.state.pubKeyOperator ≠ pnode.verifiedPubKeyHash)

def notifyNode (oldMNList : CDeterministicMNList G) (diff : CDeterministicMNListDiff G)
    (pnode : CNode) : CNode :=
  if pnode.verifiedProRegTxHash = 0 then pnode
  else
    match oldMNList.getMN pnode.verifiedProRegTxHash with
    | none => pnode
    | some verifiedDmn =>
      if doRemove codec sha256d diff verifiedDmn pnode then {pnode with fDisconnect := true} else pnode

def notifyMasternodeListChanged (oldMNList : CDeterministicMNList G)
    (diff : CDeterministicMNListDiff G) (nodes : List CNode) : List CNode :=
  -- masternodes that are only added are of no interest
  if diff.updatedMNs.isEmpty && diff.removedMns.isEmpty then nodes
  else nodes.map (notifyNode codec sha256d oldMNList diff)

/-- A verified peer whose masternode is gone after a change of the list, or has an
operator key of another hash. -/
def Outdated (before after : CDeterministicMNList G) (node : CNode) : Prop :=
  node.verifiedProRegTxHash ≠ 0 ∧ ∃ dmn, before.mnMap[node.verifiedProRegTxHash]? = some dmn ∧
    (after.mnMap[node.verifiedProRegTxHash]? = none ∨
      keyHash codec sha256d dmn.pdmnState.pubKeyOperator = node.verifiedPubKeyHash ∧
        ∃ dmn', after.mnMap[node.verifiedProRegTxHash]? = some dmn' ∧
          keyHash codec sha256d dmn'.pdmnState.pubKeyOperator ≠ node.verifiedPubKeyHash)

end CMNAuth

open CDeterministicMNList CDeterministicMNManager CMNAuth

section Description
variable (codec : KeyCodec G) (sha256d : List UInt8 → uint256)

/-- The same masternodes at the same block. -/
structure SameMNs (list list' : CDeterministicMNList G) : Prop where
  mnMap : ∀ h : uint256, Option.Rel (SameMN codec) list.mnMap[h]? list'.mnMap[h]?
  nHeight : list.nHeight = list'.nHeight
  blockHash : list.blockHash = list'.blockHash

/-- Updates that say what happened: the list before, the one after, a difference that
leads from the one to the other, and by which every outdated peer is disconnected. -/
structure Describes (before after : CDeterministicMNList G) (updates : MNListUpdates G) : Prop where
  old_list : SameMNs codec updates.old_list before
  new_list : SameMNs codec updates.new_list after
  diff : ∀ us : List (UInt64 × CDeterministicMNStateDiff G), us.Perm updates.diff.updatedMNs →
    ∃ M, updates.old_list.applyDiff codec sha256d after.blockHash after.nHeight
      {updates.diff with updatedMNs := us} = .ok M ∧ SameMNs codec M updates.new_list
  peers : ∀ nodes : List CNode, ∀ p ∈ nodes.zip
    (notifyMasternodeListChanged codec sha256d updates.old_list updates.diff nodes),
    Outdated codec sha256d before after p.1 → p.2.fDisconnect = true

/-- No masternode of both lists has an operator key that counts as its old one and has
another hash. -/
def KeyHashesKept (list list' : CDeterministicMNList G) : Prop :=
  ∀ (h : uint256) (dmn dmn' : CDeterministicMN G), h ≠ 0 → list.mnMap[h]? = some dmn →
    list'.mnMap[h]? = some dmn' →
    keyEqual codec dmn.pdmnState.pubKeyOperator dmn'.pdmnState.pubKeyOperator = true →
      keyHash codec sha256d dmn.pdmnState.pubKeyOperator =
        keyHash codec sha256d dmn'.pdmnState.pubKeyOperator

end Description

variable {codec : KeyCodec G} {sha256d : List UInt8 → uint256} {env : Environment G}
  {T : Set (CTransaction G)} {L L' M : CDeterministicMNList G}
  {manager manager' : CDeterministicMNManager G} {undo : Bool}

section Chain

/-- Lists of which each is built from the next, with their differences in the
database. -/
def Linked (codec : KeyCodec G) (sha256d : List UInt8 → uint256) (env : Environment G)
    (T : Set (CTransaction G)) (evoDb : ExtTreeMap uint256 (CDeterministicMNListDiff G)) :
    List (CDeterministicMNList G) → Prop
  | [] => True
  | [list] => ListAt codec sha256d env T list
  | newList :: prevList :: below =>
    (Next codec sha256d env T prevList newList ∧
      evoDb[newList.blockHash]? = some (prevList.buildDiff codec newList)) ∧
    Linked codec sha256d env T evoDb (prevList :: below)

theorem Linked.listAt {evoDb : ExtTreeMap uint256 (CDeterministicMNListDiff G)}
    {below : List (CDeterministicMNList G)} (h : Linked codec sha256d env T evoDb (L :: below)) :
    ListAt codec sha256d env T L := by
  induction below generalizing L with
  | nil => exact h
  | cons prevList below ih => exact .built (ih h.2) h.1.1

theorem Linked.insert {evoDb : ExtTreeMap uint256 (CDeterministicMNListDiff G)}
    {lists : List (CDeterministicMNList G)} (h : Linked codec sha256d env T evoDb lists)
    {blockHash : uint256} (hnew : ∀ list ∈ lists, list.blockHash ≠ blockHash)
    (diff : CDeterministicMNListDiff G) :
    Linked codec sha256d env T (evoDb.insert blockHash diff) lists := by
  induction lists with
  | nil => trivial
  | cons newList lists ih =>
    obtain ⟨hhead, htail⟩ := List.forall_mem_cons.mp hnew
    cases lists with
    | nil => exact h
    | cons prevList below =>
      refine ⟨⟨h.1.1, ?_⟩, ih h.2 htail⟩
      rw [getElem?_insert, if_neg (Ne.symm hhead)]
      exact h.1.2

/-- A list is disconnected only from the one it was built from. -/
theorem undoBlock_ok {updatedMNs : List (UInt64 × CDeterministicMNStateDiff G)}
    {updates : Option (MNListUpdates G)}
    (hok : manager.undoBlock codec sha256d updatedMNs = .ok (manager', updates)) :
    manager.below = manager'.tip :: manager'.below ∧ manager'.evoDb = manager.evoDb ∧
      ∀ u, updates = some u → u.new_list = manager'.tip ∧
        u.diff = u.old_list.buildDiff codec manager'.tip ∧
        manager'.tip.applyDiff codec sha256d manager.tip.blockHash manager.tip.nHeight
          {manager.readDiff with updatedMNs} = .ok u.old_list := by
  rw [undoBlock] at hok
  cases hbelow : manager.below with
  | nil =>
    rw [hbelow] at hok
    exact absurd hok nofun
  | cons prevList below =>
    rw [hbelow] at hok
    dsimp only at hok
    split_ifs at hok
    · rw [bind_ok_iff] at hok
      obtain ⟨curList, happly, hok⟩ := hok
      obtain ⟨rfl, rfl⟩ := Prod.mk.inj (Except.ok.inj hok)
      refine ⟨rfl, rfl, fun u hu => ?_⟩
      obtain rfl := Option.some_inj.mp hu
      exact ⟨rfl, rfl, happly⟩
    · obtain ⟨rfl, rfl⟩ := Prod.mk.inj (Except.ok.inj hok)
      exact ⟨rfl, rfl, fun u hu => absurd hu nofun⟩

theorem CDeterministicMNManager.Run.linked (hrun : Run codec sha256d env T manager) :
    Linked codec sha256d env T manager.evoDb (manager.tip :: manager.below) := by
  induction hrun with
  | start blockHash nHeight => exact .initial blockHash nHeight
  | step _ hstep ih =>
    cases hstep with
    | connect newList hnext hnew => exact ⟨⟨hnext, by
        show (_ : ExtTreeMap uint256 (CDeterministicMNListDiff G))[_]? = _
        exact (getElem?_insert _ _ _ _).trans (if_pos rfl)⟩, ih.insert hnew _⟩
    | disconnect updatedMNs manager' updates horder hok =>
      obtain ⟨hbelow, hdb, -⟩ := undoBlock_ok hok
      rw [hbelow] at ih
      rw [hdb]
      exact ih.2

/-- After every run no two masternodes of the tip share a property, and each was registered with the
owner key that it has. -/
theorem CDeterministicMNManager.Run.tip_apart (hT : Set.InjOn CTransaction.hash T)
    (hrun : Run codec sha256d env T manager) :
    (∀ h h' k : uint256, k ∈ manager.tip.held codec sha256d h →
      k ∈ manager.tip.held codec sha256d h' → h = h') ∧ RegisteredIn T manager.tip := by
  obtain ⟨hinv, hregistered⟩ := hrun.linked.listAt.spec hT
  exact ⟨fun h h' k hk hk' => hinv.properties.owner_unique hk hk', hregistered⟩

end Chain

section Exactness

omit [DecidableEq G] in
theorem SameMNs.refl [DecidableEq G] (list : CDeterministicMNList G) : SameMNs codec list list := by
  refine ⟨fun h => ?_, rfl, rfl⟩
  cases list.mnMap[h]? with
  | none => exact .none
  | some dmn => exact .some ⟨rfl, Field.differs_self _⟩

/-- A masternode of a list that has another's masternodes. -/
theorem SameMNs.of_some (hsame : SameMNs codec L L') {h : uint256} {dmn' : CDeterministicMN G}
    (hmn' : L'.mnMap[h]? = some dmn') : ∃ dmn, L.mnMap[h]? = some dmn ∧ SameMN codec dmn dmn' := by
  have hrel := hsame.mnMap h
  rw [hmn'] at hrel
  cases hmn : L.mnMap[h]? with
  | none =>
    rw [hmn] at hrel
    exact absurd hrel nofun
  | some dmn =>
    rw [hmn] at hrel
    cases hrel with
    | some hmns => exact ⟨dmn, rfl, hmns⟩

/-- A difference with changes is not one of lists with the same masternodes. -/
theorem no_changes (hinv : L.Inv codec sha256d) (hinv' : L'.Inv codec sha256d)
    (hsame : SameMNs codec L' L) : (L.buildDiff codec L').hasChanges = false := by
  have hnone : ∀ h : uint256, L'.mnMap[h]? = none ↔ L.mnMap[h]? = none := by
    intro h
    have hrel := hsame.mnMap h
    constructor
    · intro hgone
      rw [hgone] at hrel
      cases hmn : L.mnMap[h]? with
      | none => rfl
      | some dmn =>
        rw [hmn] at hrel
        exact absurd hrel nofun
    · intro hgone
      rw [hgone] at hrel
      cases hmn : L'.mnMap[h]? with
      | none => rfl
      | some dmn =>
        rw [hmn] at hrel
        exact absurd hrel nofun
  have hadded : (L.buildDiff codec L').addedMNs = [] := by
    rw [List.eq_nil_iff_forall_not_mem]
    intro dmn hmem
    obtain ⟨hmn', hmn⟩ := (mem_addedMNs hinv hinv').mp hmem
    rw [(hnone _).mpr hmn] at hmn'
    exact Option.some_ne_none dmn hmn'.symm
  have hupdated : (L.buildDiff codec L').updatedMNs = [] := by
    rw [List.eq_nil_iff_forall_not_mem]
    intro p hmem
    obtain ⟨dmn, dmn', hmn', hmn, hfields, -⟩ := (mem_updatedMNs hinv hinv').mp hmem
    obtain ⟨dmn'', hmn'', hmns⟩ := hsame.of_some hmn
    obtain rfl := Option.some_inj.mp (hmn'.symm.trans hmn'')
    obtain ⟨f, hf⟩ := Finset.nonempty_iff_ne_empty.mpr hfields
    have hdiffers : ∀ f, Field.differs codec dmn.pdmnState dmn'.pdmnState f = false := by
      intro f
      rw [Field.differs_comm]
      exact hmns.fields f
    rw [CDeterministicMNStateDiff.mem_fields] at hf
    simp only [hdiffers, Bool.false_eq_true, or_self, and_false] at hf
  have hremoved : (L.buildDiff codec L').removedMns.isEmpty = true := by
    rw [← ExtTreeSet.isEmpty_toList, List.isEmpty_iff, List.eq_nil_iff_forall_not_mem]
    intro id hmem
    rw [ExtTreeSet.mem_toList] at hmem
    obtain ⟨dmn, hmn, hgone, -⟩ := ((buildDiff_spec hinv hinv').2.2 id).mp hmem
    rw [(hnone _).mp hgone] at hmn
    exact Option.some_ne_none dmn hmn.symm
  rw [CDeterministicMNListDiff.hasChanges, hadded, hupdated, hremoved]
  rfl

/-- A property that another masternode takes in the old list is not one of a masternode
that the new list keeps. -/
theorem succeeds_back (hinv : L.Inv codec sha256d) (ht : Tracks codec sha256d L L')
    (hget : ∀ h : uint256, M.mnMap[h]? = L'.mnMap[h]?.map (applied codec L)) :
    Succeeds codec sha256d M L := by
  have hsome : ∀ {h : uint256} {d : CDeterministicMN G}, M.mnMap[h]? = some d →
      ∃ d', L'.mnMap[h]? = some d' ∧ d'.proTxHash = h ∧ applied codec L d' = d := by
    intro h d hd
    rw [hget] at hd
    obtain ⟨d', hd', happlied⟩ := Option.map_eq_some_iff.mp hd
    exact ⟨d', hd', ht.inv.key h d' hd', happlied⟩
  refine ⟨fun h d d₀ hd hd₀ => ?_, fun k h h' hk hk' hne => ?_⟩
  · obtain ⟨d', hd', hkey, rfl⟩ := hsome hd
    have hstatic := (@applied_same _ _ codec L d').same
    have hsame := ht.same h d₀ d' hd₀ hd'
    rw [hstatic, hsame]
  · by_contra hin
    cases hd : M.mnMap[h]? with
    | none =>
      rw [held_of_none hd] at hk
      exact Multiset.notMem_zero k hk
    | some d =>
      obtain ⟨d', hd', hkey, rfl⟩ := hsome hd
      rw [held_of_some hd] at hk
      rcases mem_hashes_applied hinv (ht.inv.registered h d' hd') hk with hnew | hold
      · rw [← held_of_some hd'] at hnew
        exact hne (ht.own h' h k hin hnew hk').symm
      · rw [hkey] at hold
        exact hne (hinv.properties.owner_unique hold hk')

/-- The key of a state difference is there where the keys differ, and is the new one. -/
theorem keyField (a b : CDeterministicMNState G) :
    (.pubKeyOperator ∈ (CDeterministicMNStateDiff.ofStates codec a b).fields ↔
      keyEqual codec a.pubKeyOperator b.pubKeyOperator = false) ∧
    (.pubKeyOperator ∈ (CDeterministicMNStateDiff.ofStates codec a b).fields →
      (CDeterministicMNStateDiff.ofStates codec a b).state.pubKeyOperator = b.pubKeyOperator) := by
  constructor
  · rw [CDeterministicMNStateDiff.mem_fields, Field.differs, Bool.not_eq_true']
    simp only [reduceCtorEq, false_and, or_false]
  · intro hmem
    have hassign := CDeterministicMNStateDiff.assign_state a hmem
    have hkey := congrArg CDeterministicMNState.pubKeyOperator hassign
    exact hkey

/-- A peer of a masternode of two lists is disconnected where the keys differ and the
new one's hash is not the peer's. -/
theorem doRemove_iff (hinvM : M.Inv codec sha256d) (hinv : L.Inv codec sha256d)
    {dmn : CDeterministicMN G} (hmn : M.mnMap[dmn.proTxHash]? = some dmn) (dmn' : CDeterministicMN G)
    (node : CNode) : (L.mnMap[dmn.proTxHash]? = none →
      doRemove codec sha256d (M.buildDiff codec L) dmn node = true) ∧
    (L.mnMap[dmn.proTxHash]? = some dmn' → dmn'.internalId = dmn.internalId →
      (doRemove codec sha256d (M.buildDiff codec L) dmn node = true ↔
        keyEqual codec dmn.pdmnState.pubKeyOperator dmn'.pdmnState.pubKeyOperator = false ∧
          keyHash codec sha256d dmn'.pdmnState.pubKeyOperator ≠ node.verifiedPubKeyHash)) := by
  have hremoved := (buildDiff_spec hinvM hinv).2.2 dmn.internalId
  constructor
  · intro hgone
    rw [doRemove, if_pos (hremoved.mpr ⟨dmn, hmn, hgone, rfl⟩)]
  · intro hmn' hid
    have hkey' := hinv.key _ dmn' hmn'
    have hstays : dmn.internalId ∉ (M.buildDiff codec L).removedMns := by
      intro hmem
      obtain ⟨d, hd, hgone, hsame⟩ := hremoved.mp hmem
      rw [hinvM.id_injective hd hmn hsame, hmn'] at hgone
      exact Option.some_ne_none dmn' hgone
    obtain ⟨hfield, hstate⟩ := @keyField _ _ codec dmn.pdmnState dmn'.pdmnState
    rw [doRemove, if_neg hstays]
    cases hlookup : (M.buildDiff codec L).updatedMNs.lookup dmn.internalId with
    | none =>
      refine iff_of_false Bool.false_ne_true fun h => ?_
      -- the difference of the keys is an update of this masternode
      have hmem := (mem_updatedMNs hinvM hinv).mpr ⟨dmn, dmn', hkey'.symm ▸ hmn', hkey'.symm ▸ hmn,
        Finset.ne_empty_of_mem (hfield.mpr h.1), rfl⟩
      rw [hid] at hmem
      rw [lookup_of_mem (updatedMNs_nodup hinvM hinv) hmem] at hlookup
      exact Option.some_ne_none _ hlookup
    | some d =>
      have hmem : (dmn.internalId, d) ∈ (M.buildDiff codec L).updatedMNs := by
        obtain ⟨l₁, l₂, heq, -⟩ := List.lookup_eq_some_iff.mp hlookup
        rw [heq]
        exact List.mem_append_right _ List.mem_cons_self
      obtain ⟨d₀, d₁, hd₁, hd₀, -, heq⟩ := (mem_updatedMNs hinvM hinv).mp hmem
      obtain ⟨hid₁, rfl⟩ := Prod.mk.inj heq
      have hsame := hinv.id_injective hd₁ hmn' (hid₁.symm.trans hid.symm)
      rw [hsame] at hd₁ hd₀
      obtain rfl := Option.some_inj.mp (hd₁.symm.trans hmn')
      obtain rfl := Option.some_inj.mp (hd₀.symm.trans hmn)
      dsimp only
      rw [Bool.and_eq_true, decide_eq_true_iff, decide_eq_true_iff, hfield]
      refine and_congr_right fun hne => ?_
      rw [hstate (hfield.mpr hne)]

omit [DecidableEq G] in
/-- Each peer is looked at by itself; without updates and removals, none is
disconnected. -/
theorem notify_eq_map (list : CDeterministicMNList G) (diff : CDeterministicMNListDiff G)
    (nodes : List CNode) : notifyMasternodeListChanged codec sha256d list diff nodes =
      nodes.map (notifyNode codec sha256d list diff) := by
  rw [notifyMasternodeListChanged]
  split_ifs with hnone
  · obtain ⟨hupdated, hremoved⟩ := Bool.and_eq_true_iff.mp hnone
    have hkeep : ∀ (dmn : CDeterministicMN G) (node : CNode),
        doRemove codec sha256d diff dmn node = false := by
      intro dmn node
      rw [doRemove, List.isEmpty_iff.mp hupdated, ExtTreeSet.isEmpty_iff.mp hremoved,
        if_neg ExtTreeSet.not_mem_empty]
      rfl
    refine (List.map_id'' (fun node => ?_) nodes).symm
    rw [notifyNode]
    split_ifs
    · rfl
    · cases list.getMN node.verifiedProRegTxHash with
      | none => rfl
      | some dmn =>
        dsimp only
        rw [hkeep, if_neg Bool.false_ne_true]
  · rfl

/-- What the updates of an undone block are, and that they say what happened. -/
theorem undone_spec (hinv : L.Inv codec sha256d) (ht : Tracks codec sha256d L L')
    {us : List (UInt64 × CDeterministicMNStateDiff G)}
    (hus : us.Perm (L.buildDiff codec L').updatedMNs)
    (hok : L.applyDiff codec sha256d L'.blockHash L'.nHeight
      {L.buildDiff codec L' with updatedMNs := us} = .ok M) :
    M.Inv codec sha256d ∧ (∀ h : uint256, M.mnMap[h]? = L'.mnMap[h]?.map (applied codec L)) ∧
      SameMNs codec M L' := by
  have hsucc := succeeds_of_tracks ht (collateralsFree_of_ok hinv ht.inv hok)
  obtain ⟨M', hok', hinvM, hblock, hheight, -, hget⟩ :=
    applyDiff_buildDiff hinv ht.inv hsucc hus L'.blockHash L'.nHeight
  obtain rfl := Except.ok.inj (hok.symm.trans hok')
  refine ⟨hinvM, hget, fun h => ?_, hheight, hblock⟩
  rw [hget]
  cases L'.mnMap[h]? with
  | none => exact .none
  | some dmn' => exact .some (applied_same L dmn')

/-- Every outdated peer of an undone block is disconnected exactly if keys keep their
hashes. -/
theorem peers_iff (hinv : L.Inv codec sha256d) (ht : Tracks codec sha256d L L')
    (hinvM : M.Inv codec sha256d)
    (hget : ∀ h : uint256, M.mnMap[h]? = L'.mnMap[h]?.map (applied codec L)) :
    (∀ node, Outdated codec sha256d L' L node →
      (notifyNode codec sha256d M (M.buildDiff codec L) node).fDisconnect = true) ↔
      KeyHashesKept codec sha256d L L' := by
  have hsome : ∀ {h : uint256} {d' : CDeterministicMN G}, L'.mnMap[h]? = some d' →
      M.mnMap[h]? = some (applied codec L d') ∧ (applied codec L d').proTxHash = h := by
    intro h d' hd'
    refine ⟨by rw [hget, hd']; rfl, ?_⟩
    rw [applied_proTxHash]
    exact ht.inv.key h d' hd'
  have hnotify : ∀ {node : CNode} {d' : CDeterministicMN G}, node.verifiedProRegTxHash ≠ 0 →
      L'.mnMap[node.verifiedProRegTxHash]? = some d' →
      notifyNode codec sha256d M (M.buildDiff codec L) node =
        if doRemove codec sha256d (M.buildDiff codec L) (applied codec L d') node then
          {node with fDisconnect := true} else node := by
    intro node d' hnode hd'
    rw [notifyNode, if_neg hnode, getMN, (hsome hd').1]
  have hid : ∀ {h : uint256} {d d' : CDeterministicMN G}, L.mnMap[h]? = some d →
      L'.mnMap[h]? = some d' → d.internalId = (applied codec L d').internalId := by
    intro h d d' hd hd'
    have hstatic := (@applied_same _ _ codec L d').same
    rw [hstatic, ht.same h d d' hd hd']
  -- a key of the new list that counts as the old one is the old one in the rebuilt list
  have hkey : ∀ {h : uint256} {d d' : CDeterministicMN G}, L.mnMap[h]? = some d →
      L'.mnMap[h]? = some d' → (applied codec L d').pdmnState.pubKeyOperator =
        if keyEqual codec d.pdmnState.pubKeyOperator d'.pdmnState.pubKeyOperator then
          d.pdmnState.pubKeyOperator else d'.pdmnState.pubKeyOperator := by
    intro h d d' hd hd'
    rw [applied_of_some ((ht.inv.key h d' hd').symm ▸ hd)]
    rfl
  constructor
  · intro hall h d d' hne hd hd' hequal
    by_contra hhash
    have hold : Outdated codec sha256d L' L
        ⟨h, keyHash codec sha256d d'.pdmnState.pubKeyOperator, false⟩ :=
      ⟨hne, d', hd', Or.inr ⟨rfl, d, hd, hhash⟩⟩
    have hgone := hall _ hold
    obtain ⟨hM, hproTx⟩ := hsome hd'
    have hd₀ : L.mnMap[(applied codec L d').proTxHash]? = some d := hproTx.symm ▸ hd
    have hiff := (doRemove_iff hinvM hinv (hproTx.symm ▸ hM) d
      ⟨h, keyHash codec sha256d d'.pdmnState.pubKeyOperator, false⟩).2 hd₀ (hid hd hd')
    rw [hkey hd hd', hequal, if_pos rfl, keyEqual_self] at hiff
    rw [hnotify hne hd', if_neg fun hremove => absurd (hiff.mp hremove).1 (by decide)] at hgone
    exact Bool.false_ne_true hgone
  · rintro hkept node ⟨hnode, d', hd', hcase⟩
    obtain ⟨hM, hproTx⟩ := hsome hd'
    suffices hremove : doRemove codec sha256d (M.buildDiff codec L) (applied codec L d') node = true by
      rw [hnotify hnode hd', hremove, if_pos rfl]
    rcases hcase with hgone | ⟨hhash, d, hd, hchanged⟩
    · exact (doRemove_iff hinvM hinv (hproTx.symm ▸ hM) d' node).1 (hproTx.symm ▸ hgone)
    · have hdiffer : keyEqual codec d.pdmnState.pubKeyOperator d'.pdmnState.pubKeyOperator = false := by
        rw [← Bool.not_eq_true]
        intro hequal
        exact hchanged ((hkept _ d d' hnode hd hd' hequal).trans hhash)
      refine ((doRemove_iff hinvM hinv (hproTx.symm ▸ hM) d node).2 (hproTx.symm ▸ hd)
        (hid hd hd')).mpr ⟨?_, hchanged⟩
      rw [hkey hd hd', hdiffer, if_neg Bool.false_ne_true, keyEqual_comm]
      exact hdiffer

/-- A connected block's updates call the new list the old one. -/
theorem connected_not_describes (hT : Set.InjOn CTransaction.hash T)
    (hL : ListAt codec sha256d env T L) (hnext : Next codec sha256d env T L L')
    (hchanges : (L.buildDiff codec L').hasChanges = true) (list : CDeterministicMNList G)
    (diff : CDeterministicMNListDiff G) : ¬Describes codec sha256d L L' ⟨L', list, diff⟩ := by
  intro hdescribes
  obtain ⟨hinv, hreg⟩ := hL.spec hT
  have hinv' := (hnext.tracks hinv hT hreg).1.inv
  have hsame := no_changes hinv hinv' hdescribes.old_list
  exact Bool.false_ne_true (hsame.symm.trans hchanges)

/-- The updates of a change say what happened exactly if the block is disconnected, and
keys keep their hashes. -/
theorem updates_describe_iff (hT : Set.InjOn CTransaction.hash T)
    (hrun : Run codec sha256d env T manager) {updates : MNListUpdates G}
    (hstep : Step codec sha256d env T manager undo manager' (some updates)) :
    Describes codec sha256d manager.tip manager'.tip updates ↔
      undo = true ∧ KeyHashesKept codec sha256d manager'.tip manager.tip := by
  have hlinked := hrun.linked
  generalize hsome : some updates = updates' at hstep
  cases hstep with
  | connect newList hnext hnew =>
    refine iff_of_false ?_ fun h => absurd h.1 Bool.false_ne_true
    rw [processBlock] at hsome
    dsimp only at hsome
    split_ifs at hsome with hchanges
    · obtain rfl := Option.some_inj.mp hsome
      exact connected_not_describes hT hlinked.listAt hnext hchanges _ _
  | disconnect updatedMNs manager' updates₁ horder hok =>
    subst hsome
    obtain ⟨hbelow, -, hupdates⟩ := undoBlock_ok hok
    obtain ⟨hnewList, hdiff, happly⟩ := hupdates updates rfl
    rw [hbelow] at hlinked
    obtain ⟨⟨hnext, hread⟩, hbelow'⟩ := hlinked
    obtain ⟨hinv, hreg⟩ := hbelow'.listAt.spec hT
    have ht := (hnext.tracks hinv hT hreg).1
    have hreadDiff : manager.readDiff = manager'.tip.buildDiff codec manager.tip := by
      rw [readDiff, hread]
      rfl
    rw [hreadDiff] at horder happly
    obtain ⟨hinvM, hget, hsame⟩ := undone_spec hinv ht horder happly
    have hpeers := peers_iff hinv ht hinvM hget
    constructor
    · intro hdescribes
      refine ⟨rfl, hpeers.mp fun node hold => ?_⟩
      have hone := hdescribes.peers [node]
      rw [notify_eq_map, hdiff] at hone
      exact hone (node, _) List.mem_cons_self hold
    · rintro ⟨-, hkept⟩
      refine ⟨hsame, ?_, fun us hus => ?_, fun nodes p hp hold => ?_⟩
      · rw [hnewList]
        exact SameMNs.refl _
      · rw [hdiff] at hus ⊢
        obtain ⟨M', hok', -, hblock, hheight, -, hget'⟩ := applyDiff_buildDiff hinvM hinv
          (succeeds_back hinv ht hget) hus manager'.tip.blockHash manager'.tip.nHeight
        refine ⟨M', hok', ?_⟩
        rw [hnewList]
        refine ⟨fun h => ?_, hheight, hblock⟩
        rw [hget']
        cases manager'.tip.mnMap[h]? with
        | none => exact .none
        | some dmn => exact .some (applied_same _ dmn)
      · rw [notify_eq_map, hdiff] at hp
        have hzip : nodes.zip (nodes.map (notifyNode codec sha256d updates.old_list
            (updates.old_list.buildDiff codec manager'.tip))) =
            nodes.map fun node => (node, notifyNode codec sha256d updates.old_list
              (updates.old_list.buildDiff codec manager'.tip) node) := by
          have hmap := @List.zip_map' _ _ _ id (notifyNode codec sha256d updates.old_list
            (updates.old_list.buildDiff codec manager'.tip)) nodes
          rw [List.map_id] at hmap
          exact hmap
        rw [hzip] at hp
        obtain ⟨node, -, rfl⟩ := List.mem_map.mp hp
        exact hpeers.mpr hkept node hold

end Exactness

section Samples

def managerOne : CDeterministicMNManager Unit := (processBlock oneCodec listOne {tip := {nHeight := 0}}).1

theorem run_managerOne : Run oneCodec digest signedEnv sampleChain managerOne := by
  refine .step (.start 0 0) (.connect listOne next_listOne fun list hlist => ?_)
  rw [List.mem_singleton.mp hlist]
  decide

theorem tip_apart_managerOne :
    (∀ h h' k : uint256, k ∈ managerOne.tip.held oneCodec digest h →
      k ∈ managerOne.tip.held oneCodec digest h' → h = h') ∧
    RegisteredIn sampleChain managerOne.tip :=
  run_managerOne.tip_apart sampleChain_injOn

/-- The registration is connected and disconnected again. -/
theorem updates_describe_iff_undone : ∃ manager updates,
    Step oneCodec digest signedEnv sampleChain managerOne true manager (some updates) ∧
      Describes oneCodec digest managerOne.tip manager.tip updates := by
  have hsome : ((managerOne.undoBlock oneCodec digest managerOne.readDiff.updatedMNs).toOption.bind
      Prod.snd).isSome = true := by
    decide +kernel
  obtain ⟨updates, hupdates⟩ := Option.isSome_iff_exists.mp hsome
  obtain ⟨⟨manager, updates'⟩, hok, rfl⟩ := Option.bind_eq_some_iff.mp hupdates
  have hstep : Step oneCodec digest signedEnv sampleChain managerOne true manager (some updates) :=
    .disconnect _ _ _ (List.Perm.refl _) (eq_ok_of_toOption hok)
  refine ⟨manager, updates, hstep, (updates_describe_iff sampleChain_injOn run_managerOne hstep).mpr
    ⟨rfl, fun h dmn dmn' _ hmn => ?_⟩⟩
  have hbelow := (undoBlock_ok (eq_ok_of_toOption hok)).1
  have hstart : managerOne.below = [{nHeight := 0}] := rfl
  rw [hstart] at hbelow
  rw [← (List.cons.inj hbelow).1] at hmn
  rw [ExtTreeMap.getElem?_empty] at hmn
  exact absurd hmn (Option.some_ne_none dmn).symm

/-- The peer of the registered masternode. -/
def verifiedNode : CNode := ⟨1, keyHash oneCodec digest (readKey true), false⟩

/-- A block that spends the collateral is connected. The updates call the new list the
old one, and the peer of the removed masternode stays. -/
theorem updates_not_describe : ∃ manager updates,
    Run oneCodec digest signedEnv sampleChain managerOne ∧
      Step oneCodec digest signedEnv sampleChain managerOne false manager (some updates) ∧
      ¬Describes oneCodec digest managerOne.tip manager.tip updates ∧
      Outdated oneCodec digest managerOne.tip manager.tip verifiedNode ∧
      notifyMasternodeListChanged oneCodec digest updates.old_list updates.diff [verifiedNode] =
        [verifiedNode] := by
  have hchanges : (listOne.buildDiff oneCodec listSpent).hasChanges = true := by
    decide +kernel
  have hstep : Step oneCodec digest signedEnv sampleChain managerOne false
      (managerOne.processBlock oneCodec listSpent).1 (managerOne.processBlock oneCodec listSpent).2 := by
    refine .connect listSpent next_listSpent fun list hlist => ?_
    have hlists : managerOne.tip :: managerOne.below = [listOne, {nHeight := 0}] := rfl
    rw [hlists] at hlist
    simp only [List.mem_cons, List.not_mem_nil, or_false] at hlist
    rcases hlist with rfl | rfl
    · decide
    · decide
  have hupdates : (managerOne.processBlock oneCodec listSpent).2 =
      some ⟨listSpent, listOne, listOne.buildDiff oneCodec listSpent⟩ := if_pos hchanges
  rw [hupdates] at hstep
  refine ⟨_, _, run_managerOne, hstep, ?_, ⟨by decide, ?_⟩, ?_⟩
  · exact connected_not_describes sampleChain_injOn (.built (.initial 0 0) next_listOne) next_listSpent
      hchanges _ _
  · have hone : (managerOne.tip.mnMap[(1 : uint256)]?).isSome = true := by
      decide +kernel
    obtain ⟨dmn, hmn⟩ := Option.isSome_iff_exists.mp hone
    exact ⟨dmn, hmn, Or.inl (by decide +kernel)⟩
  · decide +kernel

end Samples

end BabaChain.Evo.ByValue
