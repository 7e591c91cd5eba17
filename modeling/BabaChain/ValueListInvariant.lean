import BabaChain.ValueList
import BabaChain.Lib.OwnedCounts

/-! What a masternode list's maps say of each other, and that adding, updating and
removing masternodes keeps it. -/
namespace BabaChain.Evo
open BLS OrdMap OwnedCounts
open Std (ExtTreeMap)

/-- The cache of all entries holds those of the map, in some order. Adding an entry
and reading the object both see to it. -/
def NetInfo.Coherent : NetInfo → Prop
  | .mn _ => True
  | .ext info => info.m_all_entries.Perm (info.m_data.toList.flatMap Prod.snd)

theorem NetInfo.perm_of_isEqual {a b : NetInfo} (ha : a.Coherent) (hb : b.Coherent)
    (h : a.isEqual b = true) : a.getEntries.Perm b.getEntries := by
  cases a with
  | mn a =>
    cases b with
    | mn b =>
      have haddr : a.m_addr = b.m_addr := of_decide_eq_true h
      rw [getEntries, getEntries, haddr]
    | ext b => exact absurd h Bool.false_ne_true
  | ext a =>
    cases b with
    | mn b => exact absurd h Bool.false_ne_true
    | ext b =>
      have hdata : a.m_data = b.m_data := of_decide_eq_true (Bool.and_eq_true_iff.mp h).2
      have hb' : b.m_all_entries.Perm (a.m_data.toList.flatMap Prod.snd) := by
        rw [hdata]
        exact hb
      exact ha.trans hb'.symm

namespace ByValue

/-- Addresses whose entries are in step with their map, and are not too many for a
counter. -/
def GivenAddresses (info : NetInfo) : Prop := info.Coherent ∧ info.getEntries.length+4 < 2^32

variable {G : Type*} [DecidableEq G] (codec : KeyCodec G) (sha256d : List UInt8 → uint256)

/-- The property is there, and it is no empty value. -/
def present (p : NamedProperty G) : Bool := p.2.any fun v => !v.isNull

def propertyHash (p : NamedProperty G) : Option uint256 := p.2.map (getUniquePropertyHash codec sha256d)

def hashes (vs : List (NamedProperty G)) : List uint256 := vs.filterMap (propertyHash codec sha256d)

def entryHashes (info : NetInfo) : List uint256 :=
  hashes codec sha256d (info.getEntries.map (netInfoProperty (G := G)))

/-- The hash of a property that may be empty. -/
def hashOf (v : UniqueProperty G) : List uint256 :=
  if v.isNull then [] else [getUniquePropertyHash codec sha256d v]

variable {codec sha256d}

omit [DecidableEq G] in
theorem addUniqueProperty_eq {v : UniqueProperty G} (h : v.isNull = false) (proTxHash : uint256)
    (map : MnUniquePropertyMap) : addUniqueProperty codec sha256d proTxHash v map =
      OwnedCounts.add proTxHash (getUniquePropertyHash codec sha256d v) map := by
  rw [addUniqueProperty, h, if_neg Bool.false_ne_true, OwnedCounts.add]
  dsimp only
  cases map[getUniquePropertyHash codec sha256d v]? with
  | none => rfl
  | some oldEntry => rfl

omit [DecidableEq G] in
theorem deleteUniqueProperty_eq {v : UniqueProperty G} (h : v.isNull = false) (proTxHash : uint256)
    (map : MnUniquePropertyMap) : deleteUniqueProperty codec sha256d proTxHash v map =
      OwnedCounts.delete proTxHash (getUniquePropertyHash codec sha256d v) map := by
  rw [deleteUniqueProperty, h, if_neg Bool.false_ne_true, OwnedCounts.delete]
  dsimp only
  cases map[getUniquePropertyHash codec sha256d v]? with
  | none => rfl
  | some p => rfl

omit [DecidableEq G] in
theorem hashes_cons_some (name : String) (v : UniqueProperty G) (vs : List (NamedProperty G)) :
    hashes codec sha256d ((name, some v) :: vs) =
      getUniquePropertyHash codec sha256d v :: hashes codec sha256d vs := rfl

omit [DecidableEq G] in
/-- Adding several properties: all must be there, and no other masternode may hold
one. -/
theorem forProperties_add (proTxHash : uint256) (failed : String → String) (invalid : String)
    (vs : List (NamedProperty G)) (map : MnUniquePropertyMap) :
    (forProperties (addUniqueProperty codec sha256d proTxHash) failed invalid vs map).toOption =
      if vs.all present then addAll proTxHash (hashes codec sha256d vs) map else none := by
  induction vs generalizing map with
  | nil => rfl
  | cons p vs ih =>
    obtain ⟨name, value⟩ := p
    cases value with
    | none => rfl
    | some v =>
      cases hnull : v.isNull with
      | true =>
        have hnot : ((name, some v) :: vs).all present = false := by
          simp only [List.all_cons, present, Option.any_some, hnull, Bool.not_true, Bool.false_and]
        rw [hnot, if_neg Bool.false_ne_true, forProperties, addUniqueProperty, if_pos hnull]
        rfl
      | false =>
        have hall : ((name, some v) :: vs).all present = vs.all present := by
          simp only [List.all_cons, present, Option.any_some, hnull, Bool.not_false, Bool.true_and]
        rw [hall, forProperties, addUniqueProperty_eq hnull, hashes_cons_some, addAll]
        cases hadd : OwnedCounts.add proTxHash (getUniquePropertyHash codec sha256d v) map with
        | none =>
          split_ifs
          · rfl
          · rfl
        | some map' => exact ih map'

omit [DecidableEq G] in
theorem forProperties_delete (proTxHash : uint256) (failed : String → String) (invalid : String)
    (vs : List (NamedProperty G)) (map : MnUniquePropertyMap) :
    (forProperties (deleteUniqueProperty codec sha256d proTxHash) failed invalid vs map).toOption =
      if vs.all present then deleteAll proTxHash (hashes codec sha256d vs) map else none := by
  induction vs generalizing map with
  | nil => rfl
  | cons p vs ih =>
    obtain ⟨name, value⟩ := p
    cases value with
    | none => rfl
    | some v =>
      cases hnull : v.isNull with
      | true =>
        have hnot : ((name, some v) :: vs).all present = false := by
          simp only [List.all_cons, present, Option.any_some, hnull, Bool.not_true, Bool.false_and]
        rw [hnot, if_neg Bool.false_ne_true, forProperties, deleteUniqueProperty, if_pos hnull]
        rfl
      | false =>
        have hall : ((name, some v) :: vs).all present = vs.all present := by
          simp only [List.all_cons, present, Option.any_some, hnull, Bool.not_false, Bool.true_and]
        rw [hall, forProperties, deleteUniqueProperty_eq hnull, hashes_cons_some, deleteAll]
        cases hdelete : OwnedCounts.delete proTxHash (getUniquePropertyHash codec sha256d v) map with
        | none =>
          split_ifs
          · rfl
          · rfl
        | some map' => exact ih map'

omit [DecidableEq G] in
/-- A valid entry is no empty value. -/
theorem present_netInfoProperty (e : NetInfoEntry) :
    present (netInfoProperty e : NamedProperty G) = !e.isEmpty := by
  cases e with
  | Invalid => rfl
  | Service s =>
    have hne : s.val ≠ CService.default := by
      intro heq
      have hvalid := s.property
      rw [heq] at hvalid
      exact absurd hvalid (by decide)
    have hnull : (UniqueProperty.service s.val : UniqueProperty G).isNull = false := decide_eq_false hne
    simp only [present, netInfoProperty, NetInfoEntry.getAddrPort, Option.map_some, Option.some_or,
      Option.any_some, hnull, NetInfoEntry.isEmpty, reduceCtorEq, decide_false]
  | Domain d =>
    have hne : d.val ≠ DomainPort.default := by
      intro heq
      have hvalid := d.property
      rw [heq] at hvalid
      exact absurd hvalid (by decide)
    have hnull : (UniqueProperty.domain d.val : UniqueProperty G).isNull = false := decide_eq_false hne
    simp only [present, netInfoProperty, NetInfoEntry.getAddrPort, NetInfoEntry.getDomainPort,
      Option.map_none, Option.map_some, Option.none_or, Option.any_some, hnull,
      NetInfoEntry.isEmpty, reduceCtorEq, decide_false]

/-- Where the two values differ, the old one goes and the new one comes. -/
theorem updateUniqueProperty_eq {oldValue newValue : UniqueProperty G}
    (h : oldValue.equal codec newValue = false) (proTxHash : uint256) (map : MnUniquePropertyMap) :
    updateUniqueProperty codec sha256d proTxHash oldValue newValue map =
      (deleteAll proTxHash (hashOf codec sha256d oldValue) map).bind
        (addAll proTxHash (hashOf codec sha256d newValue)) := by
  have hdelete : (if oldValue.isNull then some map
      else deleteUniqueProperty codec sha256d proTxHash oldValue map) =
      deleteAll proTxHash (hashOf codec sha256d oldValue) map := by
    rw [hashOf]
    split_ifs with hnull
    · rfl
    · rw [deleteUniqueProperty_eq (Bool.not_eq_true _ ▸ hnull)]
      exact (Option.bind_fun_some _).symm
  have hadd : ∀ map, (if newValue.isNull then some map
      else addUniqueProperty codec sha256d proTxHash newValue map) =
      addAll proTxHash (hashOf codec sha256d newValue) map := by
    intro map
    rw [hashOf]
    split_ifs with hnull
    · rfl
    · rw [addUniqueProperty_eq (Bool.not_eq_true _ ▸ hnull)]
      exact (Option.bind_fun_some _).symm
  rw [updateUniqueProperty, h, if_neg Bool.false_ne_true, hdelete]
  exact congrArg _ (funext hadd)

omit [DecidableEq G] in
theorem hashOf_length (v : UniqueProperty G) : (hashOf codec sha256d v).length ≤ 1 := by
  rw [hashOf]
  split_ifs
  · exact Nat.zero_le 1
  · exact le_rfl

theorem eq_ok_of_toOption {ε α : Type*} {r : Except ε α} {a : α} (h : r.toOption = some a) :
    r = .ok a := by
  cases r with
  | error e => exact absurd h (Option.some_ne_none a).symm
  | ok b => rw [Option.some_inj.mp h]

theorem eq_error_of_toOption {ε α : Type*} {r : Except ε α} (h : r.toOption = none) :
    ∃ e, r = .error e := by
  cases r with
  | error e => exact ⟨e, rfl⟩
  | ok a => exact absurd h (Option.some_ne_none a)

section Replacing
variable {props : uint256 → Multiset uint256} {map : MnUniquePropertyMap} {proTxHash : uint256}
  {rest : Multiset uint256}

/-- A value that counts as equal may only be replaced by one with its hash. -/
def Kept (codec : KeyCodec G) (sha256d : List UInt8 → uint256) (oldValue newValue : UniqueProperty G) :
    Prop :=
  oldValue.equal codec newValue = true → hashOf codec sha256d oldValue = hashOf codec sha256d newValue

theorem updateUniqueProperty_replaced {oldValue newValue : UniqueProperty G} (h : Counts props map)
    (hrest : props proTxHash = rest+hashOf codec sha256d oldValue) (hfit : rest.card+1 < 2^32)
    (hkept : Kept codec sha256d oldValue newValue) :
    Replaced props proTxHash rest (hashOf codec sha256d newValue)
      (updateUniqueProperty codec sha256d proTxHash oldValue newValue map) := by
  cases heq : oldValue.equal codec newValue with
  | true =>
    rw [updateUniqueProperty, if_pos heq]
    rw [hkept heq] at hrest
    exact Replaced.keep h hrest
  | false =>
    rw [updateUniqueProperty_eq heq]
    have hlength : (hashOf codec sha256d newValue).length ≤ 1 := hashOf_length newValue
    exact replaceAll_spec h hrest (by omega)

def oldHashes (codec : KeyCodec G) (sha256d : List UInt8 → uint256)
    (vs : List (String × UniqueProperty G × UniqueProperty G)) : List uint256 :=
  vs.flatMap fun p => hashOf codec sha256d p.2.1

def newHashes (codec : KeyCodec G) (sha256d : List UInt8 → uint256)
    (vs : List (String × UniqueProperty G × UniqueProperty G)) : List uint256 :=
  vs.flatMap fun p => hashOf codec sha256d p.2.2

omit [DecidableEq G] in
theorem oldHashes_length (vs : List (String × UniqueProperty G × UniqueProperty G)) :
    (oldHashes codec sha256d vs).length ≤ vs.length := by
  induction vs with
  | nil => exact le_rfl
  | cons p vs ih =>
    have hlength : (hashOf codec sha256d p.2.1).length ≤ 1 := hashOf_length p.2.1
    rw [oldHashes, List.flatMap_cons, List.length_append, List.length_cons]
    rw [oldHashes] at ih
    omega

/-- One property after the other, each replaced next to the new values before it
and the old ones after it. -/
theorem updateUniqueProperties_replaced
    {vs : List (String × UniqueProperty G × UniqueProperty G)} (h : Counts props map)
    (hrest : props proTxHash = rest+oldHashes codec sha256d vs)
    (hfit : rest.card+vs.length < 2^32) (hkept : ∀ p ∈ vs, Kept codec sha256d p.2.1 p.2.2) :
    Replaced props proTxHash rest (newHashes codec sha256d vs)
      (updateUniqueProperties codec sha256d proTxHash vs map).toOption := by
  induction vs generalizing props map rest with
  | nil => exact Replaced.keep h hrest
  | cons p vs ih =>
    obtain ⟨name, oldValue, newValue⟩ := p
    obtain ⟨hhead, htail⟩ := List.forall_mem_cons.mp hkept
    have hold : oldHashes codec sha256d ((name, oldValue, newValue) :: vs) =
        hashOf codec sha256d oldValue++oldHashes codec sha256d vs := rfl
    have hnew : ((newHashes codec sha256d ((name, oldValue, newValue) :: vs) : List uint256) :
        Multiset uint256) = (hashOf codec sha256d newValue : Multiset uint256)+
          newHashes codec sha256d vs := rfl
    have hsplit : props proTxHash =
        (rest+oldHashes codec sha256d vs)+hashOf codec sha256d oldValue := by
      rw [hrest, hold, ← Multiset.coe_add, add_comm (hashOf codec sha256d oldValue : Multiset uint256),
        add_assoc]
    have hcard : (rest+(oldHashes codec sha256d vs : Multiset uint256)).card+1 < 2^32 := by
      have hlength : (oldHashes codec sha256d vs).length ≤ vs.length := oldHashes_length vs
      rw [Multiset.card_add, Multiset.coe_card]
      rw [List.length_cons] at hfit
      omega
    have hfirst := updateUniqueProperty_replaced h hsplit hcard hhead
    have hbind : (updateUniqueProperties codec sha256d proTxHash ((name, oldValue, newValue) :: vs)
        map).toOption = (updateUniqueProperty codec sha256d proTxHash oldValue newValue map).bind
          fun map => (updateUniqueProperties codec sha256d proTxHash vs map).toOption := by
      rw [updateUniqueProperties]
      cases updateUniqueProperty codec sha256d proTxHash oldValue newValue map with
      | none => rfl
      | some map' => rfl
    rw [hnew, hbind]
    refine hfirst.bind fun map' h' => ih h' ?_ ?_ htail
    · rw [Function.update_self, add_assoc, add_assoc,
        add_comm (hashOf codec sha256d newValue : Multiset uint256)]
    · have hlength : (hashOf codec sha256d newValue).length ≤ 1 := hashOf_length newValue
      rw [Multiset.card_add, Multiset.coe_card]
      rw [List.length_cons] at hfit
      dsimp only
      omega

omit [DecidableEq G] in
/-- Addresses that count as equal are the same ones; others are all deleted before
the new ones are added. -/
theorem updateNetInfo_replaced {oldInfo newInfo : NetInfo} (h : Counts props map)
    (hrest : props proTxHash = rest+entryHashes codec sha256d oldInfo)
    (hfit : rest.card+newInfo.getEntries.length < 2^32)
    (hold : oldInfo.getEntries.all fun e => !e.isEmpty)
    (hcoherent : oldInfo.Coherent) (hcoherent' : newInfo.Coherent) :
    (newInfo.getEntries.all fun e => !e.isEmpty) = true ∧
        Replaced props proTxHash rest (entryHashes codec sha256d newInfo)
          (updateNetInfo codec sha256d proTxHash oldInfo newInfo map).toOption ∨
      (newInfo.getEntries.all fun e => !e.isEmpty) = false ∧
        (updateNetInfo codec sha256d proTxHash oldInfo newInfo map).toOption = none := by
  have hpresent : ∀ info : NetInfo,
      (info.getEntries.map netInfoProperty : List (NamedProperty G)).all present =
        info.getEntries.all fun e => !e.isEmpty := by
    intro info
    rw [List.all_map]
    exact congrArg info.getEntries.all (funext present_netInfoProperty)
  rw [updateNetInfo]
  split_ifs with hequal
  · have hperm := NetInfo.perm_of_isEqual hcoherent hcoherent' hequal
    refine Or.inl ⟨?_, ?_⟩
    · rw [← hold]
      exact (hperm.all_eq).symm
    · have hsame : (entryHashes codec sha256d oldInfo : Multiset uint256) =
          entryHashes codec sha256d newInfo :=
        Multiset.coe_eq_coe.mpr ((hperm.map _).filterMap _)
      rw [hsame] at hrest
      exact Replaced.keep h hrest
  · have hlength : (entryHashes codec sha256d newInfo).length ≤ newInfo.getEntries.length := by
      have hle := List.length_filterMap_le (propertyHash codec sha256d)
        (newInfo.getEntries.map netInfoProperty)
      rw [List.length_map] at hle
      exact hle
    have hreplace : Replaced props proTxHash rest (entryHashes codec sha256d newInfo)
        ((deleteAll proTxHash (entryHashes codec sha256d oldInfo) map).bind
          (addAll proTxHash (entryHashes codec sha256d newInfo))) :=
      replaceAll_spec h hrest (by omega)
    have hdelete := @forProperties_delete _ codec sha256d proTxHash
      (fun _ => "internal error") "invalid address" (oldInfo.getEntries.map netInfoProperty) map
    rw [hpresent, hold, if_pos rfl] at hdelete
    have hbind : ∀ (r : Except String MnUniquePropertyMap)
        (f : MnUniquePropertyMap → Except String MnUniquePropertyMap),
        (r >>= f).toOption = r.toOption.bind fun map => (f map).toOption := by
      intro r f
      cases r with
      | error e => rfl
      | ok map => rfl
    rw [hbind, hdelete]
    simp only [forProperties_add, hpresent]
    cases hnew : newInfo.getEntries.all fun e => !e.isEmpty with
    | false =>
      refine Or.inr ⟨rfl, ?_⟩
      simp only [Bool.false_eq_true, if_false]
      exact Option.bind_fun_none _
    | true =>
      refine Or.inl ⟨rfl, ?_⟩
      simp only [if_true]
      exact hreplace

end Replacing

section Masternodes
variable (codec sha256d)

/-- The hashes of a masternode's properties, each as often as it has it. -/
def CDeterministicMN.hashes (dmn : CDeterministicMN G) : Multiset uint256 :=
  (ByValue.hashes codec sha256d dmn.uniqueProperties : List uint256)

variable {codec sha256d}

/-- What a masternode has that can be in a list: every property is there, and their
number fits a counter. -/
structure CDeterministicMN.Registered (dmn : CDeterministicMN G) : Prop where
  present : dmn.uniqueProperties.all present = true
  coherent : dmn.pdmnState.netInfo.Coherent
  fits : dmn.pdmnState.netInfo.getEntries.length+4 < 2^32

omit [DecidableEq G] in
theorem present_uniqueProperties (dmn : CDeterministicMN G) :
    dmn.uniqueProperties.all present = true ↔
      dmn.collateralOutpoint ≠ ⟨0, BitVec.allOnes 32⟩ ∧
        (dmn.pdmnState.netInfo.getEntries.all fun e => !e.isEmpty) = true ∧
          dmn.pdmnState.keyIDOwner ≠ 0 := by
  have hentries : (dmn.pdmnState.netInfo.getEntries.map netInfoProperty :
      List (NamedProperty G)).all present = dmn.pdmnState.netInfo.getEntries.all fun e => !e.isEmpty := by
    rw [List.all_map]
    exact congrArg _ (funext present_netInfoProperty)
  -- an operator key and a platform node are only among the properties where they are there
  have hkey : (if dmn.pdmnState.pubKeyOperator.isDefault then []
      else [(("pubKeyOperator", some (.operatorKey dmn.pdmnState.pubKeyOperator)) :
        NamedProperty G)]).all present = true := by
    split_ifs with hdefault
    · rfl
    · simp only [List.all_cons, List.all_nil, present, Option.any_some, UniqueProperty.isNull,
        hdefault, Bool.not_false, Bool.and_true]
  have hnode : (if dmn.nType = .Evo ∧ dmn.pdmnState.platformNodeID ≠ 0 then
      [(("platformNodeID", some (.nodeID dmn.pdmnState.platformNodeID)) : NamedProperty G)]
      else []).all present = true := by
    split_ifs with hset
    · simp only [List.all_cons, List.all_nil, present, Option.any_some, UniqueProperty.isNull,
        hset.2, decide_false, Bool.not_false, Bool.and_true]
    · rfl
  rw [CDeterministicMN.uniqueProperties, List.all_append, List.all_append, List.all_append, hkey,
    hnode, List.all_cons, hentries]
  simp only [present, Option.any_some, UniqueProperty.isNull, List.all_cons, List.all_nil,
    Bool.and_true, Bool.and_eq_true, Bool.not_eq_true', decide_eq_false_iff_not, ne_eq, and_assoc]

omit [DecidableEq G] in
/-- The outpoint stays, and the rest is what an update replaces. -/
theorem hashes_eq {dmn : CDeterministicMN G} (howner : dmn.pdmnState.keyIDOwner ≠ 0) :
    dmn.hashes codec sha256d =
      {getUniquePropertyHash codec sha256d (.outpoint dmn.collateralOutpoint)}+
        (entryHashes codec sha256d dmn.pdmnState.netInfo+
          (hashOf codec sha256d (.keyID dmn.pdmnState.keyIDOwner)+
            (hashOf codec sha256d (.operatorKey dmn.pdmnState.pubKeyOperator)+
              ((if dmn.nType = .Evo then hashOf codec sha256d (.nodeID dmn.pdmnState.platformNodeID)
                else [] : List uint256) : Multiset uint256)))) := by
  have howner' : hashOf codec sha256d (.keyID dmn.pdmnState.keyIDOwner : UniqueProperty G) =
      [getUniquePropertyHash codec sha256d (.keyID dmn.pdmnState.keyIDOwner)] :=
    if_neg (by simp only [UniqueProperty.isNull, howner, decide_false, Bool.false_eq_true,
      not_false_eq_true])
  have hkey : ByValue.hashes codec sha256d (if dmn.pdmnState.pubKeyOperator.isDefault then []
      else [("pubKeyOperator", some (.operatorKey dmn.pdmnState.pubKeyOperator))]) =
      hashOf codec sha256d (.operatorKey dmn.pdmnState.pubKeyOperator) := by
    rw [hashOf, UniqueProperty.isNull]
    split_ifs
    · rfl
    · rfl
  have hnode : ByValue.hashes codec sha256d
      (if dmn.nType = .Evo ∧ dmn.pdmnState.platformNodeID ≠ 0 then
        [(("platformNodeID", some (.nodeID dmn.pdmnState.platformNodeID)) : NamedProperty G)]
        else []) =
      if dmn.nType = .Evo then hashOf codec sha256d (.nodeID dmn.pdmnState.platformNodeID) else [] := by
    by_cases htype : dmn.nType = .Evo
    · by_cases hzero : dmn.pdmnState.platformNodeID = 0
      · simp only [htype, hzero, ne_eq, not_true_eq_false, and_false, if_false, if_true, hashOf,
          UniqueProperty.isNull, decide_true, ByValue.hashes, List.filterMap_nil]
      · simp only [htype, hzero, ne_eq, not_false_eq_true, and_self, if_true, hashOf,
          UniqueProperty.isNull, decide_false, Bool.false_eq_true, if_false]
        rfl
    · simp only [htype, false_and, if_false, ByValue.hashes, List.filterMap_nil]
  have happend : ∀ vs vs' : List (NamedProperty G), ByValue.hashes codec sha256d (vs++vs') =
      ByValue.hashes codec sha256d vs++ByValue.hashes codec sha256d vs' :=
    fun vs vs' => List.filterMap_append
  rw [CDeterministicMN.hashes, CDeterministicMN.uniqueProperties, happend, happend, happend, hkey,
    hnode, hashes_cons_some, howner', ← Multiset.coe_add, ← Multiset.coe_add, ← Multiset.coe_add,
    ← Multiset.cons_coe, ← Multiset.singleton_add]
  simp only [add_assoc]
  rfl

end Masternodes

section Lists
variable (codec sha256d)

namespace CDeterministicMNList

/-- The hashes that a masternode of the list has, and none for one that is not in
it. -/
def held (list : CDeterministicMNList G) (proTxHash : uint256) : Multiset uint256 :=
  list.mnMap[proTxHash]?.elim 0 (CDeterministicMN.hashes codec sha256d)

/-- The maps of a list say the same: masternodes are under their hashes, the
internal ids are theirs, and the properties are counted under their owners. -/
structure Inv (list : CDeterministicMNList G) : Prop where
  key : ∀ (h : uint256) (dmn : CDeterministicMN G), list.mnMap[h]? = some dmn → dmn.proTxHash = h
  ids : ∀ (id : UInt64) (h : uint256), list.mnInternalIdMap[id]? = some h ↔
    ∃ dmn, list.mnMap[h]? = some dmn ∧ dmn.internalId = id
  registered : ∀ (h : uint256) (dmn : CDeterministicMN G), list.mnMap[h]? = some dmn → dmn.Registered
  properties : Counts (list.held codec sha256d) list.mnUniquePropertyMap

/-- A masternode whose properties are all there, and none of which another
masternode has. -/
structure Admits (list : CDeterministicMNList G) (dmn : CDeterministicMN G) : Prop where
  present : dmn.uniqueProperties.all present = true
  free : ∀ h ≠ dmn.proTxHash, ∀ k ∈ dmn.hashes codec sha256d, k ∉ list.held codec sha256d h

variable {codec sha256d} {list : CDeterministicMNList G} {dmn : CDeterministicMN G}

omit [DecidableEq G] in
theorem held_of_some {h : uint256} (hmn : list.mnMap[h]? = some dmn) :
    list.held codec sha256d h = dmn.hashes codec sha256d := by
  rw [held, hmn]
  rfl

omit [DecidableEq G] in
theorem held_of_none {h : uint256} (hmn : list.mnMap[h]? = none) : list.held codec sha256d h = 0 := by
  rw [held, hmn]
  rfl

omit [DecidableEq G] in
theorem held_insert (h : uint256) (map : MnUniquePropertyMap) (ids : ExtTreeMap UInt64 uint256)
    (count : UInt32) :
    ({list with
      mnMap := list.mnMap.insert h dmn
      mnInternalIdMap := ids
      mnUniquePropertyMap := map
      nTotalRegisteredCount := count} : CDeterministicMNList G).held codec sha256d =
      Function.update (list.held codec sha256d) h (dmn.hashes codec sha256d) := by
  funext h'
  rw [held, getElem?_insert]
  by_cases heq : h = h'
  · subst heq
    rw [if_pos rfl, Function.update_self]
    rfl
  · rw [if_neg heq, Function.update_of_ne (Ne.symm heq), held]

omit [DecidableEq G] in
theorem held_erase (h : uint256) (map : MnUniquePropertyMap) (ids : ExtTreeMap UInt64 uint256) :
    ({list with
      mnMap := list.mnMap.erase h
      mnInternalIdMap := ids
      mnUniquePropertyMap := map} : CDeterministicMNList G).held codec sha256d =
      Function.update (list.held codec sha256d) h 0 := by
  funext h'
  rw [held, getElem?_erase]
  by_cases heq : h = h'
  · subst heq
    rw [if_pos rfl, Function.update_self]
    rfl
  · rw [if_neg heq, Function.update_of_ne (Ne.symm heq), held]

omit [DecidableEq G] in
theorem inv_empty (blockHash : uint256) (nHeight : ℤ) (count : UInt32) :
    Inv codec sha256d
      ({blockHash, nHeight, nTotalRegisteredCount := count} : CDeterministicMNList G) where
  key h dmn hmn := by
    rw [ExtTreeMap.getElem?_empty] at hmn
    exact absurd hmn (Option.some_ne_none dmn).symm
  ids id h := by
    rw [ExtTreeMap.getElem?_empty]
    refine ⟨fun hid => absurd hid (Option.some_ne_none h).symm, ?_⟩
    rintro ⟨dmn, hmn, -⟩
    rw [ExtTreeMap.getElem?_empty] at hmn
    exact absurd hmn (Option.some_ne_none dmn).symm
  registered h dmn hmn := by
    rw [ExtTreeMap.getElem?_empty] at hmn
    exact absurd hmn (Option.some_ne_none dmn).symm
  properties := by
    have hheld : ({blockHash, nHeight, nTotalRegisteredCount := count} :
        CDeterministicMNList G).held codec sha256d = fun _ => 0 := by
      funext h
      exact held_of_none ExtTreeMap.getElem?_empty
    rw [hheld]
    exact counts_empty

omit [DecidableEq G] in
/-- The internal ids of different masternodes differ. -/
theorem Inv.id_injective (hinv : list.Inv codec sha256d) {h h' : uint256} {dmn dmn' : CDeterministicMN G}
    (hmn : list.mnMap[h]? = some dmn) (hmn' : list.mnMap[h']? = some dmn')
    (hid : dmn.internalId = dmn'.internalId) : h = h' := by
  have hget := (hinv.ids dmn.internalId h).mpr ⟨dmn, hmn, rfl⟩
  have hget' := (hinv.ids dmn.internalId h').mpr ⟨dmn', hmn', hid.symm⟩
  rw [hget] at hget'
  exact Option.some_inj.mp hget'

omit [DecidableEq G] in
/-- A masternode with a new hash and a new internal id, whose properties are
counted. -/
theorem inv_insert (hinv : list.Inv codec sha256d) (hmn : list.mnMap[dmn.proTxHash]? = none)
    (hid : list.mnInternalIdMap[dmn.internalId]? = none) (hregistered : dmn.Registered)
    {map : MnUniquePropertyMap} (hmap : Counts
      (Function.update (list.held codec sha256d) dmn.proTxHash (dmn.hashes codec sha256d)) map)
    (count : UInt32) :
    Inv codec sha256d {list with
      mnMap := list.mnMap.insert dmn.proTxHash dmn
      mnInternalIdMap := list.mnInternalIdMap.insert dmn.internalId dmn.proTxHash
      mnUniquePropertyMap := map
      nTotalRegisteredCount := count} where
  key h dmn' hmn' := by
    rw [getElem?_insert] at hmn'
    split_ifs at hmn' with heq
    · rw [← Option.some_inj.mp hmn']
      exact heq
    · exact hinv.key h dmn' hmn'
  ids id h := by
    rw [getElem?_insert, getElem?_insert]
    by_cases hidd : dmn.internalId = id
    · subst hidd
      rw [if_pos rfl, Option.some_inj]
      refine ⟨fun heq => ⟨dmn, by rw [if_pos heq], rfl⟩, ?_⟩
      rintro ⟨dmn', hmn', hid'⟩
      by_contra hne
      rw [if_neg hne] at hmn'
      have hget := (hinv.ids dmn.internalId h).mpr ⟨dmn', hmn', hid'⟩
      rw [hid] at hget
      exact Option.some_ne_none h hget.symm
    · rw [if_neg hidd, hinv.ids]
      constructor
      · rintro ⟨dmn', hmn', hid'⟩
        refine ⟨dmn', ?_, hid'⟩
        rw [if_neg, hmn']
        intro heq
        rw [← heq, hmn] at hmn'
        exact Option.some_ne_none dmn' hmn'.symm
      · rintro ⟨dmn', hmn', hid'⟩
        split_ifs at hmn' with heq
        · rw [← Option.some_inj.mp hmn'] at hid'
          exact absurd hid' hidd
        · exact ⟨dmn', hmn', hid'⟩
  registered h dmn' hmn' := by
    rw [getElem?_insert] at hmn'
    split_ifs at hmn'
    · rw [← Option.some_inj.mp hmn']
      exact hregistered
    · exact hinv.registered h dmn' hmn'
  properties := by
    rw [held_insert]
    exact hmap

omit [DecidableEq G] in
theorem hashes_length_le (dmn : CDeterministicMN G) :
    (ByValue.hashes codec sha256d dmn.uniqueProperties).length ≤
      dmn.pdmnState.netInfo.getEntries.length+4 := by
  have hprops : dmn.uniqueProperties.length ≤ dmn.pdmnState.netInfo.getEntries.length+4 := by
    rw [CDeterministicMN.uniqueProperties]
    simp only [List.length_append, List.length_cons, List.length_map, List.length_nil]
    split_ifs <;> simp only [List.length_cons, List.length_nil] <;> omega
  exact (List.length_filterMap_le _ _).trans hprops

omit [DecidableEq G] in
/-- The properties of a masternode that is not in the list are added exactly where
the list admits it. -/
theorem addProperties_spec (hinv : list.Inv codec sha256d) (hmn : list.mnMap[dmn.proTxHash]? = none)
    (hfits : dmn.pdmnState.netInfo.getEntries.length+4 < 2^32) (failed : String → String)
    (invalid : String) :
    list.Admits codec sha256d dmn ∧ (∃ map,
        forProperties (addUniqueProperty codec sha256d dmn.proTxHash) failed invalid
          dmn.uniqueProperties list.mnUniquePropertyMap = .ok map ∧
        Counts (Function.update (list.held codec sha256d) dmn.proTxHash (dmn.hashes codec sha256d))
          map) ∨
      ¬list.Admits codec sha256d dmn ∧ ∃ reason,
        forProperties (addUniqueProperty codec sha256d dmn.proTxHash) failed invalid
          dmn.uniqueProperties list.mnUniquePropertyMap = .error reason := by
  have hadd := @forProperties_add _ codec sha256d dmn.proTxHash failed invalid
    dmn.uniqueProperties list.mnUniquePropertyMap
  have hnone : list.held codec sha256d dmn.proTxHash = 0 := held_of_none hmn
  have hcard : (list.held codec sha256d dmn.proTxHash).card+
      (ByValue.hashes codec sha256d dmn.uniqueProperties).length < 2^32 := by
    rw [hnone, Multiset.card_zero, zero_add]
    exact (hashes_length_le dmn).trans_lt hfits
  have hall := addAll_spec hinv.properties hcard
  cases hres : forProperties (addUniqueProperty codec sha256d dmn.proTxHash) failed invalid
      dmn.uniqueProperties list.mnUniquePropertyMap with
  | ok map =>
    rw [hres] at hadd
    split_ifs at hadd with hpresent
    · rcases hall with ⟨hothers, map', hmap, hcounts⟩ | ⟨_, hmap⟩
      · rw [hmap] at hadd
        obtain rfl : map = map' := Option.some_inj.mp hadd
        rw [hnone, add_zero] at hcounts
        exact Or.inl ⟨⟨hpresent, fun h hh k hk => hothers h hh k (Multiset.mem_coe.mp hk)⟩, map,
          rfl, hcounts⟩
      · rw [hmap] at hadd
        exact absurd hadd (Option.some_ne_none map)
    · exact absurd hadd (Option.some_ne_none map)
  | error reason =>
    rw [hres] at hadd
    refine Or.inr ⟨fun hadmits => ?_, reason, rfl⟩
    rw [hadmits.present, if_pos rfl] at hadd
    rcases hall with ⟨_, map', hmap, _⟩ | ⟨⟨o, ho, k, hk, hmem⟩, _⟩
    · rw [hmap] at hadd
      exact Option.some_ne_none map' hadd.symm
    · exact hadmits.free o ho k (Multiset.mem_coe.mpr hk) hmem

omit [DecidableEq G] in
/-- A masternode is added exactly where its hash and its internal id are new and the
list admits it. -/
theorem addMN_spec (hinv : list.Inv codec sha256d) (fBumpTotalCount : Bool)
    (hcoherent : dmn.pdmnState.netInfo.Coherent)
    (hfits : dmn.pdmnState.netInfo.getEntries.length+4 < 2^32) :
    (list.mnMap[dmn.proTxHash]? = none ∧ list.mnInternalIdMap[dmn.internalId]? = none ∧
        list.Admits codec sha256d dmn) ∧
      (∃ list', list.addMN codec sha256d dmn fBumpTotalCount = .ok list' ∧
        list' = {list with
          mnMap := list.mnMap.insert dmn.proTxHash dmn
          mnInternalIdMap := list.mnInternalIdMap.insert dmn.internalId dmn.proTxHash
          mnUniquePropertyMap := list'.mnUniquePropertyMap
          nTotalRegisteredCount := list'.nTotalRegisteredCount} ∧
        list'.nTotalRegisteredCount = (if fBumpTotalCount then
            (max (dmn.internalId+1) list.nTotalRegisteredCount.toUInt64).toUInt32
            else list.nTotalRegisteredCount) ∧
        list'.Inv codec sha256d) ∨
    ¬(list.mnMap[dmn.proTxHash]? = none ∧ list.mnInternalIdMap[dmn.internalId]? = none ∧
        list.Admits codec sha256d dmn) ∧
      ∃ reason, list.addMN codec sha256d dmn fBumpTotalCount = .error reason := by
  rw [addMN]
  by_cases hmem : dmn.proTxHash ∈ list.mnMap
  · rw [if_pos hmem]
    refine Or.inr ⟨fun h => ?_, _, rfl⟩
    exact notMem_iff.mpr h.1 hmem
  rw [if_neg hmem]
  by_cases hid : dmn.internalId ∈ list.mnInternalIdMap
  · rw [if_pos hid]
    refine Or.inr ⟨fun h => ?_, _, rfl⟩
    exact notMem_iff.mpr h.2.1 hid
  rw [if_neg hid]
  rw [notMem_iff] at hmem hid
  rcases addProperties_spec hinv hmem hfits ("with a duplicate "++·) "with invalid address" with
    ⟨hadmits, map, hres, hcounts⟩ | ⟨hnot, reason, hres⟩
  · rw [hres]
    have hregistered : dmn.Registered := ⟨hadmits.present, hcoherent, hfits⟩
    exact Or.inl ⟨⟨hmem, hid, hadmits⟩, _, rfl, rfl, rfl,
      inv_insert hinv hmem hid hregistered hcounts _⟩
  · rw [hres]
    exact Or.inr ⟨fun h => hnot h.2.2, _, rfl⟩

variable (codec sha256d) in
/-- What an update may do to a state: it keeps an owner key, and where the operator
key counts as equal it is the same one in the same scheme. -/
structure Follows (oldState newState : CDeterministicMNState G) : Prop where
  owner : newState.keyIDOwner ≠ 0
  key : Kept codec sha256d (.operatorKey oldState.pubKeyOperator)
    (.operatorKey newState.pubKeyOperator)
  coherent : newState.netInfo.Coherent
  fits : newState.netInfo.getEntries.length+4 < 2^32

theorem kept_changedProperties {nType : MnType} {oldState newState : CDeterministicMNState G}
    (hfollows : Follows codec sha256d oldState newState) :
    ∀ p ∈ changedProperties nType oldState newState, Kept codec sha256d p.2.1 p.2.2 := by
  have howner : Kept codec sha256d (.keyID oldState.keyIDOwner : UniqueProperty G)
      (.keyID newState.keyIDOwner) := fun heq => congrArg _ (of_decide_eq_true heq)
  have hnode : Kept codec sha256d (.nodeID oldState.platformNodeID : UniqueProperty G)
      (.nodeID newState.platformNodeID) := fun heq => congrArg _ (of_decide_eq_true heq)
  intro p hp
  rw [changedProperties] at hp
  rcases List.mem_append.mp hp with hp | hp
  · rcases List.mem_cons.mp hp with rfl | hp
    · exact howner
    · rw [List.mem_singleton.mp hp]
      exact hfollows.key
  · split_ifs at hp
    · rw [List.mem_singleton.mp hp]
      exact hnode
    · exact absurd hp List.not_mem_nil

omit [DecidableEq G] in
theorem newHashes_changedProperties (nType : MnType) (oldState newState : CDeterministicMNState G) :
    (newHashes codec sha256d (changedProperties nType oldState newState) : Multiset uint256) =
      hashOf codec sha256d (.keyID newState.keyIDOwner)+
        (hashOf codec sha256d (.operatorKey newState.pubKeyOperator)+
          ((if nType = .Evo then hashOf codec sha256d (.nodeID newState.platformNodeID)
            else [] : List uint256) : Multiset uint256)) := by
  rw [changedProperties, newHashes]
  split_ifs
  · simp only [List.flatMap_append, List.flatMap_cons, List.flatMap_nil, List.append_nil,
      ← Multiset.coe_add, add_assoc]
  · simp only [List.flatMap_cons, List.flatMap_nil, List.append_nil, ← Multiset.coe_add,
      Multiset.coe_nil, add_zero]

omit [DecidableEq G] in
theorem oldHashes_changedProperties (nType : MnType) (oldState newState : CDeterministicMNState G) :
    (oldHashes codec sha256d (changedProperties nType oldState newState) : Multiset uint256) =
      hashOf codec sha256d (.keyID oldState.keyIDOwner)+
        (hashOf codec sha256d (.operatorKey oldState.pubKeyOperator)+
          ((if nType = .Evo then hashOf codec sha256d (.nodeID oldState.platformNodeID)
            else [] : List uint256) : Multiset uint256)) := by
  rw [changedProperties, oldHashes]
  split_ifs
  · simp only [List.flatMap_append, List.flatMap_cons, List.flatMap_nil, List.append_nil,
      ← Multiset.coe_add, add_assoc]
  · simp only [List.flatMap_cons, List.flatMap_nil, List.append_nil, ← Multiset.coe_add,
      Multiset.coe_nil, add_zero]

/-- The property updates go through exactly where the list admits the new state. -/
theorem updateProperties_spec (hinv : list.Inv codec sha256d) {h : uint256}
    (hmn : list.mnMap[h]? = some dmn) {newState : CDeterministicMNState G}
    (hfollows : Follows codec sha256d dmn.pdmnState newState) :
    list.Admits codec sha256d {dmn with pdmnState := newState} ∧ (∃ map,
        updateProperties codec sha256d dmn newState list.mnUniquePropertyMap = .ok map ∧
        Counts (Function.update (list.held codec sha256d) dmn.proTxHash
          (CDeterministicMN.hashes codec sha256d {dmn with pdmnState := newState})) map) ∨
      ¬list.Admits codec sha256d {dmn with pdmnState := newState} ∧
        ∃ reason, updateProperties codec sha256d dmn newState list.mnUniquePropertyMap =
          .error reason := by
  have hreg := hinv.registered h dmn hmn
  obtain ⟨houtpoint, hentries, howner⟩ := (present_uniqueProperties dmn).mp hreg.present
  have hkey := hinv.key h dmn hmn
  subst hkey
  have hheld : list.held codec sha256d dmn.proTxHash = dmn.hashes codec sha256d := held_of_some hmn
  have hnewHashes := @hashes_eq _ codec sha256d {dmn with pdmnState := newState} hfollows.owner
  have hpresent : (CDeterministicMN.uniqueProperties
      {dmn with pdmnState := newState}).all present = true ↔
      (newState.netInfo.getEntries.all fun e => !e.isEmpty) = true := by
    rw [present_uniqueProperties]
    exact ⟨fun hp => hp.2.1, fun hp => ⟨houtpoint, hp, hfollows.owner⟩⟩
  -- the addresses are replaced first, next to the outpoint and the other old properties
  let changed := changedProperties dmn.nType dmn.pdmnState newState
  let outpoint := getUniquePropertyHash codec sha256d
    (.outpoint dmn.collateralOutpoint : UniqueProperty G)
  have hrest : list.held codec sha256d dmn.proTxHash =
      ({outpoint}+(oldHashes codec sha256d changed : Multiset uint256))+
        entryHashes codec sha256d dmn.pdmnState.netInfo := by
    rw [hheld, hashes_eq howner, oldHashes_changedProperties, add_assoc,
      add_comm (entryHashes codec sha256d dmn.pdmnState.netInfo : Multiset uint256)]
  have hchanged : changed.length ≤ 3 := by
    simp only [changed, changedProperties, List.length_append, List.length_cons, List.length_nil]
    split_ifs <;> simp only [List.length_cons, List.length_nil] <;> omega
  have hold : (oldHashes codec sha256d changed).length ≤ 3 :=
    (oldHashes_length changed).trans hchanged
  have hfits := hfollows.fits
  have hcard : (({outpoint} : Multiset uint256)+
      (oldHashes codec sha256d changed : Multiset uint256)).card+
      newState.netInfo.getEntries.length < 2^32 := by
    rw [Multiset.card_add, Multiset.card_singleton, Multiset.coe_card]
    omega
  have haddresses := updateNetInfo_replaced hinv.properties hrest hcard hentries hreg.coherent
    hfollows.coherent
  have hbind : (updateProperties codec sha256d dmn newState list.mnUniquePropertyMap).toOption =
      (updateNetInfo codec sha256d dmn.proTxHash dmn.pdmnState.netInfo newState.netInfo
        list.mnUniquePropertyMap).toOption.bind fun map =>
          (updateUniqueProperties codec sha256d dmn.proTxHash changed map).toOption := by
    rw [updateProperties]
    cases updateNetInfo codec sha256d dmn.proTxHash dmn.pdmnState.netInfo newState.netInfo
        list.mnUniquePropertyMap with
    | error err => rfl
    | ok map => rfl
  rcases haddresses with ⟨hnew, hreplaced⟩ | ⟨hnew, hnone⟩
  · have hchange : ∀ map', Counts (Function.update (list.held codec sha256d) dmn.proTxHash
        (({outpoint}+(oldHashes codec sha256d changed : Multiset uint256))+
          entryHashes codec sha256d newState.netInfo)) map' →
        Replaced (Function.update (list.held codec sha256d) dmn.proTxHash
          (({outpoint}+(oldHashes codec sha256d changed : Multiset uint256))+
            entryHashes codec sha256d newState.netInfo)) dmn.proTxHash
          ({outpoint}+(entryHashes codec sha256d newState.netInfo : Multiset uint256))
          (newHashes codec sha256d changed)
          (updateUniqueProperties codec sha256d dmn.proTxHash changed map').toOption := by
      intro map' hmap'
      apply updateUniqueProperties_replaced hmap'
      · rw [Function.update_self, add_assoc, add_assoc,
          add_comm (oldHashes codec sha256d changed : Multiset uint256)]
      · have hle := List.length_filterMap_le (propertyHash codec sha256d)
          (newState.netInfo.getEntries.map netInfoProperty)
        rw [List.length_map] at hle
        rw [Multiset.card_add, Multiset.card_singleton, Multiset.coe_card, entryHashes,
          ByValue.hashes]
        omega
      · exact kept_changedProperties hfollows
    have hall := hreplaced.bind hchange
    rw [← hbind, newHashes_changedProperties] at hall
    rcases hall with ⟨hothers, map, hmap, hcounts⟩ | ⟨⟨o, ho, k, hk, hmem⟩, hmap⟩
    · refine Or.inl ⟨⟨hpresent.mpr hnew, fun h hh k hk hmem => ?_⟩, map, eq_ok_of_toOption hmap, ?_⟩
      · rw [hnewHashes] at hk
        rcases Multiset.mem_add.mp hk with hk | hk
        · -- the outpoint is this masternode's already
          have hown : k ∈ list.held codec sha256d dmn.proTxHash := by
            rw [hrest, add_assoc]
            exact Multiset.mem_add.mpr (Or.inl hk)
          exact hh (hinv.properties.owner_unique hmem hown)
        · exact hothers h hh k hk hmem
      · rw [hnewHashes]
        exact hcounts
    · refine Or.inr ⟨fun hadmits => ?_, eq_error_of_toOption hmap⟩
      refine hadmits.free o ho k ?_ hmem
      rw [hnewHashes]
      exact Multiset.mem_add.mpr (Or.inr hk)
  · refine Or.inr ⟨fun hadmits => ?_, eq_error_of_toOption ?_⟩
    · have htrue := hpresent.mp hadmits.present
      rw [hnew] at htrue
      exact Bool.false_ne_true htrue
    · rw [hbind, hnone]
      rfl

omit [DecidableEq G] in
/-- A masternode's new state, whose properties are counted. -/
theorem inv_replace (hinv : list.Inv codec sha256d) {h : uint256} (hmn : list.mnMap[h]? = some dmn)
    {newState : CDeterministicMNState G}
    (hregistered : CDeterministicMN.Registered {dmn with pdmnState := newState})
    {map : MnUniquePropertyMap} (hmap : Counts (Function.update (list.held codec sha256d)
      dmn.proTxHash (CDeterministicMN.hashes codec sha256d {dmn with pdmnState := newState})) map) :
    Inv codec sha256d {list with
      mnMap := list.mnMap.insert dmn.proTxHash {dmn with pdmnState := newState}
      mnUniquePropertyMap := map} := by
  have hkey := hinv.key h dmn hmn
  subst hkey
  refine ⟨fun h dmn' hmn' => ?_, fun id h => ?_, fun h dmn' hmn' => ?_, ?_⟩
  · rw [getElem?_insert] at hmn'
    split_ifs at hmn' with heq
    · rw [← Option.some_inj.mp hmn']
      exact heq
    · exact hinv.key h dmn' hmn'
  · rw [hinv.ids, getElem?_insert]
    by_cases heq : dmn.proTxHash = h
    · subst heq
      rw [if_pos rfl, hmn]
      constructor
      · rintro ⟨dmn', hmn', hid⟩
        rw [← Option.some_inj.mp hmn'] at hid
        exact ⟨_, rfl, hid⟩
      · rintro ⟨dmn', hmn', hid⟩
        rw [← Option.some_inj.mp hmn'] at hid
        exact ⟨dmn, rfl, hid⟩
    · rw [if_neg heq]
  · rw [getElem?_insert] at hmn'
    split_ifs at hmn'
    · rw [← Option.some_inj.mp hmn']
      exact hregistered
    · exact hinv.registered h dmn' hmn'
  · rw [held_insert dmn.proTxHash map list.mnInternalIdMap list.nTotalRegisteredCount]
    exact hmap

/-- A masternode of the list is updated exactly where the list admits its new
state. -/
theorem updateMN_spec (hinv : list.Inv codec sha256d) {h : uint256}
    (hmn : list.mnMap[h]? = some dmn) {newState : CDeterministicMNState G}
    (hfollows : Follows codec sha256d dmn.pdmnState newState) :
    list.Admits codec sha256d {dmn with pdmnState := newState} ∧ (∃ list',
        list.updateMN codec sha256d dmn newState = .ok list' ∧
        list' = {list with
          mnMap := list.mnMap.insert dmn.proTxHash {dmn with pdmnState := newState}
          mnUniquePropertyMap := list'.mnUniquePropertyMap} ∧
        list'.Inv codec sha256d) ∨
      ¬list.Admits codec sha256d {dmn with pdmnState := newState} ∧
        ∃ reason, list.updateMN codec sha256d dmn newState = .error reason := by
  rw [updateMN]
  rcases updateProperties_spec hinv hmn hfollows with ⟨hadmits, map, hres, hcounts⟩ |
    ⟨hnot, reason, hres⟩
  · rw [hres]
    have hregistered : CDeterministicMN.Registered {dmn with pdmnState := newState} :=
      ⟨hadmits.present, hfollows.coherent, hfollows.fits⟩
    exact Or.inl ⟨hadmits, _, rfl, rfl, inv_replace hinv hmn hregistered hcounts⟩
  · rw [hres]
    exact Or.inr ⟨hnot, reason, rfl⟩

omit [DecidableEq G] in
/-- Every masternode of the list can be removed. -/
theorem removeMN_spec (hinv : list.Inv codec sha256d) {h : uint256}
    (hmn : list.mnMap[h]? = some dmn) : ∃ list',
      list.removeMN codec sha256d h = .ok list' ∧
      list' = {list with
        mnMap := list.mnMap.erase h
        mnInternalIdMap := list.mnInternalIdMap.erase dmn.internalId
        mnUniquePropertyMap := list'.mnUniquePropertyMap} ∧
      list'.Inv codec sha256d := by
  have hkey := hinv.key h dmn hmn
  subst hkey
  have hheld : list.held codec sha256d dmn.proTxHash = dmn.hashes codec sha256d := held_of_some hmn
  have hreg := hinv.registered dmn.proTxHash dmn hmn
  have hall : (ByValue.hashes codec sha256d dmn.uniqueProperties : Multiset uint256) ≤
      list.held codec sha256d dmn.proTxHash := le_of_eq hheld.symm
  obtain ⟨map, hmap, hcounts⟩ := deleteAll_spec hinv.properties hall
  have hdelete := @forProperties_delete _ codec sha256d dmn.proTxHash
    (fun name => if name = "address" then "with an address" else "with a "++name)
    "with invalid address" dmn.uniqueProperties list.mnUniquePropertyMap
  rw [hreg.present, if_pos rfl, hmap] at hdelete
  have hzero : list.held codec sha256d dmn.proTxHash-
      (ByValue.hashes codec sha256d dmn.uniqueProperties : Multiset uint256) = 0 := by
    rw [hheld]
    exact tsub_self _
  rw [hzero] at hcounts
  refine ⟨_, by rw [removeMN, getMN, hmn]; dsimp only; rw [eq_ok_of_toOption hdelete], rfl, ?_, ?_, ?_, ?_⟩
  · intro h dmn' hmn'
    rw [getElem?_erase] at hmn'
    split_ifs at hmn'
    exact hinv.key h dmn' hmn'
  · intro id h
    rw [getElem?_erase, getElem?_erase]
    by_cases hid : dmn.internalId = id
    · subst hid
      rw [if_pos rfl]
      refine ⟨fun hid => absurd hid (Option.some_ne_none h).symm, ?_⟩
      rintro ⟨dmn', hmn', hid⟩
      split_ifs at hmn' with heq
      exact absurd (hinv.id_injective hmn hmn' hid.symm) heq
    · rw [if_neg hid, hinv.ids]
      constructor
      · rintro ⟨dmn', hmn', hid'⟩
        refine ⟨dmn', ?_, hid'⟩
        rw [if_neg, hmn']
        intro heq
        rw [← heq, hmn] at hmn'
        rw [← Option.some_inj.mp hmn'] at hid'
        exact hid hid'
      · rintro ⟨dmn', hmn', hid'⟩
        split_ifs at hmn'
        exact ⟨dmn', hmn', hid'⟩
  · intro h dmn' hmn'
    rw [getElem?_erase] at hmn'
    split_ifs at hmn'
    exact hinv.registered h dmn' hmn'
  · rw [held_erase]
    exact hcounts

end CDeterministicMNList

end Lists

end ByValue

end BabaChain.Evo
