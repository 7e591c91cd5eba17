import BabaChain.EntryBytes

/-! What every operation on a masternode list keeps: its keys stand for what they
stood for, and its cached simplified list is hashed as its masternodes are. -/
namespace BabaChain.Evo
open BLS OrdMap
open Std (ExtTreeMap)

variable {G : Type*} {codec : KeyCodec G} {sha256d : List UInt8 → uint256}

section Properties
variable {s : Properties G} {v v' : UniqueProperty}

theorem property_serialize_evolves (v : UniqueProperty) (store : KeyStore G) :
    store.Evolves codec (v.serialize codec store).2 := by
  cases v with
  | operatorKey r => exact KeyStore.serializeOwn_evolves r store
  | _ => exact KeyStore.evolves_refl store

theorem addUniqueProperty_evolves (proTxHash : uint256) (v : UniqueProperty) (s : Properties G) :
    s.2.Evolves codec (addUniqueProperty codec sha256d proTxHash v s).2.2 := by
  obtain ⟨map, store⟩ := s
  have he := @property_serialize_evolves _ codec v store
  simp only [addUniqueProperty, getUniquePropertyHash]
  split_ifs
  · exact KeyStore.evolves_refl store
  · cases map[sha256d (v.serialize codec store).1]? with
    | none => exact he
    | some oldEntry =>
      dsimp only
      split_ifs
      · exact he
      · exact he

theorem deleteUniqueProperty_evolves (proTxHash : uint256) (v : UniqueProperty)
    (s : Properties G) : s.2.Evolves codec (deleteUniqueProperty codec sha256d proTxHash v s).2.2 := by
  obtain ⟨map, store⟩ := s
  have he := @property_serialize_evolves _ codec v store
  simp only [deleteUniqueProperty, getUniquePropertyHash]
  split_ifs
  · exact KeyStore.evolves_refl store
  · cases map[sha256d (v.serialize codec store).1]? with
    | none => exact he
    | some p =>
      dsimp only
      split_ifs
      · exact he
      · exact he
      · exact he

/-- A property that is a key is the key of some state. -/
def PropertyLive (codec : KeyCodec G) (store : KeyStore G) : UniqueProperty → Prop
  | .operatorKey r => ∃ legacy, store.Live codec legacy r
  | _ => True

theorem propertyLive_evolves {store store' : KeyStore G} (h : PropertyLive codec store v)
    (he : store.Evolves codec store') : PropertyLive codec store' v := by
  cases v with
  | operatorKey r =>
    obtain ⟨legacy, hr⟩ := h
    exact ⟨legacy, KeyStore.Live.evolves hr he⟩
  | _ => trivial

variable [DecidableEq G]

theorem property_equal_evolves {store : KeyStore G} (h : PropertyLive codec store v)
    (h' : PropertyLive codec store v') : store.Evolves codec (v.equal codec store v').2 := by
  cases v with
  | operatorKey r =>
    cases v' with
    | operatorKey r' =>
      obtain ⟨legacy, hr⟩ := h
      obtain ⟨legacy', hr'⟩ := h'
      exact (KeyStore.equal_spec hr hr').2
    | _ => exact KeyStore.evolves_refl store
  | _ => exact KeyStore.evolves_refl store

theorem updateUniqueProperty_evolves (proTxHash : uint256) (h : PropertyLive codec s.2 v)
    (h' : PropertyLive codec s.2 v') :
    s.2.Evolves codec (updateUniqueProperty codec sha256d proTxHash v v' s).2.2 := by
  have hequal := property_equal_evolves h h'
  -- after the comparison, the old value goes and the new one comes
  have hdelete : ∀ store : KeyStore G, store.Evolves codec
      (if v.isNull store then (true, s.1, store)
        else deleteUniqueProperty codec sha256d proTxHash v (s.1, store)).2.2 := by
    intro store
    split_ifs
    · exact KeyStore.evolves_refl store
    · exact deleteUniqueProperty_evolves proTxHash v (s.1, store)
  have hadd : ∀ t : Bool × Properties G, t.2.2.Evolves codec
      (if !t.1 then (false, t.2.1, t.2.2)
        else if v'.isNull t.2.2 then (true, t.2.1, t.2.2)
        else addUniqueProperty codec sha256d proTxHash v' (t.2.1, t.2.2)).2.2 := by
    intro t
    split_ifs
    · exact KeyStore.evolves_refl t.2.2
    · exact KeyStore.evolves_refl t.2.2
    · exact addUniqueProperty_evolves proTxHash v' (t.2.1, t.2.2)
  rw [updateUniqueProperty]
  cases hsame : (v.equal codec s.2 v').1 with
  | true =>
    simp only [hsame, if_true]
    exact hequal
  | false =>
    simp only [hsame, Bool.false_eq_true, if_false]
    exact (hequal.trans (hdelete _)).trans (hadd _)

omit [DecidableEq G] in
theorem forProperties_evolves {op : UniqueProperty → Properties G → Bool × Properties G}
    (hop : ∀ (v : UniqueProperty) (s : Properties G), s.2.Evolves codec (op v s).2.2) (failed : String → String) (invalid : String)
    (vs : List NamedProperty) (s : Properties G) :
    s.2.Evolves codec (forProperties op failed invalid vs s).2.2 := by
  induction vs generalizing s with
  | nil => exact KeyStore.evolves_refl s.2
  | cons named rest ih =>
    obtain ⟨name, value⟩ := named
    cases value with
    | none => exact KeyStore.evolves_refl s.2
    | some v =>
      have he := hop v s
      rw [forProperties]
      cases hres : op v s with
      | mk done s' =>
        rw [hres] at he
        cases done with
        | false => exact he
        | true => exact he.trans (ih s')

omit [DecidableEq G] in
theorem updateNetInfo_evolves (proTxHash : uint256) (oldInfo newInfo : NetInfo)
    (s : Properties G) :
    s.2.Evolves codec (updateNetInfo codec sha256d proTxHash oldInfo newInfo s).2.2 := by
  rw [updateNetInfo]
  split_ifs
  · exact KeyStore.evolves_refl s.2
  · have hdelete := @forProperties_evolves _ codec _
      (@deleteUniqueProperty_evolves _ _ sha256d proTxHash) (fun _ => "internal error")
      "invalid address" (oldInfo.getEntries.map netInfoProperty) s
    split
    · next heq =>
      rw [heq] at hdelete
      exact hdelete
    · next s' heq =>
      rw [heq] at hdelete
      exact hdelete.trans (forProperties_evolves (addUniqueProperty_evolves proTxHash) _ _ _ s')

theorem updateUniqueProperties_evolves (proTxHash : uint256)
    {vs : List (String × UniqueProperty × UniqueProperty)} {s : Properties G}
    (h : ∀ p ∈ vs, PropertyLive codec s.2 p.2.1 ∧ PropertyLive codec s.2 p.2.2) :
    s.2.Evolves codec (updateUniqueProperties codec sha256d proTxHash vs s).2.2 := by
  induction vs generalizing s with
  | nil => exact KeyStore.evolves_refl s.2
  | cons p rest ih =>
    obtain ⟨name, oldValue, newValue⟩ := p
    obtain ⟨hlive, hrest⟩ := List.forall_mem_cons.mp h
    have he := @updateUniqueProperty_evolves _ _ sha256d _ _ _ _ proTxHash hlive.1 hlive.2
    rw [updateUniqueProperties]
    cases hres : updateUniqueProperty codec sha256d proTxHash oldValue newValue s with
    | mk done s' =>
      rw [hres] at he
      cases done with
      | false => exact he
      | true =>
        refine he.trans (ih fun p hmem => ?_)
        obtain ⟨hold, hnew⟩ := hrest p hmem
        exact ⟨propertyLive_evolves hold he, propertyLive_evolves hnew he⟩

end Properties

section Lists
variable {store store' : KeyStore G} {list : CDeterministicMNList} {dmn : CDeterministicMN}

variable (codec) in
/-- The bytes that the masternodes of a list are hashed as, in the order of their
hashes. -/
def CDeterministicMNList.bytes (store : KeyStore G) (list : CDeterministicMNList) :
    List (List UInt8) :=
  list.mnMap.toList.map fun p => p.2.bytes codec store

variable (codec) in
/-- Every masternode is under its hash, with a key that is faithful for its
version; a cached simplified list is hashed as the masternodes are. -/
structure CDeterministicMNList.Inv (store : KeyStore G) (list : CDeterministicMNList) : Prop where
  mn : ∀ (h : uint256) (dmn : CDeterministicMN), list.mnMap[h]? = some dmn →
    dmn.proTxHash = h ∧ dmn.pdmnState.Live codec store
  sml : ∀ sml : CSimplifiedMNList, list.m_cached_sml = some sml →
    sml.Live codec store ∧ sml.bytes codec store = list.bytes codec store

theorem inv_empty (store : KeyStore G) : CDeterministicMNList.Inv codec store {} where
  mn h dmn hmn := by
    rw [ExtTreeMap.getElem?_empty] at hmn
    exact absurd hmn (Option.some_ne_none dmn).symm
  sml sml hsml := absurd hsml (Option.some_ne_none sml).symm

theorem CDeterministicMNList.Inv.live (h : list.Inv codec store) :
    ∀ dmn ∈ list.mnMap.toList.map Prod.snd, dmn.pdmnState.Live codec store := by
  intro dmn hmem
  obtain ⟨p, hp, rfl⟩ := List.mem_map.mp hmem
  exact (h.mn p.1 p.2 (mem_toList hp)).2

theorem list_bytes_evolves (h : list.Inv codec store) (he : store.Evolves codec store') :
    list.bytes codec store' = list.bytes codec store := by
  have hmap := map_mn_bytes_evolves h.live he
  rw [List.map_map, List.map_map] at hmap
  exact hmap

theorem CDeterministicMNList.Inv.evolves (h : list.Inv codec store)
    (he : store.Evolves codec store') : list.Inv codec store' where
  mn a dmn hmn := by
    obtain ⟨hhash, hlive⟩ := h.mn a dmn hmn
    exact ⟨hhash, KeyStore.Live.evolves hlive he⟩
  sml sml hsml := by
    obtain ⟨hlive, hbytes⟩ := h.sml sml hsml
    refine ⟨fun e hmem => live_evolves (hlive e hmem) he, ?_⟩
    rw [list_bytes_evolves h he, ← hbytes]
    exact map_bytes_evolves hlive he

/-- Without a cached list, only the masternodes matter. -/
theorem inv_of_uncached (hsml : list.m_cached_sml = none)
    (hmn : ∀ (h : uint256) (dmn : CDeterministicMN), list.mnMap[h]? = some dmn →
      dmn.proTxHash = h ∧ dmn.pdmnState.Live codec store) : list.Inv codec store where
  mn := hmn
  sml sml heq := by
    rw [hsml] at heq
    exact absurd heq (Option.some_ne_none sml).symm

/-- Entries that come in the order of the keys of a map are sorted already. -/
theorem ofEntries_of_keys {ν : Type*} {m : ExtTreeMap uint256 ν} {es : List CSimplifiedMNListEntry}
    (h : es.map CSimplifiedMNListEntry.proRegTxHash = m.toList.map Prod.fst) :
    (CSimplifiedMNList.ofEntries es).mnList = es := by
  apply List.Pairwise.insertionSort_eq
  rw [← List.pairwise_map (f := CSimplifiedMNListEntry.proRegTxHash) (R := (· ≤ ·)), h,
    List.pairwise_map]
  apply List.Pairwise.imp _ ExtTreeMap.ordered_keys_toList
  intro p q hlt
  have hlt' : p.1 < q.1 := compareOfLessAndEq_eq_lt.mp hlt
  exact BitVec.le_of_lt hlt'

theorem ofEntries_toSmlEntries (h : list.Inv codec store) :
    (CSimplifiedMNList.ofEntries
        (CDeterministicMNList.toSmlEntries (list.mnMap.toList.map Prod.snd) store).1).mnList =
      (CDeterministicMNList.toSmlEntries (list.mnMap.toList.map Prod.snd) store).1 := by
  apply ofEntries_of_keys (m := list.mnMap)
  rw [toSmlEntries_proRegTxHash, List.map_map]
  apply List.map_congr_left
  intro p hp
  exact (h.mn p.1 p.2 (mem_toList hp)).1

theorem to_sml_spec (h : list.Inv codec store) :
    (list.to_sml store).1.Live codec (list.to_sml store).2.2 ∧
      (list.to_sml store).1.bytes codec (list.to_sml store).2.2 = list.bytes codec store ∧
      (list.to_sml store).2.1.mnMap = list.mnMap ∧
      (list.to_sml store).2.1.Inv codec (list.to_sml store).2.2 ∧
      store.Evolves codec (list.to_sml store).2.2 := by
  rw [CDeterministicMNList.to_sml]
  cases hcached : list.m_cached_sml with
  | some sml =>
    obtain ⟨hlive, hbytes⟩ := h.sml sml hcached
    exact ⟨hlive, hbytes, rfl, h, KeyStore.evolves_refl store⟩
  | none =>
    obtain ⟨hlive, hbytes, he⟩ := toSmlEntries_spec h.live
    have hsorted := ofEntries_toSmlEntries h
    have hsml : list.bytes codec store =
        (list.mnMap.toList.map Prod.snd).map (CDeterministicMN.bytes codec store) := by
      rw [List.map_map]
      rfl
    dsimp only
    rw [CSimplifiedMNList.Live, CSimplifiedMNList.bytes, hsorted]
    refine ⟨hlive, hbytes.trans hsml.symm, rfl, ⟨(h.evolves he).mn, ?_⟩, he⟩
    intro sml heq
    obtain rfl := Option.some.inj heq
    rw [CSimplifiedMNList.Live, CSimplifiedMNList.bytes, hsorted]
    refine ⟨hlive, ?_⟩
    rw [hbytes, ← hsml, ← list_bytes_evolves h he]
    rfl

/-- What `AddMN` does to the list: nothing, or it adds the masternode. -/
theorem addMN_cases (dmn : CDeterministicMN) (fBumpTotalCount : Bool)
    (list : CDeterministicMNList) (store : KeyStore G) :
    store.Evolves codec (list.addMN codec sha256d dmn fBumpTotalCount store).2.2 ∧
      ((list.addMN codec sha256d dmn fBumpTotalCount store).2.1 = list ∨
        (list.addMN codec sha256d dmn fBumpTotalCount store).2.1.mnMap =
            list.mnMap.insert dmn.proTxHash dmn ∧
          (list.addMN codec sha256d dmn fBumpTotalCount store).2.1.m_cached_sml = none) := by
  rw [CDeterministicMNList.addMN]
  by_cases hhash : dmn.proTxHash ∈ list.mnMap
  · rw [if_pos hhash]
    exact ⟨KeyStore.evolves_refl store, Or.inl rfl⟩
  rw [if_neg hhash]
  by_cases hid : dmn.internalId ∈ list.mnInternalIdMap
  · rw [if_pos hid]
    exact ⟨KeyStore.evolves_refl store, Or.inl rfl⟩
  rw [if_neg hid]
  have he := @forProperties_evolves _ codec _
    (@addUniqueProperty_evolves _ _ sha256d dmn.proTxHash) ("with a duplicate "++·)
    "with invalid address" (dmn.uniqueProperties store) (list.mnUniquePropertyMap, store)
  revert he
  generalize forProperties _ _ _ _ _ = result
  obtain ⟨verdict, map, store'⟩ := result
  intro he
  cases verdict with
  | error reason => exact ⟨he, Or.inl rfl⟩
  | ok _ => exact ⟨he, Or.inr ⟨rfl, rfl⟩⟩

theorem removeMN_cases (proTxHash : uint256) (list : CDeterministicMNList) (store : KeyStore G) :
    store.Evolves codec (list.removeMN codec sha256d proTxHash store).2.2 ∧
      ((list.removeMN codec sha256d proTxHash store).2.1 = list ∨
        (list.removeMN codec sha256d proTxHash store).2.1.mnMap = list.mnMap.erase proTxHash ∧
          (list.removeMN codec sha256d proTxHash store).2.1.m_cached_sml = none) := by
  rw [CDeterministicMNList.removeMN]
  cases list.getMN proTxHash with
  | none => exact ⟨KeyStore.evolves_refl store, Or.inl rfl⟩
  | some dmn =>
    have he := @forProperties_evolves _ codec _
      (@deleteUniqueProperty_evolves _ _ sha256d dmn.proTxHash)
      (fun name => if name = "address" then "with an address" else "with a "++name)
      "with invalid address" (dmn.uniqueProperties store) (list.mnUniquePropertyMap, store)
    revert he
    dsimp only
    generalize forProperties _ _ _ _ _ = result
    obtain ⟨verdict, map, store'⟩ := result
    intro he
    cases verdict with
    | error reason => exact ⟨he, Or.inl rfl⟩
    | ok _ => exact ⟨he, Or.inr ⟨rfl, rfl⟩⟩

/-- `AddMN` with a key that is faithful for the version of its state. -/
theorem addMN_spec (h : list.Inv codec store) (hdmn : dmn.pdmnState.Live codec store)
    (fBumpTotalCount : Bool) :
    (list.addMN codec sha256d dmn fBumpTotalCount store).2.1.Inv codec
      (list.addMN codec sha256d dmn fBumpTotalCount store).2.2 := by
  obtain ⟨he, hlist | ⟨hmap, hsml⟩⟩ :=
    @addMN_cases _ codec sha256d dmn fBumpTotalCount list store
  · rw [hlist]
    exact h.evolves he
  · apply inv_of_uncached hsml
    intro a mn hmn
    rw [hmap, getElem?_insert] at hmn
    split_ifs at hmn with ha
    · obtain rfl := Option.some.inj hmn
      exact ⟨ha, KeyStore.Live.evolves hdmn he⟩
    · exact (h.evolves he).mn a mn hmn

theorem removeMN_spec (h : list.Inv codec store) (proTxHash : uint256) :
    (list.removeMN codec sha256d proTxHash store).2.1.Inv codec
      (list.removeMN codec sha256d proTxHash store).2.2 := by
  obtain ⟨he, hlist | ⟨hmap, hsml⟩⟩ :=
    @removeMN_cases _ codec sha256d proTxHash list store
  · rw [hlist]
    exact h.evolves he
  · apply inv_of_uncached hsml
    intro a mn hmn
    rw [hmap, getElem?_erase] at hmn
    split_ifs at hmn with ha
    exact (h.evolves he).mn a mn hmn

theorem changedProperties_live {nType : MnType} {oldState newState : CDeterministicMNState}
    (hold : oldState.Live codec store) (hnew : newState.Live codec store) :
    ∀ p ∈ changedProperties nType oldState newState,
      PropertyLive codec store p.2.1 ∧ PropertyLive codec store p.2.2 := by
  intro p hmem
  rw [changedProperties] at hmem
  rcases List.mem_append.mp hmem with hmem | hmem
  · rcases List.mem_cons.mp hmem with rfl | hmem
    · exact ⟨trivial, trivial⟩
    · rw [List.mem_singleton.mp hmem]
      exact ⟨⟨_, hold⟩, ⟨_, hnew⟩⟩
  · split_ifs at hmem
    · rw [List.mem_singleton.mp hmem]
      exact ⟨trivial, trivial⟩
    · exact absurd hmem List.not_mem_nil

variable [DecidableEq G]

theorem updateProperties_evolves {oldDmn : CDeterministicMN} {pdmnState : CDeterministicMNState}
    {s : Properties G} (hold : oldDmn.pdmnState.Live codec s.2) (hnew : pdmnState.Live codec s.2) :
    s.2.Evolves codec
      (CDeterministicMNList.updateProperties codec sha256d oldDmn pdmnState s).2.2 := by
  have hinfo := @updateNetInfo_evolves _ codec sha256d oldDmn.proTxHash
    oldDmn.pdmnState.netInfo pdmnState.netInfo s
  rw [CDeterministicMNList.updateProperties]
  revert hinfo
  generalize updateNetInfo codec sha256d _ _ _ _ = result
  obtain ⟨verdict, s'⟩ := result
  intro hinfo
  cases verdict with
  | error err => exact hinfo
  | ok _ =>
    have hold' : oldDmn.pdmnState.Live codec s'.2 := KeyStore.Live.evolves hold hinfo
    have hnew' : pdmnState.Live codec s'.2 := KeyStore.Live.evolves hnew hinfo
    exact hinfo.trans
      (updateUniqueProperties_evolves oldDmn.proTxHash (changedProperties_live hold' hnew'))

/-- A cached list that survives an update has the masternode as it is now. -/
theorem refreshSml_spec {oldDmn : CDeterministicMN} (hold : oldDmn.pdmnState.Live codec store)
    (hnew : dmn.pdmnState.Live codec store) (list : CDeterministicMNList) :
    (CDeterministicMNList.refreshSml codec oldDmn dmn list store).1.mnMap = list.mnMap ∧
      (∀ sml : CSimplifiedMNList,
        (CDeterministicMNList.refreshSml codec oldDmn dmn list store).1.m_cached_sml = some sml →
          list.m_cached_sml = some sml ∧ dmn.bytes codec store = oldDmn.bytes codec store) ∧
      store.Evolves codec (CDeterministicMNList.refreshSml codec oldDmn dmn list store).2 := by
  rw [CDeterministicMNList.refreshSml]
  cases hcached : list.m_cached_sml with
  | none =>
    refine ⟨rfl, fun sml heq => ?_, KeyStore.evolves_refl store⟩
    dsimp only at heq
    rw [hcached] at heq
    exact absurd heq (Option.some_ne_none sml).symm
  | some cached =>
    obtain ⟨hlive, hbytes, he⟩ := to_sml_entry_spec hold
    dsimp only
    generalize oldDmn.to_sml_entry store = old at hlive hbytes he
    obtain ⟨old_entry, store₁⟩ := old
    have hnew' : dmn.pdmnState.Live codec store₁ := KeyStore.Live.evolves hnew he
    obtain ⟨hlive', hbytes', he'⟩ := to_sml_entry_spec hnew'
    generalize dmn.to_sml_entry store₁ = new at hlive' hbytes' he'
    obtain ⟨entry, store₂⟩ := new
    obtain ⟨hsame, he''⟩ := notEqual_spec (live_evolves hlive he') hlive'
    generalize old_entry.notEqual codec entry store₂ = compared at hsame he''
    obtain ⟨changed, store₃⟩ := compared
    have hall := (he.trans he').trans he''
    cases changed with
    | true => exact ⟨rfl, fun sml heq => absurd heq (Option.some_ne_none sml).symm, hall⟩
    | false =>
      have hentries := hsame rfl
      rw [bytes_evolves hlive he', hbytes, hbytes', mn_bytes_evolves hnew he] at hentries
      exact ⟨rfl, fun sml heq => ⟨hcached ▸ heq, hentries.symm⟩, hall⟩

theorem updateMN_cases {oldDmn : CDeterministicMN} {pdmnState : CDeterministicMNState}
    (hold : oldDmn.pdmnState.Live codec store) (hnew : pdmnState.Live codec store)
    (list : CDeterministicMNList) :
    store.Evolves codec (list.updateMN codec sha256d oldDmn pdmnState store).2.2 ∧
      ((list.updateMN codec sha256d oldDmn pdmnState store).2.1 = list ∨
        (list.updateMN codec sha256d oldDmn pdmnState store).2.1.mnMap =
            list.mnMap.insert oldDmn.proTxHash {oldDmn with pdmnState} ∧
          ∀ sml : CSimplifiedMNList,
            (list.updateMN codec sha256d oldDmn pdmnState store).2.1.m_cached_sml = some sml →
              list.m_cached_sml = some sml ∧
                CDeterministicMN.bytes codec store {oldDmn with pdmnState} =
                  oldDmn.bytes codec store) := by
  have he := @updateProperties_evolves _ _ sha256d _ _ _ (list.mnUniquePropertyMap, store)
    hold hnew
  rw [CDeterministicMNList.updateMN]
  revert he
  generalize CDeterministicMNList.updateProperties codec sha256d _ _ _ = result
  obtain ⟨verdict, map, store'⟩ := result
  intro he
  cases verdict with
  | error reason => exact ⟨he, Or.inl rfl⟩
  | ok _ =>
    have hold' : oldDmn.pdmnState.Live codec store' := KeyStore.Live.evolves hold he
    have hnew' : pdmnState.Live codec store' := KeyStore.Live.evolves hnew he
    obtain ⟨hmap, hsml, he'⟩ := @refreshSml_spec _ _ _ {oldDmn with pdmnState} _ _ hold' hnew'
      {list with
        mnUniquePropertyMap := map
        mnMap := list.mnMap.insert oldDmn.proTxHash {oldDmn with pdmnState}}
    refine ⟨he.trans he', Or.inr ⟨hmap, fun sml heq => ?_⟩⟩
    obtain ⟨hcached, hbytes⟩ := hsml sml heq
    rw [@mn_bytes_evolves _ _ _ _ {oldDmn with pdmnState} hnew he, mn_bytes_evolves hold he] at hbytes
    exact ⟨hcached, hbytes⟩

/-- `UpdateMN` of the entry that is in the list, with a key that is faithful for
the version of the new state. -/
theorem updateMN_spec {oldDmn : CDeterministicMN} {pdmnState : CDeterministicMNState}
    (h : list.Inv codec store) (hcurrent : list.getMN oldDmn.proTxHash = some oldDmn)
    (hnew : pdmnState.Live codec store) :
    (list.updateMN codec sha256d oldDmn pdmnState store).2.1.Inv codec
        (list.updateMN codec sha256d oldDmn pdmnState store).2.2 ∧
      store.Evolves codec (list.updateMN codec sha256d oldDmn pdmnState store).2.2 := by
  have hold := (h.mn _ _ hcurrent).2
  obtain ⟨he, hlist | ⟨hmap, hsml⟩⟩ := @updateMN_cases _ _ sha256d _ _ _ _ hold hnew list
  · rw [hlist]
    exact ⟨h.evolves he, he⟩
  · have hmn : ∀ (a : uint256) (mn : CDeterministicMN),
        (list.updateMN codec sha256d oldDmn pdmnState store).2.1.mnMap[a]? = some mn →
          mn.proTxHash = a ∧
            mn.pdmnState.Live codec (list.updateMN codec sha256d oldDmn pdmnState store).2.2 := by
      intro a mn hmn
      rw [hmap, getElem?_insert] at hmn
      split_ifs at hmn with ha
      · obtain rfl := Option.some.inj hmn
        exact ⟨ha, KeyStore.Live.evolves hnew he⟩
      · exact (h.evolves he).mn a mn hmn
    refine ⟨⟨hmn, fun sml heq => ?_⟩, he⟩
    obtain ⟨hcached, hbytes⟩ := hsml sml heq
    obtain ⟨hlive, hsmlBytes⟩ := (h.evolves he).sml sml hcached
    refine ⟨hlive, hsmlBytes.trans ?_⟩
    -- only one masternode has changed, and it is hashed as before
    rw [CDeterministicMNList.bytes, CDeterministicMNList.bytes, hmap]
    refine (map_toList_insert (CDeterministicMN.bytes codec _) hcurrent ?_).symm
    rw [@mn_bytes_evolves _ _ _ _ {oldDmn with pdmnState} hnew he, mn_bytes_evolves hold he]
    exact hbytes

theorem updateMNByHash_spec {pdmnState : CDeterministicMNState} (h : list.Inv codec store)
    (proTxHash : uint256) (hnew : pdmnState.Live codec store) :
    (list.updateMNByHash codec sha256d proTxHash pdmnState store).2.1.Inv codec
        (list.updateMNByHash codec sha256d proTxHash pdmnState store).2.2 ∧
      store.Evolves codec (list.updateMNByHash codec sha256d proTxHash pdmnState store).2.2 := by
  rw [CDeterministicMNList.updateMNByHash]
  cases hmn : list.getMN proTxHash with
  | none => exact ⟨h, KeyStore.evolves_refl store⟩
  | some oldDmn =>
    have hhash := (h.mn proTxHash oldDmn hmn).1
    have hcurrent : list.getMN oldDmn.proTxHash = some oldDmn := by
      rw [hhash]
      exact hmn
    exact updateMN_spec h hcurrent hnew

end Lists

end BabaChain.Evo
