import BabaChain.MasternodeList

/-! What an entry of a simplified list is hashed as, whatever state its key is in. -/
namespace BabaChain.Evo
open ByteWriter BLS

variable {G : Type*} (codec : KeyCodec G)

namespace CSimplifiedMNListEntry

/-- The bytes that an entry is hashed as, with those of the value of its key. -/
def bytes (store : KeyStore G) (e : CSimplifiedMNListEntry) : List UInt8 :=
  let key := CBLSLazyPublicKey.valueBytes codec e.legacy (store.value codec e.pubKeyOperator)
  e.beforeKey++key.toList++e.afterKey

def Live (store : KeyStore G) (e : CSimplifiedMNListEntry) : Prop :=
  store.Live codec e.legacy e.pubKeyOperator

end CSimplifiedMNListEntry

namespace CSimplifiedMNList

def Live (store : KeyStore G) (sml : CSimplifiedMNList) : Prop :=
  ∀ e ∈ sml.mnList, e.Live codec store

def bytes (store : KeyStore G) (sml : CSimplifiedMNList) : List (List UInt8) :=
  sml.mnList.map (CSimplifiedMNListEntry.bytes codec store)

end CSimplifiedMNList

variable {codec} {store store' : KeyStore G} {sha256d : List UInt8 → uint256}

section Entries
variable {e e' : CSimplifiedMNListEntry} {es es' : List CSimplifiedMNListEntry}

theorem live_evolves (h : e.Live codec store) (he : store.Evolves codec store') :
    e.Live codec store' := KeyStore.Live.evolves h he

theorem bytes_evolves (h : e.Live codec store) (he : store.Evolves codec store') :
    e.bytes codec store' = e.bytes codec store := by
  have hvalue := KeyStore.Live.value_evolves h he
  rw [CSimplifiedMNListEntry.bytes, CSimplifiedMNListEntry.bytes, hvalue]

theorem map_bytes_evolves (h : ∀ e ∈ es, e.Live codec store) (he : store.Evolves codec store') :
    es.map (CSimplifiedMNListEntry.bytes codec store') =
      es.map (CSimplifiedMNListEntry.bytes codec store) :=
  List.map_congr_left fun e hmem => bytes_evolves (h e hmem) he

theorem serialize_spec (h : e.Live codec store) :
    (e.serialize codec store).1 = e.bytes codec store ∧
      store.Evolves codec (e.serialize codec store).2 := by
  obtain ⟨hkey, he⟩ := KeyStore.serialize_spec h
  refine ⟨?_, he⟩
  rw [CSimplifiedMNListEntry.bytes, ← hkey]
  rfl

theorem calcHashes_spec (h : ∀ e ∈ es, e.Live codec store) :
    (CSimplifiedMNList.calcHashes codec sha256d es store).1 =
        (es.map (CSimplifiedMNListEntry.bytes codec store)).map sha256d ∧
      store.Evolves codec (CSimplifiedMNList.calcHashes codec sha256d es store).2 := by
  induction es generalizing store with
  | nil => exact ⟨rfl, KeyStore.evolves_refl store⟩
  | cons e rest ih =>
    obtain ⟨hlive, hrest⟩ := List.forall_mem_cons.mp h
    obtain ⟨hbytes, he⟩ := serialize_spec hlive
    obtain ⟨hleaves, he'⟩ := ih fun e hmem => live_evolves (hrest e hmem) he
    rw [map_bytes_evolves hrest he] at hleaves
    refine ⟨?_, he.trans he'⟩
    rw [List.map_cons, List.map_cons, ← hleaves, ← hbytes]
    rfl

theorem calcMerkleRoot_spec {sml : CSimplifiedMNList} (h : sml.Live codec store) :
    (sml.calcMerkleRoot codec sha256d store).1 =
        CSimplifiedMNList.computeMerkleRoot sha256d ((sml.bytes codec store).map sha256d) ∧
      store.Evolves codec (sml.calcMerkleRoot codec sha256d store).2 := by
  obtain ⟨hleaves, he⟩ := @calcHashes_spec _ _ _ sha256d _ h
  exact ⟨congrArg (CSimplifiedMNList.computeMerkleRoot sha256d) hleaves, he⟩

variable [DecidableEq G]

/-- Entries that compare equal are hashed as the same bytes. -/
theorem equal_spec (h : e.Live codec store) (h' : e'.Live codec store) :
    ((e.equal codec e' store).1 = true → e.bytes codec store = e'.bytes codec store) ∧
      store.Evolves codec (e.equal codec e' store).2 := by
  rw [CSimplifiedMNListEntry.equal]
  split_ifs with hfirst
  · obtain ⟨hhash, hconfirmed, hinfo⟩ := hfirst
    obtain ⟨hkey, he⟩ := KeyStore.equal_spec h h'
    refine ⟨fun heq => ?_, he⟩
    obtain ⟨hsame, hrest⟩ := Bool.and_eq_true_iff.mp heq
    obtain ⟨hvoting, hvalid, hversion, htype, hport, hnode⟩ := of_decide_eq_true hrest
    have hvalue := hkey hsame
    -- the fields the comparison reads fix the bytes around the key and its scheme
    have hbefore : e.beforeKey = e'.beforeKey := by
      rw [CSimplifiedMNListEntry.beforeKey, hhash, hconfirmed, NetInfo.isEqual_serialize hinfo]
      rfl
    have hafter : e.afterKey = e'.afterKey := by
      rw [CSimplifiedMNListEntry.afterKey, hvoting, hvalid, hversion, htype, hport, hnode]
      rfl
    have hlegacy : e.legacy = e'.legacy := by
      rw [CSimplifiedMNListEntry.legacy, hversion]
      rfl
    rw [CSimplifiedMNListEntry.bytes, CSimplifiedMNListEntry.bytes, hbefore, hafter, hlegacy,
      hvalue]
  · exact ⟨fun heq => heq.elim, KeyStore.evolves_refl store⟩

theorem notEqual_spec (h : e.Live codec store) (h' : e'.Live codec store) :
    ((e.notEqual codec e' store).1 = false → e.bytes codec store = e'.bytes codec store) ∧
      store.Evolves codec (e.notEqual codec e' store).2 := by
  obtain ⟨hequal, he⟩ := equal_spec h' h
  refine ⟨fun hsame => (hequal ?_).symm, he⟩
  rw [← Bool.not_eq_false']
  exact hsame

theorem equalEntries_spec (hlen : es.length = es'.length) (h : ∀ e ∈ es, e.Live codec store)
    (h' : ∀ e ∈ es', e.Live codec store) :
    ((CSimplifiedMNList.equalEntries codec es es' store).1 = true →
        es.map (CSimplifiedMNListEntry.bytes codec store) =
          es'.map (CSimplifiedMNListEntry.bytes codec store)) ∧
      store.Evolves codec (CSimplifiedMNList.equalEntries codec es es' store).2 := by
  induction es generalizing es' store with
  | nil =>
    have hnil : es' = [] := List.length_eq_zero_iff.mp hlen.symm
    subst hnil
    exact ⟨fun _ => rfl, KeyStore.evolves_refl store⟩
  | cons e rest ih =>
    cases es' with
    | nil => exact absurd hlen (Nat.succ_ne_zero _)
    | cons e' rest' =>
      obtain ⟨hlive, hrest⟩ := List.forall_mem_cons.mp h
      obtain ⟨hlive', hrest'⟩ := List.forall_mem_cons.mp h'
      obtain ⟨hbytes, he⟩ := equal_spec hlive hlive'
      rw [CSimplifiedMNList.equalEntries]
      cases heq : e.equal codec e' store with
      | mk same store₁ =>
        rw [heq] at hbytes he
        cases same with
        | false => exact ⟨fun hsame => absurd hsame Bool.false_ne_true, he⟩
        | true =>
          -- comparing two keys fills their caches, and the bytes of the rest stay
          obtain ⟨hmap, he'⟩ := ih (Nat.succ.inj hlen)
            (fun e hmem => live_evolves (hrest e hmem) he)
            fun e hmem => live_evolves (hrest' e hmem) he
          rw [map_bytes_evolves hrest he, map_bytes_evolves hrest' he] at hmap
          refine ⟨fun hsame => ?_, he.trans he'⟩
          rw [List.map_cons, List.map_cons, hbytes rfl, hmap hsame]

theorem sml_equal_spec {sml sml' : CSimplifiedMNList} (h : sml.Live codec store)
    (h' : sml'.Live codec store) :
    ((sml.equal codec sml' store).1 = true → sml.bytes codec store = sml'.bytes codec store) ∧
      store.Evolves codec (sml.equal codec sml' store).2 := by
  rw [CSimplifiedMNList.equal]
  split_ifs with hlen
  · exact equalEntries_spec hlen h h'
  · exact ⟨fun heq => heq.elim, KeyStore.evolves_refl store⟩

end Entries

section Masternodes

/-- The scheme of the key in the entries of a state. -/
def CDeterministicMNState.legacy (state : CDeterministicMNState) : Bool :=
  decide (UInt16.ofInt state.nVersion = LegacyBLS)

variable (codec) in
/-- The key of a state is in use, and faithful for the version of the state. -/
def CDeterministicMNState.Live (store : KeyStore G) (state : CDeterministicMNState) : Prop :=
  store.Live codec state.legacy state.pubKeyOperator

instance [DecidableEq G] (store : KeyStore G) (state : CDeterministicMNState) :
    Decidable (state.Live codec store) :=
  inferInstanceAs (Decidable (store.Live codec state.legacy state.pubKeyOperator))

/-- The entry of a masternode, with its key at the given address. -/
def CDeterministicMN.entryAt (dmn : CDeterministicMN) (pubKeyOperator : KeyRef) :
    CSimplifiedMNListEntry where
  proRegTxHash := dmn.proTxHash
  confirmedHash := dmn.pdmnState.confirmedHash
  netInfo := dmn.pdmnState.netInfo
  pubKeyOperator
  keyIDVoting := dmn.pdmnState.keyIDVoting
  isValid := !dmn.pdmnState.isBanned
  platformHTTPPort := dmn.pdmnState.platformHTTPPort
  platformNodeID := dmn.pdmnState.platformNodeID
  scriptPayout := dmn.pdmnState.scriptPayout
  scriptOperatorPayout := dmn.pdmnState.scriptOperatorPayout
  nVersion := UInt16.ofInt dmn.pdmnState.nVersion
  nType := dmn.nType

variable (codec) in
def CDeterministicMN.bytes (store : KeyStore G) (dmn : CDeterministicMN) : List UInt8 :=
  (dmn.entryAt dmn.pdmnState.pubKeyOperator).bytes codec store

variable {dmn : CDeterministicMN} {dmns : List CDeterministicMN}

theorem mn_bytes_evolves (h : dmn.pdmnState.Live codec store) (he : store.Evolves codec store') :
    dmn.bytes codec store' = dmn.bytes codec store :=
  bytes_evolves (e := dmn.entryAt dmn.pdmnState.pubKeyOperator) h he

theorem map_mn_bytes_evolves (h : ∀ dmn ∈ dmns, dmn.pdmnState.Live codec store)
    (he : store.Evolves codec store') :
    dmns.map (CDeterministicMN.bytes codec store') =
      dmns.map (CDeterministicMN.bytes codec store) :=
  List.map_congr_left fun dmn hmem => mn_bytes_evolves (h dmn hmem) he

/-- The entry of a masternode is hashed as the masternode is. -/
theorem to_sml_entry_spec (h : dmn.pdmnState.Live codec store) :
    (dmn.to_sml_entry store).1.Live codec (dmn.to_sml_entry store).2 ∧
      (dmn.to_sml_entry store).1.bytes codec (dmn.to_sml_entry store).2 = dmn.bytes codec store ∧
      store.Evolves codec (dmn.to_sml_entry store).2 := by
  obtain ⟨hlive, hvalue, he⟩ := KeyStore.copyOf_spec h
  refine ⟨hlive, ?_, he⟩
  -- the entries differ in the address of the key alone
  let e := dmn.entryAt dmn.pdmnState.pubKeyOperator
  exact congrArg (fun v => e.beforeKey++
    (CBLSLazyPublicKey.valueBytes codec e.legacy v).toList++e.afterKey) hvalue

theorem toSmlEntries_spec (h : ∀ dmn ∈ dmns, dmn.pdmnState.Live codec store) :
    (∀ e ∈ (CDeterministicMNList.toSmlEntries dmns store).1,
        e.Live codec (CDeterministicMNList.toSmlEntries dmns store).2) ∧
      (CDeterministicMNList.toSmlEntries dmns store).1.map
          (CSimplifiedMNListEntry.bytes codec (CDeterministicMNList.toSmlEntries dmns store).2) =
        dmns.map (CDeterministicMN.bytes codec store) ∧
      store.Evolves codec (CDeterministicMNList.toSmlEntries dmns store).2 := by
  induction dmns generalizing store with
  | nil => exact ⟨fun e hmem => absurd hmem List.not_mem_nil, rfl, KeyStore.evolves_refl store⟩
  | cons dmn rest ih =>
    obtain ⟨hdmn, hrest⟩ := List.forall_mem_cons.mp h
    obtain ⟨hlive, hbytes, he⟩ := to_sml_entry_spec hdmn
    have hrest' : ∀ mn ∈ rest, mn.pdmnState.Live codec (dmn.to_sml_entry store).2 :=
      fun mn hmem => KeyStore.Live.evolves (hrest mn hmem) he
    obtain ⟨hlives, hmap, he'⟩ := ih hrest'
    refine ⟨?_, ?_, he.trans he'⟩
    · intro e hmem
      rcases List.mem_cons.mp hmem with rfl | hmem
      · exact live_evolves hlive he'
      · exact hlives e hmem
    · rw [map_mn_bytes_evolves hrest he] at hmap
      rw [List.map_cons, ← hmap, ← hbytes, ← bytes_evolves hlive he']
      rfl

/-- The hashes of the entries are those of the masternodes. -/
theorem toSmlEntries_proRegTxHash (dmns : List CDeterministicMN) (store : KeyStore G) :
    (CDeterministicMNList.toSmlEntries dmns store).1.map CSimplifiedMNListEntry.proRegTxHash =
      dmns.map CDeterministicMN.proTxHash := by
  induction dmns generalizing store with
  | nil => rfl
  | cons dmn rest ih =>
    rw [List.map_cons, ← ih (dmn.to_sml_entry store).2]
    rfl

end Masternodes

end BabaChain.Evo
