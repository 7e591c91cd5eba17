import BabaChain.MasternodeRoot

/-! Differences of simplified lists, and the light client that applies them. -/
namespace BabaChain.Evo
open ByteWriter BLS OrdMap Runs
open Std (ExtTreeMap)

variable {G : Type*} [DecidableEq G] (codec : KeyCodec G) (sha256d : List UInt8 → uint256)

/-- The part of `CSimplifiedMNListDiff` that is about masternodes. -/
structure CSimplifiedMNListDiff where
  baseBlockHash : uint256
  blockHash : uint256
  deletedMNs : List uint256
  mnList : List CSimplifiedMNListEntry

/-- The loop over the masternodes of the list to reach. -/
def diffEntries (fromList : CDeterministicMNList) (extended : Bool) :
    List CDeterministicMN → KeyStore G → List CSimplifiedMNListEntry × KeyStore G
  | [], store => ([], store)
  | toPtr :: rest, store =>
    match fromList.getMN toPtr.proTxHash with
    | none =>
      let (sme, store) := toPtr.to_sml_entry store
      let (mnList, store) := diffEntries fromList extended rest store
      (sme :: mnList, store)
    | some fromPtr =>
      let (sme1, store) := toPtr.to_sml_entry store
      let (sme2, store) := fromPtr.to_sml_entry store
      let (differ, store) := sme1.notEqual codec sme2 store
      let (mnList, store) := diffEntries fromList extended rest store
      -- the payout scripts are no part of the comparison above
      if differ || (extended && (decide (sme1.scriptPayout ≠ sme2.scriptPayout) ||
          decide (sme1.scriptOperatorPayout ≠ sme2.scriptOperatorPayout))) then
        (sme1 :: mnList, store)
      else (mnList, store)

def buildSimplifiedDiff (fromList toList : CDeterministicMNList) (extended : Bool) (store : KeyStore G) :
    CSimplifiedMNListDiff × KeyStore G :=
  let (mnList, store) := diffEntries codec fromList extended (toList.mnMap.toList.map Prod.snd) store
  ({baseBlockHash := fromList.blockHash
    blockHash := toList.blockHash
    deletedMNs := ((fromList.mnMap.toList.map Prod.snd).map CDeterministicMN.proTxHash).filter
      fun proTxHash => (toList.getMN proTxHash).isNone
    mnList}, store)

/-- The client of the functional tests keeps its entries by hash. -/
abbrev ClientList := ExtTreeMap uint256 CSimplifiedMNListEntry

def ClientList.write (m : ClientList) (mnList : List CSimplifiedMNListEntry) : ClientList :=
  mnList.foldl (fun m e => m.insert e.proRegTxHash e) m

/-- The client drops the deleted entries and writes those of the difference over. -/
def ClientList.update (sml : CSimplifiedMNList) (diff : CSimplifiedMNListDiff) : ClientList :=
  let m := ClientList.write ∅ sml.mnList
  ClientList.write (diff.deletedMNs.foldl (fun m proTxHash => m.erase proTxHash) m) diff.mnList

def applyDiff (sml : CSimplifiedMNList) (diff : CSimplifiedMNListDiff) : CSimplifiedMNList :=
  .ofEntries ((ClientList.update sml diff).toList.map Prod.snd)

/-- A client that has the first list reaches the root of the second. -/
def SyncsExactly (n : Node G) (i j : ℕ) : Prop :=
  let (fromSml, _, store) := (n.lists i).to_sml n.store
  let (diff, store) := buildSimplifiedDiff codec (n.lists i) (n.lists j) false store
  let (toSml, _, store) := (n.lists j).to_sml store
  ((applyDiff fromSml diff).calcMerkleRoot codec sha256d store).1 =
    (toSml.calcMerkleRoot codec sha256d store).1

variable {codec sha256d} {store store' : KeyStore G}

omit [DecidableEq G] in
/-- The bytes of an entry begin with its hash. -/
theorem proRegTxHash_of_bytes {e e' : CSimplifiedMNListEntry}
    (h : e.bytes codec store = e'.bytes codec store') : e.proRegTxHash = e'.proRegTxHash := by
  have htake : ∀ (e : CSimplifiedMNListEntry) (store : KeyStore G),
      (e.bytes codec store).take 32 = writeUint256 e.proRegTxHash := by
    intro e store
    rw [CSimplifiedMNListEntry.bytes, CSimplifiedMNListEntry.beforeKey]
    simp only [List.append_assoc]
    exact List.take_left' (length_writeBE 32 _)
  have hbytes := congrArg (List.take 32) h
  rw [htake, htake] at hbytes
  exact BitVec.eq_of_toNat_eq (writeBE_injOn 32 e.proRegTxHash.isLt e'.proRegTxHash.isLt hbytes)

/-- One masternode of the list to reach: its entry is in the difference, or the
other list has it hashed as it is here. -/
theorem diffEntries_cons {fromList : CDeterministicMNList} (hfrom : fromList.Inv codec store)
    {dmn : CDeterministicMN} (hdmn : dmn.pdmnState.Live codec store) (rest : List CDeterministicMN) :
    ∃ store₁, store.Evolves codec store₁ ∧
      ((∃ e : CSimplifiedMNListEntry, e.Live codec store₁ ∧
          e.bytes codec store₁ = dmn.bytes codec store ∧
          diffEntries codec fromList false (dmn :: rest) store =
            (e :: (diffEntries codec fromList false rest store₁).1,
              (diffEntries codec fromList false rest store₁).2)) ∨
        ((∃ f, fromList.getMN dmn.proTxHash = some f ∧
            f.bytes codec store = dmn.bytes codec store) ∧
          diffEntries codec fromList false (dmn :: rest) store =
            diffEntries codec fromList false rest store₁)) := by
  obtain ⟨hlive, hbytes, he⟩ := to_sml_entry_spec hdmn
  rw [diffEntries]
  cases hf : fromList.getMN dmn.proTxHash with
  | none => exact ⟨_, he, Or.inl ⟨_, hlive, hbytes, rfl⟩⟩
  | some fromPtr =>
    dsimp only
    generalize dmn.to_sml_entry store = to_ at hlive hbytes he
    obtain ⟨sme1, store₁⟩ := to_
    have hfromLive : fromPtr.pdmnState.Live codec store := (hfrom.mn _ _ hf).2
    obtain ⟨hlive', hbytes', he'⟩ :=
      to_sml_entry_spec (KeyStore.Live.evolves hfromLive he : fromPtr.pdmnState.Live codec store₁)
    generalize fromPtr.to_sml_entry store₁ = from_ at hlive' hbytes' he'
    obtain ⟨sme2, store₂⟩ := from_
    have hlive₂ := live_evolves hlive he'
    obtain ⟨hsame, he''⟩ := notEqual_spec hlive₂ hlive'
    generalize sme1.notEqual codec sme2 store₂ = compared at hsame he''
    obtain ⟨differ, store₃⟩ := compared
    refine ⟨store₃, (he.trans he').trans he'', ?_⟩
    -- the comparison may call equal entries different, never the other way
    cases differ with
    | true =>
      refine Or.inl ⟨sme1, live_evolves hlive₂ he'', ?_, rfl⟩
      rw [bytes_evolves hlive₂ he'', bytes_evolves hlive he', hbytes]
    | false =>
      refine Or.inr ⟨⟨fromPtr, rfl, ?_⟩, rfl⟩
      have hentries := hsame rfl
      rw [bytes_evolves hlive he', hbytes, hbytes', mn_bytes_evolves hfromLive he] at hentries
      exact hentries.symm

/-- Every entry of a difference is a masternode of the list to reach, and every
masternode of that list is in the difference or unchanged. -/
structure Covers (codec : KeyCodec G) (store : KeyStore G) (fromList : CDeterministicMNList)
    (dmns : List CDeterministicMN) (mnList : List CSimplifiedMNListEntry) : Prop where
  sound : ∀ e ∈ mnList, e.Live codec store ∧
    ∃ dmn ∈ dmns, e.bytes codec store = dmn.bytes codec store
  complete : ∀ dmn ∈ dmns, (∃ e ∈ mnList, e.bytes codec store = dmn.bytes codec store) ∨
    ∃ f, fromList.getMN dmn.proTxHash = some f ∧ f.bytes codec store = dmn.bytes codec store

theorem diffEntries_spec {fromList : CDeterministicMNList} (hfrom : fromList.Inv codec store)
    {dmns : List CDeterministicMN} (h : ∀ dmn ∈ dmns, dmn.pdmnState.Live codec store) :
    store.Evolves codec (diffEntries codec fromList false dmns store).2 ∧
      Covers codec (diffEntries codec fromList false dmns store).2 fromList dmns
        (diffEntries codec fromList false dmns store).1 := by
  induction dmns generalizing store with
  | nil =>
    exact ⟨KeyStore.evolves_refl store, fun e hmem => absurd hmem List.not_mem_nil,
      fun dmn hmem => absurd hmem List.not_mem_nil⟩
  | cons mn rest ih =>
    obtain ⟨hmn, hrest⟩ := List.forall_mem_cons.mp h
    obtain ⟨store₁, he, hcons⟩ := diffEntries_cons hfrom hmn rest
    have hrest₁ : ∀ dmn ∈ rest, dmn.pdmnState.Live codec store₁ :=
      fun dmn hmem => KeyStore.Live.evolves (hrest dmn hmem) he
    obtain ⟨he', hcovers⟩ := ih (hfrom.evolves he) hrest₁
    have hmnBytes := mn_bytes_evolves hmn (he.trans he')
    rcases hcons with ⟨e, hlive, hbytes, heq⟩ | ⟨⟨f, hf, hbytes⟩, heq⟩
    · -- its entry heads the difference, with the bytes it has at the end
      rw [heq]
      have hentry : e.bytes codec (diffEntries codec fromList false rest store₁).2 =
          mn.bytes codec (diffEntries codec fromList false rest store₁).2 := by
        rw [bytes_evolves hlive he', hbytes, hmnBytes]
      refine ⟨he.trans he', List.forall_mem_cons.mpr ⟨?_, ?_⟩, List.forall_mem_cons.mpr ⟨?_, ?_⟩⟩
      · exact ⟨live_evolves hlive he', mn, List.mem_cons_self, hentry⟩
      · intro e' hmem
        obtain ⟨hlive', dmn, hdmn, hbytes'⟩ := hcovers.sound e' hmem
        exact ⟨hlive', dmn, List.mem_cons_of_mem mn hdmn, hbytes'⟩
      · exact Or.inl ⟨e, List.mem_cons_self, hentry⟩
      · intro dmn hmem
        refine (hcovers.complete dmn hmem).imp_left ?_
        rintro ⟨e', hmem', hbytes'⟩
        exact ⟨e', List.mem_cons_of_mem e hmem', hbytes'⟩
    · -- it is left out, as the other list has it with the same bytes
      rw [heq]
      refine ⟨he.trans he', fun e' hmem => ?_, List.forall_mem_cons.mpr ⟨?_, hcovers.complete⟩⟩
      · obtain ⟨hlive', dmn, hdmn, hbytes'⟩ := hcovers.sound e' hmem
        exact ⟨hlive', dmn, List.mem_cons_of_mem mn hdmn, hbytes'⟩
      · refine Or.inr ⟨f, hf, ?_⟩
        rw [mn_bytes_evolves (hfrom.mn _ _ hf).2 (he.trans he'), hbytes, hmnBytes]

omit [DecidableEq G] in
/-- A masternode of a list is found by the hash that its bytes begin with. -/
theorem getElem?_of_bytes {list : CDeterministicMNList} (h : list.Inv codec store)
    {dmn : CDeterministicMN} (hmem : dmn ∈ list.mnMap.toList.map Prod.snd)
    {e : CSimplifiedMNListEntry} (hbytes : e.bytes codec store = dmn.bytes codec store) :
    list.mnMap[e.proRegTxHash]? = some dmn := by
  obtain ⟨p, hp, rfl⟩ := List.mem_map.mp hmem
  have hget := mem_toList hp
  have hhash : e.proRegTxHash = p.2.proTxHash := proRegTxHash_of_bytes hbytes
  rw [hhash, (h.mn p.1 p.2 hget).1]
  exact hget

/-- The client holds the masternodes of a list as their bytes. -/
def Represents (codec : KeyCodec G) (store : KeyStore G) (m : ClientList)
    (list : CDeterministicMNList) : Prop :=
  ∀ a : uint256, m[a]?.map (CSimplifiedMNListEntry.bytes codec store) =
    list.mnMap[a]?.map (CDeterministicMN.bytes codec store)

omit [DecidableEq G] in
theorem represents_sml {list : CDeterministicMNList} (h : list.Inv codec store)
    {sml : CSimplifiedMNList} (hsml : sml.bytes codec store = list.bytes codec store) :
    Represents codec store (ClientList.write ∅ sml.mnList) list := by
  have hbytes : sml.mnList.map (CSimplifiedMNListEntry.bytes codec store) =
      (list.mnMap.toList.map Prod.snd).map (CDeterministicMN.bytes codec store) := by
    rw [List.map_map]
    exact hsml
  intro a
  rw [ClientList.write]
  rcases foldl_insert_cases CSimplifiedMNListEntry.proRegTxHash sml.mnList ∅ a with
    ⟨e, hmem, rfl, hget⟩ | ⟨hne, hget⟩
  · have hmem' := List.mem_map_of_mem (f := CSimplifiedMNListEntry.bytes codec store) hmem
    rw [hbytes] at hmem'
    obtain ⟨dmn, hdmn, heq⟩ := List.mem_map.mp hmem'
    rw [hget, getElem?_of_bytes h hdmn heq.symm, Option.map_some, Option.map_some, heq]
  · rw [hget, ExtTreeMap.getElem?_empty]
    cases hdmn : list.mnMap[a]? with
    | none => rfl
    | some dmn =>
      -- the bytes of the masternode are those of an entry, which then has its hash
      have hmem : dmn ∈ list.mnMap.toList.map Prod.snd :=
        List.mem_map.mpr ⟨(a, dmn), ExtTreeMap.mem_toList_iff_getElem?_eq_some.mpr hdmn, rfl⟩
      have hmem' := List.mem_map_of_mem (f := CDeterministicMN.bytes codec store) hmem
      rw [← hbytes] at hmem'
      obtain ⟨e, he, heq⟩ := List.mem_map.mp hmem'
      have hhash : e.proRegTxHash = dmn.proTxHash := proRegTxHash_of_bytes heq
      exact absurd (hhash.trans (h.mn a dmn hdmn).1) (hne e he)

omit [DecidableEq G] in
theorem represents_update {fromList toList : CDeterministicMNList}
    (hfrom : fromList.Inv codec store) (hto : toList.Inv codec store)
    {sml : CSimplifiedMNList} (hsml : sml.bytes codec store = fromList.bytes codec store)
    {diff : CSimplifiedMNListDiff}
    (hdeleted : ∀ a, a ∈ diff.deletedMNs ↔ fromList.mnMap[a]? ≠ none ∧ toList.mnMap[a]? = none)
    (hcovers : Covers codec store fromList (toList.mnMap.toList.map Prod.snd) diff.mnList) :
    Represents codec store (ClientList.update sml diff) toList := by
  intro a
  have hm := represents_sml hfrom hsml a
  rw [ClientList.update, ClientList.write]
  rcases foldl_insert_cases CSimplifiedMNListEntry.proRegTxHash diff.mnList
      (diff.deletedMNs.foldl (fun m proTxHash => m.erase proTxHash)
        (ClientList.write ∅ sml.mnList)) a with ⟨e, hmem, rfl, hget⟩ | ⟨hne, hget⟩
  · -- the last entry written under this hash is a masternode of the new list
    obtain ⟨_, dmn, hdmn, heq⟩ := hcovers.sound e hmem
    rw [hget, getElem?_of_bytes hto hdmn heq, Option.map_some, Option.map_some, heq]
  · rw [hget, getElem?_foldl_erase]
    cases hdmn : toList.mnMap[a]? with
    | none =>
      split_ifs with hdel
      · rfl
      · -- what the other list has under this hash would have been deleted
        have hnone : fromList.mnMap[a]? = none := by
          by_contra hsome
          exact hdel ((hdeleted a).mpr ⟨hsome, hdmn⟩)
        rw [hm, hnone, Option.map_none]
    | some dmn =>
      have hdel : a ∉ diff.deletedMNs := by
        intro hdel
        rw [((hdeleted a).mp hdel).2] at hdmn
        exact absurd hdmn (Option.some_ne_none dmn).symm
      have hhash := (hto.mn a dmn hdmn).1
      have hmem : dmn ∈ toList.mnMap.toList.map Prod.snd :=
        List.mem_map.mpr ⟨(a, dmn), ExtTreeMap.mem_toList_iff_getElem?_eq_some.mpr hdmn, rfl⟩
      rw [if_neg hdel, hm]
      -- with no entry of the difference under this hash it was there unchanged
      rcases hcovers.complete dmn hmem with ⟨e, he, heq⟩ | ⟨f, hf, heq⟩
      · have hhash' : e.proRegTxHash = dmn.proTxHash := proRegTxHash_of_bytes heq
        exact absurd (hhash'.trans hhash) (hne e he)
      · have hf' : fromList.mnMap[a]? = some f := by
          rw [← hhash]
          exact hf
        rw [hf', Option.map_some, Option.map_some, heq]

theorem mem_deletedMNs {fromList toList : CDeterministicMNList} (hfrom : fromList.Inv codec store)
    (extended : Bool) (store' : KeyStore G) (a : uint256) :
    a ∈ (buildSimplifiedDiff codec fromList toList extended store').1.deletedMNs ↔
      fromList.mnMap[a]? ≠ none ∧ toList.mnMap[a]? = none := by
  have hkeys : (fromList.mnMap.toList.map Prod.snd).map CDeterministicMN.proTxHash =
      fromList.mnMap.keys := by
    rw [List.map_map, ← ExtTreeMap.map_fst_toList_eq_keys]
    apply List.map_congr_left
    intro p hp
    exact (hfrom.mn p.1 p.2 (mem_toList hp)).1
  rw [buildSimplifiedDiff]
  dsimp only
  rw [hkeys, List.mem_filter, ExtTreeMap.mem_keys, ← not_iff_not, not_and_or, not_and_or,
    Option.isNone_iff_eq_none, notMem_iff, not_not]
  rfl

omit [DecidableEq G] in
/-- What a client holds after writing entries is live when all of them are. -/
theorem write_live {m : ClientList} {mnList : List CSimplifiedMNListEntry}
    (hm : ∀ (a : uint256) (e : CSimplifiedMNListEntry), m[a]? = some e → e.Live codec store)
    (hmnList : ∀ e ∈ mnList, e.Live codec store) (a : uint256) (e : CSimplifiedMNListEntry)
    (h : (m.write mnList)[a]? = some e) : e.Live codec store := by
  rw [ClientList.write] at h
  rcases foldl_insert_cases CSimplifiedMNListEntry.proRegTxHash mnList m a with
    ⟨e', hmem, _, hget⟩ | ⟨_, hget⟩
  · obtain rfl := Option.some.inj (hget.symm.trans h)
    exact hmnList e' hmem
  · exact hm a e (hget.symm.trans h)

omit [DecidableEq G] in
theorem update_live {sml : CSimplifiedMNList} (hsml : sml.Live codec store)
    {diff : CSimplifiedMNListDiff} (hdiff : ∀ e ∈ diff.mnList, e.Live codec store) (a : uint256)
    (e : CSimplifiedMNListEntry) (h : (ClientList.update sml diff)[a]? = some e) :
    e.Live codec store := by
  refine write_live (fun a e h => ?_) hdiff a e h
  rw [getElem?_foldl_erase] at h
  split_ifs at h
  refine write_live (fun a e h => ?_) hsml a e h
  rw [ExtTreeMap.getElem?_empty] at h
  exact absurd h (Option.some_ne_none e).symm

omit [DecidableEq G] in
/-- The entries of a client that represents a list are hashed as the list is. -/
theorem ofEntries_bytes {m : ClientList} {list : CDeterministicMNList} (h : list.Inv codec store)
    (hm : Represents codec store m list) :
    (CSimplifiedMNList.ofEntries (m.toList.map Prod.snd)).mnList = m.toList.map Prod.snd ∧
      (m.toList.map Prod.snd).map (CSimplifiedMNListEntry.bytes codec store) =
        list.bytes codec store := by
  constructor
  · apply ofEntries_of_keys (m := m)
    rw [List.map_map]
    apply List.map_congr_left
    intro p hp
    have hget := hm p.1
    rw [mem_toList hp, Option.map_some] at hget
    obtain ⟨dmn, hdmn, heq⟩ := Option.map_eq_some_iff.mp hget.symm
    have hhash : dmn.proTxHash = p.2.proRegTxHash := proRegTxHash_of_bytes heq
    rw [Function.comp_apply, ← hhash]
    exact (h.mn p.1 dmn hdmn).1
  · rw [List.map_map]
    exact map_toList_congr _ _ hm

/-- From any state in which the lists hold keys that stand for the same in every
state they can be in, a client that applies the difference reaches the root. -/
theorem syncsExactly_of_inv {n : Node G} (h : n.Inv codec sha256d) (i j : ℕ) :
    SyncsExactly codec sha256d n i j := by
  rw [SyncsExactly]
  -- the client's list
  have hfrom := h.lists i
  obtain ⟨hlive, hsml, _, _, he⟩ := to_sml_spec hfrom
  generalize (n.lists i).to_sml n.store = first at hlive hsml he
  obtain ⟨fromSml, _, store₁⟩ := first
  have hfrom₁ := hfrom.evolves he
  have hsml₁ : fromSml.bytes codec store₁ = (n.lists i).bytes codec store₁ :=
    hsml.trans (list_bytes_evolves hfrom he).symm
  -- the difference
  have hto₁ := (h.lists j).evolves he
  obtain ⟨he', hcovers⟩ := diffEntries_spec hfrom₁ hto₁.live
  have hdeleted := @mem_deletedMNs _ _ codec _ _ (n.lists j) hfrom₁ false store₁
  have hdiff : (buildSimplifiedDiff codec (n.lists i) (n.lists j) false store₁).1.mnList =
      (diffEntries codec (n.lists i) false ((n.lists j).mnMap.toList.map Prod.snd) store₁).1 := rfl
  have hstore : (buildSimplifiedDiff codec (n.lists i) (n.lists j) false store₁).2 =
      (diffEntries codec (n.lists i) false ((n.lists j).mnMap.toList.map Prod.snd) store₁).2 := rfl
  rw [← hdiff, ← hstore] at hcovers
  rw [← hstore] at he'
  dsimp only
  generalize buildSimplifiedDiff codec (n.lists i) (n.lists j) false store₁ = built
    at hcovers hdeleted he'
  obtain ⟨diff, store₂⟩ := built
  have hlive₂ := sml_live_evolves hlive he'
  have hto₂ := hto₁.evolves he'
  have hsml₂ : fromSml.bytes codec store₂ = (n.lists i).bytes codec store₂ := by
    have hkeep : fromSml.bytes codec store₂ = fromSml.bytes codec store₁ :=
      map_bytes_evolves hlive he'
    rw [hkeep, hsml₁, list_bytes_evolves hfrom₁ he']
  have hrepresents := represents_update (hfrom₁.evolves he') hto₂ hsml₂ hdeleted hcovers
  have hupdate := update_live hlive₂ fun e hmem => (hcovers.sound e hmem).1
  obtain ⟨hsorted, hbytes⟩ := ofEntries_bytes hto₂ hrepresents
  -- the list to reach
  obtain ⟨toLive, toSml_bytes, _, _, he''⟩ := to_sml_spec hto₂
  generalize (n.lists j).to_sml store₂ = second at toLive toSml_bytes he''
  obtain ⟨toSml, _, store₃⟩ := second
  have happlied : (applyDiff fromSml diff).Live codec store₂ := by
    intro e hmem
    rw [applyDiff, hsorted] at hmem
    obtain ⟨p, hp, rfl⟩ := List.mem_map.mp hmem
    exact hupdate p.1 p.2 (mem_toList hp)
  have hroot : (applyDiff fromSml diff).bytes codec store₃ = toSml.bytes codec store₃ := by
    calc (applyDiff fromSml diff).bytes codec store₃
        = (applyDiff fromSml diff).bytes codec store₂ := map_bytes_evolves happlied he''
      _ = (n.lists j).bytes codec store₂ := by
        rw [CSimplifiedMNList.bytes, applyDiff, hsorted]
        exact hbytes
      _ = toSml.bytes codec store₃ := toSml_bytes.symm
  dsimp only
  rw [(calcMerkleRoot_spec (sml_live_evolves happlied he'')).1, (calcMerkleRoot_spec toLive).1, hroot]

/-- In every state that is reached with keys that stand for the same in every
state they can be in, a light client syncs exactly between any two lists. -/
theorem light_client_sync_exact {actions : List (Action G)}
    (h : EveryStep (Node.step codec sha256d) (Sound codec) {} actions) (i j : ℕ) :
    SyncsExactly codec sha256d (final (Node.step codec sha256d) {} actions) i j :=
  syncsExactly_of_inv
    (final_invariant (Node.Inv codec sha256d) (fun _ _ hn ha => (step_spec hn ha).2) node_inv_init h)
    i j

theorem light_client_sync_exact_sample :
    SyncsExactly unitCodec sumBytes (final (Node.step unitCodec sumBytes) {}
      [.newKey legacyKey, .addMN 0 (sampleMN (sampleState 1 0 0)) true, .to_sml 0, .assign 1 0,
        .newKey decodedKey, .updateMNByHash 1 1 (sampleState 2 0 2)]) 0 1 :=
  light_client_sync_exact (by decide +kernel) 0 1

/-- Where the key of the first list has been decoded since and the key of the
second has not, no entry is sent, but the roots differ. -/
theorem light_client_misses_root :
    ¬SyncsExactly unitCodec sumBytes (final (Node.step unitCodec sumBytes) {}
      (versionUpdate++[.assign 1 0, .newKey legacyKey, .updateMNByHash 1 1 (sampleState 2 5 2),
        .getKey 1])) 0 1 := by
  unfold SyncsExactly
  decide +kernel

end BabaChain.Evo
