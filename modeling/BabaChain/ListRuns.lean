import BabaChain.DiffRoundTrip
import Mathlib

/-! Runs of the operations of a masternode list, and what its maps say of the
masternodes after them. -/
namespace BabaChain.Evo.ByValue
open BLS OrdMap OwnedCounts
open Std (ExtTreeMap ExtTreeSet)

variable {G : Type*} [DecidableEq G] (codec : KeyCodec G) (sha256d : List UInt8 → uint256)

section Keys

/-- A key whose buffer, where there is one, holds the bytes of an element. -/
def WellFormed (k : CBLSLazyPublicKey G) : Prop := CBLSLazyPublicKey.Faithful codec k.bufLegacyScheme k

instance (k : CBLSLazyPublicKey G) : Decidable (WellFormed codec k) :=
  inferInstanceAs (Decidable (CBLSLazyPublicKey.Faithful codec k.bufLegacyScheme k))

/-- Keys that count as equal have the same bytes. -/
def OneEncoding (a b : CBLSLazyPublicKey G) : Prop :=
  keyEqual codec a b = true → ownBytes codec a = ownBytes codec b

instance (a b : CBLSLazyPublicKey G) : Decidable (OneEncoding codec a b) :=
  inferInstanceAs (Decidable (_ → _))

variable {codec} {k k' r : CBLSLazyPublicKey G}

end Keys

/-- The operations that change a list. -/
inductive Operation (G : Type*)
  | addMN (dmn : CDeterministicMN G) (fBumpTotalCount : Bool)
  | updateMN (oldDmn : CDeterministicMN G) (pdmnState : CDeterministicMNState G)
  | updateMNByHash (proTxHash : uint256) (pdmnState : CDeterministicMNState G)
  | updateMNByDiff (oldDmn : CDeterministicMN G) (stateDiff : CDeterministicMNStateDiff G)
  | removeMN (proTxHash : uint256)
  | poSePunish (proTxHash : uint256) (penalty : ℤ)
  | decreaseScores
  | applyDiff (blockHash : uint256) (nHeight : ℤ) (diff : CDeterministicMNListDiff G)

namespace Operation

def perform : Operation G → CDeterministicMNList G → Except String (CDeterministicMNList G)
  | addMN dmn fBumpTotalCount, list => list.addMN codec sha256d dmn fBumpTotalCount
  | updateMN oldDmn pdmnState, list => list.updateMN codec sha256d oldDmn pdmnState
  | updateMNByHash proTxHash pdmnState, list => list.updateMNByHash codec sha256d proTxHash pdmnState
  | updateMNByDiff oldDmn stateDiff, list => list.updateMNByDiff codec sha256d oldDmn stateDiff
  | removeMN proTxHash, list => list.removeMN codec sha256d proTxHash
  | poSePunish proTxHash penalty, list => list.poSePunish codec sha256d proTxHash penalty
  | decreaseScores, list => list.decreaseScores codec sha256d
  | applyDiff blockHash nHeight diff, list => list.applyDiff codec sha256d blockHash nHeight diff

/-- An update is given the entry that is in the list. -/
def Current : Operation G → CDeterministicMNList G → Prop
  | updateMN oldDmn _, list => list.mnMap[oldDmn.proTxHash]? = some oldDmn
  | updateMNByDiff oldDmn _, list => list.mnMap[oldDmn.proTxHash]? = some oldDmn
  | _, _ => True

end Operation

namespace CDeterministicMNList

/-- The operator keys of the list. -/
def keys (list : CDeterministicMNList G) : Set (CBLSLazyPublicKey G) :=
  {k | ∃ (h : uint256) (dmn : CDeterministicMN G), list.mnMap[h]? = some dmn ∧
    dmn.pdmnState.pubKeyOperator = k}

/-- The keys of a list that a difference may bring together: those of masternodes
that stay, and its own ones. -/
def keysWith (list : CDeterministicMNList G) (diff : CDeterministicMNListDiff G) :
    Set (CBLSLazyPublicKey G) :=
  {k | (∃ (h : uint256) (dmn : CDeterministicMN G), list.mnMap[h]? = some dmn ∧
      dmn.internalId ∉ diff.removedMns ∧ dmn.pdmnState.pubKeyOperator = k) ∨
    (∃ dmn ∈ diff.addedMNs, dmn.pdmnState.pubKeyOperator = k) ∨
    ∃ p ∈ diff.updatedMNs, .pubKeyOperator ∈ p.2.fields ∧ p.2.state.pubKeyOperator = k}

/-- Well formed keys, none of which is there in two encodings. -/
def Uniform (ks : Set (CBLSLazyPublicKey G)) : Prop :=
  (∀ k ∈ ks, WellFormed codec k) ∧ ∀ a ∈ ks, ∀ b ∈ ks, OneEncoding codec a b

end CDeterministicMNList

namespace Operation

/-- What keeps the maps of a list exact: no key comes to be there in two encodings,
and no update takes the owner key away. -/
def Fitting : Operation G → CDeterministicMNList G → Prop
  | addMN dmn _, list =>
    GivenAddresses dmn.pdmnState.netInfo ∧
      CDeterministicMNList.Uniform codec (insert dmn.pdmnState.pubKeyOperator list.keys)
  | updateMN _ pdmnState, list | updateMNByHash _ pdmnState, list =>
    GivenAddresses pdmnState.netInfo ∧ pdmnState.keyIDOwner ≠ 0 ∧
      CDeterministicMNList.Uniform codec (insert pdmnState.pubKeyOperator list.keys)
  | updateMNByDiff oldDmn stateDiff, list =>
    GivenAddresses (stateDiff.applyToState oldDmn.pdmnState).netInfo ∧
      (stateDiff.applyToState oldDmn.pdmnState).keyIDOwner ≠ 0 ∧
      CDeterministicMNList.Uniform codec
        (insert (stateDiff.applyToState oldDmn.pdmnState).pubKeyOperator list.keys)
  | applyDiff _ _ diff, list =>
    (∀ dmn ∈ diff.addedMNs, GivenAddresses dmn.pdmnState.netInfo) ∧
      (∀ p ∈ diff.updatedMNs, (.netInfo ∈ p.2.fields → GivenAddresses p.2.state.netInfo) ∧
        (.keyIDOwner ∈ p.2.fields → p.2.state.keyIDOwner ≠ 0)) ∧
      CDeterministicMNList.Uniform codec (list.keysWith diff)
  | _, _ => True

end Operation

/-- The lists that successful operations make of an empty one, each of them under
a condition on the list before it. -/
inductive Reachable (C : Operation G → CDeterministicMNList G → Prop) : CDeterministicMNList G → Prop
  | empty (blockHash : uint256) (nHeight : ℤ) (nTotalRegisteredCount : UInt32) :
    Reachable C {blockHash, nHeight, nTotalRegisteredCount}
  | step {list list' : CDeterministicMNList G} (op : Operation G) (hlist : Reachable C list)
    (hop : C op list) (hok : op.perform codec sha256d list = .ok list') : Reachable C list'

/-- The ids are the inverse of the masternodes' own ones, the properties are counted
for the masternodes that have them, and no two masternodes share one. -/
structure Exact (list : CDeterministicMNList G) : Prop where
  ids : ∀ (id : UInt64) (h : uint256), list.mnInternalIdMap[id]? = some h ↔
    ∃ dmn, list.mnMap[h]? = some dmn ∧ dmn.internalId = id
  distinct : ∀ (h h' : uint256) (dmn dmn' : CDeterministicMN G), list.mnMap[h]? = some dmn →
    list.mnMap[h']? = some dmn' → dmn.internalId = dmn'.internalId → h = h'
  properties : ∀ (k h : uint256) (n : UInt32), list.mnUniquePropertyMap[k]? = some (h, n) ↔
    n ≠ 0 ∧ ∃ dmn, list.mnMap[h]? = some dmn ∧ (dmn.hashes codec sha256d).count k = n.toNat
  apart : ∀ (h h' : uint256) (dmn dmn' : CDeterministicMN G), list.mnMap[h]? = some dmn →
    list.mnMap[h']? = some dmn' → h ≠ h' →
    ∀ v ∈ dmn.uniqueProperties.filterMap Prod.snd, ∀ v' ∈ dmn'.uniqueProperties.filterMap Prod.snd,
      v.equal codec v' = false

variable {codec sha256d} {list list' : CDeterministicMNList G} {dmn : CDeterministicMN G}

open CDeterministicMNList

/-- What a run keeps: the maps are those of the masternodes, and their keys are in
one encoding. -/
structure Consistent (codec : KeyCodec G) (sha256d : List UInt8 → uint256)
    (list : CDeterministicMNList G) : Prop where
  inv : list.Inv codec sha256d
  uniform : Uniform codec list.keys

omit [DecidableEq G] in
theorem mem_keys {h : uint256} (hmn : list.mnMap[h]? = some dmn) :
    dmn.pdmnState.pubKeyOperator ∈ list.keys := ⟨h, dmn, hmn, rfl⟩

theorem CDeterministicMNList.Uniform.subset {ks ks' : Set (CBLSLazyPublicKey G)} (h : Uniform codec ks) (hsub : ks' ⊆ ks) :
    Uniform codec ks' :=
  ⟨fun k hk => h.1 k (hsub hk), fun a ha b hb => h.2 a (hsub ha) b (hsub hb)⟩

omit [DecidableEq G] in
theorem keys_insert {h : uint256} (hmap : list'.mnMap = list.mnMap.insert h dmn) :
    list'.keys ⊆ insert dmn.pdmnState.pubKeyOperator list.keys := by
  rintro k ⟨h, dmn', hmn', rfl⟩
  rw [hmap, getElem?_insert] at hmn'
  split_ifs at hmn'
  · rw [← Option.some_inj.mp hmn']
    exact Set.mem_insert _ _
  · exact Set.mem_insert_of_mem _ (mem_keys hmn')

/-- A key that counts as equal and has the same bytes has the same hash. -/
theorem kept_of_oneEncoding {a b : CBLSLazyPublicKey G} (h : OneEncoding codec a b) :
    Kept codec sha256d (.operatorKey a) (.operatorKey b) := by
  intro heq
  have hbytes : ownBytes codec a = ownBytes codec b := h heq
  have hdefault : a.isDefault = b.isDefault := by
    have hequal : (a.equal codec b).1 = true := heq
    by_contra hne
    rw [CBLSLazyPublicKey.equal, if_neg, if_pos] at hequal
    · exact Bool.false_ne_true hequal
    · exact bne_iff_ne.mpr hne
    · intro hboth
      obtain ⟨ha, hb⟩ := Bool.and_eq_true_iff.mp hboth
      exact hne (ha.trans hb.symm)
  rw [hashOf, hashOf, UniqueProperty.isNull, UniqueProperty.isNull, hdefault, getUniquePropertyHash,
    getUniquePropertyHash, UniqueProperty.serialize, UniqueProperty.serialize, hbytes]

omit [DecidableEq G] in
theorem addMN_step (hinv : list.Inv codec sha256d) (hgiven : GivenAddresses dmn.pdmnState.netInfo)
    {fBumpTotalCount : Bool} (hok : list.addMN codec sha256d dmn fBumpTotalCount = .ok list') :
    list'.Inv codec sha256d ∧ list'.mnMap = list.mnMap.insert dmn.proTxHash dmn := by
  rcases CDeterministicMNList.addMN_spec hinv fBumpTotalCount hgiven.1 hgiven.2 with
    ⟨-, list₁, hok₁, heq, -, hinv₁⟩ | ⟨-, reason, herr⟩
  · rw [hok] at hok₁
    obtain rfl := Except.ok.inj hok₁
    exact ⟨hinv₁, by rw [heq]⟩
  · rw [hok] at herr
    cases herr

theorem updateMN_step (hinv : list.Inv codec sha256d) (hmn : list.mnMap[dmn.proTxHash]? = some dmn)
    {newState : CDeterministicMNState G}
    (hok : list.updateMN codec sha256d dmn newState = .ok list')
    (hgiven : GivenAddresses newState.netInfo) (howner : newState.keyIDOwner ≠ 0)
    (hkey : OneEncoding codec dmn.pdmnState.pubKeyOperator newState.pubKeyOperator) :
    list'.Inv codec sha256d ∧
      list'.mnMap = list.mnMap.insert dmn.proTxHash {dmn with pdmnState := newState} := by
  have hfollows : Follows codec sha256d dmn.pdmnState newState :=
    ⟨howner, kept_of_oneEncoding hkey, hgiven.1, hgiven.2⟩
  rcases CDeterministicMNList.updateMN_spec hinv hmn hfollows with ⟨-, list₁, hok₁, heq, hinv₁⟩ | ⟨-, reason, herr⟩
  · rw [hok] at hok₁
    obtain rfl := Except.ok.inj hok₁
    exact ⟨hinv₁, by rw [heq]⟩
  · rw [hok] at herr
    cases herr

theorem Consistent.update (h : Consistent codec sha256d list)
    (hmn : list.mnMap[dmn.proTxHash]? = some dmn) {newState : CDeterministicMNState G}
    (hgiven : GivenAddresses newState.netInfo) (howner : newState.keyIDOwner ≠ 0)
    (huniform : Uniform codec (insert newState.pubKeyOperator list.keys))
    (hok : list.updateMN codec sha256d dmn newState = .ok list') :
    Consistent codec sha256d list' := by
  have hkey := huniform.2 _ (Set.mem_insert_of_mem _ (mem_keys hmn)) _ (Set.mem_insert _ _)
  obtain ⟨hinv', hmap⟩ := updateMN_step h.inv hmn hok hgiven howner hkey
  have hsub := keys_insert hmap
  exact ⟨hinv', huniform.subset hsub⟩

omit [DecidableEq G] in
/-- What is in a list could be given to it. -/
theorem registered_given (hinv : list.Inv codec sha256d) {h : uint256}
    (hmn : list.mnMap[h]? = some dmn) :
    GivenAddresses dmn.pdmnState.netInfo ∧ dmn.pdmnState.keyIDOwner ≠ 0 := by
  have hreg := hinv.registered h dmn hmn
  exact ⟨⟨hreg.coherent, hreg.fits⟩, ((present_uniqueProperties dmn).mp hreg.present).2.2⟩

/-- An update that leaves keys and addresses alone. -/
theorem Consistent.touch (h : Consistent codec sha256d list)
    (hmn : list.mnMap[dmn.proTxHash]? = some dmn) {newState : CDeterministicMNState G}
    (hok : list.updateMN codec sha256d dmn newState = .ok list')
    (hinfo : newState.netInfo = dmn.pdmnState.netInfo)
    (howner : newState.keyIDOwner = dmn.pdmnState.keyIDOwner)
    (hkey : newState.pubKeyOperator = dmn.pdmnState.pubKeyOperator) :
    Consistent codec sha256d list' := by
  obtain ⟨hgiven, hset⟩ := registered_given h.inv hmn
  rw [← hinfo] at hgiven
  rw [← howner] at hset
  refine h.update hmn hgiven hset ?_ hok
  rw [hkey, Set.insert_eq_of_mem (mem_keys hmn)]
  exact h.uniform

theorem Consistent.remove (h : Consistent codec sha256d list) {proTxHash : uint256}
    (hok : list.removeMN codec sha256d proTxHash = .ok list') :
    Consistent codec sha256d list' ∧ list'.mnMap = list.mnMap.erase proTxHash := by
  cases hmn : list.mnMap[proTxHash]? with
  | none =>
    rw [removeMN, getMN, hmn] at hok
    cases hok
  | some dmn =>
    obtain ⟨list₁, hok₁, heq, hinv₁⟩ := CDeterministicMNList.removeMN_spec h.inv hmn
    rw [hok] at hok₁
    obtain rfl := Except.ok.inj hok₁
    have hmap : list'.mnMap = list.mnMap.erase proTxHash := by rw [heq]
    refine ⟨⟨hinv₁, h.uniform.subset ?_⟩, hmap⟩
    rintro k ⟨h', dmn', hmn', rfl⟩
    rw [hmap, getElem?_erase] at hmn'
    split_ifs at hmn'
    exact mem_keys hmn'

theorem Consistent.punish (h : Consistent codec sha256d list) {proTxHash : uint256} {penalty : ℤ}
    (hok : list.poSePunish codec sha256d proTxHash penalty = .ok list') :
    Consistent codec sha256d list' := by
  rw [poSePunish] at hok
  cases hmn : list.getMN proTxHash with
  | none =>
    rw [hmn] at hok
    cases hok
  | some dmn =>
    rw [hmn] at hok
    dsimp only at hok
    have hkey := h.inv.key proTxHash dmn hmn
    subst hkey
    rw [updateMNByHash, hmn] at hok
    dsimp only at hok
    split_ifs at hok with hban
    · apply h.touch hmn hok
      all_goals
        rw [CDeterministicMNState.banIfNotBanned]
        split_ifs <;> rfl
    · exact h.touch hmn hok rfl rfl rfl

/-- Each masternode is decreased while it is what it was when they were collected. -/
theorem Consistent.decrease {dmns : List (CDeterministicMN G)} (h : Consistent codec sha256d list)
    (hnodup : (dmns.map CDeterministicMN.proTxHash).Nodup)
    (hmns : ∀ dmn ∈ dmns, list.mnMap[dmn.proTxHash]? = some dmn)
    (hok : dmns.foldlM (fun list dmn => list.poSeDecrease codec sha256d dmn) list = .ok list') :
    Consistent codec sha256d list' := by
  induction dmns generalizing list with
  | nil =>
    obtain rfl := Except.ok.inj hok
    exact h
  | cons dmn dmns ih =>
    obtain ⟨hnot, hnodup'⟩ := List.nodup_cons.mp hnodup
    obtain ⟨hmn, hrest⟩ := List.forall_mem_cons.mp hmns
    rw [List.foldlM_cons] at hok
    cases hone : list.poSeDecrease codec sha256d dmn with
    | error reason =>
      rw [hone] at hok
      cases hok
    | ok list₁ =>
      rw [hone] at hok
      rw [poSeDecrease] at hone
      obtain ⟨hgiven, hset⟩ := registered_given h.inv hmn
      have hkeys : OneEncoding codec dmn.pdmnState.pubKeyOperator dmn.pdmnState.pubKeyOperator :=
        fun _ => rfl
      have hmap := (updateMN_step h.inv hmn hone hgiven hset hkeys).2
      refine ih (h.touch hmn hone rfl rfl rfl) hnodup' (fun dmn' hmem => ?_) hok
      rw [hmap, getElem?_insert, if_neg]
      · exact hrest dmn' hmem
      · intro heq
        exact hnot (heq ▸ List.mem_map_of_mem hmem)

theorem Consistent.decreaseScores (h : Consistent codec sha256d list)
    (hok : list.decreaseScores codec sha256d = .ok list') : Consistent codec sha256d list' := by
  rw [CDeterministicMNList.decreaseScores, validMNs, List.filter_filter] at hok
  refine h.decrease ?_ (fun dmn hmem => ?_) hok
  · have hall : (list.mns.map CDeterministicMN.proTxHash).Nodup := by
      rw [mns_hashes h.inv]
      exact ExtTreeMap.nodup_keys
    exact hall.sublist (List.filter_sublist.map _)
  · exact (mem_mns h.inv).mp (List.mem_of_mem_filter hmem)

section Diffs
variable {diff : CDeterministicMNListDiff G} {ks : Set (CBLSLazyPublicKey G)}

/-- After the removals, the masternodes are those that stay. -/
theorem remove_all {ids : List UInt64} (h : Consistent codec sha256d list)
    (hok : ids.foldlM (removeById codec sha256d) list = .ok list') :
    Consistent codec sha256d list' ∧ ∀ (h : uint256) (dmn : CDeterministicMN G),
      list'.mnMap[h]? = some dmn → list.mnMap[h]? = some dmn ∧ dmn.internalId ∉ ids := by
  induction ids generalizing list with
  | nil =>
    obtain rfl := Except.ok.inj hok
    exact ⟨h, fun h' dmn hmn => ⟨hmn, List.not_mem_nil⟩⟩
  | cons id ids ih =>
    rw [List.foldlM_cons] at hok
    cases hone : removeById codec sha256d list id with
    | error reason =>
      rw [hone] at hok
      cases hok
    | ok list₁ =>
      rw [hone] at hok
      rw [removeById] at hone
      cases hid : list.getMNByInternalId id with
      | none =>
        rw [hid] at hone
        cases hone
      | some dmn =>
        rw [hid] at hone
        obtain ⟨hmn, hid'⟩ := (getMNByInternalId_eq h.inv).mp hid
        obtain ⟨h₁, hmap⟩ := h.remove hone
        obtain ⟨h', hrest⟩ := ih h₁ hok
        refine ⟨h', fun hash dmn' hmn' => ?_⟩
        obtain ⟨hmn₁, hnot⟩ := hrest hash dmn' hmn'
        rw [hmap, getElem?_erase] at hmn₁
        split_ifs at hmn₁ with hne
        refine ⟨hmn₁, ?_⟩
        rw [List.mem_cons, not_or]
        refine ⟨fun heq => hne ?_, hnot⟩
        exact h.inv.id_injective hmn hmn₁ (hid'.trans heq.symm)

omit [DecidableEq G] in
theorem add_all {dmns : List (CDeterministicMN G)} (h : list.Inv codec sha256d)
    (hks : list.keys ⊆ ks) (hgiven : ∀ dmn ∈ dmns, GivenAddresses dmn.pdmnState.netInfo)
    (hkeys : ∀ dmn ∈ dmns, dmn.pdmnState.pubKeyOperator ∈ ks)
    (hok : dmns.foldlM (fun list dmn => list.addMN codec sha256d dmn true) list = .ok list') :
    list'.Inv codec sha256d ∧ list'.keys ⊆ ks := by
  induction dmns generalizing list with
  | nil =>
    obtain rfl := Except.ok.inj hok
    exact ⟨h, hks⟩
  | cons dmn dmns ih =>
    obtain ⟨hgiven, hgivens⟩ := List.forall_mem_cons.mp hgiven
    obtain ⟨hkey, hkeys⟩ := List.forall_mem_cons.mp hkeys
    rw [List.foldlM_cons] at hok
    cases hone : list.addMN codec sha256d dmn true with
    | error reason =>
      rw [hone] at hok
      cases hok
    | ok list₁ =>
      rw [hone] at hok
      obtain ⟨hinv₁, hmap⟩ := addMN_step h hgiven hone
      exact ih hinv₁ ((keys_insert hmap).trans (Set.insert_subset hkey hks)) hgivens hkeys hok

omit [DecidableEq G] in
/-- What a difference gives a state: the fields it has are its own, the others stay. -/
theorem given_applyToState {d : CDeterministicMNStateDiff G} {state : CDeterministicMNState G} :
    (d.applyToState state).netInfo = (if .netInfo ∈ d.fields then d.state.netInfo else state.netInfo) ∧
    (d.applyToState state).keyIDOwner =
      (if .keyIDOwner ∈ d.fields then d.state.keyIDOwner else state.keyIDOwner) ∧
    (d.applyToState state).pubKeyOperator =
      (if .pubKeyOperator ∈ d.fields then d.state.pubKeyOperator else state.pubKeyOperator) := by
  refine ⟨?_, ?_, ?_⟩
  · have h := congrArg CDeterministicMNState.netInfo
      (CDeterministicMNStateDiff.assign_applyToState state d state .netInfo)
    split_ifs at h ⊢ <;> exact h
  · have h := congrArg CDeterministicMNState.keyIDOwner
      (CDeterministicMNStateDiff.assign_applyToState state d state .keyIDOwner)
    split_ifs at h ⊢ <;> exact h
  · have h := congrArg CDeterministicMNState.pubKeyOperator
      (CDeterministicMNStateDiff.assign_applyToState state d state .pubKeyOperator)
    split_ifs at h ⊢ <;> exact h

theorem update_all {us : List (UInt64 × CDeterministicMNStateDiff G)} (huniform : Uniform codec ks)
    (h : list.Inv codec sha256d) (hks : list.keys ⊆ ks)
    (hgiven : ∀ p ∈ us, (.netInfo ∈ p.2.fields → GivenAddresses p.2.state.netInfo) ∧
      (.keyIDOwner ∈ p.2.fields → p.2.state.keyIDOwner ≠ 0))
    (hkeys : ∀ p ∈ us, .pubKeyOperator ∈ p.2.fields → p.2.state.pubKeyOperator ∈ ks)
    (hok : us.foldlM (updateById codec sha256d) list = .ok list') :
    list'.Inv codec sha256d ∧ list'.keys ⊆ ks := by
  induction us generalizing list with
  | nil =>
    obtain rfl := Except.ok.inj hok
    exact ⟨h, hks⟩
  | cons p us ih =>
    obtain ⟨hgiven, hgivens⟩ := List.forall_mem_cons.mp hgiven
    obtain ⟨hkey, hkeys⟩ := List.forall_mem_cons.mp hkeys
    rw [List.foldlM_cons] at hok
    cases hone : updateById codec sha256d list p with
    | error reason =>
      rw [hone] at hok
      cases hok
    | ok list₁ =>
      rw [hone] at hok
      rw [updateById] at hone
      cases hid : list.getMNByInternalId p.1 with
      | none =>
        rw [hid] at hone
        cases hone
      | some dmn =>
        rw [hid] at hone
        obtain ⟨hmn, -⟩ := (getMNByInternalId_eq h).mp hid
        obtain ⟨hinfo, howner⟩ := registered_given h hmn
        obtain ⟨hinfo', howner', hkey'⟩ :=
          @given_applyToState G p.2 dmn.pdmnState
        have hnew : GivenAddresses (p.2.applyToState dmn.pdmnState).netInfo := by
          rw [hinfo']
          split_ifs with hmem
          · exact hgiven.1 hmem
          · exact hinfo
        have hset : (p.2.applyToState dmn.pdmnState).keyIDOwner ≠ 0 := by
          rw [howner']
          split_ifs with hmem
          · exact hgiven.2 hmem
          · exact howner
        have hin : (p.2.applyToState dmn.pdmnState).pubKeyOperator ∈ ks := by
          rw [hkey']
          split_ifs with hmem
          · exact hkey hmem
          · exact hks (mem_keys hmn)
        obtain ⟨hinv₁, hmap⟩ := updateMN_step h hmn hone hnew hset
          (huniform.2 _ (hks (mem_keys hmn)) _ hin)
        have hsub := keys_insert hmap
        exact ih hinv₁ (hsub.trans (Set.insert_subset hin hks)) hgivens hkeys hok

theorem Consistent.applyDiff (h : Consistent codec sha256d list) {blockHash : uint256} {nHeight : ℤ}
    (hfitting : (Operation.applyDiff blockHash nHeight diff).Fitting codec list)
    (hok : list.applyDiff codec sha256d blockHash nHeight diff = .ok list') :
    Consistent codec sha256d list' := by
  obtain ⟨hadded, hupdated, huniform⟩ := hfitting
  rw [CDeterministicMNList.applyDiff] at hok
  have h₀ : Consistent codec sha256d {list with blockHash, nHeight} :=
    ⟨⟨h.inv.key, h.inv.ids, h.inv.registered, h.inv.properties⟩, h.uniform⟩
  cases hremove : diff.removedMns.toList.foldlM (removeById codec sha256d)
      {list with blockHash, nHeight} with
  | error reason =>
    rw [hremove] at hok
    cases hok
  | ok list₁ =>
    rw [hremove] at hok
    obtain ⟨h₁, hstay⟩ := remove_all h₀ hremove
    have hks₁ : list₁.keys ⊆ list.keysWith diff := by
      rintro k ⟨hash, dmn, hmn, rfl⟩
      obtain ⟨hmn', hnot⟩ := hstay hash dmn hmn
      exact Or.inl ⟨hash, dmn, hmn', fun hmem => hnot (ExtTreeSet.mem_toList.mpr hmem), rfl⟩
    cases hadd : diff.addedMNs.foldlM (fun list dmn => list.addMN codec sha256d dmn true) list₁ with
    | error reason =>
      have hbind : (Except.ok list₁ >>= fun list : CDeterministicMNList G => diff.addedMNs.foldlM
          (fun list dmn => list.addMN codec sha256d dmn true) list) =
          (Except.error reason : Except String (CDeterministicMNList G)) := hadd
      rw [hbind] at hok
      cases hok
    | ok list₂ =>
      have hbind : (Except.ok list₁ >>= fun list : CDeterministicMNList G => diff.addedMNs.foldlM
          (fun list dmn => list.addMN codec sha256d dmn true) list) =
          (Except.ok list₂ : Except String (CDeterministicMNList G)) := hadd
      rw [hbind] at hok
      obtain ⟨h₂, hks₂⟩ := add_all h₁.inv hks₁ hadded
        (fun dmn hmem => Or.inr (Or.inl ⟨dmn, hmem, rfl⟩)) hadd
      obtain ⟨h₃, hks₃⟩ := update_all huniform h₂ hks₂ hupdated
        (fun p hmem hfield => Or.inr (Or.inr ⟨p, hmem, hfield, rfl⟩)) hok
      exact ⟨h₃, huniform.subset hks₃⟩

end Diffs

theorem consistent_step {op : Operation G} (h : Consistent codec sha256d list)
    (hcurrent : op.Current list) (hfitting : op.Fitting codec list)
    (hok : op.perform codec sha256d list = .ok list') : Consistent codec sha256d list' := by
  cases op with
  | addMN dmn fBumpTotalCount =>
    obtain ⟨hinv', hmap⟩ := addMN_step h.inv hfitting.1 hok
    exact ⟨hinv', hfitting.2.subset (keys_insert hmap)⟩
  | updateMN oldDmn pdmnState => exact h.update hcurrent hfitting.1 hfitting.2.1 hfitting.2.2 hok
  | updateMNByHash proTxHash pdmnState =>
    rw [Operation.perform, updateMNByHash] at hok
    cases hmn : list.getMN proTxHash with
    | none =>
      rw [hmn] at hok
      cases hok
    | some dmn =>
      rw [hmn] at hok
      have hkey := h.inv.key proTxHash dmn hmn
      subst hkey
      exact h.update hmn hfitting.1 hfitting.2.1 hfitting.2.2 hok
  | updateMNByDiff oldDmn stateDiff =>
    exact h.update hcurrent hfitting.1 hfitting.2.1 hfitting.2.2 hok
  | removeMN proTxHash => exact (h.remove hok).1
  | poSePunish proTxHash penalty => exact h.punish hok
  | decreaseScores => exact h.decreaseScores hok
  | applyDiff blockHash nHeight diff => exact h.applyDiff hfitting hok

/-- Two properties that are equal values have one hash, but for keys in two encodings. -/
theorem hash_eq_of_equal {v v' : UniqueProperty G} (heq : v.equal codec v' = true)
    (hkey : ∀ k k', v = .operatorKey k → v' = .operatorKey k' → OneEncoding codec k k') :
    getUniquePropertyHash codec sha256d v = getUniquePropertyHash codec sha256d v' := by
  have hvalue : v = v' → getUniquePropertyHash codec sha256d v =
      getUniquePropertyHash codec sha256d v' := congrArg _
  cases v with
  | operatorKey k =>
    cases v' with
    | operatorKey k' =>
      have hbytes := hkey k k' rfl rfl heq
      rw [getUniquePropertyHash, getUniquePropertyHash, UniqueProperty.serialize,
        UniqueProperty.serialize, hbytes]
    | _ =>
      simp only [UniqueProperty.equal, reduceCtorEq, decide_false, Bool.false_eq_true] at heq
  | _ =>
    simp only [UniqueProperty.equal, decide_eq_true_eq] at heq
    exact hvalue heq

omit [DecidableEq G] in
theorem mem_hashes {v : UniqueProperty G} (hv : v ∈ dmn.uniqueProperties.filterMap Prod.snd) :
    getUniquePropertyHash codec sha256d v ∈ dmn.hashes codec sha256d := by
  obtain ⟨p, hp, hsnd⟩ := List.mem_filterMap.mp hv
  rw [CDeterministicMN.hashes, Multiset.mem_coe]
  refine List.mem_filterMap.mpr ⟨p, hp, ?_⟩
  rw [propertyHash, hsnd, Option.map_some]

omit [DecidableEq G] in
/-- The key among the properties of a masternode is its operator key. -/
theorem operatorKey_mem {k : CBLSLazyPublicKey G}
    (hk : UniqueProperty.operatorKey k ∈ dmn.uniqueProperties.filterMap Prod.snd) :
    k = dmn.pdmnState.pubKeyOperator := by
  have hentry : ∀ e : NetInfoEntry, (netInfoProperty e).2 ≠ some (UniqueProperty.operatorKey k) := by
    intro e heq
    cases e <;> cases heq
  obtain ⟨p, hp, hsnd⟩ := List.mem_filterMap.mp hk
  rw [CDeterministicMN.uniqueProperties] at hp
  simp only [List.cons_append, List.mem_cons, List.mem_append, List.mem_map, List.not_mem_nil,
    or_false] at hp
  rcases hp with rfl | ((⟨e, -, rfl⟩ | rfl) | hp) | hp
  · cases hsnd
  · exact absurd hsnd (hentry e)
  · cases hsnd
  · split_ifs at hp
    · exact absurd hp List.not_mem_nil
    · rw [List.mem_singleton.mp hp] at hsnd
      exact (UniqueProperty.operatorKey.inj (Option.some_inj.mp hsnd)).symm
  · split_ifs at hp
    · rw [List.mem_singleton.mp hp] at hsnd
      cases hsnd
    · exact absurd hp List.not_mem_nil

/-- Consistent maps say exactly what the masternodes have. -/
theorem Consistent.exact (h : Consistent codec sha256d list) : Exact codec sha256d list where
  ids := h.inv.ids
  distinct _ _ _ _ hmn hmn' := h.inv.id_injective hmn hmn'
  properties k hash n := by
    have hcount : ∀ dmn, list.mnMap[hash]? = some dmn →
        countOf list.mnUniquePropertyMap hash k = (dmn.hashes codec sha256d).count k := by
      intro dmn hmn
      rw [h.inv.properties.count, held_of_some hmn]
    constructor
    · intro hget
      have hmem : k ∈ list.held codec sha256d hash := h.inv.properties.mem_iff.mpr ⟨n, hget⟩
      refine ⟨h.inv.properties.ne_zero k (hash, n) hget, ?_⟩
      cases hmn : list.mnMap[hash]? with
      | none =>
        rw [held_of_none hmn] at hmem
        exact absurd hmem (Multiset.notMem_zero k)
      | some dmn =>
        refine ⟨dmn, rfl, ?_⟩
        rw [← hcount dmn hmn, countOf_of_some hget, if_pos rfl]
    · rintro ⟨hne, dmn, hmn, hn⟩
      have hpos : 0 < (dmn.hashes codec sha256d).count k := by
        rw [hn]
        exact Nat.pos_of_ne_zero fun hzero => hne (UInt32.toNat_inj.mp hzero)
      have hmem : k ∈ list.held codec sha256d hash := by
        rw [held_of_some hmn]
        exact Multiset.count_pos.mp hpos
      obtain ⟨c, hc⟩ := h.inv.properties.mem_iff.mp hmem
      have hsame : c.toNat = n.toNat := by
        rw [← hn, ← hcount dmn hmn, countOf_of_some hc, if_pos rfl]
      rw [hc, UInt32.toNat_inj.mp hsame]
  apart hash hash' dmn dmn' hmn hmn' hne v hv v' hv' := by
    by_contra hequal
    rw [Bool.not_eq_false] at hequal
    have hkeys : ∀ k k', v = .operatorKey k → v' = .operatorKey k' → OneEncoding codec k k' := by
      rintro k k' rfl rfl
      have hk := operatorKey_mem hv
      have hk' := operatorKey_mem hv'
      rw [hk, hk']
      exact h.uniform.2 _ (mem_keys hmn) _ (mem_keys hmn')
    have hhash := @hash_eq_of_equal _ _ codec sha256d v v' hequal hkeys
    have hmem : getUniquePropertyHash codec sha256d v ∈ list.held codec sha256d hash := by
      rw [held_of_some hmn]
      exact mem_hashes hv
    have hmem' : getUniquePropertyHash codec sha256d v ∈ list.held codec sha256d hash' := by
      rw [held_of_some hmn', hhash]
      exact mem_hashes hv'
    exact hne (h.inv.properties.owner_unique hmem hmem')

/-- In a run whose operations are given current entries, addresses in step, an owner
key in every update, and no key in two encodings, the maps of every list are exact. -/
theorem list_exact_of_fitting_run
    (h : Reachable codec sha256d (fun op list => op.Current list ∧ op.Fitting codec list) list) :
    Exact codec sha256d list := by
  have hconsistent : Consistent codec sha256d list := by
    induction h with
    | empty blockHash nHeight count =>
      refine ⟨CDeterministicMNList.inv_empty blockHash nHeight count, ?_⟩
      have hkeys : ({blockHash, nHeight, nTotalRegisteredCount := count} :
          CDeterministicMNList G).keys ⊆ ∅ := by
        rintro k ⟨hash, dmn, hmn, -⟩
        rw [ExtTreeMap.getElem?_empty] at hmn
        exact absurd hmn (Option.some_ne_none dmn).symm
      have hempty : Uniform codec (∅ : Set (CBLSLazyPublicKey G)) :=
        ⟨fun k hk => absurd hk (Set.notMem_empty k), fun a ha => absurd ha (Set.notMem_empty a)⟩
      exact hempty.subset hkeys
    | step op _ hop hok ih => exact consistent_step ih hop.1 hop.2 hok
  exact hconsistent.exact

section Samples

theorem some_of_replicate (legacy : Bool) (g : Unit) :
    (if (Vector.replicate 48 (if legacy then 1 else 2) : KeyBytes) =
      Vector.replicate 48 (if legacy then 1 else 2) then some () else none) = some g :=
  if_pos rfl

theorem replicate_ne_zero (legacy : Bool) (_ : Unit) :
    (Vector.replicate 48 (if legacy then 1 else 2) : KeyBytes) ≠ zeroBytes := by
  cases legacy <;> decide

/-- A group of one element, with different bytes in the two schemes. -/
def oneCodec : KeyCodec Unit where
  serializeToArray legacy _ := Vector.replicate 48 (if legacy then 1 else 2)
  fromBytes legacy bytes :=
    if bytes = Vector.replicate 48 (if legacy then 1 else 2) then some () else none
  fromBytes_serialize := some_of_replicate
  serialize_ne_zero := replicate_ne_zero

/-- A stand-in for the hash that tells short byte strings apart. -/
def digest (bytes : List UInt8) : uint256 :=
  bytes.foldl (fun h b => h*257+(b.toBitVec.setWidth 256+1)) 0

def readKey (legacy : Bool) : CBLSLazyPublicKey Unit :=
  CBLSLazyPublicKey.unserialize legacy (oneCodec.serializeToArray legacy ()) {}

def registeredMN (i : ℕ) (pubKeyOperator : CBLSLazyPublicKey Unit) : CDeterministicMN Unit where
  internalId := UInt64.ofNat i
  proTxHash := BitVec.ofNat 256 (i+1)
  collateralOutpoint := ⟨BitVec.ofNat 256 (i+1), 0⟩
  pdmnState := {keyIDOwner := BitVec.ofNat 160 (i+1), pubKeyOperator, netInfo := .mn {}}

/-- The list that an operation makes, where it succeeds. -/
def after (op : Operation Unit) (list : CDeterministicMNList Unit) : CDeterministicMNList Unit :=
  (op.perform oneCodec digest list).toOption.getD {}

theorem perform_after {op : Operation Unit} {list : CDeterministicMNList Unit}
    (h : (op.perform oneCodec digest list).toOption.isSome = true) :
    op.perform oneCodec digest list = .ok (after op list) := by
  obtain ⟨list', hlist⟩ := Option.isSome_iff_exists.mp h
  rw [after, hlist]
  exact eq_ok_of_toOption hlist

def registered : CDeterministicMNList Unit := after (.addMN (registeredMN 0 (readKey true)) true) {}

def punished : CDeterministicMNList Unit := after (.poSePunish 1 60) registered

def decreased : CDeterministicMNList Unit := after .decreaseScores punished

theorem list_exact_of_fitting_run_decreased :
    decreased.mnMap.size = 1 ∧ Exact oneCodec digest decreased := by
  have hadd : (Operation.addMN (registeredMN 0 (readKey true)) true).Fitting oneCodec
      ({} : CDeterministicMNList Unit) := by
    have hkeys : insert (readKey true) ({} : CDeterministicMNList Unit).keys ⊆ {readKey true} := by
      refine Set.insert_subset rfl ?_
      rintro k ⟨hash, dmn, hmn, -⟩
      rw [ExtTreeMap.getElem?_empty] at hmn
      exact absurd hmn (Option.some_ne_none dmn).symm
    refine ⟨⟨trivial, by decide⟩, Uniform.subset ⟨?_, ?_⟩ hkeys⟩
    · rintro k rfl
      decide +kernel
    · rintro a rfl b rfl
      exact fun _ => rfl
  refine ⟨by decide +kernel, list_exact_of_fitting_run ?_⟩
  exact .step .decreaseScores (.step (.poSePunish 1 60) (.step (.addMN (registeredMN 0 (readKey true)) true)
    (.empty 0 (-1) 0) ⟨trivial, hadd⟩ (perform_after (by decide +kernel))) ⟨trivial, trivial⟩
      (perform_after (by decide +kernel))) ⟨trivial, trivial⟩ (perform_after (by decide +kernel))

def sharing : CDeterministicMNList Unit := after (.addMN (registeredMN 1 (readKey false)) true) registered

def rekeyed : CDeterministicMNList Unit :=
  after (.updateMN (registeredMN 0 (readKey true)) (registeredMN 0 (readKey false)).pdmnState) registered

/-- A key in the other encoding is added next to the one that it equals; an update
to it leaves the hash of the old encoding in the map. -/
theorem list_not_exact :
    Reachable oneCodec digest Operation.Current sharing ∧ ¬Exact oneCodec digest sharing ∧
      Reachable oneCodec digest Operation.Current rekeyed ∧ ¬Exact oneCodec digest rekeyed := by
  have hadd : Reachable oneCodec digest Operation.Current registered :=
    .step (.addMN (registeredMN 0 (readKey true)) true) (.empty 0 (-1) 0) trivial
      (perform_after (by decide +kernel))
  refine ⟨?_, fun hexact => ?_, ?_, fun hexact => ?_⟩
  · exact .step (.addMN (registeredMN 1 (readKey false)) true) hadd trivial
      (perform_after (by decide +kernel))
  · have happart := hexact.apart 1 2 (registeredMN 0 (readKey true)) (registeredMN 1 (readKey false))
      (by decide +kernel) (by decide +kernel) (by decide) (.operatorKey (readKey true))
      (by decide +kernel) (.operatorKey (readKey false)) (by decide +kernel)
    revert happart
    decide +kernel
  · refine .step (.updateMN (registeredMN 0 (readKey true)) (registeredMN 0 (readKey false)).pdmnState)
      hadd ?_ (perform_after (by decide +kernel))
    show registered.mnMap[(registeredMN 0 (readKey true)).proTxHash]? = _
    decide +kernel
  · have hcount := (hexact.properties (getUniquePropertyHash oneCodec digest
      (.operatorKey (readKey true))) 1 1).mp (by decide +kernel)
    obtain ⟨-, dmn, hmn, hcount⟩ := hcount
    have hdmn : rekeyed.mnMap[(1 : uint256)]? = some (registeredMN 0 (readKey false)) := by
      decide +kernel
    obtain rfl := Option.some_inj.mp (hmn.symm.trans hdmn)
    revert hcount
    decide +kernel

end Samples

end BabaChain.Evo.ByValue
