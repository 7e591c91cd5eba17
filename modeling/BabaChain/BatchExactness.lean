import BabaChain.BatchVerifier

/-! With an exact aggregate check, the batch verifier finds the messages whose
signature fails, and their sources. -/
namespace BabaChain.BLS
open Std

variable {SourceId MessageId Sig PK : Type*}

/-- An aggregate check succeeds exactly when every signature in it is valid. The
keys of a hash aggregate to a valid key unless there are none. -/
structure Scheme.Exact (scheme : Scheme Sig PK) : Prop where
  aggregate : ∀ pks, (scheme.aggregatePublicKeys pks).isSome = true ↔ pks ≠ []
  check : ∀ groups : List (uint256 × List (Sig × PK)), groups ≠ [] → (∀ g ∈ groups, g.2 ≠ []) →
    scheme.verifyInsecureAggregated (groups.flatMap fun g => g.2.map Prod.fst)
        (groups.filterMap fun g => scheme.aggregatePublicKeys (g.2.map Prod.snd))
        (groups.map Prod.fst) =
      groups.all fun g => g.2.all fun s => scheme.verifyInsecure s.2 g.1 s.1

/-- The signature of a message passes on its own. -/
def Message.Valid (scheme : Scheme Sig PK) (msg : Message MessageId Sig PK) : Prop :=
  scheme.verifyInsecure msg.pubKey msg.msgHash msg.sig = true

variable {scheme : Scheme Sig PK}

/-- The groups that the aggregate check covers: those that are not empty. -/
def covered (groups : List (uint256 × List (Message MessageId Sig PK))) :
    List (uint256 × List (Sig × PK)) :=
  (groups.filter fun g => !g.2.isEmpty).map fun g => (g.1, g.2.map fun m => (m.sig, m.pubKey))

theorem covered_cons_nil (h : uint256)
    (groups : List (uint256 × List (Message MessageId Sig PK))) :
    covered ((h, []) :: groups) = covered groups := rfl

theorem covered_cons_cons (h : uint256) (m : Message MessageId Sig PK)
    (ms : List (Message MessageId Sig PK))
    (groups : List (uint256 × List (Message MessageId Sig PK))) :
    covered ((h, m :: ms) :: groups) =
      (h, (m :: ms).map fun m => (m.sig, m.pubKey)) :: covered groups := rfl

theorem covered_sigs (groups : List (uint256 × List (Message MessageId Sig PK))) :
    groups.flatMap (fun g => g.2.map Message.sig) =
      (covered groups).flatMap fun g => g.2.map Prod.fst := by
  induction groups with
  | nil => rfl
  | cons g groups ih =>
    obtain ⟨h, ms⟩ := g
    cases ms with
    | nil => rw [List.flatMap_cons, covered_cons_nil, ← ih, List.map_nil, List.nil_append]
    | cons m ms =>
      rw [covered_cons_cons, List.flatMap_cons, List.flatMap_cons, ← ih, List.map_map]
      rfl

/-- The hashes and keys that are checked are those of the covered groups. -/
theorem covered_checks (hex : scheme.Exact)
    (groups : List (uint256 × List (Message MessageId Sig PK))) :
    let checks := groups.filterMap fun g =>
      (scheme.aggregatePublicKeys (g.2.map Message.pubKey)).map fun aggPubKey => (g.1, aggPubKey)
    checks.map Prod.fst = (covered groups).map Prod.fst ∧
      checks.map Prod.snd =
        (covered groups).filterMap fun g => scheme.aggregatePublicKeys (g.2.map Prod.snd) := by
  induction groups with
  | nil => exact ⟨rfl, rfl⟩
  | cons g groups ih =>
    obtain ⟨h, ms⟩ := g
    cases ms with
    | nil =>
      have hnone : scheme.aggregatePublicKeys [] = none :=
        Option.not_isSome_iff_eq_none.mp fun hs => (hex.aggregate []).mp hs rfl
      rw [covered_cons_nil, List.filterMap_cons_none (by rw [List.map_nil, hnone]; rfl)]
      exact ih
    | cons m ms =>
      obtain ⟨key, hkey⟩ := Option.isSome_iff_exists.mp
        ((hex.aggregate ((m :: ms).map Message.pubKey)).mpr (List.cons_ne_nil _ _))
      have hkey' : scheme.aggregatePublicKeys
          (((m :: ms).map fun m => (m.sig, m.pubKey)).map Prod.snd) = some key := by
        rw [List.map_map]
        exact hkey
      rw [covered_cons_cons, List.filterMap_cons_some (by rw [hkey]; rfl)]
      refine ⟨congrArg (h :: ·) ih.1, ?_⟩
      rw [List.filterMap_cons, hkey']
      exact congrArg (key :: ·) ih.2

section Batches
variable [DecidableEq MessageId] {ok : MessageId → Prop}

/-- Skipping an id that was seen before loses nothing if that id was fine. -/
theorem newMessages_ok {msgs : List (Message MessageId Sig PK)} {dups : List MessageId}
    (hdups : ∀ i ∈ dups, ok i) :
    ((∀ m ∈ (newMessages msgs dups).1, ok m.msgId) ↔ ∀ m ∈ msgs, ok m.msgId) ∧
      ((∀ m ∈ msgs, ok m.msgId) → ∀ i ∈ (newMessages msgs dups).2, ok i) := by
  induction msgs generalizing dups with
  | nil => exact ⟨Iff.rfl, fun _ => hdups⟩
  | cons msg msgs ih =>
    rw [newMessages]
    by_cases hm : msg.msgId ∈ dups
    · rw [if_pos hm, (ih hdups).1, List.forall_mem_cons, and_iff_right (hdups _ hm)]
      exact ⟨Iff.rfl, (ih hdups).2⟩
    · rw [if_neg hm]
      dsimp only
      rw [List.forall_mem_cons, List.forall_mem_cons]
      by_cases hok : ok msg.msgId
      · have hdups' : ∀ i ∈ msg.msgId :: dups, ok i := List.forall_mem_cons.mpr ⟨hok, hdups⟩
        rw [(ih hdups').1, and_iff_right hok]
        exact ⟨Iff.rfl, (ih hdups').2⟩
      · exact ⟨iff_of_false (fun h => hok h.1) fun h => hok h.1, fun h => absurd h.1 hok⟩

theorem newByHash_ok {groups : List (uint256 × List (Message MessageId Sig PK))}
    {dups : List MessageId} (hdups : ∀ i ∈ dups, ok i) :
    (∀ g ∈ newByHash groups dups, ∀ m ∈ g.2, ok m.msgId) ↔
      ∀ g ∈ groups, ∀ m ∈ g.2, ok m.msgId := by
  induction groups generalizing dups with
  | nil => exact Iff.rfl
  | cons g groups ih =>
    obtain ⟨msgHash, msgs⟩ := g
    obtain ⟨hnew, hdups'⟩ := @newMessages_ok _ _ _ _ _ msgs _ hdups
    rw [newByHash, List.forall_mem_cons, List.forall_mem_cons, hnew]
    by_cases h : ∀ m ∈ msgs, ok m.msgId
    · rw [ih (hdups' h)]
    · exact iff_of_false (fun hc => h hc.1) fun hc => h hc.1

theorem mem_newMessages {msgs : List (Message MessageId Sig PK)} {dups : List MessageId}
    {m : Message MessageId Sig PK} (h : m ∈ (newMessages msgs dups).1) : m ∈ msgs := by
  induction msgs generalizing dups with
  | nil => exact h
  | cons msg msgs ih =>
    rw [newMessages] at h
    split at h
    · exact List.mem_cons_of_mem msg (ih h)
    · rcases List.mem_cons.mp h with rfl | h
      · exact List.mem_cons_self
      · exact List.mem_cons_of_mem msg (ih h)

theorem mem_newByHash {groups : List (uint256 × List (Message MessageId Sig PK))}
    {dups : List MessageId} {g : uint256 × List (Message MessageId Sig PK)}
    (hg : g ∈ newByHash groups dups) {m : Message MessageId Sig PK} (hm : m ∈ g.2) :
    ∃ g' ∈ groups, g'.1 = g.1 ∧ m ∈ g'.2 := by
  induction groups generalizing dups with
  | nil => exact absurd hg List.not_mem_nil
  | cons g' groups ih =>
    rw [newByHash] at hg
    rcases List.mem_cons.mp hg with rfl | hg
    · exact ⟨g', List.mem_cons_self, rfl, mem_newMessages hm⟩
    · obtain ⟨g'', hmem, hrest⟩ := ih hg
      exact ⟨g'', List.mem_cons_of_mem g' hmem, hrest⟩

/-- The check of the batch is the check of every message that is new in it. -/
theorem verifyBatchInsecure_iff (hex : scheme.Exact)
    (groups : List (uint256 × List (Message MessageId Sig PK))) :
    verifyBatchInsecure scheme groups = true ↔
      ∀ g ∈ newByHash groups [], ∀ m ∈ g.2, scheme.verifyInsecure m.pubKey g.1 m.sig = true := by
  unfold verifyBatchInsecure
  generalize newByHash groups [] = new
  obtain ⟨hhash, hkeys⟩ := covered_checks hex new
  dsimp only at hhash hkeys ⊢
  rw [covered_sigs, hhash, hkeys]
  have hempty : (new.filterMap fun g => (scheme.aggregatePublicKeys
      (g.2.map Message.pubKey)).map fun aggPubKey => (g.1, aggPubKey)).isEmpty = true ↔
        covered new = [] := by
    rw [List.isEmpty_iff, ← List.map_eq_nil_iff (f := Prod.fst), hhash, List.map_eq_nil_iff]
  -- a group left without new messages is dropped, and it demands nothing
  have hall : (∀ g ∈ new, ∀ m ∈ g.2, scheme.verifyInsecure m.pubKey g.1 m.sig = true) ↔
      ((covered new).all fun g => g.2.all fun s => scheme.verifyInsecure s.2 g.1 s.1) = true := by
    simp only [covered, List.all_map, List.all_filter, List.all_eq_true, Function.comp_apply,
      Bool.or_eq_true]
    refine forall₂_congr fun g _ => ⟨fun h => Or.inr h, fun h m hm => ?_⟩
    rcases h with h | h
    · rw [Bool.not_not, List.isEmpty_iff] at h
      exact absurd hm (h ▸ List.not_mem_nil)
    · exact h m hm
  rw [hall]
  split
  · next h =>
    rw [hempty.mp h]
    exact iff_of_true rfl rfl
  · next h =>
    have hnonempty : ∀ g ∈ covered new, g.2 ≠ [] := by
      intro g hg
      obtain ⟨g', hg', rfl⟩ := List.mem_map.mp hg
      have hne := (List.mem_filter.mp hg').2
      rw [Bool.not_eq_true', List.isEmpty_eq_false_iff] at hne
      exact fun hnil => hne (List.map_eq_nil_iff.mp hnil)
    rw [hex.check (covered new) (fun hnil => h (hempty.mpr hnil)) hnonempty]

/-- An exact check of a batch in which equal ids have equal messages. -/
theorem verifyBatch_iff (hex : scheme.Exact) {msgs : List (Message MessageId Sig PK)}
    (hids : ∀ m ∈ msgs, ∀ m' ∈ msgs, m.msgId = m'.msgId → m = m') :
    verifyBatch scheme false msgs = true ↔ ∀ m ∈ msgs, m.Valid scheme := by
  let ok := fun i : MessageId => ∀ m ∈ msgs, m.msgId = i → m.Valid scheme
  have hok : ∀ m ∈ msgs, ok m.msgId ↔ m.Valid scheme := by
    intro m hm
    refine ⟨fun h => h m hm rfl, fun h m' hm' hid => ?_⟩
    rw [hids m' hm' m hm hid]
    exact h
  have hgroup : ∀ g ∈ (Grouping.group Message.msgHash id msgs).toList, ∀ m ∈ g.2,
      m ∈ msgs ∧ m.msgHash = g.1 := by
    rw [Grouping.forall_mem_group (P := fun h m => m ∈ msgs ∧ m.msgHash = h)]
    exact fun m hm => ⟨hm, rfl⟩
  have hnew : (∀ g ∈ newByHash (Grouping.group Message.msgHash id msgs).toList [],
      ∀ m ∈ g.2, ok m.msgId) ↔ ∀ m ∈ msgs, ok m.msgId :=
    (newByHash_ok fun i hi => absurd hi List.not_mem_nil).trans
      (Grouping.forall_mem_group (P := fun _ m => ok (Message.msgId m)))
  have hmsgs : (∀ m ∈ msgs, ok m.msgId) ↔ ∀ m ∈ msgs, m.Valid scheme :=
    forall₂_congr hok
  unfold verifyBatch
  dsimp only
  rw [if_neg Bool.false_ne_true, verifyBatchInsecure_iff hex, ← hmsgs]
  refine Iff.trans ?_ hnew
  refine forall₂_congr fun g hg => forall₂_congr fun m hm => ?_
  obtain ⟨g', hg', hhash, hm'⟩ := mem_newByHash hg hm
  obtain ⟨hmem, hh⟩ := hgroup g' hg' m hm'
  rw [hok m hmem, Message.Valid, hh, hhash]

/-- The checks of whole batches are exact where equal ids have equal messages. -/
def ExactBatches (scheme : Scheme Sig PK) (MessageId : Type*) [DecidableEq MessageId]
    (secureVerification : Bool) : Prop :=
  ∀ msgs : List (Message MessageId Sig PK),
    (∀ m ∈ msgs, ∀ m' ∈ msgs, m.msgId = m'.msgId → m = m') →
    (verifyBatch scheme secureVerification msgs = true ↔ ∀ m ∈ msgs, m.Valid scheme)

theorem Scheme.Exact.batches (hex : scheme.Exact) : ExactBatches scheme MessageId false :=
  fun _ hids => verifyBatch_iff hex hids

end Batches

namespace CBLSBatchVerifier

variable [Ord SourceId] [Ord MessageId] [TransOrd MessageId] [LawfulEqOrd MessageId]
  {bv : CBLSBatchVerifier SourceId MessageId Sig PK}

theorem verifyMessages_spec (msgs : List (Message MessageId Sig PK)) :
    ∃ bad, msgs.foldl (verifyMessage scheme) bv = {bv with badMessages := bad} ∧
      ∀ i, i ∈ bad ↔ i ∈ bv.badMessages ∨ ∃ m ∈ msgs, m.msgId = i ∧ ¬m.Valid scheme := by
  induction msgs generalizing bv with
  | nil => exact ⟨bv.badMessages, rfl, fun i => by simp⟩
  | cons msg msgs ih =>
    obtain ⟨bad, heq, hbad⟩ := @ih (verifyMessage scheme bv msg)
    have hstep : verifyMessage scheme bv msg =
        {bv with badMessages := (verifyMessage scheme bv msg).badMessages} ∧
        ∀ i, i ∈ (verifyMessage scheme bv msg).badMessages ↔
          i ∈ bv.badMessages ∨ msg.msgId = i ∧ ¬msg.Valid scheme := by
      unfold verifyMessage Message.Valid
      by_cases hm : msg.msgId ∈ bv.badMessages
      · rw [if_pos hm]
        refine ⟨rfl, fun i => ⟨Or.inl, fun h => h.elim id fun h => h.1 ▸ hm⟩⟩
      · rw [if_neg hm]
        split
        · next hv => exact ⟨rfl, fun i => ⟨Or.inl, fun h => h.elim id fun h => absurd hv h.2⟩⟩
        · next hv =>
          refine ⟨rfl, fun i => ?_⟩
          rw [OrdMap.mem_set_insert, and_iff_left hv, or_comm]
    refine ⟨bad, ?_, fun i => ?_⟩
    · rw [List.foldl_cons, heq, hstep.1]
    · rw [hbad, hstep.2, List.exists_mem_cons_iff, or_assoc]

/-- A source whose batch fails loses exactly the messages that fail. -/
theorem fallback_spec (hfb : bv.perMessageFallback = true) {msgs : List (Message MessageId Sig PK)}
    (hfail : ∃ m ∈ msgs, ¬m.Valid scheme) :
    ∃ bad, fallback scheme bv msgs = {bv with badMessages := bad} ∧
      ∀ i, i ∈ bad ↔ i ∈ bv.badMessages ∨ ∃ m ∈ msgs, m.msgId = i ∧ ¬m.Valid scheme := by
  unfold fallback
  rw [if_pos hfb]
  split
  · next msg =>
    obtain ⟨m, hm, hv⟩ := hfail
    rw [List.mem_singleton] at hm
    subst hm
    refine ⟨_, rfl, fun i => ?_⟩
    simp only [OrdMap.mem_set_insert, List.mem_singleton, exists_eq_left, and_iff_left hv, or_comm]
  · exact verifyMessages_spec _

variable [TransOrd SourceId]

/-- The verifier keeps these messages, each under its id and in the groups of its sources. -/
structure Keeps (bv : CBLSBatchVerifier SourceId MessageId Sig PK)
    (waiting : List (SourceId × Message MessageId Sig PK)) : Prop where
  messages : ∀ i m, bv.messages[i]? = some m ↔ m ∈ waiting.map Prod.snd ∧ m.msgId = i
  bySource : bv.messagesBySource = Grouping.group Prod.fst Prod.snd waiting

/-- The messages waiting in the verifier, in the order they were pushed. -/
structure Holding (bv : CBLSBatchVerifier SourceId MessageId Sig PK)
    (waiting : List (SourceId × Message MessageId Sig PK)) : Prop where
  messages : ∀ i m, bv.messages[i]? = some m ↔ m ∈ waiting.map Prod.snd ∧ m.msgId = i
  size : bv.messages.size = waiting.length
  bySource : bv.messagesBySource = Grouping.group Prod.fst Prod.snd waiting

variable {waiting : List (SourceId × Message MessageId Sig PK)}

omit [LawfulEqOrd MessageId] in
theorem Holding.keeps (h : Holding bv waiting) : Keeps bv waiting := ⟨h.messages, h.bySource⟩

theorem Keeps.mem_messages (h : Keeps bv waiting) (m : Message MessageId Sig PK) :
    m ∈ bv.messages.toList.map Prod.snd ↔ m ∈ waiting.map Prod.snd := by
  constructor
  · intro hm
    obtain ⟨⟨i, m'⟩, hmem, rfl⟩ := List.mem_map.mp hm
    exact ((h.messages i m').mp (ExtTreeMap.mem_toList_iff_getElem?_eq_some.mp hmem)).1
  · intro hm
    have hget := (h.messages m.msgId m).mpr ⟨hm, rfl⟩
    exact List.mem_map.mpr ⟨(m.msgId, m), ExtTreeMap.mem_toList_iff_getElem?_eq_some.mpr hget, rfl⟩

omit [LawfulEqOrd MessageId] in
theorem Keeps.eq_of_msgId (h : Keeps bv waiting) {m m' : Message MessageId Sig PK}
    (hm : m ∈ waiting.map Prod.snd) (hm' : m' ∈ waiting.map Prod.snd)
    (hid : m.msgId = m'.msgId) : m = m' := by
  have hget := (h.messages m.msgId m).mpr ⟨hm, rfl⟩
  have hget' := (h.messages m.msgId m').mpr ⟨hm', hid.symm⟩
  rw [hget] at hget'
  exact Option.some.inj hget'

variable [LawfulEqOrd SourceId] [DecidableEq MessageId]

/-- A source whose batch fails is bad; its messages are looked at in fallback mode only. -/
theorem verifySource_spec (hex : ExactBatches scheme MessageId bv.secureVerification)
    {p : SourceId × List (Message MessageId Sig PK)}
    (hids : ∀ m ∈ p.2, ∀ m' ∈ p.2, m.msgId = m'.msgId → m = m')
    (hone : bv.messagesBySource.size = 1 → ∃ m ∈ p.2, ¬m.Valid scheme) :
    ∃ badS badM, verifySource scheme bv p = {bv with badSources := badS, badMessages := badM} ∧
      (∀ s, s ∈ badS ↔ s ∈ bv.badSources ∨ p.1 = s ∧ ∃ m ∈ p.2, ¬m.Valid scheme) ∧
      ∀ i, i ∈ badM ↔ i ∈ bv.badMessages ∨
        bv.perMessageFallback = true ∧ ∃ m ∈ p.2, m.msgId = i ∧ ¬m.Valid scheme := by
  have hbatch := hex p.2 hids
  unfold verifySource
  by_cases hfail : ∃ m ∈ p.2, ¬m.Valid scheme
  · -- the aggregate fails: the source is bad, and the fallback finds its messages
    have hinvalid : ¬∀ m ∈ p.2, m.Valid scheme := by
      obtain ⟨m, hm, hv⟩ := hfail
      exact fun h => hv (h m hm)
    rw [if_neg fun h => hinvalid (hbatch.mp h.2)]
    have hsources : ∀ s, s ∈ bv.badSources.insert p.1 ↔
        s ∈ bv.badSources ∨ p.1 = s ∧ ∃ m ∈ p.2, ¬m.Valid scheme := by
      intro s
      rw [OrdMap.mem_set_insert, and_iff_left hfail, or_comm]
    by_cases hfb : bv.perMessageFallback = true
    · have hfb' : {bv with badSources := bv.badSources.insert p.1}.perMessageFallback = true := hfb
      obtain ⟨bad, heq, hbad⟩ := fallback_spec hfb' hfail
      refine ⟨_, bad, heq, hsources, fun i => ?_⟩
      rw [hbad, and_iff_right hfb]
    · refine ⟨_, bv.badMessages, ?_, hsources, fun i => by simp [hfb]⟩
      unfold fallback
      rw [if_neg hfb]
  · -- there are other sources, as a single one would have failed with the batch
    have hvalid : ∀ m ∈ p.2, m.Valid scheme := by
      intro m hm
      by_contra hv
      exact hfail ⟨m, hm, hv⟩
    rw [if_pos ⟨fun h => hfail (hone h), hbatch.mpr hvalid⟩]
    refine ⟨bv.badSources, bv.badMessages, rfl, fun s => ?_, fun i => ?_⟩
    · exact ⟨Or.inl, fun h => h.elim id fun h => absurd h.2 hfail⟩
    · refine ⟨Or.inl, fun h => h.elim id fun h => ?_⟩
      obtain ⟨_, m, hm, _, hv⟩ := h
      exact absurd ⟨m, hm, hv⟩ hfail

theorem verifySources_spec (hex : ExactBatches scheme MessageId bv.secureVerification)
    {sources : List (SourceId × List (Message MessageId Sig PK))}
    (hids : ∀ p ∈ sources, ∀ m ∈ p.2, ∀ m' ∈ p.2, m.msgId = m'.msgId → m = m')
    (hone : bv.messagesBySource.size = 1 → ∀ p ∈ sources, ∃ m ∈ p.2, ¬m.Valid scheme) :
    ∃ badS badM, sources.foldl (verifySource scheme) bv =
        {bv with badSources := badS, badMessages := badM} ∧
      (∀ s, s ∈ badS ↔ s ∈ bv.badSources ∨
        ∃ p ∈ sources, p.1 = s ∧ ∃ m ∈ p.2, ¬m.Valid scheme) ∧
      ∀ i, i ∈ badM ↔ i ∈ bv.badMessages ∨
        bv.perMessageFallback = true ∧ ∃ p ∈ sources, ∃ m ∈ p.2, m.msgId = i ∧ ¬m.Valid scheme := by
  induction sources generalizing bv with
  | nil => exact ⟨bv.badSources, bv.badMessages, rfl, fun s => by simp, fun i => by simp⟩
  | cons p sources ih =>
    obtain ⟨badS, badM, heq, hS, hM⟩ := verifySource_spec hex
      (hids p List.mem_cons_self) fun h => hone h p List.mem_cons_self
    obtain ⟨badS', badM', heq', hS', hM'⟩ := @ih {bv with
        badSources := badS, badMessages := badM} hex
      (fun q hq => hids q (List.mem_cons_of_mem p hq))
      (fun h q hq => hone h q (List.mem_cons_of_mem p hq))
    refine ⟨badS', badM', ?_, fun s => ?_, fun i => ?_⟩
    · rw [List.foldl_cons, heq, heq']
    · rw [hS', hS, List.exists_mem_cons_iff, or_assoc]
    · rw [hM', hM, List.exists_mem_cons_iff, and_or_left, or_assoc]

/-- Verification marks the waiting messages that fail, and their sources. -/
theorem verify_spec [DecidableEq SourceId]
    (hex : ExactBatches scheme MessageId bv.secureVerification) (h : Keeps bv waiting) :
    ∃ badS badM, verify scheme bv = {bv with badSources := badS, badMessages := badM} ∧
      (∀ s, s ∈ badS ↔ s ∈ bv.badSources ∨ ∃ p ∈ waiting, p.1 = s ∧ ¬p.2.Valid scheme) ∧
      ∀ i, i ∈ badM ↔ i ∈ bv.badMessages ∨
        bv.perMessageFallback = true ∧ ∃ p ∈ waiting, p.2.msgId = i ∧ ¬p.2.Valid scheme := by
  have hmem : ∀ p ∈ waiting, p.2 ∈ waiting.map Prod.snd := fun p hp => List.mem_map_of_mem hp
  have hbatch : verifyBatch scheme bv.secureVerification (bv.messages.toList.map Prod.snd) = true ↔
      ∀ p ∈ waiting, p.2.Valid scheme := by
    rw [hex _ fun m hm m' hm' =>
      h.eq_of_msgId ((h.mem_messages m).mp hm) ((h.mem_messages m').mp hm')]
    simp only [h.mem_messages, List.forall_mem_map]
  unfold verify
  by_cases hall : ∀ p ∈ waiting, p.2.Valid scheme
  · rw [if_pos (hbatch.mpr hall)]
    refine ⟨bv.badSources, bv.badMessages, rfl, fun s => ?_, fun i => ?_⟩
    · refine ⟨Or.inl, fun hs => hs.elim id fun hs => ?_⟩
      obtain ⟨p, hp, _, hv⟩ := hs
      exact absurd (hall p hp) hv
    · refine ⟨Or.inl, fun hi => hi.elim id fun hi => ?_⟩
      obtain ⟨_, p, hp, _, hv⟩ := hi
      exact absurd (hall p hp) hv
  · rw [if_neg fun hb => hall (hbatch.mp hb)]
    have hsource : ∀ p ∈ bv.messagesBySource.toList, ∀ m ∈ p.2, m ∈ waiting.map Prod.snd := by
      rw [h.bySource, Grouping.forall_mem_group (P := fun _ m => m ∈ waiting.map Prod.snd)]
      exact hmem
    have hone : bv.messagesBySource.size = 1 →
        ∀ p ∈ bv.messagesBySource.toList, ∃ m ∈ p.2, ¬m.Valid scheme := by
      -- the only source sent the message that fails
      intro hsize p hp
      push Not at hall
      obtain ⟨q, hlist⟩ := List.length_eq_one_iff.mp (ExtTreeMap.length_toList.trans hsize)
      have hfail : ∃ g ∈ bv.messagesBySource.toList, ∃ m ∈ g.2, ¬m.Valid scheme := by
        rw [h.bySource]
        exact Grouping.exists_mem_group (P := fun _ m => ¬Message.Valid scheme m).mpr hall
      rw [hlist] at hfail
      rw [hlist, List.mem_singleton] at hp
      obtain ⟨q', hq', hv⟩ := hfail
      rw [List.mem_singleton] at hq'
      rw [hp, ← hq']
      exact hv
    obtain ⟨badS, badM, heq, hS, hM⟩ := verifySources_spec hex
      (fun p hp m hm m' hm' => h.eq_of_msgId (hsource p hp m hm) (hsource p hp m' hm')) hone
    refine ⟨badS, badM, heq, fun s => ?_, fun i => ?_⟩
    · have hgroup := @Grouping.exists_mem_group _ _ _ _ _ Prod.fst Prod.snd _ _ waiting
        (fun k m => k = s ∧ ¬Message.Valid scheme m)
      rw [hS, h.bySource, ← hgroup]
      refine or_congr_right (exists_congr fun p => and_congr_right fun _ => ?_)
      exact ⟨fun ⟨hs, m, hm, hv⟩ => ⟨m, hm, hs, hv⟩, fun ⟨m, hm, hs, hv⟩ => ⟨hs, m, hm, hv⟩⟩
    · have hgroup := @Grouping.exists_mem_group _ _ _ _ _ Prod.fst Prod.snd _ _ waiting
        (fun _ m => Message.msgId m = i ∧ ¬Message.Valid scheme m)
      rw [hM, h.bySource, hgroup]

omit [LawfulEqOrd SourceId] in
theorem Holding.add (h : Holding bv waiting) {s : SourceId} {msg : Message MessageId Sig PK}
    (hnew : ∀ p ∈ waiting, p.2.msgId ≠ msg.msgId) :
    Holding (addMessage bv s msg) (waiting++[(s, msg)]) := by
  have hnone : bv.messages[msg.msgId]? = none := by
    cases hget : bv.messages[msg.msgId]? with
    | none => rfl
    | some m =>
      obtain ⟨hm, hid⟩ := (h.messages _ m).mp hget
      obtain ⟨p, hp, rfl⟩ := List.mem_map.mp hm
      exact absurd hid (hnew p hp)
  have hmem : msg.msgId ∉ bv.messages := OrdMap.notMem_iff.mpr hnone
  -- the iterator that the groups keep points to the message itself
  have hit : (bv.messages.insertIfNew msg.msgId msg).getD msg.msgId msg = msg := by
    rw [ExtTreeMap.getD_insertIfNew, if_pos ⟨Std.ReflCmp.compare_self, hmem⟩]
  refine ⟨fun i m => ?_, ?_, ?_⟩
  · have hget : (bv.messages.insertIfNew msg.msgId msg)[i]? =
        if msg.msgId = i then some msg else bv.messages[i]? := by
      rw [ExtTreeMap.getElem?_insertIfNew]
      simp only [LawfulEqCmp.compare_eq_iff_eq, and_iff_left hmem]
    refine (iff_of_eq (congrArg (· = some m) hget)).trans ?_
    rw [List.map_append, List.mem_append, List.map_singleton, List.mem_singleton]
    split
    · next hi =>
      rw [Option.some_inj]
      constructor
      · intro hm
        exact hm ▸ ⟨Or.inr rfl, hi⟩
      · intro hm
        rcases hm.1 with hw | hw
        · obtain ⟨p, hp, rfl⟩ := List.mem_map.mp hw
          exact absurd (hm.2.trans hi.symm) (hnew p hp)
        · exact hw.symm
    · next hi =>
      rw [h.messages]
      refine and_congr_left fun hid => ⟨Or.inl, fun hw => hw.resolve_right fun heq => ?_⟩
      exact hi ((congrArg Message.msgId heq).symm.trans hid)
  · rw [List.length_append, List.length_singleton, ← h.size]
    exact (ExtTreeMap.size_insertIfNew).trans (if_neg hmem)
  · rw [Grouping.group_concat, ← h.bySource]
    unfold addMessage
    dsimp only
    rw [hit]
    rfl

omit [LawfulEqOrd SourceId] [LawfulEqOrd MessageId] [DecidableEq MessageId] in
theorem holding_clear (bv : CBLSBatchVerifier SourceId MessageId Sig PK) :
    Holding (clearMessages bv) [] where
  messages i m := by simp [clearMessages]
  size := rfl
  bySource := rfl

/-- A verifier for insecure batches of `n` with fallback, after some messages were
pushed (newest first) and some sources refused: the messages of the batch that is
still open wait, the others are verified. -/
structure Tracks (scheme : Scheme Sig PK) (n : ℕ)
    (bv : CBLSBatchVerifier SourceId MessageId Sig PK) (refused : SourceId → Prop)
    (pushed : List (SourceId × Message MessageId Sig PK)) : Prop where
  fallback : bv.perMessageFallback = true
  insecure : bv.secureVerification = false
  subBatch : bv.subBatchSize = n
  waiting : Holding bv (pushed.take (pushed.length%n)).reverse
  badSources : ∀ s, s ∈ bv.badSources ↔
    refused s ∨ ∃ p ∈ pushed.drop (pushed.length%n), p.1 = s ∧ ¬p.2.Valid scheme
  badMessages : ∀ i, i ∈ bv.badMessages ↔
    ∃ p ∈ pushed.drop (pushed.length%n), p.2.msgId = i ∧ ¬p.2.Valid scheme

variable {n : ℕ} {refused : SourceId → Prop} {pushed : List (SourceId × Message MessageId Sig PK)}

omit [LawfulEqOrd MessageId] [DecidableEq MessageId] in
theorem Tracks.refuse (h : Tracks scheme n bv refused pushed) (s : SourceId) :
    Tracks scheme n {bv with badSources := bv.badSources.insert s}
      (fun t => s = t ∨ refused t) pushed where
  fallback := h.fallback
  insecure := h.insecure
  subBatch := h.subBatch
  waiting := ⟨h.waiting.messages, h.waiting.size, h.waiting.bySource⟩
  badSources t := by rw [OrdMap.mem_set_insert, h.badSources, or_assoc]
  badMessages := h.badMessages

theorem succ_mod (hn : 0 < n) (k : ℕ) : (k+1)%n = if n = k%n+1 then 0 else k%n+1 := by
  have hk : k+1 = n*(k/n)+(k%n+1) := by
    rw [← add_assoc, Nat.div_add_mod]
  have hlt := Nat.mod_lt k hn
  rw [hk, Nat.mul_add_mod]
  split
  · next h => rw [← h, Nat.mod_self]
  · next h => exact Nat.mod_eq_of_lt (by omega)

theorem Tracks.push [DecidableEq SourceId] (hex : scheme.Exact) (hn : 0 < n)
    (h : Tracks scheme n bv refused pushed) {s : SourceId} {msg : Message MessageId Sig PK}
    (hnew : ∀ p ∈ pushed, p.2.msgId ≠ msg.msgId) :
    Tracks scheme n (pushMessage scheme bv s msg) refused ((s, msg) :: pushed) := by
  have hlt := Nat.mod_lt pushed.length hn
  have hwait : Holding (addMessage bv s msg)
      (((s, msg) :: pushed).take (pushed.length%n+1)).reverse := by
    rw [List.take_succ_cons, List.reverse_cons]
    apply h.waiting.add
    intro p hp
    exact hnew p (List.mem_of_mem_take (List.mem_reverse.mp hp))
  have hsize : (addMessage bv s msg).messages.size = pushed.length%n+1 := by
    rw [hwait.size, List.length_reverse, List.length_take, List.length_cons]
    have := Nat.mod_le pushed.length n
    omega
  have hsub : (addMessage bv s msg).subBatchSize = n := h.subBatch
  have hmod := succ_mod hn pushed.length
  unfold pushMessage
  dsimp only
  rw [hsub, hsize]
  by_cases hfull : n = pushed.length%n+1
  · -- the batch is full: what was left to verify is verified now
    rw [if_pos hfull, ← List.length_cons (a := (s, msg))] at hmod
    rw [if_pos ⟨hn.ne', hfull.le⟩]
    have hfb : (addMessage bv s msg).perMessageFallback = true := h.fallback
    have hbatch : ExactBatches scheme MessageId (addMessage bv s msg).secureVerification := by
      rw [show (addMessage bv s msg).secureVerification = false from h.insecure]
      exact hex.batches
    obtain ⟨badS, badM, heq, hS, hM⟩ := verify_spec hbatch hwait.keeps
    simp only [hfb, true_and] at hM
    -- everything pushed so far: the earlier batches and the one just closed
    have hsplit : ∀ P : SourceId × Message MessageId Sig PK → Prop,
        (∃ p ∈ (s, msg) :: pushed, P p) ↔
          (∃ p ∈ pushed.drop (pushed.length%n), P p) ∨
            ∃ p ∈ (((s, msg) :: pushed).take (pushed.length%n+1)).reverse, P p := by
      intro P
      conv_lhs => rw [← List.take_append_drop (pushed.length%n+1) ((s, msg) :: pushed)]
      simp only [List.mem_append, List.mem_reverse, or_and_right, exists_or, List.drop_succ_cons]
      exact or_comm
    rw [heq]
    refine ⟨h.fallback, h.insecure, h.subBatch, ?_, fun t => ?_, fun i => ?_⟩
    · rw [hmod]
      exact holding_clear _
    · rw [hmod, List.drop_zero, hsplit, ← or_assoc, ← h.badSources]
      exact hS t
    · rw [hmod, List.drop_zero, hsplit, ← h.badMessages]
      exact hM i
  · -- the batch stays open, and what is verified does not change
    rw [if_neg hfull, ← List.length_cons (a := (s, msg))] at hmod
    have hopen : ¬(n ≠ 0 ∧ n ≤ pushed.length%n+1) := by omega
    rw [if_neg hopen]
    refine ⟨h.fallback, h.insecure, h.subBatch, ?_, fun t => ?_, fun i => ?_⟩
    · rw [hmod]
      exact hwait
    · rw [hmod]
      exact h.badSources t
    · rw [hmod]
      exact h.badMessages i

/-- The last verification settles all that was pushed. -/
theorem Tracks.verify_badMessages [DecidableEq SourceId] (hex : scheme.Exact)
    (h : Tracks scheme n bv refused pushed) (i : MessageId) :
    i ∈ (verify scheme bv).badMessages ↔ ∃ p ∈ pushed, p.2.msgId = i ∧ ¬p.2.Valid scheme := by
  have hbatch : ExactBatches scheme MessageId bv.secureVerification := by
    rw [h.insecure]
    exact hex.batches
  obtain ⟨badS, badM, heq, _, hM⟩ := verify_spec hbatch h.waiting.keeps
  simp only [h.fallback, true_and] at hM
  rw [heq]
  refine (hM i).trans ?_
  conv_rhs => rw [← List.take_append_drop (pushed.length%n) pushed]
  rw [h.badMessages]
  simp only [List.mem_append, List.mem_reverse, or_and_right, exists_or]
  exact or_comm

end CBLSBatchVerifier

end BabaChain.BLS
