import BabaChain.BatchExactness

/-! Batches in the secure mode, messages pushed more than once, with fallback and without. -/
namespace BabaChain.BLS
open Std

variable {SourceId MessageId Sig PK : Type*} {scheme : Scheme Sig PK}

/-- Also exact where no keys are aggregated: one signature and one key for each hash. -/
structure Scheme.ExactAggregates (scheme : Scheme Sig PK) : Prop extends scheme.Exact where
  separate : ∀ checks : List (uint256 × Sig × PK), checks ≠ [] →
    scheme.verifyInsecureAggregated (checks.map fun c => c.2.1) (checks.map fun c => c.2.2)
        (checks.map Prod.fst) =
      checks.all fun c => scheme.verifyInsecure c.2.2 c.1 c.2.1

section Batches
variable [DecidableEq MessageId] {ok : MessageId → Prop}
  {groups : List (uint256 × List (Message MessageId Sig PK))}

/-! ### One step of a secure batch -/

/-- A message popped without a check has an id that was checked in this step. -/
theorem lastMessages_ok {dups : List MessageId} (hdups : ∀ i ∈ dups, ok i) :
    (∀ x ∈ lastMessages groups dups, ok x.2.msgId) ↔
      ∀ g ∈ groups, ∀ m, g.2.getLast? = some m → ok m.msgId := by
  induction groups generalizing dups with
  | nil => simp [lastMessages]
  | cons g groups ih =>
    obtain ⟨msgHash, msgs⟩ := g
    rw [List.forall_mem_cons]
    cases hlast : msgs.getLast? with
    | none =>
      simp only [lastMessages, hlast]
      rw [ih hdups]
      simp
    | some msg =>
      have hone : (∀ m, some msg = some m → ok m.msgId) ↔ ok msg.msgId := by simp
      simp only [lastMessages, hlast, hone]
      by_cases hmem : msg.msgId ∈ dups
      · rw [if_pos hmem, ih hdups]
        exact (and_iff_right (hdups _ hmem)).symm
      · rw [if_neg hmem, List.forall_mem_cons]
        by_cases hok : ok msg.msgId
        · rw [ih (List.forall_mem_cons.mpr ⟨hok, hdups⟩)]
        · exact iff_of_false (fun h => hok h.1) fun h => hok h.1

theorem mem_lastMessages {dups : List MessageId} {x : uint256 × Message MessageId Sig PK}
    (hx : x ∈ lastMessages groups dups) : ∃ g ∈ groups, g.1 = x.1 ∧ x.2 ∈ g.2 := by
  induction groups generalizing dups with
  | nil => simp [lastMessages] at hx
  | cons g groups ih =>
    obtain ⟨msgHash, msgs⟩ := g
    have hlater {dups : List MessageId} (h : x ∈ lastMessages groups dups) :
        ∃ g ∈ (msgHash, msgs) :: groups, g.1 = x.1 ∧ x.2 ∈ g.2 := by
      obtain ⟨g, hg, hrest⟩ := ih h
      exact ⟨g, List.mem_cons_of_mem _ hg, hrest⟩
    cases hlast : msgs.getLast? with
    | none =>
      simp only [lastMessages, hlast] at hx
      exact hlater hx
    | some msg =>
      simp only [lastMessages, hlast] at hx
      split at hx
      · exact hlater hx
      · rcases List.mem_cons.mp hx with rfl | hx
        · exact ⟨_, List.mem_cons_self, rfl, List.mem_of_getLast? hlast⟩
        · exact hlater hx

/-- The first group always has a message to check. -/
theorem lastMessages_ne_nil (hne : groups ≠ []) (hgroups : ∀ g ∈ groups, g.2 ≠ []) :
    lastMessages groups [] ≠ [] := by
  cases groups with
  | nil => exact absurd rfl hne
  | cons g groups =>
    obtain ⟨msgHash, msgs⟩ := g
    have hlast : msgs.getLast? = some (msgs.getLast (hgroups _ List.mem_cons_self)) :=
      List.getLast?_eq_some_getLast _
    simp [lastMessages, hlast]

theorem verifyBatchSecureStep_iff (hex : scheme.ExactAggregates) (hne : groups ≠ [])
    (hgroups : ∀ g ∈ groups, g.2 ≠ [])
    (hok : ∀ g ∈ groups, ∀ m ∈ g.2,
      scheme.verifyInsecure m.pubKey g.1 m.sig = true ↔ ok m.msgId) :
    verifyBatchSecureStep scheme groups = true ↔
      ∀ g ∈ groups, ∀ m, g.2.getLast? = some m → ok m.msgId := by
  have hchecks := hex.separate ((lastMessages groups []).map fun x => (x.1, x.2.sig, x.2.pubKey))
    (fun h => lastMessages_ne_nil hne hgroups (List.map_eq_nil_iff.mp h))
  simp only [List.map_map, Function.comp_def] at hchecks
  have hnone : ∀ i ∈ ([] : List MessageId), ok i := fun i hi => absurd hi List.not_mem_nil
  unfold verifyBatchSecureStep
  dsimp only
  rw [← lastMessages_ok hnone, hchecks, List.all_map, List.all_eq_true]
  apply forall₂_congr
  intro x hx
  obtain ⟨g, hg, hhash, hm⟩ := mem_lastMessages hx
  rw [← hok g hg x.2 hm, hhash]
  rfl

/-! ### All steps -/

/-- What a step leaves. -/
def popBack (groups : List (uint256 × List (Message MessageId Sig PK))) :
    List (uint256 × List (Message MessageId Sig PK)) :=
  (groups.map fun group => (group.1, group.2.dropLast)).filter fun group => !group.2.isEmpty

omit [DecidableEq MessageId] in
theorem mem_popBack {g : uint256 × List (Message MessageId Sig PK)} :
    g ∈ popBack groups ↔ g.2 ≠ [] ∧ ∃ g' ∈ groups, g'.1 = g.1 ∧ g'.2.dropLast = g.2 := by
  unfold popBack
  rw [List.mem_filter, List.mem_map, Bool.not_eq_true', List.isEmpty_eq_false_iff, and_comm]
  apply and_congr_right
  intro _
  apply exists_congr
  intro g'
  rw [Prod.ext_iff]

omit [DecidableEq MessageId] in
/-- All messages are the last ones and those that stay. -/
theorem forall_mem_iff_popBack {P : Message MessageId Sig PK → Prop} :
    (∀ g ∈ groups, ∀ m ∈ g.2, P m) ↔ (∀ g ∈ groups, ∀ m, g.2.getLast? = some m → P m) ∧
      ∀ g ∈ popBack groups, ∀ m ∈ g.2, P m := by
  constructor
  · intro h
    constructor
    · intro g hg m hm
      exact h g hg m (List.mem_of_getLast? hm)
    · intro g hg m hm
      obtain ⟨-, g', hg', -, hdrop⟩ := mem_popBack.mp hg
      rw [← hdrop] at hm
      exact h g' hg' m (List.mem_of_mem_dropLast hm)
  · rintro ⟨hlast, hrest⟩ g hg m hm
    have hnonempty : g.2 ≠ [] := List.ne_nil_of_mem hm
    rw [← List.dropLast_append_getLast hnonempty, List.mem_append, List.mem_singleton] at hm
    rcases hm with hm | rfl
    · have hstays : (g.1, g.2.dropLast) ∈ popBack groups :=
        mem_popBack.mpr ⟨List.ne_nil_of_mem hm, g, hg, rfl, rfl⟩
      exact hrest _ hstays m hm
    · exact hlast g hg _ (List.getLast?_eq_some_getLast hnonempty)

theorem verifyBatchSecure_iff (hex : scheme.ExactAggregates) {fuel : ℕ}
    (hgroups : ∀ g ∈ groups, g.2 ≠ []) (hfuel : ∀ g ∈ groups, g.2.length ≤ fuel)
    (hok : ∀ g ∈ groups, ∀ m ∈ g.2,
      scheme.verifyInsecure m.pubKey g.1 m.sig = true ↔ ok m.msgId) :
    verifyBatchSecure scheme fuel groups = true ↔ ∀ g ∈ groups, ∀ m ∈ g.2, ok m.msgId := by
  induction fuel generalizing groups with
  | zero =>
    rw [verifyBatchSecure]
    apply iff_of_true rfl
    intro g hg
    have hlen : 0 < g.2.length := List.length_pos_of_ne_nil (hgroups g hg)
    have hzero := hfuel g hg
    omega
  | succ fuel ih =>
    rw [verifyBatchSecure]
    by_cases hempty : groups = []
    · simp [hempty]
    · rw [if_neg (by simpa using hempty), Bool.and_eq_true,
        verifyBatchSecureStep_iff hex hempty hgroups hok]
      have hrest : verifyBatchSecure scheme fuel (popBack groups) = true ↔
          ∀ g ∈ popBack groups, ∀ m ∈ g.2, ok m.msgId := by
        apply ih
        · intro g hg
          exact (mem_popBack.mp hg).1
        · intro g hg
          obtain ⟨-, g', hg', -, hdrop⟩ := mem_popBack.mp hg
          have hlen := hfuel g' hg'
          rw [← hdrop, List.length_dropLast]
          omega
        · intro g hg m hm
          obtain ⟨-, g', hg', hhash, hdrop⟩ := mem_popBack.mp hg
          rw [← hhash]
          rw [← hdrop] at hm
          exact hok g' hg' m (List.mem_of_mem_dropLast hm)
      exact (and_congr_right fun _ => hrest).trans forall_mem_iff_popBack.symm

/-- Both modes check every message of a batch. -/
theorem Scheme.ExactAggregates.batches (hex : scheme.ExactAggregates) (secureVerification : Bool) :
    ExactBatches scheme MessageId secureVerification := by
  cases secureVerification with
  | false => exact hex.toExact.batches
  | true =>
    intro msgs hids
    have hgroup : ∀ g ∈ (Grouping.group Message.msgHash id msgs).toList, ∀ m ∈ g.2,
        m ∈ msgs ∧ m.msgHash = g.1 := by
      rw [Grouping.forall_mem_group (P := fun h m => m ∈ msgs ∧ m.msgHash = h)]
      exact fun m hm => ⟨hm, rfl⟩
    have hclass : ∀ g ∈ (Grouping.group Message.msgHash id msgs).toList,
        (∃ m ∈ msgs, m.msgHash = g.1) ∧ g.2 = (msgs.filter fun m => m.msgHash = g.1).map id :=
      fun g hg => Grouping.mem_toList_group.mp hg
    let ok := fun i : MessageId => ∀ m ∈ msgs, m.msgId = i → m.Valid scheme
    unfold verifyBatch
    dsimp only
    rw [if_pos rfl]
    refine (@verifyBatchSecure_iff _ _ _ scheme _ ok _ hex msgs.length ?_ ?_ ?_).trans ?_
    · intro g hg
      obtain ⟨⟨m, hm, hhash⟩, heq⟩ := hclass g hg
      rw [heq, List.map_id]
      exact List.ne_nil_of_mem (List.mem_filter.mpr ⟨hm, decide_eq_true hhash⟩)
    · intro g hg
      rw [(hclass g hg).2, List.map_id]
      exact List.length_filter_le _ _
    · intro g hg m hm
      obtain ⟨hmem, hhash⟩ := hgroup g hg m hm
      rw [← hhash]
      constructor
      · intro hv m' hm' hid
        rw [hids m' hm' m hmem hid]
        exact hv
      · intro h
        exact h m hmem rfl
    · refine (Grouping.forall_mem_group (P := fun _ m => ok (Message.msgId m))).trans ?_
      constructor
      · intro h m hm
        exact h m hm m hm rfl
      · intro h m _ m' hm' _
        exact h m' hm'

end Batches

namespace CBLSBatchVerifier

variable [Ord SourceId] [TransOrd SourceId] [LawfulEqOrd SourceId] [DecidableEq SourceId]
  [Ord MessageId] [TransOrd MessageId] [LawfulEqOrd MessageId] [DecidableEq MessageId]

/-! ### Pushing -/

def pushMessages (scheme : Scheme Sig PK) (bv : CBLSBatchVerifier SourceId MessageId Sig PK)
    (pushed : List (SourceId × Message MessageId Sig PK)) :
    CBLSBatchVerifier SourceId MessageId Sig PK :=
  pushed.foldl (fun bv p => pushMessage scheme bv p.1 p.2) bv

variable {bv : CBLSBatchVerifier SourceId MessageId Sig PK}
  {settled waiting : List (SourceId × Message MessageId Sig PK)}

omit [LawfulEqOrd SourceId] [DecidableEq SourceId] [DecidableEq MessageId] in
/-- A message pushed again is kept once, and in the groups of all its sources. -/
theorem Keeps.add (h : Keeps bv waiting) {s : SourceId} {msg : Message MessageId Sig PK}
    (hsame : ∀ p ∈ waiting, p.2.msgId = msg.msgId → p.2 = msg) :
    Keeps (addMessage bv s msg) (waiting++[(s, msg)]) := by
  have hget : ∀ i m, (bv.messages.insertIfNew msg.msgId msg)[i]? = some m ↔
      m ∈ (waiting++[(s, msg)]).map Prod.snd ∧ m.msgId = i := by
    intro i m
    rw [ExtTreeMap.getElem?_insertIfNew, List.map_append, List.mem_append, List.map_singleton,
      List.mem_singleton]
    split
    · rename_i hnew
      obtain rfl : msg.msgId = i := LawfulEqCmp.eq_of_compare hnew.1
      rw [Option.some_inj]
      constructor
      · rintro rfl
        exact ⟨Or.inr rfl, rfl⟩
      · rintro ⟨hw | hw, hid⟩
        · obtain ⟨p, hp, rfl⟩ := List.mem_map.mp hw
          exact (hsame p hp hid).symm
        · exact hw.symm
    · rename_i hnew
      rw [h.messages]
      constructor
      · rintro ⟨hw, hid⟩
        exact ⟨Or.inl hw, hid⟩
      · rintro ⟨hw | rfl, hid⟩
        · exact ⟨hw, hid⟩
        · -- it is there already, under the same id
          have hthere : m.msgId ∈ bv.messages := by
            by_contra hnot
            exact hnew ⟨LawfulEqCmp.compare_eq_iff_eq.mpr hid, hnot⟩
          obtain ⟨m', hm'⟩ := OrdMap.mem_iff_exists.mp hthere
          obtain ⟨hw, hid'⟩ := (h.messages _ _).mp hm'
          obtain ⟨p, hp, rfl⟩ := List.mem_map.mp hw
          rw [hsame p hp hid'] at hw
          exact ⟨hw, hid⟩
  have hit : (bv.messages.insertIfNew msg.msgId msg).getD msg.msgId msg = msg := by
    have hmsg := (hget msg.msgId msg).mpr ⟨by simp, rfl⟩
    rw [ExtTreeMap.getD_eq_getD_getElem?, hmsg]
    rfl
  constructor
  · exact hget
  · rw [Grouping.group_concat, ← h.bySource]
    unfold addMessage
    dsimp only
    rw [hit]
    rfl

/-- A verifier that has settled some messages and keeps the others for its next check. -/
structure Settled (scheme : Scheme Sig PK) (secureVerification perMessageFallback : Bool)
    (bv : CBLSBatchVerifier SourceId MessageId Sig PK)
    (settled waiting : List (SourceId × Message MessageId Sig PK)) : Prop where
  secure : bv.secureVerification = secureVerification
  fallback : bv.perMessageFallback = perMessageFallback
  keeps : Keeps bv waiting
  badSources : ∀ s, s ∈ bv.badSources ↔ ∃ p ∈ settled, p.1 = s ∧ ¬p.2.Valid scheme
  badMessages : ∀ i, i ∈ bv.badMessages ↔
    perMessageFallback = true ∧ ∃ p ∈ settled, p.2.msgId = i ∧ ¬p.2.Valid scheme

variable {secureVerification perMessageFallback : Bool}

/-- A check settles all that waits. -/
theorem Settled.verify (hex : scheme.ExactAggregates)
    (h : Settled scheme secureVerification perMessageFallback bv settled waiting) :
    Settled scheme secureVerification perMessageFallback (verify scheme bv) (settled++waiting)
      waiting := by
  have hboth {P : SourceId × Message MessageId Sig PK → Prop} :
      (∃ p ∈ settled++waiting, P p) ↔ (∃ p ∈ settled, P p) ∨ ∃ p ∈ waiting, P p := by
    simp only [List.mem_append, or_and_right, exists_or]
  obtain ⟨badS, badM, heq, hS, hM⟩ := verify_spec (hex.batches _) h.keeps
  rw [heq]
  refine ⟨h.secure, h.fallback, ⟨h.keeps.messages, h.keeps.bySource⟩, ?_, ?_⟩
  · intro s
    rw [hboth, ← h.badSources s]
    exact hS s
  · intro i
    rw [hboth, and_or_left, ← h.badMessages i, ← h.fallback]
    exact hM i

theorem Settled.push (hex : scheme.ExactAggregates)
    (h : Settled scheme secureVerification perMessageFallback bv settled waiting) {s : SourceId}
    {msg : Message MessageId Sig PK}
    (hsame : ∀ p ∈ settled++waiting, p.2.msgId = msg.msgId → p.2 = msg) :
    ∃ settled' waiting', settled'++waiting' = settled++waiting++[(s, msg)] ∧
      Settled scheme secureVerification perMessageFallback (pushMessage scheme bv s msg) settled'
        waiting' := by
  have hadd : Settled scheme secureVerification perMessageFallback (addMessage bv s msg) settled
      (waiting++[(s, msg)]) :=
    { secure := h.secure
      fallback := h.fallback
      keeps := h.keeps.add fun p hp => hsame p (List.mem_append_right settled hp)
      badSources := h.badSources
      badMessages := h.badMessages }
  unfold pushMessage
  dsimp only
  split
  · -- the sub-batch is full
    have hverified := hadd.verify hex
    refine ⟨settled++(waiting++[(s, msg)]), [], by simp, ?_⟩
    exact ⟨hverified.secure, hverified.fallback, (holding_clear _).keeps, hverified.badSources,
      hverified.badMessages⟩
  · exact ⟨settled, waiting++[(s, msg)], by simp, hadd⟩

theorem Settled.pushMessages (hex : scheme.ExactAggregates)
    (h : Settled scheme secureVerification perMessageFallback bv settled waiting)
    {pushed : List (SourceId × Message MessageId Sig PK)}
    (hids : ∀ p ∈ settled++waiting++pushed, ∀ q ∈ settled++waiting++pushed,
      p.2.msgId = q.2.msgId → p.2 = q.2) :
    ∃ settled' waiting', settled'++waiting' = settled++waiting++pushed ∧
      Settled scheme secureVerification perMessageFallback (pushMessages scheme bv pushed) settled'
        waiting' := by
  induction pushed generalizing bv settled waiting with
  | nil => exact ⟨settled, waiting, by simp, h⟩
  | cons p pushed ih =>
    have hp : p ∈ settled++waiting++p :: pushed := by simp
    have hsame : ∀ q ∈ settled++waiting, q.2.msgId = p.2.msgId → q.2 = p.2 :=
      fun q hq hid => hids q (List.mem_append_left _ hq) p hp hid
    obtain ⟨settled₁, waiting₁, hsplit, h₁⟩ := h.push hex (s := p.1) hsame
    have hall : settled₁++waiting₁++pushed = settled++waiting++p :: pushed := by
      rw [hsplit, List.append_assoc, List.singleton_append]
    obtain ⟨settled₂, waiting₂, hsplit₂, h₂⟩ := ih h₁ (by rwa [hall])
    exact ⟨settled₂, waiting₂, hsplit₂.trans hall, h₂⟩

/-- A verifier as it is constructed. -/
def start (SourceId MessageId Sig PK : Type*) [Ord SourceId] [Ord MessageId]
    (secureVerification perMessageFallback : Bool) (subBatchSize : ℕ) :
    CBLSBatchVerifier SourceId MessageId Sig PK where
  secureVerification := secureVerification
  perMessageFallback := perMessageFallback
  subBatchSize := subBatchSize

omit [LawfulEqOrd SourceId] [DecidableEq SourceId] [LawfulEqOrd MessageId]
  [DecidableEq MessageId] in
theorem settled_start (subBatchSize : ℕ) :
    Settled scheme secureVerification perMessageFallback (start SourceId MessageId Sig PK
      secureVerification perMessageFallback subBatchSize) [] [] where
  secure := rfl
  fallback := rfl
  keeps := ⟨fun i m => by simp [start], rfl⟩
  badSources s := by simp [start]
  badMessages i := by simp [start]

/-- Whatever is pushed and however it is cut into batches, the sources of the messages that
fail are bad; with fallback, and only with it, the messages that fail are. -/
theorem bad_iff (hex : scheme.ExactAggregates)
    (secureVerification perMessageFallback : Bool) (subBatchSize : ℕ)
    (pushed : List (SourceId × Message MessageId Sig PK))
    (hids : ∀ p ∈ pushed, ∀ q ∈ pushed, p.2.msgId = q.2.msgId → p.2 = q.2) :
    let bv := verify scheme (pushMessages scheme
      (start SourceId MessageId Sig PK secureVerification perMessageFallback subBatchSize) pushed)
    (∀ s, s ∈ bv.badSources ↔ ∃ p ∈ pushed, p.1 = s ∧ ¬p.2.Valid scheme) ∧
    ∀ i, i ∈ bv.badMessages ↔
      perMessageFallback = true ∧ ∃ p ∈ pushed, p.2.msgId = i ∧ ¬p.2.Valid scheme := by
  have hstart : Settled scheme secureVerification perMessageFallback
      (start SourceId MessageId Sig PK secureVerification perMessageFallback subBatchSize) [] [] :=
    settled_start subBatchSize
  obtain ⟨settled, waiting, hsplit, h⟩ := hstart.pushMessages hex hids
  have hall : settled++waiting = pushed := hsplit
  have hverified := h.verify hex
  rw [hall] at hverified
  exact ⟨hverified.badSources, hverified.badMessages⟩

/-- A signature that says itself whether it is valid. -/
def sayingScheme : Scheme Bool Unit where
  verifyInsecure _ _ sig := sig
  aggregatePublicKeys pks := pks.head?
  verifyInsecureAggregated sigs _ _ := sigs.all id

theorem sayingScheme_exact : sayingScheme.ExactAggregates where
  aggregate pks := by
    cases pks with
    | nil => simp [sayingScheme]
    | cons pk pks => simp [sayingScheme]
  check groups _ _ := by
    simp only [sayingScheme, List.all_flatMap, List.all_map]
    rfl
  separate checks _ := by
    simp only [sayingScheme, List.all_map]
    rfl

/-- Two sources push the message 7, whose signature fails, and one of them the message 8. -/
def pushedTwice : List (ℕ × Message ℕ Bool Unit) :=
  [(1, ⟨7, 30, false, ()⟩), (2, ⟨7, 30, false, ()⟩), (2, ⟨8, 30, true, ()⟩), (3, ⟨8, 30, true, ()⟩)]

theorem bad_iff_pushedTwice :
    let bv := verify sayingScheme (pushMessages sayingScheme (start ℕ ℕ Bool Unit true true 2)
      pushedTwice)
    2 ∈ bv.badSources ∧ 3 ∉ bv.badSources ∧ 7 ∈ bv.badMessages ∧ 8 ∉ bv.badMessages := by
  have h := bad_iff sayingScheme_exact true true 2 pushedTwice (by simp [pushedTwice])
  dsimp only at h ⊢
  rw [h.1, h.1, h.2, h.2]
  simp [pushedTwice, Message.Valid, sayingScheme]

/-- Without fallback the message that fails is not found. -/
theorem badMessages_without_fallback :
    ¬∀ i, i ∈ (verify sayingScheme (pushMessages sayingScheme (start ℕ ℕ Bool Unit false false 0)
        pushedTwice)).badMessages ↔
      ∃ p ∈ pushedTwice, p.2.msgId = i ∧ ¬p.2.Valid sayingScheme := by
  intro h
  have hfails := (h 7).mpr ⟨(1, ⟨7, 30, false, ()⟩), by simp [pushedTwice], rfl,
    by simp [Message.Valid, sayingScheme]⟩
  exact absurd hfails (by decide)

end CBLSBatchVerifier

end BabaChain.BLS
