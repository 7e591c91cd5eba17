import BabaChain.InstantSend
import BabaChain.BatchExactness

/-! When the locks that are processed carry a verified signature. -/
namespace BabaChain.InstantSend
open Std BLS LLMQ CBLSBatchVerifier

variable {Sig PK : Type*}

/-- Locks that get checked, newest first, each with the peer it came from. -/
abbrev Checked (Sig PK : Type*) := List (NodeId × Message uint256 Sig PK)

namespace Pass

variable (c : Pass Sig PK)

/-- The quorum selected for a lock. -/
def quorumFor (p : Pending Sig) : Option (CQuorum PK) :=
  (c.env.lookupBlockIndex p.islock.cycleHash).bind fun blockHeight => c.quorumAt p blockHeight

/-- The message of a lock that has a signature and a quorum. -/
def messageFor (p : Pending Sig) : Option (Message uint256 Sig PK) :=
  p.islock.sig.bind fun sig => (c.quorumFor p).map fun quorum => c.lockMessage p sig quorum

/-- The signature of the lock verifies under the quorum selected for it. -/
def verified (p : Pending Sig) : Bool :=
  (c.messageFor p).any fun msg => c.scheme.verifyInsecure msg.pubKey msg.msgHash msg.sig

/-- The lock speaks against its peer on its own. -/
def refused (p : Pending Sig) : Bool :=
  p.islock.sig.isNone ||
    !c.alreadyRecovered p && (c.env.lookupBlockIndex p.islock.cycleHash).isNone

/-- The lock is to be checked, but no quorum can be selected for it. -/
def lacksQuorum (p : Pending Sig) : Bool :=
  !c.refused p && !c.alreadyRecovered p && (c.quorumFor p).isNone

/-- The peer has an invalid lock in a complete group of eight checked locks. -/
def invalidInGroup (checked : Checked Sig PK) (nodeId : NodeId) : Bool :=
  (checked.drop (checked.length%8)).any fun m =>
    decide (m.1 = nodeId) && !c.scheme.verifyInsecure m.2.pubKey m.2.msgHash m.2.sig

/-- The peer is known as bad after the locks that came before, newest first. -/
def knownBad (earlier : List (Pending Sig)) (checked : Checked Sig PK) (nodeId : NodeId) : Bool :=
  (earlier.any fun p => decide (p.nodeId = nodeId) && c.refused p) ||
    c.invalidInGroup checked nodeId

/-- The locks that get checked among those given newest first: they come from
peers not known as bad, and have no recovered signature yet. -/
def checkedLocks : List (Pending Sig) → Checked Sig PK
  | [] => []
  | p :: earlier =>
    let checked := checkedLocks earlier
    match c.messageFor p with
    | none => checked
    | some msg =>
      if c.alreadyRecovered p || c.knownBad earlier checked p.nodeId then checked
      else (p.nodeId, msg) :: checked

/-- The peer of a lock is known as bad when the loop comes to it. -/
def peerKnownBad (earlier : List (Pending Sig)) (p : Pending Sig) : Bool :=
  c.knownBad earlier (c.checkedLocks earlier) p.nodeId

/-- The pass comes to a lock without a quorum, and does nothing. -/
def GivesUp (earlier : List (Pending Sig)) (pend : List (Pending Sig)) : Prop :=
  ∃ pre p post, pend = pre++p :: post ∧ c.lacksQuorum p = true ∧
    c.peerKnownBad (pre.reverse++earlier) p = false

/-- Every lock can be checked, and none that is invalid escapes the check. -/
structure AllChecked (pend : List (Pending Sig)) : Prop where
  encoded : ∀ p ∈ pend, p.islock.sig ≠ none
  recovered : ∀ p ∈ pend, c.alreadyRecovered p = true → c.verified p = true
  quorum : ∀ p ∈ pend, c.alreadyRecovered p = false → c.quorumFor p ≠ none
  grouped : ∀ pre p post, pend = pre++p :: post → c.verified p = false →
    c.invalidInGroup (c.checkedLocks pre.reverse) p.nodeId = false

/-- The verifier of a pass after the given locks, newest first. -/
def Follows (st : Checks Sig PK) (earlier : List (Pending Sig)) : Prop :=
  Tracks c.scheme 8 st.batchVerifier (fun nodeId => ∃ p ∈ earlier, p.nodeId = nodeId ∧
    c.refused p = true) (c.checkedLocks earlier)

end Pass

/-- The locks that are handed on for processing. -/
def handedOn (activity : List (Activity Sig)) : List (Pending Sig) :=
  activity.filterMap fun a =>
    match a with
    | .processInstantSendLock p => some p
    | _ => none

theorem handedOn_append (xs ys : List (Activity Sig)) :
    handedOn (xs++ys) = handedOn xs++handedOn ys := List.filterMap_append

theorem handedOn_process (p : Pending Sig) (activity : List (Activity Sig)) :
    handedOn (.processInstantSendLock p :: activity) = p :: handedOn activity := rfl

namespace Pass

variable {c : Pass Sig PK} {p : Pending Sig} {earlier pend : List (Pending Sig)}
  {st : Checks Sig PK}

theorem messageFor_msgId {msg : Message uint256 Sig PK} (h : c.messageFor p = some msg) :
    msg.msgId = p.hash := by
  obtain ⟨sig, _, hq⟩ := Option.bind_eq_some_iff.mp h
  obtain ⟨quorum, _, rfl⟩ := Option.map_eq_some_iff.mp hq
  rfl

theorem mem_checkedLocks {m : NodeId × Message uint256 Sig PK} (hm : m ∈ c.checkedLocks earlier) :
    ∃ p ∈ earlier, m.1 = p.nodeId ∧ c.messageFor p = some m.2 ∧ c.alreadyRecovered p = false := by
  induction earlier with
  | nil => exact absurd hm List.not_mem_nil
  | cons p earlier ih =>
    have hrest : m ∈ c.checkedLocks earlier → ∃ q ∈ p :: earlier, m.1 = q.nodeId ∧
        c.messageFor q = some m.2 ∧ c.alreadyRecovered q = false := by
      intro h
      obtain ⟨q, hq, hspec⟩ := ih h
      exact ⟨q, List.mem_cons_of_mem p hq, hspec⟩
    rw [checkedLocks] at hm
    split at hm
    · exact hrest hm
    · next msg hmsg =>
      split at hm
      · exact hrest hm
      · next hnot =>
        rw [Bool.or_eq_true, not_or, Bool.not_eq_true] at hnot
        rcases List.mem_cons.mp hm with rfl | hm
        · exact ⟨p, List.mem_cons_self, rfl, hmsg, hnot.1⟩
        · exact hrest hm

/-- The bad sources of the verifier are the peers known as bad. -/
theorem Follows.mem_badSources (h : c.Follows st earlier) (nodeId : NodeId) :
    nodeId ∈ st.batchVerifier.badSources ↔
      c.knownBad earlier (c.checkedLocks earlier) nodeId = true := by
  rw [h.badSources]
  simp only [knownBad, invalidInGroup, Bool.or_eq_true, List.any_eq_true, Bool.and_eq_true,
    decide_eq_true_eq, Bool.not_eq_true', Message.Valid, Bool.not_eq_true]

theorem refused_cons (nodeId : NodeId) :
    (∃ q ∈ p :: earlier, q.nodeId = nodeId ∧ c.refused q = true) ↔
      (p.nodeId = nodeId ∧ c.refused p = true) ∨
        ∃ q ∈ earlier, q.nodeId = nodeId ∧ c.refused q = true :=
  List.exists_mem_cons_iff _ _ _

/-- A lock that is not checked changes nothing if its peer is known as bad
already, or if it does not speak against it. -/
theorem Follows.skip (h : c.Follows st earlier)
    (hsame : c.checkedLocks (p :: earlier) = c.checkedLocks earlier)
    (hrefused : c.refused p = true → p.nodeId ∈ st.batchVerifier.badSources) :
    c.Follows st (p :: earlier) := by
  unfold Follows at *
  rw [hsame]
  refine {h with badSources := fun t => ?_}
  rw [refused_cons, or_assoc, ← h.badSources]
  refine ⟨Or.inr, fun ht => ht.elim (fun hp => ?_) id⟩
  exact hp.1 ▸ hrefused hp.2

theorem Follows.refuse (h : c.Follows st earlier)
    (hsame : c.checkedLocks (p :: earlier) = c.checkedLocks earlier) (hrefused : c.refused p = true) :
    c.Follows (refuse st p.nodeId) (p :: earlier) := by
  have ht := Tracks.refuse h p.nodeId
  unfold Follows
  rw [hsame]
  refine {ht with badSources := fun t => ?_}
  rw [refused_cons, and_iff_left hrefused]
  exact ht.badSources t

theorem Follows.push (hex : c.scheme.Exact) (h : c.Follows st earlier) {sig : Sig}
    {quorum : CQuorum PK} (hnew : p.hash ∉ earlier.map Pending.hash)
    (hchecked : c.checkedLocks (p :: earlier) =
      (p.nodeId, c.lockMessage p sig quorum) :: c.checkedLocks earlier)
    (hrefused : c.refused p = false) : c.Follows (c.push st p sig quorum) (p :: earlier) := by
  have hids : ∀ m ∈ c.checkedLocks earlier, m.2.msgId ≠ (c.lockMessage p sig quorum).msgId := by
    intro m hm hid
    obtain ⟨q, hq, _, hmsg, _⟩ := mem_checkedLocks hm
    exact hnew (List.mem_map.mpr ⟨q, hq, (messageFor_msgId hmsg).symm.trans hid⟩)
  have ht := Tracks.push hex (by norm_num) h (s := p.nodeId) hids
  unfold Follows
  rw [hchecked]
  refine {ht with badSources := fun t => ?_}
  rw [refused_cons, hrefused]
  simp only [Bool.false_eq_true, and_false, false_or]
  exact ht.badSources t

theorem checkedLocks_skip (h : c.messageFor p = none ∨ c.alreadyRecovered p = true ∨
    c.peerKnownBad earlier p = true) : c.checkedLocks (p :: earlier) = c.checkedLocks earlier := by
  rw [checkedLocks]
  split
  · rfl
  · next msg hmsg =>
    rw [hmsg] at h
    exact if_pos (Bool.or_eq_true_iff.mpr (h.resolve_left (by simp)))

theorem checkedLocks_push {msg : Message uint256 Sig PK} (hmsg : c.messageFor p = some msg)
    (hrec : c.alreadyRecovered p = false) (hknown : c.peerKnownBad earlier p = false) :
    c.checkedLocks (p :: earlier) = (p.nodeId, msg) :: c.checkedLocks earlier := by
  rw [checkedLocks, hmsg]
  refine if_neg fun h => ?_
  rw [hrec, Bool.false_or] at h
  exact Bool.false_ne_true (hknown.symm.trans h)

/-- One turn of the loop: it leaves the function exactly at a lock that lacks a
quorum and whose peer is not known as bad. -/
theorem checkLock_spec (hex : c.scheme.Exact) (h : c.Follows st earlier)
    (hnew : p.hash ∉ earlier.map Pending.hash) :
    if c.lacksQuorum p = true ∧ c.peerKnownBad earlier p = false then
      c.checkLock st p = none
    else
      ∃ st', c.checkLock st p = some st' ∧ c.Follows st' (p :: earlier) := by
  have hbad : p.nodeId ∈ st.batchVerifier.badSources ↔ c.peerKnownBad earlier p = true :=
    h.mem_badSources p.nodeId
  -- the cases are those of the loop's body, in its order
  unfold checkLock
  by_cases hk : p.nodeId ∈ st.batchVerifier.badSources
  · have hknown := hbad.mp hk
    rw [if_pos hk, if_neg (by simp [hknown])]
    exact ⟨st, rfl, h.skip (checkedLocks_skip (Or.inr (Or.inr hknown))) fun _ => hk⟩
  · have hknown := Bool.eq_false_iff.mpr fun hc => hk (hbad.mpr hc)
    rw [if_neg hk]
    cases hsig : p.islock.sig with
    | none =>
      have hrefused : c.refused p = true := by simp [refused, hsig]
      have hmsg : c.messageFor p = none := by simp [messageFor, hsig]
      rw [if_neg (by simp [lacksQuorum, hrefused])]
      exact ⟨_, rfl, h.refuse (checkedLocks_skip (Or.inl hmsg)) hrefused⟩
    | some sig =>
      dsimp only
      cases hrec : c.alreadyRecovered p with
      | true =>
        have hrefused : c.refused p = false := by simp [refused, hsig, hrec]
        rw [if_pos rfl, if_neg (by simp [lacksQuorum, hrec])]
        refine ⟨st, rfl, h.skip (checkedLocks_skip (Or.inr (Or.inl hrec))) fun hr => ?_⟩
        exact absurd hr (by simp [hrefused])
      | false =>
        rw [if_neg Bool.false_ne_true]
        cases hblock : c.env.lookupBlockIndex p.islock.cycleHash with
        | none =>
          have hrefused : c.refused p = true := by simp [refused, hrec, hblock]
          have hmsg : c.messageFor p = none := by simp [messageFor, quorumFor, hsig, hblock]
          rw [if_neg (by simp [lacksQuorum, hrefused])]
          exact ⟨_, rfl, h.refuse (checkedLocks_skip (Or.inl hmsg)) hrefused⟩
        | some blockHeight =>
          have hrefused : c.refused p = false := by simp [refused, hsig, hblock]
          have hquorum : c.quorumFor p = c.quorumAt p blockHeight := by simp [quorumFor, hblock]
          dsimp only
          cases hq : c.quorumAt p blockHeight with
          -- the `return {}` in the middle of the loop
          | none => rw [if_pos ⟨by simp [lacksQuorum, hrefused, hrec, hquorum, hq], hknown⟩]
          | some quorum =>
            have hmsg : c.messageFor p = some (c.lockMessage p sig quorum) := by
              simp [messageFor, hsig, hquorum, hq]
            rw [if_neg (by simp [lacksQuorum, hquorum, hq])]
            exact ⟨_, rfl, h.push hex hnew (checkedLocks_push hmsg hrec hknown) hrefused⟩

theorem givesUp_cons : c.GivesUp earlier (p :: pend) ↔
    (c.lacksQuorum p = true ∧ c.peerKnownBad earlier p = false) ∨ c.GivesUp (p :: earlier) pend := by
  constructor
  · intro h
    obtain ⟨pre, q, post, heq, hspec⟩ := h
    cases pre with
    | nil =>
      obtain ⟨rfl, rfl⟩ := List.cons.inj heq
      exact Or.inl hspec
    | cons r pre =>
      obtain ⟨rfl, rfl⟩ := List.cons.inj heq
      rw [List.reverse_cons, List.append_assoc, List.singleton_append] at hspec
      exact Or.inr ⟨pre, q, post, rfl, hspec⟩
  · intro h
    rcases h with h | h
    · exact ⟨[], p, pend, rfl, h⟩
    · obtain ⟨pre, q, post, rfl, hspec⟩ := h
      refine ⟨p :: pre, q, post, rfl, ?_⟩
      rw [List.reverse_cons, List.append_assoc, List.singleton_append]
      exact hspec

/-- The first loop: it gives up, or its verifier has followed all locks. -/
theorem checkLocks_spec (hex : c.scheme.Exact) (h : c.Follows st earlier)
    (hnodup : ((pend.reverse++earlier).map Pending.hash).Nodup) :
    (c.GivesUp earlier pend ∧ c.checkLocks st pend = none) ∨
      (¬c.GivesUp earlier pend ∧ ∃ st', c.checkLocks st pend = some st' ∧
        c.Follows st' (pend.reverse++earlier)) := by
  induction pend generalizing st earlier with
  | nil =>
    refine Or.inr ⟨fun hg => ?_, st, rfl, h⟩
    obtain ⟨pre, q, post, heq, _⟩ := hg
    exact absurd heq (by simp)
  | cons p pend ih =>
    rw [List.reverse_cons, List.append_assoc, List.singleton_append] at hnodup ⊢
    have hnew : p.hash ∉ earlier.map Pending.hash := by
      have htail := (List.nodup_append.mp (List.map_append ▸ hnodup)).2.1
      exact (List.nodup_cons.mp htail).1
    have hstep := checkLock_spec hex h hnew
    rw [checkLocks, givesUp_cons]
    split at hstep
    · next hlacks =>
      rw [hstep]
      exact Or.inl ⟨Or.inl hlacks, rfl⟩
    · next hlacks =>
      obtain ⟨st', hst', hfollows⟩ := hstep
      rw [hst', Option.bind_some, or_iff_right hlacks]
      exact ih hfollows hnodup

theorem mem_checkedLocks_append {m : NodeId × Message uint256 Sig PK}
    (hm : m ∈ c.checkedLocks earlier) (later : List (Pending Sig)) :
    m ∈ c.checkedLocks (later++earlier) := by
  induction later with
  | nil => exact hm
  | cons p later ih =>
    rw [List.cons_append, checkedLocks]
    split
    · exact ih
    · split
      · exact ih
      · exact List.mem_cons_of_mem _ ih

/-- A lock is checked when the loop comes to it, or not at all. -/
theorem mem_checkedLocks_of_append {m : NodeId × Message uint256 Sig PK}
    {later : List (Pending Sig)} (hm : m ∈ c.checkedLocks (later++earlier))
    (hlater : ∀ p ∈ later, p.hash ≠ m.2.msgId) : m ∈ c.checkedLocks earlier := by
  induction later with
  | nil => exact hm
  | cons p later ih =>
    obtain ⟨hp, hlater⟩ := List.forall_mem_cons.mp hlater
    rw [List.cons_append, checkedLocks] at hm
    split at hm
    · exact ih hm hlater
    · next msg hmsg =>
      split at hm
      · exact ih hm hlater
      · rcases List.mem_cons.mp hm with rfl | hm
        · exact absurd (messageFor_msgId hmsg).symm hp
        · exact ih hm hlater

/-- The lock is checked in the pass and its signature fails. -/
def FoundBad (c : Pass Sig PK) (pend : List (Pending Sig)) (p : Pending Sig) : Prop :=
  ∃ m ∈ c.checkedLocks pend.reverse, m.2.msgId = p.hash ∧ ¬m.2.Valid c.scheme

theorem verified_eq_false_of_messageFor (h : c.messageFor p = none) : c.verified p = false := by
  rw [verified, h, Option.any_none]

theorem verified_iff {msg : Message uint256 Sig PK} (h : c.messageFor p = some msg) :
    c.verified p = true ↔ msg.Valid c.scheme := by
  rw [verified, h, Option.any_some, Message.Valid]

theorem eq_of_hash (hnodup : (pend.map Pending.hash).Nodup) {q : Pending Sig} (hp : p ∈ pend)
    (hq : q ∈ pend) (h : p.hash = q.hash) : p = q :=
  List.inj_on_of_nodup_map hnodup hp hq h

/-- What is found bad could be checked, was not recovered, and is not verified. -/
theorem FoundBad.spec (hnodup : (pend.map Pending.hash).Nodup) (hp : p ∈ pend)
    (h : c.FoundBad pend p) : ∃ msg, c.messageFor p = some msg ∧
      (p.nodeId, msg) ∈ c.checkedLocks pend.reverse ∧ c.alreadyRecovered p = false ∧
        c.verified p = false := by
  obtain ⟨m, hm, hid, hv⟩ := h
  obtain ⟨q, hq, hnode, hmsg, hrec⟩ := mem_checkedLocks hm
  have heq : q = p := eq_of_hash hnodup (List.mem_reverse.mp hq) hp
    ((messageFor_msgId hmsg).symm.trans hid)
  subst heq
  refine ⟨m.2, hmsg, hnode ▸ hm, hrec, ?_⟩
  exact Bool.eq_false_iff.mpr fun hc => hv ((verified_iff hmsg).mp hc)

/-- With all locks checked, an invalid one is found bad. -/
theorem AllChecked.foundBad (h : c.AllChecked pend) (hp : p ∈ pend)
    (hv : c.verified p = false) : c.FoundBad pend p := by
  have hrec : c.alreadyRecovered p = false :=
    Bool.eq_false_iff.mpr fun hc => Bool.false_ne_true (hv.symm.trans (h.recovered p hp hc))
  obtain ⟨sig, hsig⟩ := Option.ne_none_iff_exists'.mp (h.encoded p hp)
  obtain ⟨quorum, hquorum⟩ := Option.ne_none_iff_exists'.mp (h.quorum p hp hrec)
  have hmsg : c.messageFor p = some (c.lockMessage p sig quorum) := by
    rw [messageFor, hsig, hquorum]
    rfl
  obtain ⟨pre, post, rfl⟩ := List.append_of_mem hp
  -- its peer is not known as bad: nothing before it was refused or settled as invalid
  have hknown : c.peerKnownBad pre.reverse p = false := by
    rw [peerKnownBad, knownBad, h.grouped pre p post rfl hv, Bool.or_false, List.any_eq_false]
    intro q hq
    have hq' : q ∈ pre++p :: post := List.mem_append_left _ (List.mem_reverse.mp hq)
    have hsome := h.encoded q hq'
    have hblock : c.alreadyRecovered q = false →
        c.env.lookupBlockIndex q.islock.cycleHash ≠ none := by
      intro hr hnone
      exact h.quorum q hq' hr (by rw [quorumFor, hnone, Option.bind_none])
    simp only [refused, Bool.and_eq_true, Bool.or_eq_true, Option.isNone_iff_eq_none,
      Bool.not_eq_true']
    exact fun hc => hc.2.elim hsome fun hr => hblock hr.1 hr.2
  -- the lock reaches the verifier, and later locks do not take it out
  have hmem : (p.nodeId, c.lockMessage p sig quorum) ∈ c.checkedLocks (pre++p :: post).reverse := by
    rw [List.reverse_append, List.reverse_cons, List.append_assoc, List.singleton_append]
    apply mem_checkedLocks_append
    rw [checkedLocks_push hmsg hrec hknown]
    exact List.mem_cons_self
  refine ⟨_, hmem, messageFor_msgId hmsg, fun hvalid => ?_⟩
  exact Bool.false_ne_true (hv.symm.trans ((verified_iff hmsg).mpr hvalid))

/-- Every invalid lock is found bad exactly when all locks are checked. -/
theorem allChecked_iff (hnodup : (pend.map Pending.hash).Nodup) :
    (∀ p ∈ pend, c.verified p = false → c.FoundBad pend p) ↔ c.AllChecked pend := by
  refine ⟨fun h => ⟨?_, ?_, ?_, ?_⟩, fun h p hp => h.foundBad hp⟩
  · intro p hp hsig
    have hnone : c.messageFor p = none := by rw [messageFor, hsig, Option.bind_none]
    obtain ⟨msg, hmsg, _⟩ := (h p hp (verified_eq_false_of_messageFor hnone)).spec hnodup hp
    exact Option.some_ne_none msg (hmsg.symm.trans hnone)
  · intro p hp hrec
    by_contra hv
    obtain ⟨_, _, _, hr, _⟩ := (h p hp (Bool.eq_false_iff.mpr hv)).spec hnodup hp
    exact Bool.false_ne_true (hr.symm.trans hrec)
  · intro p hp _ hquorum
    have hnone : c.messageFor p = none := by
      rw [messageFor, hquorum]
      cases p.islock.sig with
      | none => rfl
      | some sig => rfl
    obtain ⟨msg, hmsg, _⟩ := (h p hp (verified_eq_false_of_messageFor hnone)).spec hnodup hp
    exact Option.some_ne_none msg (hmsg.symm.trans hnone)
  · intro pre p post heq hv
    have hp : p ∈ pend := by
      rw [heq]
      exact List.mem_append_right pre List.mem_cons_self
    obtain ⟨msg, hmsg, hmem, hrec, _⟩ := (h p hp hv).spec hnodup hp
    rw [heq, List.reverse_append, List.reverse_cons, List.append_assoc,
      List.singleton_append] at hmem
    rw [heq, List.map_append, List.map_cons] at hnodup
    obtain ⟨_, hpost, hdisj⟩ := List.nodup_append.mp hnodup
    have hhash := messageFor_msgId hmsg
    -- the lock was checked at its own turn
    have hturn : (p.nodeId, msg) ∈ c.checkedLocks (p :: pre.reverse) := by
      apply mem_checkedLocks_of_append hmem
      intro q hq hc
      have hq' := List.mem_map_of_mem (f := Pending.hash) (List.mem_reverse.mp hq)
      exact (List.nodup_cons.mp hpost).1 ((hc.trans hhash) ▸ hq')
    have hbefore : (p.nodeId, msg) ∉ c.checkedLocks pre.reverse := by
      intro hc
      obtain ⟨q, hq, _, hqmsg, _⟩ := mem_checkedLocks hc
      have hq' := List.mem_map_of_mem (f := Pending.hash) (List.mem_reverse.mp hq)
      have hsame : q.hash = p.hash := (messageFor_msgId hqmsg).symm.trans hhash
      exact hdisj _ hq' _ List.mem_cons_self hsame
    by_contra hgroup
    refine hbefore ((checkedLocks_skip (Or.inr (Or.inr ?_))) ▸ hturn)
    rw [peerKnownBad, knownBad, Bool.eq_true_of_not_eq_false hgroup, Bool.or_true]

/-- The second loop keeps back exactly the messages the verifier found bad. -/
theorem settleLocks_spec (pend : List (Pending Sig)) :
    (c.settleLocks st pend).1 =
        (pend.filter fun p => p.hash ∈ st.batchVerifier.badMessages).map Pending.hash ∧
      handedOn (c.settleLocks st pend).2 =
        pend.filter fun p => p.hash ∉ st.batchVerifier.badMessages := by
  induction pend with
  | nil => exact ⟨rfl, rfl⟩
  | cons p pend ih =>
    have hoffer : handedOn (c.offerRecoveredSig st p) = [] := by
      unfold offerRecoveredSig
      split
      · rfl
      · split <;> rfl
    rw [settleLocks]
    by_cases hbad : p.hash ∈ st.batchVerifier.badMessages
    · simp only [hbad, if_true, decide_true, List.filter_cons_of_pos, List.map_cons, not_true,
        decide_false, Bool.false_eq_true, not_false_iff, List.filter_cons_of_neg]
      exact ⟨congrArg (p.hash :: ·) ih.1, ih.2⟩
    · simp only [hbad, if_false, decide_true, List.filter_cons_of_pos, not_false_iff,
        decide_false, Bool.false_eq_true, List.filter_cons_of_neg]
      refine ⟨ih.1, ?_⟩
      rw [handedOn_process, handedOn_append, hoffer, List.nil_append, ih.2]

theorem follows_initial : c.Follows {} [] where
  fallback := rfl
  insecure := rfl
  subBatch := rfl
  waiting := holding_clear {secureVerification := false, perMessageFallback := true, subBatchSize := 8}
  badSources s := by simp [checkedLocks]
  badMessages i := by simp [checkedLocks]

/-- A pass that gives up does nothing; another finds bad locks bad and hands on
the others. -/
theorem process_spec (hex : c.scheme.Exact) (hnodup : (pend.map Pending.hash).Nodup) (ban : Bool) :
    (c.GivesUp [] pend ∧ c.process ban pend = ([], [])) ∨
      (¬c.GivesUp [] pend ∧
        (∀ p ∈ pend, p.hash ∈ (c.process ban pend).1 ↔ c.FoundBad pend p) ∧
        ∀ p, p ∈ handedOn (c.process ban pend).2 ↔ p ∈ pend ∧ ¬c.FoundBad pend p) := by
  have hnodup' : ((pend.reverse++[]).map Pending.hash).Nodup := by
    rw [List.append_nil, List.map_reverse]
    exact List.nodup_reverse.mpr hnodup
  unfold process
  rcases checkLocks_spec hex (c := c) follows_initial hnodup' with ⟨hg, hnone⟩ | ⟨hg, st, hst, hfollows⟩
  · rw [hnone]
    exact Or.inl ⟨hg, rfl⟩
  · rw [hst]
    dsimp only
    rw [List.append_nil] at hfollows
    have hbad : ∀ p : Pending Sig, p.hash ∈ (st.batchVerifier.verify c.scheme).badMessages ↔
        c.FoundBad pend p := fun p => hfollows.verify_badMessages hex p.hash
    have hsettle (st : Checks Sig PK) : (c.settleLocks st pend).1 = _ ∧ _ := settleLocks_spec pend
    obtain ⟨hlist, hhanded⟩ := hsettle {st with batchVerifier := st.batchVerifier.verify c.scheme}
    refine Or.inr ⟨hg, fun p hp => ?_, fun p => ?_⟩
    · rw [hlist, ← hbad p]
      constructor
      · intro h
        obtain ⟨q, hq, hh⟩ := List.mem_map.mp h
        exact hh ▸ of_decide_eq_true (List.mem_filter.mp hq).2
      · intro h
        exact List.mem_map_of_mem (List.mem_filter.mpr ⟨hp, decide_eq_true h⟩)
    · have hbanned : handedOn ((if ban then (st.batchVerifier.verify c.scheme).badSources.toList.map
          fun nodeId => Activity.misbehaving nodeId 20 else []) : List (Activity Sig)) = [] := by
        split
        · unfold handedOn
          rw [List.filterMap_map]
          exact List.filterMap_eq_nil_iff.mpr fun _ _ => rfl
        · rfl
      rw [handedOn_append, hbanned, List.nil_append, hhanded, List.mem_filter, decide_eq_true_iff, ← hbad p]

/-- One pass hands on verified locks exactly when it gives up or all are checked. -/
theorem process_verified_iff (hex : c.scheme.Exact) (hnodup : (pend.map Pending.hash).Nodup)
    (ban : Bool) : (∀ p ∈ handedOn (c.process ban pend).2, c.verified p = true) ↔
      c.GivesUp [] pend ∨ c.AllChecked pend := by
  rcases process_spec hex hnodup ban with ⟨hg, heq⟩ | ⟨hg, _, hhanded⟩
  · rw [heq]
    exact iff_of_true (fun p hp => absurd hp List.not_mem_nil) (Or.inl hg)
  · rw [or_iff_right hg, ← allChecked_iff hnodup]
    refine ⟨fun h p hp hv => ?_, fun h p hp => ?_⟩
    · by_contra hnot
      exact Bool.false_ne_true (hv.symm.trans (h p ((hhanded p).mpr ⟨hp, hnot⟩)))
    · obtain ⟨hp, hnot⟩ := (hhanded p).mp hp
      exact Bool.eq_true_of_not_eq_false fun hv => hnot (h p hp hv)

/-- A group is complete only after eight locks. -/
theorem invalidInGroup_of_length_lt {checked : Checked Sig PK} (h : checked.length < 8)
    (nodeId : NodeId) : c.invalidInGroup checked nodeId = false := by
  rw [invalidInGroup, Nat.mod_eq_of_lt h, List.drop_length, List.any_nil]

theorem length_checkedLocks_le (earlier : List (Pending Sig)) :
    (c.checkedLocks earlier).length ≤ earlier.length := by
  induction earlier with
  | nil => exact Nat.le_refl 0
  | cons p earlier ih =>
    rw [checkedLocks, List.length_cons]
    split
    · exact ih.trans (Nat.le_succ _)
    · split
      · exact ih.trans (Nat.le_succ _)
      · exact Nat.succ_le_succ ih

/-- Among at most eight locks none comes after a complete group. -/
theorem allChecked_of_length_le (hlen : pend.length ≤ 8) (henc : ∀ p ∈ pend, p.islock.sig ≠ none)
    (hrec : ∀ p ∈ pend, c.alreadyRecovered p = true → c.verified p = true)
    (hquorum : ∀ p ∈ pend, c.alreadyRecovered p = false → c.quorumFor p ≠ none) :
    c.AllChecked pend := by
  refine ⟨henc, hrec, hquorum, fun pre p post heq _ => ?_⟩
  apply invalidInGroup_of_length_lt
  have hle := c.length_checkedLocks_le pre.reverse
  rw [heq, List.length_append, List.length_cons] at hlen
  rw [List.length_reverse] at hle
  omega

end Pass

namespace Call

variable {m : Call Sig PK} {pend : List (Pending Sig)}

/-- Every invalid lock gets checked in the first pass, and those that fail there
also in the second; a pass that gives up hands nothing on. -/
def SafeBatch (m : Call Sig PK) (pend : List (Pending Sig)) : Prop :=
  m.current.GivesUp [] pend ∨ m.current.AllChecked pend ∧
    (m.previous.GivesUp [] (pend.filter fun p => !m.current.verified p) ∨
      m.previous.AllChecked (pend.filter fun p => !m.current.verified p))

/-- Each lock handed on verifies under the quorum that its pass selects. -/
def OnlyVerified (m : Call Sig PK) (activity : List (Activity Sig) × List (Activity Sig)) : Prop :=
  (∀ p ∈ handedOn activity.1, m.current.verified p = true) ∧
    ∀ p ∈ handedOn activity.2, m.previous.verified p = true

theorem allChecked_nil (c : Pass Sig PK) : c.AllChecked [] :=
  Pass.allChecked_of_length_le (Nat.zero_le 8) (fun _ h => absurd h List.not_mem_nil)
    (fun _ h => absurd h List.not_mem_nil) (fun _ h => absurd h List.not_mem_nil)

theorem processBatch_verified_iff (hex : m.scheme.Exact) (hnodup : (pend.map Pending.hash).Nodup) :
    m.OnlyVerified (m.processBatch pend) ↔ m.SafeBatch pend := by
  have hfirst := Pass.process_verified_iff (c := m.current) hex hnodup false
  unfold processBatch OnlyVerified SafeBatch
  rcases Pass.process_spec (c := m.current) hex hnodup false with ⟨hg, heq⟩ | ⟨hg, hbad, _⟩
  · rw [heq]
    refine iff_of_true ⟨?_, ?_⟩ (Or.inl hg)
    · exact fun p hp => absurd hp List.not_mem_nil
    · exact fun p hp => absurd hp List.not_mem_nil
  · rw [or_iff_right hg] at hfirst ⊢
    generalize m.current.process false pend = result at hfirst hbad
    obtain ⟨badISLocks, activity⟩ := result
    by_cases hall : m.current.AllChecked pend
    · -- what the first pass finds bad is what does not verify in it
      have hfailed : (pend.filter fun p => p.hash ∈ badISLocks) =
          pend.filter fun p => !m.current.verified p := by
        apply List.filter_congr
        intro p hp
        have hiff : p.hash ∈ badISLocks ↔ m.current.verified p = false := by
          rw [hbad p hp]
          refine ⟨fun h => ?_, hall.foundBad hp⟩
          obtain ⟨_, _, _, _, hv⟩ := h.spec hnodup hp
          exact hv
        rw [Bool.eq_iff_iff, decide_eq_true_iff, Bool.not_eq_true', hiff]
      have hnodup' : ((pend.filter fun p => !m.current.verified p).map Pending.hash).Nodup :=
        hnodup.sublist (List.filter_sublist.map Pending.hash)
      -- and the second pass checks exactly these with the previous quorum
      have hsecond := Pass.process_verified_iff (c := m.previous) hex hnodup' true
      rw [and_iff_right hall, ← hsecond, ← hfailed]
      dsimp only
      split
      · next hempty =>
        have hnone : (pend.filter fun p => p.hash ∈ badISLocks) = [] := by
          rw [List.isEmpty_iff.mp hempty]
          simp
        have hnodupNil : (([] : List (Pending Sig)).map Pending.hash).Nodup := List.nodup_nil
        have hnil := (Pass.process_verified_iff (c := m.previous) hex hnodupNil true).mpr
          (Or.inr (allChecked_nil _))
        rw [hnone]
        exact ⟨fun _ => hnil, fun _ => ⟨hfirst.mpr hall, fun p hp => absurd hp List.not_mem_nil⟩⟩
      · exact and_iff_right (hfirst.mpr hall)
    · -- the first pass alone hands on a lock that does not verify
      have hnot := fun h => hall (hfirst.mp h)
      refine iff_of_false (fun h => ?_) fun h => hall h.1
      revert h
      dsimp only
      split
      · exact fun h => hnot h.1
      · exact fun h => hnot h.1

/-- The locks handed on are all verified exactly when the batch is safe. -/
theorem only_verified_locks_iff (m : Call Sig PK) (hex : m.scheme.Exact) (enabled : Bool)
    (iteration : IterationOrder Sig) (pending : PendingLocks Sig) :
    m.OnlyVerified (m.processPendingInstantSendLocks enabled iteration pending).peer_activity ↔
      (enabled = true → m.SafeBatch (iteration.order (pending.locks.take maxCount))) := by
  have hnothing : m.OnlyVerified ([], []) :=
    ⟨fun p hp => absurd hp List.not_mem_nil, fun p hp => absurd hp List.not_mem_nil⟩
  unfold processPendingInstantSendLocks
  cases enabled with
  | false => exact iff_of_true hnothing fun h => absurd h Bool.false_ne_true
  | true =>
    have hnodup : ((iteration.order (pending.locks.take maxCount)).map Pending.hash).Nodup := by
      apply ((iteration.perm _).map Pending.hash).nodup_iff.mpr
      exact pending.nodup.sublist ((List.take_sublist _ _).map Pending.hash)
    rw [if_pos rfl, imp_iff_right rfl]
    dsimp only
    split
    · next hempty =>
      rw [List.isEmpty_iff.mp hempty]
      exact iff_of_true hnothing (Or.inr ⟨allChecked_nil _, Or.inr (allChecked_nil _)⟩)
    · exact processBatch_verified_iff hex hnodup

/-- A scheme with an exact aggregate check: a signature is the key plus the hash,
and an aggregated key encodes its keys. -/
def sampleCheck : List ℕ → List ℕ → List uint256 → Bool
  | sigs, key :: keys, hash :: hashes =>
    match (Encodable.decode key : Option (List ℕ)) with
    | none => false
    | some pks =>
      ((sigs.take pks.length).zip pks).all (fun s => decide (s.1 = s.2+hash.toNat)) &&
        sampleCheck (sigs.drop pks.length) keys hashes
  | _, _, _ => true

def sampleScheme : Scheme ℕ ℕ where
  verifyInsecure pubKey hash sig := decide (sig = pubKey+hash.toNat)
  aggregatePublicKeys pks := if pks = [] then none else some (Encodable.encode pks)
  verifyInsecureAggregated := sampleCheck

theorem sampleScheme_exact : sampleScheme.Exact where
  aggregate pks := by
    unfold sampleScheme
    dsimp only
    split
    · next h => exact iff_of_false (by simp) (fun hc => hc h)
    · next h => exact iff_of_true rfl h
  check groups hne hgroups := by
    clear hne
    induction groups with
    | nil => rfl
    | cons g groups ih =>
      obtain ⟨hg, hgroups⟩ := List.forall_mem_cons.mp hgroups
      have hkeys : g.2.map Prod.snd ≠ [] := fun h => hg (List.map_eq_nil_iff.mp h)
      have hagg : sampleScheme.aggregatePublicKeys (g.2.map Prod.snd) =
          some (Encodable.encode (g.2.map Prod.snd)) := if_neg hkeys
      have hlen : (g.2.map Prod.snd).length = (g.2.map Prod.fst).length := by
        rw [List.length_map, List.length_map]
      rw [List.flatMap_cons, List.filterMap_cons, hagg, List.map_cons, List.all_cons, ← ih hgroups]
      change sampleCheck _ _ _ = _
      rw [sampleCheck, Encodable.encodek]
      dsimp only
      rw [hlen, List.take_left, List.drop_left, List.zip_map', List.all_map]
      rfl

def sampleEnv : Env ℕ where
  hasRecoveredSig _ _ _ := false
  hasRecoveredSigForId _ _ := false
  lookupBlockIndex _ := some 576
  chainHeight := 600
  selectQuorumForSigning _ _ _ := some ⟨1, 5⟩
  getQuorum _ := none
  hasRecoveredSigForIdAfter _ _ := false

/-- The quorum type for InstantSend on the main network. -/
def sampleCall : Call ℕ ℕ where
  scheme := sampleScheme
  hashes := {getRequestId := fun _ => 2, signHash := fun _ _ _ txid => txid}
  llmq_params := ⟨5, true, 288, 32, 64⟩
  env₀ := sampleEnv
  env₁ := sampleEnv

/-- A lock of transaction 10 from peer 7; its valid signature is 15. -/
def sampleLock (hash : uint256) (sig : Option ℕ) : Pending ℕ :=
  ⟨hash, 7, ⟨[⟨3, 0⟩], 10, 4, sig⟩⟩

def sampleIteration : IterationOrder ℕ := ⟨id, fun pend => List.Perm.refl pend⟩

/-- A valid and an invalid lock of one peer: only the valid one is handed on. -/
theorem only_verified_locks_sample :
    sampleCall.OnlyVerified (sampleCall.processPendingInstantSendLocks true sampleIteration
      ⟨[sampleLock 20 (some 15), sampleLock 21 (some 16)], by decide⟩).peer_activity := by
  apply (only_verified_locks_iff sampleCall sampleScheme_exact true sampleIteration _).mpr
  intro _
  refine Or.inr ⟨?_, Or.inr ?_⟩
  · apply Pass.allChecked_of_length_le <;> decide
  · apply Pass.allChecked_of_length_le <;> decide

/-- A peer sends a lock whose signature does not decode, and one with a wrong
signature: neither is verified, and both are handed on. -/
theorem unverified_locks_are_processed :
    ¬sampleCall.OnlyVerified (sampleCall.processPendingInstantSendLocks true sampleIteration
      ⟨[sampleLock 20 none, sampleLock 21 (some 16)], by decide⟩).peer_activity := by
  intro h
  have hhanded : handedOn (sampleCall.processPendingInstantSendLocks true sampleIteration
      ⟨[sampleLock 20 none, sampleLock 21 (some 16)], by decide⟩).peer_activity.1 =
        [sampleLock 20 none, sampleLock 21 (some 16)] := by decide
  have hv := h.1 (sampleLock 21 (some 16)) (by rw [hhanded]; decide)
  exact absurd hv (by decide)

end Call

end BabaChain.InstantSend
