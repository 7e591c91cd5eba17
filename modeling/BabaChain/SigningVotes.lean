import BabaChain.RecoveredSigsDb
import BabaChain.Lib.Runs

/-! The votes of a masternode: what it signs over a whole run, and what it remembers of it. -/
namespace BabaChain.LLMQ.Signing
open Std LruCache OrdMap

/-- A quorum by its block, and its members by whether they are valid. -/
structure CQuorum where
  quorumHash : uint256
  members : List (uint256 × Bool)
deriving DecidableEq, Repr

def CQuorum.isValidMember (quorum : CQuorum) (proTxHash : uint256) : Bool :=
  match quorum.members.find? fun m => m.1 = proTxHash with
  | some m => m.2
  | none => false

/-- What is to be signed. The type is that of the quorum. -/
structure PendingSignatureData where
  quorum : CQuorum
  key : IdKey
  msgHash : uint256
deriving DecidableEq, Repr

structure CSigShare where
  key : IdKey
  quorumHash : uint256
  msgHash : uint256
deriving DecidableEq, Repr

/-- A masternode by its database and by what it has still to sign. -/
structure Masternode (Sig : Type) where
  db : CRecoveredSigsDb Sig := {}
  pendingSigns : List PendingSignatureData := []

variable {Sig : Type} (c : Hashing Sig)

namespace Masternode

variable (s : Masternode Sig)

def asyncSign (quorum : CQuorum) (key : IdKey) (msgHash : uint256) : Masternode Sig :=
  {s with pendingSigns := s.pendingSigns ++ [⟨quorum, key, msgHash⟩]}

/-- Past the test of the recorded vote. -/
def signIfNotRecovered (now : ℤ) (quorum : CQuorum) (key : IdKey) (msgHash : uint256)
    (hasVoted : Bool) : Bool × Masternode Sig :=
  let (recovered, db) := s.db.hasRecoveredSigForId key
  if recovered = true then
    -- no need to sign it if we already have a recovered sig
    (true, {s with db := db})
  else
    let db := if hasVoted = true then db else db.writeVoteForId now key msgHash
    (true, ({s with db := db} : Masternode Sig).asyncSign quorum key msgHash)

/-- The quorum is the one that was selected for the id or named by its block, if there is one. -/
def asyncSignIfMember (now : ℤ) (proTxHash : uint256) (quorum : Option CQuorum) (key : IdKey)
    (msgHash : uint256) (allowReSign allowDiffMsgHashSigning : Bool) : Bool × Masternode Sig :=
  if proTxHash = 0 then
    (false, s)
  else
    match quorum with
    | none => (false, s)
    | some quorum =>
      if quorum.isValidMember proTxHash = false then
        (false, s)
      else if s.db.hasVotedOnId key = true then
        let prevMsgHash := (s.db.getVoteForId key).getD 0
        if msgHash ≠ prevMsgHash then
          if allowDiffMsgHashSigning = true then
            s.signIfNotRecovered now quorum key msgHash false
          else
            (false, s)
        else if allowReSign = true then
          s.signIfNotRecovered now quorum key msgHash true
        else
          (false, s)
      else
        s.signIfNotRecovered now quorum key msgHash false

/-- A share is created where the masternode has its key of the quorum. -/
def signPendingSigShares (canSign : PendingSignatureData → Bool) :
    List CSigShare × Masternode Sig :=
  ((s.pendingSigns.filter canSign).map fun p => ⟨p.key, p.quorum.quorumHash, p.msgHash⟩,
    {s with pendingSigns := []})

def processRecoveredSig (now : ℤ) (recSig : CRecoveredSig Sig) : Masternode Sig :=
  let (hasHash, db) := s.db.hasRecoveredSigForHash (c.serializeHash recSig)
  if hasHash = true then
    {s with db := db}
  else
    let (hasId, db) := db.hasRecoveredSigForId recSig.key
    -- another signature is kept, conflicting or not
    if hasId = true ∧ (db.getRecoveredSigById recSig.key).isSome = true then
      {s with db := db}
    else
      {s with db := db.writeRecoveredSig c now recSig}

/-- A restart keeps the database only. -/
def restart : Masternode Sig := {db := {db := s.db.db}}

end Masternode

/-! ### Runs -/

inductive Call (Sig : Type)
  | asyncSignIfMember (now : ℤ) (proTxHash : uint256) (quorum : Option CQuorum) (key : IdKey)
      (msgHash : uint256) (allowReSign : Bool)
  | signPendingSigShares (canSign : PendingSignatureData → Bool)
  | processRecoveredSig (now : ℤ) (recSig : CRecoveredSig Sig)
  | truncateRecoveredSig (key : IdKey)
  | cleanupOldRecoveredSigs (now maxAge : ℤ)
  | cleanupOldVotes (now maxAge : ℤ)
  | hasRecoveredSigForId (key : IdKey)
  | hasRecoveredSigForSession (signHash : uint256)
  | hasRecoveredSigForHash (hash : uint256)
  | restart

/-- A vote with the time it was cast at. It is expired when it was older than the age of a cleanup
of the votes. -/
structure Vote where
  key : IdKey
  msgHash : uint256
  time : ℤ
  expired : Bool := false
deriving DecidableEq, Repr

/-- A masternode, the votes it has cast, newest first, and the shares it has created. -/
structure Watched (Sig : Type) where
  self : Masternode Sig := {}
  votes : List Vote := []
  shares : List CSigShare := []

def Vote.age (endTime : ℤ) (v : Vote) : Vote :=
  {v with expired := v.expired || decide (v.time < endTime)}

/-- Signing for another message hash than the one voted for is not allowed. -/
def step (s : Watched Sig) (call : Call Sig) : Unit × Watched Sig :=
  ((), match call with
  | .asyncSignIfMember now proTxHash quorum key msgHash allowReSign =>
    let self := (s.self.asyncSignIfMember now proTxHash quorum key msgHash allowReSign false).2
    {s with
      self := self
      -- a vote is cast when one is recorded
      votes :=
        if s.self.db.hasVotedOnId key = false ∧ self.db.hasVotedOnId key = true then
          ⟨key, msgHash, now, false⟩ :: s.votes
        else
          s.votes}
  | .signPendingSigShares canSign =>
    let (shares, self) := s.self.signPendingSigShares canSign
    {s with self := self, shares := s.shares ++ shares}
  | .processRecoveredSig now recSig => {s with self := s.self.processRecoveredSig c now recSig}
  | .truncateRecoveredSig key =>
    {s with self := {s.self with db := s.self.db.truncateRecoveredSig c key}}
  | .cleanupOldRecoveredSigs now maxAge =>
    {s with self := {s.self with db := s.self.db.cleanupOldRecoveredSigs c now maxAge}}
  | .cleanupOldVotes now maxAge =>
    {s with
      self := {s.self with db := s.self.db.cleanupOldVotes now maxAge}
      votes := s.votes.map (Vote.age (now-maxAge))}
  | .hasRecoveredSigForId key =>
    {s with self := {s.self with db := (s.self.db.hasRecoveredSigForId key).2}}
  | .hasRecoveredSigForSession signHash =>
    {s with self := {s.self with db := (s.self.db.hasRecoveredSigForSession signHash).2}}
  | .hasRecoveredSigForHash hash =>
    {s with self := {s.self with db := (s.self.db.hasRecoveredSigForHash hash).2}}
  | .restart => {s with self := s.self.restart})

/-- Two of the votes, one for each of two message hashes, of which the one that was cast first is
expired. -/
def FirstExpired (votes : List Vote) (key : IdKey) (msgHash msgHash' : uint256) : Prop :=
  ∃ first second, [second, first].Sublist votes ∧ first.expired = true ∧
    first.key = key ∧ second.key = key ∧
    (first.msgHash = msgHash ∧ second.msgHash = msgHash' ∨
      first.msgHash = msgHash' ∧ second.msgHash = msgHash)

/-- A vote is remembered until it is expired, and shares for different message hashes of one id are
only there if the first of their votes is expired. -/
structure VotesOnce (s : Watched Sig) : Prop where
  remembered : ∀ v ∈ s.votes, v.expired = false →
    s.self.db.getVoteForId v.key = some v.msgHash
  once : ∀ share ∈ s.shares, ∀ share' ∈ s.shares, share.key = share'.key →
    share.msgHash ≠ share'.msgHash →
      FirstExpired s.votes share.key share.msgHash share'.msgHash

/-- The times that a cleanup compares, cut to 32 bits, do not make an older vote of one that is
not. -/
def EndsInTime (s : Watched Sig) : Call Sig → Prop
  | .cleanupOldVotes now maxAge => ∀ v ∈ s.votes, v.expired = false →
      BitVec.ofInt 32 v.time < BitVec.ofInt 32 (now-maxAge) → v.time < now-maxAge
  | _ => True

variable {c} {s : Watched Sig} {self : Masternode Sig} {d : CRecoveredSigsDb Sig} {now maxAge : ℤ}
  {proTxHash msgHash : uint256} {quorum : Option CQuorum} {key : IdKey} {allowReSign : Bool}

/-! ### What a call does to the votes -/

/-- A call that is about signatures leaves the votes alone. -/
def SameVotes (db db' : Database Sig) : Prop :=
  db'.votes = db.votes ∧ db'.voteTimes = db.voteTimes

theorem sameVotes_removeRecoveredSig (s : Batched Sig) (key : IdKey)
    (deleteHashKey deleteTimeKey : Bool) :
    SameVotes s.batch (removeRecoveredSig c s key deleteHashKey deleteTimeKey).batch := by
  unfold removeRecoveredSig
  split
  · exact ⟨rfl, rfl⟩
  · exact ⟨rfl, rfl⟩

theorem sameVotes_removeOld (l : List TimeKey) (s : Batched Sig) :
    SameVotes s.batch (l.foldl (removeOld c) s).batch := by
  induction l generalizing s with
  | nil => exact ⟨rfl, rfl⟩
  | cons k l ih =>
    have hturn : (removeOld c s k).batch = (removeRecoveredSig c s k.key true false).batch := by
      unfold removeOld
      dsimp only
      split_ifs
      · rfl
      · rfl
    obtain ⟨hvotes, htimes⟩ := sameVotes_removeRecoveredSig (c := c) s k.key true false
    obtain ⟨hrest, hrest'⟩ := ih (removeOld c s k)
    rw [hturn] at hrest hrest'
    exact ⟨hrest.trans hvotes, hrest'.trans htimes⟩

theorem sameVotes_processRecoveredSig (self : Masternode Sig) (now : ℤ)
    (recSig : CRecoveredSig Sig) :
    SameVotes self.db.db (self.processRecoveredSig c now recSig).db.db ∧
      (self.processRecoveredSig c now recSig).pendingSigns = self.pendingSigns := by
  unfold Masternode.processRecoveredSig
  dsimp only
  split_ifs
  · exact ⟨⟨rfl, rfl⟩, rfl⟩
  · exact ⟨⟨rfl, rfl⟩, rfl⟩
  · exact ⟨⟨rfl, rfl⟩, rfl⟩

/-- What a call to sign can do: nothing, sign again for the vote that is recorded, or record a vote
where there is none and sign for it. -/
inductive Signs (self self' : Masternode Sig) (now : ℤ) (key : IdKey) (msgHash : uint256) : Prop
  | nothing (hdb : self'.db.db = self.db.db) (hpending : self'.pendingSigns = self.pendingSigns)
  | again (hvoted : self.db.db.votes[key]? = some msgHash) (hdb : self'.db.db = self.db.db)
      (quorum : CQuorum)
      (hpending : self'.pendingSigns = self.pendingSigns ++ [⟨quorum, key, msgHash⟩])
  | first (hnone : self.db.db.votes[key]? = none)
      (hvotes : self'.db.db.votes = self.db.db.votes.insert key msgHash)
      (htimes : self'.db.db.voteTimes = self.db.db.voteTimes.insert ⟨BitVec.ofInt 32 now, key⟩)
      (quorum : CQuorum)
      (hpending : self'.pendingSigns = self.pendingSigns ++ [⟨quorum, key, msgHash⟩])

theorem signs_signIfNotRecovered (quorum : CQuorum) {hasVoted : Bool}
    (hvoted : self.db.db.votes[key]? = if hasVoted = true then some msgHash else none) :
    Signs self (self.signIfNotRecovered now quorum key msgHash hasVoted).2 now key msgHash := by
  unfold Masternode.signIfNotRecovered
  rcases hask : self.db.hasRecoveredSigForId key with ⟨recovered, db⟩
  have hdb : db.db = self.db.db := by
    have hsnd : (self.db.hasRecoveredSigForId key).2 = db := congrArg Prod.snd hask
    rw [← hsnd]
    rfl
  dsimp only
  split_ifs with hrecovered hagain
  · exact .nothing hdb rfl
  · rw [if_pos hagain] at hvoted
    exact .again hvoted hdb quorum rfl
  · rw [if_neg hagain] at hvoted
    refine .first hvoted ?_ ?_ quorum rfl
    · exact congrArg (fun db => db.votes.insert key msgHash) hdb
    · exact congrArg (fun db : Database Sig => db.voteTimes.insert ⟨BitVec.ofInt 32 now, key⟩) hdb

theorem signs_asyncSignIfMember (self : Masternode Sig) (now : ℤ) (proTxHash : uint256)
    (quorum : Option CQuorum) (key : IdKey) (msgHash : uint256) (allowReSign : Bool) :
    Signs self (self.asyncSignIfMember now proTxHash quorum key msgHash allowReSign false).2 now
      key msgHash := by
  have hnothing : Signs self self now key msgHash := .nothing rfl rfl
  unfold Masternode.asyncSignIfMember
  by_cases hnull : proTxHash = 0
  · rw [if_pos hnull]
    exact hnothing
  · rw [if_neg hnull]
    cases quorum with
    | none => exact hnothing
    | some quorum =>
      dsimp only
      split_ifs with hmember hvoted hother hdiff hresign
      · exact hnothing
      · exact hdiff.elim
      · exact hnothing
      · -- the vote that is recorded is for this message hash
        refine signs_signIfNotRecovered quorum ?_
        rw [not_not] at hother
        rw [if_pos rfl, hother]
        cases hget : self.db.db.votes[key]? with
        | none =>
          have hmem : key ∈ self.db.db.votes := ExtTreeMap.mem_iff_contains.mpr hvoted
          exact absurd hmem (notMem_iff.mpr hget)
        | some prevMsgHash =>
          rw [CRecoveredSigsDb.getVoteForId, hget]
          rfl
      · exact hnothing
      · refine signs_signIfNotRecovered quorum ?_
        rw [if_neg Bool.false_ne_true]
        refine notMem_iff.mp fun hmem => hvoted ?_
        exact ExtTreeMap.mem_iff_contains.mp hmem

/-! ### The invariant -/

/-- What the calls keep. -/
structure Inv (s : Watched Sig) : Prop where
  remembered : ∀ v ∈ s.votes, v.expired = false → s.self.db.db.votes[v.key]? = some v.msgHash
  recorded : ∀ v ∈ s.votes, v.expired = false →
    (⟨BitVec.ofInt 32 v.time, v.key⟩ : TimeKey) ∈ s.self.db.db.voteTimes
  unique : ∀ k ∈ s.self.db.db.voteTimes, ∀ k' ∈ s.self.db.db.voteTimes, k.key = k'.key → k = k'
  voted : ∀ k ∈ s.self.db.db.voteTimes, k.key ∈ s.self.db.db.votes
  cast : ∀ (key : IdKey) msgHash, s.self.db.db.votes[key]? = some msgHash →
    ∃ v ∈ s.votes, v.key = key ∧ v.msgHash = msgHash
  apart : s.votes.Pairwise fun second first => second.key = first.key → first.expired = true
  pending : ∀ p ∈ s.self.pendingSigns, ∃ v ∈ s.votes, v.key = p.key ∧ v.msgHash = p.msgHash
  backed : ∀ share ∈ s.shares, ∃ v ∈ s.votes, v.key = share.key ∧ v.msgHash = share.msgHash

theorem sublist_pair {α : Type*} {l : List α} {a b : α} (ha : a ∈ l) (hb : b ∈ l) (hne : a ≠ b) :
    [a, b].Sublist l ∨ [b, a].Sublist l := by
  induction l with
  | nil => exact absurd ha List.not_mem_nil
  | cons x l ih =>
    rcases List.mem_cons.mp ha with rfl | ha'
    · have hmem := (List.mem_cons.mp hb).resolve_left hne.symm
      exact Or.inl ((List.singleton_sublist.mpr hmem).cons_cons a)
    · rcases List.mem_cons.mp hb with rfl | hb'
      · exact Or.inr ((List.singleton_sublist.mpr ha').cons_cons b)
      · exact (ih ha' hb').imp (fun h => h.cons x) fun h => h.cons x

theorem Inv.votesOnce (h : Inv s) : VotesOnce s where
  remembered := h.remembered
  once share hshare share' hshare' hkey hne := by
    obtain ⟨v, hv, hvkey, hvhash⟩ := h.backed share hshare
    obtain ⟨v', hv', hvkey', hvhash'⟩ := h.backed share' hshare'
    have hvne : v ≠ v' := by
      rintro rfl
      exact hne (hvhash.symm.trans hvhash')
    have hsame : v.key = v'.key := hvkey.trans (hkey.trans hvkey'.symm)
    rcases sublist_pair hv hv' hvne with hsub | hsub
    · have hexpired := List.rel_of_pairwise_cons (h.apart.sublist hsub) List.mem_cons_self hsame
      exact ⟨v', v, hsub, hexpired, hvkey'.trans hkey.symm, hvkey, Or.inr ⟨hvhash', hvhash⟩⟩
    · have hexpired := List.rel_of_pairwise_cons (h.apart.sublist hsub) List.mem_cons_self
        hsame.symm
      exact ⟨v, v', hsub, hexpired, hvkey, hvkey'.trans hkey.symm, Or.inl ⟨hvhash, hvhash'⟩⟩

theorem inv_start : Inv ({} : Watched Sig) where
  remembered _ hv := absurd hv List.not_mem_nil
  recorded _ hv := absurd hv List.not_mem_nil
  unique _ hk := absurd hk ExtTreeSet.not_mem_empty
  voted _ hk := absurd hk ExtTreeSet.not_mem_empty
  cast _ _ hget := by
    rw [ExtTreeMap.getElem?_empty] at hget
    contradiction
  apart := List.Pairwise.nil
  pending _ hp := absurd hp List.not_mem_nil
  backed _ hshare := absurd hshare List.not_mem_nil

/-- A call that leaves the votes alone and signs only for votes that were cast. -/
theorem Inv.congr (h : Inv s) (hsame : SameVotes s.self.db.db self.db.db)
    (hpending : ∀ p ∈ self.pendingSigns, ∃ v ∈ s.votes, v.key = p.key ∧ v.msgHash = p.msgHash) :
    Inv {s with self := self} := by
  obtain ⟨hvotes, htimes⟩ := hsame
  refine ⟨?_, ?_, ?_, ?_, ?_, h.apart, hpending, h.backed⟩
  · dsimp only
    rw [hvotes]
    exact h.remembered
  · dsimp only
    rw [htimes]
    exact h.recorded
  · dsimp only
    rw [htimes]
    exact h.unique
  · dsimp only
    rw [htimes, hvotes]
    exact h.voted
  · dsimp only
    rw [hvotes]
    exact h.cast

/-- A vote is cast for an id that has none. -/
theorem Inv.first (h : Inv s) (hnone : s.self.db.db.votes[key]? = none)
    (hvotes : self.db.db.votes = s.self.db.db.votes.insert key msgHash)
    (htimes : self.db.db.voteTimes =
      s.self.db.db.voteTimes.insert ⟨BitVec.ofInt 32 now, key⟩)
    {quorum : CQuorum}
    (hpending : self.pendingSigns = s.self.pendingSigns ++ [⟨quorum, key, msgHash⟩]) :
    Inv {s with self := self, votes := ⟨key, msgHash, now, false⟩ :: s.votes} := by
  have hfresh : ∀ k ∈ s.self.db.db.voteTimes, k.key ≠ key := by
    rintro k hk rfl
    exact notMem_iff.mpr hnone (h.voted k hk)
  have hother : ∀ v ∈ s.votes, v.expired = false → v.key ≠ key := by
    rintro v hv hexpired rfl
    rw [h.remembered v hv hexpired] at hnone
    contradiction
  refine ⟨?_, ?_, ?_, ?_, ?_, ?_, ?_, ?_⟩
  · refine List.forall_mem_cons.mpr ⟨fun _ => ?_, fun v hv hexpired => ?_⟩
    · dsimp only
      rw [hvotes, getElem?_insert, if_pos rfl]
    · dsimp only
      rw [hvotes, getElem?_insert, if_neg (hother v hv hexpired).symm]
      exact h.remembered v hv hexpired
  · refine List.forall_mem_cons.mpr ⟨fun _ => ?_, fun v hv hexpired => ?_⟩
    · dsimp only
      rw [htimes, mem_set_insert]
      exact Or.inl rfl
    · dsimp only
      rw [htimes, mem_set_insert]
      exact Or.inr (h.recorded v hv hexpired)
  · intro k hk k' hk' hsame
    dsimp only at hk hk'
    rw [htimes, mem_set_insert] at hk hk'
    rcases hk with rfl | hk
    · rcases hk' with rfl | hk'
      · rfl
      · exact absurd hsame.symm (hfresh k' hk')
    · rcases hk' with rfl | hk'
      · exact absurd hsame (hfresh k hk)
      · exact h.unique k hk k' hk' hsame
  · intro k hk
    dsimp only at hk ⊢
    rw [htimes, mem_set_insert] at hk
    rw [hvotes, mem_iff_exists]
    rcases hk with rfl | hk
    · exact ⟨msgHash, by rw [getElem?_insert, if_pos rfl]⟩
    · obtain ⟨m, hm⟩ := mem_iff_exists.mp (h.voted k hk)
      exact ⟨m, by rw [getElem?_insert, if_neg (hfresh k hk).symm, hm]⟩
  · intro key' m hm
    dsimp only at hm
    rw [hvotes, getElem?_insert] at hm
    split_ifs at hm with hsame
    · exact ⟨_, List.mem_cons_self, hsame, Option.some.inj hm⟩
    · obtain ⟨v, hv, hcast⟩ := h.cast key' m hm
      exact ⟨v, List.mem_cons_of_mem _ hv, hcast⟩
  · refine List.pairwise_cons.mpr ⟨fun v hv hsame => ?_, h.apart⟩
    by_contra hexpired
    exact hother v hv (Bool.eq_false_of_not_eq_true hexpired) hsame.symm
  · intro p hp
    dsimp only at hp
    rw [hpending] at hp
    rcases List.mem_append.mp hp with hp | hp
    · obtain ⟨v, hv, hsame⟩ := h.pending p hp
      exact ⟨v, List.mem_cons_of_mem _ hv, hsame⟩
    · rw [List.mem_singleton.mp hp]
      exact ⟨_, List.mem_cons_self, rfl, rfl⟩
  · intro share hshare
    obtain ⟨v, hv, hsame⟩ := h.backed share hshare
    exact ⟨v, List.mem_cons_of_mem _ hv, hsame⟩

theorem Inv.asyncSign (h : Inv s) (now : ℤ) (proTxHash : uint256) (quorum : Option CQuorum)
    (key : IdKey) (msgHash : uint256) (allowReSign : Bool) :
    Inv (step c s (.asyncSignIfMember now proTxHash quorum key msgHash allowReSign)).2 := by
  have hsigns := signs_asyncSignIfMember s.self now proTxHash quorum key msgHash allowReSign
  unfold step
  dsimp only
  generalize (s.self.asyncSignIfMember now proTxHash quorum key msgHash allowReSign false).2 = self'
    at hsigns ⊢
  have hnotCast : self'.db.db = s.self.db.db →
      ¬(s.self.db.hasVotedOnId key = false ∧ self'.db.hasVotedOnId key = true) := by
    rintro hdb ⟨hbefore, hafter⟩
    rw [CRecoveredSigsDb.hasVotedOnId, hdb] at hafter
    rw [CRecoveredSigsDb.hasVotedOnId, hafter] at hbefore
    contradiction
  cases hsigns with
  | nothing hdb hpending =>
    rw [if_neg (hnotCast hdb)]
    refine h.congr ⟨by rw [hdb], by rw [hdb]⟩ ?_
    rw [hpending]
    exact h.pending
  | again hvoted hdb quorum hpending =>
    rw [if_neg (hnotCast hdb)]
    refine h.congr ⟨by rw [hdb], by rw [hdb]⟩ ?_
    rw [hpending]
    intro p hp
    rcases List.mem_append.mp hp with hp | hp
    · exact h.pending p hp
    · rw [List.mem_singleton.mp hp]
      exact h.cast key msgHash hvoted
  | first hnone hvotes htimes quorum hpending =>
    have hcast : s.self.db.hasVotedOnId key = false ∧ self'.db.hasVotedOnId key = true := by
      constructor
      · rw [CRecoveredSigsDb.hasVotedOnId, ← Bool.not_eq_true, ← ExtTreeMap.mem_iff_contains]
        exact notMem_iff.mpr hnone
      · rw [CRecoveredSigsDb.hasVotedOnId, ← ExtTreeMap.mem_iff_contains, mem_iff_exists, hvotes]
        exact ⟨msgHash, by rw [getElem?_insert, if_pos rfl]⟩
    rw [if_pos hcast]
    exact h.first hnone hvotes htimes hpending

/-! ### Cleanups -/

theorem votes_cleanupOldVotes (d : CRecoveredSigsDb Sig) (now maxAge : ℤ) (key : IdKey) :
    (d.cleanupOldVotes now maxAge).db.votes[key]? =
      if key ∈ (keysBefore d.db.voteTimes (BitVec.ofInt 32 (now-maxAge))).map TimeKey.key then none
      else d.db.votes[key]? := by
  rw [← getElem?_foldl_erase, List.foldl_map]
  rfl

theorem mem_voteTimes_cleanupOldVotes {k : TimeKey} :
    k ∈ (d.cleanupOldVotes now maxAge).db.voteTimes ↔
      k ∈ d.db.voteTimes ∧ k ∉ keysBefore d.db.voteTimes (BitVec.ofInt 32 (now-maxAge)) :=
  mem_set_foldl_erase _ _ k

theorem Vote.not_expired_age {endTime : ℤ} {v : Vote} (h : (v.age endTime).expired = false) :
    v.expired = false ∧ ¬v.time < endTime := by
  obtain ⟨hexpired, htime⟩ := Bool.or_eq_false_iff.mp h
  exact ⟨hexpired, of_decide_eq_false htime⟩

/-- A cleanup leaves the votes that are not expired. -/
theorem Inv.cleanupOldVotes (h : Inv s)
    (htime : EndsInTime s (.cleanupOldVotes now maxAge)) :
    Inv (step c s (.cleanupOldVotes now maxAge)).2 := by
  have hkept : ∀ v ∈ s.votes, (v.age (now-maxAge)).expired = false →
      ∀ k ∈ keysBefore s.self.db.db.voteTimes (BitVec.ofInt 32 (now-maxAge)), k.key ≠ v.key := by
    intro v hv hnot k hk hsame
    obtain ⟨hexpired, hlate⟩ := Vote.not_expired_age hnot
    obtain ⟨hin, hbefore⟩ := mem_keysBefore.mp hk
    have heq := h.unique k hin _ (h.recorded v hv hexpired) hsame
    rw [heq] at hbefore
    exact hlate (htime v hv hexpired hbefore)
  refine ⟨?_, ?_, ?_, ?_, ?_, ?_, ?_, ?_⟩
  · intro v' hv' hnot
    obtain ⟨v, hv, rfl⟩ := List.mem_map.mp hv'
    change (s.self.db.cleanupOldVotes now maxAge).db.votes[v.key]? = some v.msgHash
    rw [votes_cleanupOldVotes, if_neg fun hmem => ?_]
    · exact h.remembered v hv (Vote.not_expired_age hnot).1
    · obtain ⟨k, hk, hsame⟩ := List.mem_map.mp hmem
      exact hkept v hv hnot k hk hsame
  · intro v' hv' hnot
    obtain ⟨v, hv, rfl⟩ := List.mem_map.mp hv'
    refine mem_voteTimes_cleanupOldVotes.mpr
      ⟨h.recorded v hv (Vote.not_expired_age hnot).1, fun hin => ?_⟩
    exact hkept v hv hnot _ hin rfl
  · intro k hk k' hk'
    exact h.unique k (mem_voteTimes_cleanupOldVotes.mp hk).1 k'
      (mem_voteTimes_cleanupOldVotes.mp hk').1
  · intro k hk
    obtain ⟨hin, hout⟩ := mem_voteTimes_cleanupOldVotes.mp hk
    obtain ⟨m, hm⟩ := mem_iff_exists.mp (h.voted k hin)
    refine mem_iff_exists.mpr ⟨m, ?_⟩
    change (s.self.db.cleanupOldVotes now maxAge).db.votes[k.key]? = some m
    rw [votes_cleanupOldVotes, if_neg fun hmem => ?_, hm]
    obtain ⟨k', hk', hsame⟩ := List.mem_map.mp hmem
    have heq := h.unique k' (mem_keysBefore.mp hk').1 k hin hsame
    exact hout (heq ▸ hk')
  · intro key m hm
    change (s.self.db.cleanupOldVotes now maxAge).db.votes[key]? = some m at hm
    rw [votes_cleanupOldVotes] at hm
    split_ifs at hm
    obtain ⟨v, hv, hcast⟩ := h.cast key m hm
    exact ⟨_, List.mem_map_of_mem hv, hcast⟩
  · refine List.pairwise_map.mpr (h.apart.imp fun {second first} hexpired hsame => ?_)
    change (first.expired || _) = true
    rw [hexpired hsame]
    rfl
  · intro p hp
    obtain ⟨v, hv, hsame⟩ := h.pending p hp
    exact ⟨_, List.mem_map_of_mem hv, hsame⟩
  · intro share hshare
    obtain ⟨v, hv, hsame⟩ := h.backed share hshare
    exact ⟨_, List.mem_map_of_mem hv, hsame⟩

/-- A vote that is not expired is forgotten by a cleanup whose end time is cut across it. -/
theorem Inv.forgotten (h : Inv s) (htime : ¬EndsInTime s (.cleanupOldVotes now maxAge)) :
    ¬VotesOnce (step c s (.cleanupOldVotes now maxAge)).2 := by
  unfold EndsInTime at htime
  push Not at htime
  obtain ⟨v, hv, hexpired, hbefore, hlate⟩ := htime
  intro honce
  have hnot : (v.age (now-maxAge)).expired = false := by
    change (v.expired || _) = false
    rw [hexpired, decide_eq_false (Int.not_lt.mpr hlate)]
    rfl
  have hremembered := honce.remembered _ (List.mem_map_of_mem hv) hnot
  change (s.self.db.cleanupOldVotes now maxAge).db.votes[v.key]? = some v.msgHash at hremembered
  rw [votes_cleanupOldVotes, if_pos] at hremembered
  · contradiction
  · exact List.mem_map.mpr ⟨_, mem_keysBefore.mpr ⟨h.recorded v hv hexpired, hbefore⟩, rfl⟩

/-! ### Runs of calls -/

theorem Inv.step (h : Inv s) {call : Call Sig} (htime : EndsInTime s call) :
    Inv (step c s call).2 := by
  cases call with
  | asyncSignIfMember now proTxHash quorum key msgHash allowReSign =>
    exact h.asyncSign now proTxHash quorum key msgHash allowReSign
  | signPendingSigShares canSign =>
    have hsigned : Inv {s with self := {s.self with pendingSigns := []}} :=
      h.congr ⟨rfl, rfl⟩ fun p hp => absurd hp List.not_mem_nil
    refine ⟨hsigned.remembered, hsigned.recorded, hsigned.unique, hsigned.voted, hsigned.cast,
      hsigned.apart, hsigned.pending, fun share hshare => ?_⟩
    rcases List.mem_append.mp hshare with hshare | hshare
    · exact h.backed share hshare
    · obtain ⟨p, hp, rfl⟩ := List.mem_map.mp hshare
      exact h.pending p (List.mem_of_mem_filter hp)
  | processRecoveredSig now recSig =>
    obtain ⟨hsame, hpending⟩ := sameVotes_processRecoveredSig (c := c) s.self now recSig
    refine h.congr hsame ?_
    rw [hpending]
    exact h.pending
  | truncateRecoveredSig key =>
    exact h.congr (sameVotes_removeRecoveredSig {self := s.self.db, batch := s.self.db.db} key
      false false) h.pending
  | cleanupOldRecoveredSigs now maxAge =>
    exact h.congr (sameVotes_removeOld _ {self := s.self.db, batch := s.self.db.db}) h.pending
  | cleanupOldVotes now maxAge => exact h.cleanupOldVotes htime
  | hasRecoveredSigForId key => exact h.congr ⟨rfl, rfl⟩ h.pending
  | hasRecoveredSigForSession signHash => exact h.congr ⟨rfl, rfl⟩ h.pending
  | hasRecoveredSigForHash hash => exact h.congr ⟨rfl, rfl⟩ h.pending
  | restart => exact h.congr ⟨rfl, rfl⟩ fun p hp => absurd hp List.not_mem_nil

theorem Inv.not_step (h : Inv s) {call : Call Sig} (htime : ¬EndsInTime s call) :
    ¬VotesOnce (BabaChain.LLMQ.Signing.step c s call).2 := by
  cases call with
  | cleanupOldVotes now maxAge => exact h.forgotten htime
  | _ => exact absurd trivial htime

/-- A vote is remembered until it is expired and no two message hashes of one id are signed before
that, on every way through a run, exactly if no cleanup of the votes cuts its times to 32 bits in a
way that makes an older vote of one that is not. -/
theorem votes_once_iff (c : Hashing Sig) (calls : List (Call Sig)) :
    (∀ past, past <+: calls → VotesOnce (Runs.final (step c) ({} : Watched Sig) past)) ↔
      Runs.EveryStep (step c) EndsInTime ({} : Watched Sig) calls :=
  Runs.forall_prefix_iff Inv VotesOnce (fun _ h => h.votesOnce) (fun _ _ h htime => h.step htime)
    (fun _ _ h htime => h.not_step htime) inv_start calls

/-- Then there is one time at most for an id in the database, of a vote that is there, and a share
is made only for what was voted for. -/
theorem votes_indexed (c : Hashing Sig) (calls : List (Call Sig))
    (hcalls : Runs.EveryStep (step c) EndsInTime ({} : Watched Sig) calls) :
    let s := Runs.final (step c) ({} : Watched Sig) calls
    (∀ k ∈ s.self.db.db.voteTimes, k.key ∈ s.self.db.db.votes ∧
      ∀ k' ∈ s.self.db.db.voteTimes, k.key = k'.key → k = k') ∧
    ∀ share ∈ s.shares, ∃ v ∈ s.votes, v.key = share.key ∧ v.msgHash = share.msgHash := by
  have h := Runs.final_invariant Inv (fun _ _ h htime => h.step htime) inv_start hcalls
  exact ⟨fun k hk => ⟨h.voted k hk, h.unique k hk⟩, h.backed⟩

/-! ### A fresh vote that is forgotten -/

def testQuorum : CQuorum := ⟨1, [(1, true)]⟩

/-- Between two calls to sign for one id there is a cleanup with `-maxrecsigsage=4000000000`. -/
def testCalls : List (Call Unit) :=
  [.asyncSignIfMember 1700000000 1 (some testQuorum) ⟨5, 7⟩ 11 false,
    .signPendingSigShares fun _ => true,
    .cleanupOldVotes 1700000001 4000000000,
    .asyncSignIfMember 1700000002 1 (some testQuorum) ⟨5, 7⟩ 12 false,
    .signPendingSigShares fun _ => true]

theorem votes_indexed_test : ∃ v ∈ (Runs.final (step testHashing) {} (testCalls.take 2)).votes,
    v.key = ⟨5, 7⟩ ∧ v.msgHash = 11 :=
  (votes_indexed testHashing (testCalls.take 2) ⟨trivial, trivial, trivial⟩).2 ⟨⟨5, 7⟩, 1, 11⟩
    (by decide +kernel)

theorem votes_twice :
    (Runs.final (step testHashing) {} testCalls).shares = [⟨⟨5, 7⟩, 1, 11⟩, ⟨⟨5, 7⟩, 1, 12⟩] ∧
      ¬VotesOnce (Runs.final (step testHashing) {} testCalls) := by
  refine ⟨by decide +kernel, fun h => ?_⟩
  have hremembered := h.remembered ⟨⟨5, 7⟩, 11, 1700000000, false⟩ (by decide +kernel) rfl
  revert hremembered
  decide +kernel

end BabaChain.LLMQ.Signing
