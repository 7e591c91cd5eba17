import BabaChain.Quorums
import Mathlib.Tactic

/-! The signing sessions that a peer announces, and what the ids stand for that it announces them
under. -/
namespace BabaChain.LLMQ.SigShares
open Std (ExtTreeMap)
open OrdMap

/-! ### Sessions -/

def UNINITIALIZED_SESSION_ID : UInt32 := 0xffffffff

structure CSigBase where
  llmqType : LLMQType := 0xff
  quorumHash : uint256 := 0
  id : uint256 := 0
  msgHash : uint256 := 0
deriving DecidableEq

structure CSigSesAnn extends CSigBase where
  sessionId : UInt32 := UNINITIALIZED_SESSION_ID
deriving DecidableEq

/-- What sessions take from the rest of the node: the sizes of the quorums of the types that are
known, and the hash that is signed. -/
structure Env where
  quorumSize : LLMQType → Option ℕ
  buildSignHash : CSigBase → uint256

/-- `Q` is the type of quorums. -/
structure Session (Q : Type) extends CSigBase where
  recvSessionId : UInt32 := UNINITIALIZED_SESSION_ID
  signHash : uint256 := 0
  quorum : Option Q := none
  announced : List Bool := []
  requested : List Bool := []
  knows : List Bool := []

structure SessionInfo (Q : Type) extends CSigBase where
  signHash : uint256
  quorum : Option Q
deriving DecidableEq

abbrev SessionPtr := ℕ

/-- The state of a peer. `sessionByRecvId` holds pointers to the sessions in the map, which is kept
here as the pointers and what is found there. `S` is the type of signature shares. -/
structure CSigSharesNodeState (Q S : Type) where
  sessions : ExtTreeMap uint256 SessionPtr := ∅
  heap : ExtTreeMap SessionPtr (Session Q) := ∅
  next : SessionPtr := 0
  sessionByRecvId : ExtTreeMap UInt32 SessionPtr := ∅
  pendingIncomingSigShares : ExtTreeMap uint256 (ExtTreeMap UInt16 S) := ∅
  requestedSigShares : ExtTreeMap uint256 (ExtTreeMap UInt16 ℤ) := ∅

variable {Q S : Type} (env : Env)

def initSession (s : Session Q) (signHash : uint256) (base : CSigBase) (size : ℕ) : Session Q :=
  { toCSigBase := base
    recvSessionId := s.recvSessionId
    signHash := signHash
    quorum := s.quorum
    announced := List.replicate size false
    requested := List.replicate size false
    knows := List.replicate size false }

namespace CSigSharesNodeState

variable (self : CSigSharesNodeState Q S)

/-- `sessions[signHash]`. -/
def sessionAt (signHash : uint256) : SessionPtr × CSigSharesNodeState Q S :=
  match self.sessions[signHash]? with
  | some s => (s, self)
  | none =>
    (self.next,
      {self with
        sessions := self.sessions.insert signHash self.next
        heap := self.heap.insert self.next {}
        next := self.next+1})

/-- `GetOrCreateSessionFromShare` and `GetOrCreateSessionFromAnn`; `none` where the assertion on
the type fails. -/
def getOrCreateSession (base : CSigBase) : Option (SessionPtr × CSigSharesNodeState Q S) :=
  let signHash := env.buildSignHash base
  let (s, self) := self.sessionAt signHash
  match self.heap[s]? with
  | none => none
  | some session =>
    if session.announced.isEmpty = true then
      match env.quorumSize base.llmqType with
      | none => none
      | some size =>
        some (s, {self with
          heap := self.heap.insert s (initSession session signHash base size)})
    else
      some (s, self)

def getSessionByRecvId (sessionId : UInt32) : Option SessionPtr := self.sessionByRecvId[sessionId]?

/-- `none` where the pointer is dangling, `some none` where the call returns false. -/
def getSessionInfoByRecvId (sessionId : UInt32) : Option (Option (SessionInfo Q)) :=
  match self.getSessionByRecvId sessionId with
  | none => some none
  | some s => self.heap[s]?.map fun s =>
    some {toCSigBase := s.toCSigBase, signHash := s.signHash, quorum := s.quorum}

def eraseAllForSignHash (signHash : uint256) : CSigSharesNodeState Q S :=
  {self with
    requestedSigShares := self.requestedSigShares.erase signHash
    pendingIncomingSigShares := self.pendingIncomingSigShares.erase signHash}

def removeSession (signHash : uint256) : CSigSharesNodeState Q S :=
  match self.sessions[signHash]? with
  | none => self.eraseAllForSignHash signHash
  | some it =>
    match self.heap[it]? with
    | none => self
    | some session =>
      eraseAllForSignHash
        {self with
          sessionByRecvId := self.sessionByRecvId.erase session.recvSessionId
          sessions := self.sessions.erase signHash
          heap := self.heap.erase it}
        signHash

end CSigSharesNodeState

/-! ### Messages -/

/-- The quorum of an announcement that gets past the checks. -/
def CSigSesAnn.accepted (ann : CSigSesAnn) (quorum : Option Q) : Option Q :=
  if env.quorumSize ann.llmqType = none then
    none
  else if ann.sessionId = UNINITIALIZED_SESSION_ID ∨ ann.quorumHash = 0 ∨ ann.id = 0 ∨
      ann.msgHash = 0 then
    none
  else
    quorum

/-- `ProcessMessageSigSesAnn`, with the quorum that `GetQuorum` finds. -/
def processMessageSigSesAnn (self : CSigSharesNodeState Q S) (ann : CSigSesAnn)
    (quorum : Option Q) : Option (CSigSharesNodeState Q S) :=
  match ann.accepted env quorum with
  | none => some self
  | some quorum =>
    match self.getOrCreateSession env ann.toCSigBase with
    | none => none
    | some (s, self) =>
      self.heap[s]?.map fun session =>
        {self with
          heap := self.heap.insert s
            {session with recvSessionId := ann.sessionId, quorum := some quorum}
          sessionByRecvId := ((self.sessionByRecvId.erase session.recvSessionId).erase
            ann.sessionId).insert ann.sessionId s}

/-- Sessions are announced by the peer, removed, and created for the shares that are sent to it. -/
inductive Call (Q : Type)
  | announce (ann : CSigSesAnn) (quorum : Option Q)
  | removeSession (signHash : uint256)
  | createSession (sigShare : CSigBase)

/-- A failed assertion ends the process: nothing happens after it. -/
def step (self : CSigSharesNodeState Q S) : Call Q → CSigSharesNodeState Q S
  | .announce ann quorum => (processMessageSigSesAnn env self ann quorum).getD self
  | .removeSession signHash => self.removeSession signHash
  | .createSession sigShare => ((self.getOrCreateSession env sigShare).map Prod.snd).getD self

/-- The state after the calls, of which the newest comes first. -/
def run : List (Call Q) → CSigSharesNodeState Q S
  | [] => {}
  | call :: past => step env (run past) call

/-! ### What the peer has announced -/

/-- What a call means for the ids: an accepted announcement, or a removal. -/
inductive Effect (Q : Type)
  | announced (id : UInt32) (signHash : uint256) (quorum : Q)
  | removed (signHash : uint256)
  | unchanged

def Call.effect : Call Q → Effect Q
  | .announce ann quorum =>
    match ann.accepted env quorum with
    | none => .unchanged
    | some quorum => .announced ann.sessionId (env.buildSignHash ann.toCSigBase) quorum
  | .removeSession signHash => .removed signHash
  | .createSession _ => .unchanged

/-- The session that was last announced under an id, if it was not removed since. -/
def announcedUnder : List (Call Q) → UInt32 → Option uint256
  | [], _ => none
  | call :: past, id =>
    match call.effect env with
    | .announced id' signHash _ => if id' = id then some signHash else announcedUnder past id
    | .removed signHash =>
      if announcedUnder past id = some signHash then none else announcedUnder past id
    | .unchanged => announcedUnder past id

/-- The id and the quorum that a session was last announced with, if it was not removed since. -/
def announcedAs : List (Call Q) → uint256 → Option (UInt32 × Q)
  | [], _ => none
  | call :: past, signHash =>
    match call.effect env with
    | .announced id signHash' quorum =>
      if signHash' = signHash then some (id, quorum) else announcedAs past signHash
    | .removed removed => if removed = signHash then none else announcedAs past signHash
    | .unchanged => announcedAs past signHash

/-- If a session was last announced under the id, then no other one was since. -/
def HoldsId (past : List (Call Q)) (id : UInt32) (signHash : uint256) : Prop :=
  (announcedAs env past signHash).map Prod.fst = some id →
    announcedUnder env past id = some signHash

/-- Since the last announcement under an id no session that had been announced under it before was
announced anew or removed. -/
def Undisturbed : List (Call Q) → UInt32 → Prop
  | [], _ => True
  | call :: past, id =>
    match call.effect env with
    | .announced id' signHash _ => id' = id ∨ Undisturbed past id ∧ HoldsId env past id signHash
    | .removed signHash => Undisturbed past id ∧ HoldsId env past id signHash
    | .unchanged => Undisturbed past id

/-! ### Invariant -/

variable {env} {past : List (Call Q)} {self : CSigSharesNodeState Q S}

/-- A session that is found by its hash. -/
structure Session.Tells (env : Env) (past : List (Call Q)) (signHash : uint256) (x : Session Q) :
    Prop where
  named : x.signHash = signHash
  hash : env.buildSignHash x.toCSigBase = signHash
  recvSessionId : x.recvSessionId =
    ((announcedAs env past signHash).map Prod.fst).getD UNINITIALIZED_SESSION_ID
  quorum : x.quorum = (announcedAs env past signHash).map Prod.snd

/-- What the calls keep: ids stand for sessions that were last announced under them, and for all
of these as long as nothing disturbs them. -/
structure Inv (env : Env) (past : List (Call Q)) (state : CSigSharesNodeState Q S) : Prop where
  fresh : ∀ {signHash : uint256} {s : SessionPtr}, state.sessions[signHash]? = some s →
    s < state.next
  found : ∀ {signHash : uint256} {s : SessionPtr}, state.sessions[signHash]? = some s →
    ∃ x, state.heap[s]? = some x ∧ x.Tells env past signHash
  live : ∀ {signHash : uint256}, state.sessions[signHash]? = none →
    announcedAs env past signHash = none
  byId : ∀ {id : UInt32} {s : SessionPtr}, state.sessionByRecvId[id]? = some s →
    ∃ signHash, state.sessions[signHash]? = some s ∧ announcedUnder env past id = some signHash ∧
      (announcedAs env past signHash).map Prod.fst = some id
  complete : ∀ {id : UInt32} {signHash : uint256}, Undisturbed env past id →
    announcedUnder env past id = some signHash →
    (announcedAs env past signHash).map Prod.fst = some id →
    state.sessionByRecvId[id]? = state.sessions[signHash]?

theorem quorumSize_of_accepted {ann : CSigSesAnn} {quorum : Option Q} {q : Q}
    (haccepted : ann.accepted env quorum = some q) :
    ∃ size, env.quorumSize ann.llmqType = some size := by
  unfold CSigSesAnn.accepted at haccepted
  split_ifs at haccepted with htype hnull
  exact Option.ne_none_iff_exists'.mp htype

theorem accepted_ne {ann : CSigSesAnn} {quorum : Option Q} {q : Q}
    (haccepted : ann.accepted env quorum = some q) :
    ann.sessionId ≠ UNINITIALIZED_SESSION_ID := by
  unfold CSigSesAnn.accepted at haccepted
  split_ifs at haccepted with htype hnull
  intro heq
  exact hnull (Or.inl heq)

@[simp]
theorem effect_announce (ann : CSigSesAnn) (quorum : Option Q) :
    (Call.announce ann quorum).effect env = match ann.accepted env quorum with
      | none => .unchanged
      | some quorum => .announced ann.sessionId (env.buildSignHash ann.toCSigBase) quorum :=
  rfl

@[simp]
theorem effect_removeSession (signHash : uint256) :
    (Call.removeSession signHash : Call Q).effect env = .removed signHash :=
  rfl

/-- Announcements under the id of a session that was never announced are refused. -/
theorem announcedAs_ne (past : List (Call Q)) (signHash : uint256) :
    (announcedAs env past signHash).map Prod.fst ≠ some UNINITIALIZED_SESSION_ID := by
  induction past with
  | nil => simp [announcedAs]
  | cons call past ih =>
    rw [announcedAs]
    cases call with
    | announce ann quorum =>
      rw [effect_announce]
      cases haccepted : ann.accepted env quorum with
      | none => exact ih
      | some q =>
        dsimp only
        split_ifs
        · rw [Option.map_some]
          exact fun heq => accepted_ne haccepted (Option.some.inj heq)
        · exact ih
    | removeSession removed =>
      rw [effect_removeSession]
      dsimp only
      split_ifs
      · simp
      · exact ih
    | createSession base => exact ih

/-- What the history says depends on the effects of the calls. -/
theorem inv_unchanged {call : Call Q} (heffect : call.effect env = .unchanged)
    (h : Inv env past self) : Inv env (call :: past) self := by
  have hunder : announcedUnder env (call :: past) = announcedUnder env past := by
    funext id
    rw [announcedUnder, heffect]
  have has : announcedAs env (call :: past) = announcedAs env past := by
    funext signHash
    rw [announcedAs, heffect]
  have htells : ∀ signHash (x : Session Q), x.Tells env past signHash →
      x.Tells env (call :: past) signHash := by
    intro signHash x hx
    exact ⟨hx.named, hx.hash, has ▸ hx.recvSessionId, has ▸ hx.quorum⟩
  refine ⟨h.fresh, fun hs => ?_, ?_, ?_, ?_⟩
  · obtain ⟨x, hx, hold⟩ := h.found hs
    exact ⟨x, hx, htells _ x hold⟩
  · rw [has]
    exact h.live
  · rw [hunder, has]
    exact h.byId
  · intro id signHash hundisturbed
    rw [Undisturbed, heffect] at hundisturbed
    rw [hunder, has]
    exact h.complete hundisturbed

namespace Inv

variable (h : Inv env past self)
include h

/-- Pointers are told apart by the hashes of their sessions. -/
theorem eq_of_ptr {a b : uint256} {s : SessionPtr} (ha : self.sessions[a]? = some s)
    (hb : self.sessions[b]? = some s) : a = b := by
  obtain ⟨x, hx, htells⟩ := h.found ha
  obtain ⟨y, hy, htells'⟩ := h.found hb
  rw [hx, Option.some.injEq] at hy
  rw [← htells.named, ← htells'.named, hy]

/-- The id in a session is the one that it was last announced under. -/
theorem recvSessionId_iff {signHash : uint256} {s : SessionPtr} {x : Session Q} {id : UInt32}
    (hs : self.sessions[signHash]? = some s) (hx : self.heap[s]? = some x)
    (hid : id ≠ UNINITIALIZED_SESSION_ID) :
    x.recvSessionId = id ↔ (announcedAs env past signHash).map Prod.fst = some id := by
  obtain ⟨y, hy, htells⟩ := h.found hs
  rw [hx, Option.some.injEq] at hy
  rw [hy, htells.recvSessionId]
  cases (announcedAs env past signHash).map Prod.fst with
  | none => simp [hid.symm]
  | some a => simp

/-- The id that is taken from a session is not one that another session is found by. -/
theorem recvSessionId_ne {a b : uint256} {s : SessionPtr} {x : Session Q} {id : UInt32}
    (ha : self.sessions[a]? = some s) (hx : self.heap[s]? = some x) (hholds : HoldsId env past id a)
    (hunder : announcedUnder env past id = some b)
    (hb : (announcedAs env past b).map Prod.fst = some id) (hne : a ≠ b) :
    x.recvSessionId ≠ id := by
  have hid : id ≠ UNINITIALIZED_SESSION_ID := fun heq => announcedAs_ne past b (heq ▸ hb)
  rw [Ne, h.recvSessionId_iff ha hx hid]
  intro has
  have hsame := hholds has
  rw [hunder, Option.some.injEq] at hsame
  exact hne hsame.symm

/-- A session that is found by an id has it. -/
theorem recvSessionId_of_byId {a b : uint256} {s : SessionPtr} {x : Session Q} {id : UInt32}
    (ha : self.sessions[a]? = some s) (hx : self.heap[s]? = some x)
    (hb : (announcedAs env past b).map Prod.fst = some id) (hne : x.recvSessionId ≠ id) :
    a ≠ b := by
  rintro rfl
  have hid : id ≠ UNINITIALIZED_SESSION_ID := fun heq => announcedAs_ne past a (heq ▸ hb)
  exact hne ((h.recvSessionId_iff ha hx hid).mpr hb)

/-- A session in the map may be initialised again. -/
theorem put {signHash : uint256} {s : SessionPtr} {x : Session Q}
    (hs : self.sessions[signHash]? = some s) (hx : x.Tells env past signHash) :
    Inv env past {self with heap := self.heap.insert s x} := by
  refine ⟨h.fresh, fun {other t} ht => ?_, h.live, h.byId, h.complete⟩
  dsimp only
  rw [getElem?_insert]
  split_ifs with heq
  · subst heq
    rw [h.eq_of_ptr ht hs]
    exact ⟨x, rfl, hx⟩
  · exact h.found ht

/-- A new session in the map. -/
theorem make {signHash : uint256} (hnone : self.sessions[signHash]? = none) {x : Session Q}
    (hx : x.Tells env past signHash) {heap : ExtTreeMap SessionPtr (Session Q)}
    (hheap : ∀ t, heap[t]? = if self.next = t then some x else self.heap[t]?) :
    Inv env past
      {self with
        sessions := self.sessions.insert signHash self.next
        heap := heap
        next := self.next+1} := by
  have hne : ∀ {a : uint256} {s : SessionPtr}, self.sessions[a]? = some s → signHash ≠ a := by
    rintro a s ha rfl
    rw [hnone] at ha
    contradiction
  refine ⟨fun {a s} ha => ?_, fun {a s} ha => ?_, fun {a} ha => ?_, fun {id s} hid => ?_, ?_⟩
  · dsimp only at ha ⊢
    rw [getElem?_insert] at ha
    split_ifs at ha with heq
    · rw [← Option.some.inj ha]
      exact Nat.lt_succ_self _
    · exact (h.fresh ha).trans (Nat.lt_succ_self _)
  · dsimp only at ha ⊢
    rw [getElem?_insert] at ha
    rw [hheap]
    split_ifs at ha with heq
    · rw [if_pos (Option.some.inj ha)]
      exact ⟨x, rfl, heq ▸ hx⟩
    · rw [if_neg (h.fresh ha).ne']
      exact h.found ha
  · dsimp only at ha
    rw [getElem?_insert] at ha
    split_ifs at ha
    exact h.live ha
  · obtain ⟨a, ha, hunder, has⟩ := h.byId hid
    refine ⟨a, ?_, hunder, has⟩
    dsimp only
    rw [getElem?_insert, if_neg (hne ha)]
    exact ha
  · intro id a hundisturbed hunder has
    dsimp only
    rw [h.complete hundisturbed hunder has, getElem?_insert, if_neg]
    rintro rfl
    rw [h.live hnone] at has
    contradiction

/-- A session is found or made. -/
theorem getOrCreateSession {base : CSigBase} {s : SessionPtr} {self' : CSigSharesNodeState Q S}
    (hget : self.getOrCreateSession env base = some (s, self')) :
    Inv env past self' ∧ self'.sessions[env.buildSignHash base]? = some s := by
  unfold CSigSharesNodeState.getOrCreateSession CSigSharesNodeState.sessionAt at hget
  dsimp only at hget
  cases hs : self.sessions[env.buildSignHash base]? with
  | some t =>
    rw [hs] at hget
    dsimp only at hget
    obtain ⟨x, hx, htells⟩ := h.found hs
    rw [hx] at hget
    dsimp only at hget
    split_ifs at hget
    · cases hsize : env.quorumSize base.llmqType with
      | none =>
        rw [hsize] at hget
        contradiction
      | some size =>
        rw [hsize, Option.some.injEq, Prod.mk.injEq] at hget
        obtain ⟨rfl, rfl⟩ := hget
        exact ⟨h.put hs ⟨rfl, rfl, htells.recvSessionId, htells.quorum⟩, hs⟩
    · rw [Option.some.injEq, Prod.mk.injEq] at hget
      obtain ⟨rfl, rfl⟩ := hget
      exact ⟨h, hs⟩
  | none =>
    rw [hs] at hget
    dsimp only at hget
    rw [getElem?_insert, if_pos rfl] at hget
    cases hsize : env.quorumSize base.llmqType with
    | none =>
      rw [hsize] at hget
      contradiction
    | some size =>
      rw [hsize] at hget
      dsimp only at hget
      rw [List.isEmpty_nil, if_pos rfl, Option.some.injEq, Prod.mk.injEq] at hget
      obtain ⟨rfl, rfl⟩ := hget
      refine ⟨h.make hs (x := initSession {} (env.buildSignHash base) base size)
        ⟨rfl, rfl, ?_, ?_⟩ fun t => ?_, ?_⟩
      · rw [h.live hs]
        rfl
      · rw [h.live hs]
        rfl
      · rw [getElem?_insert, getElem?_insert]
        split_ifs
        · rfl
        · rfl
      · dsimp only
        rw [getElem?_insert, if_pos rfl]

/-- The assertion holds for the types that are known. -/
theorem exists_getOrCreateSession {base : CSigBase} {size : ℕ}
    (hsize : env.quorumSize base.llmqType = some size) :
    ∃ found, self.getOrCreateSession env base = some found := by
  unfold CSigSharesNodeState.getOrCreateSession CSigSharesNodeState.sessionAt
  dsimp only
  cases hs : self.sessions[env.buildSignHash base]? with
  | some t =>
    obtain ⟨x, hx, -⟩ := h.found hs
    dsimp only
    rw [hx, hsize]
    dsimp only
    split_ifs
    · exact ⟨_, rfl⟩
    · exact ⟨_, rfl⟩
  | none =>
    dsimp only
    rw [getElem?_insert, if_pos rfl, hsize]
    dsimp only
    rw [List.isEmpty_nil, if_pos rfl]
    exact ⟨_, rfl⟩

/-- An announcement gives the id to its session. -/
theorem announce {call : Call Q} {id : UInt32} {signHash : uint256} {quorum : Q}
    (heffect : call.effect env = .announced id signHash quorum) {s : SessionPtr} {x : Session Q}
    (hs : self.sessions[signHash]? = some s) (hx : self.heap[s]? = some x) :
    Inv env (call :: past)
      {self with
        heap := self.heap.insert s {x with recvSessionId := id, quorum := some quorum}
        sessionByRecvId :=
          ((self.sessionByRecvId.erase x.recvSessionId).erase id).insert id s} := by
  have hunder : ∀ a, announcedUnder env (call :: past) a =
      if id = a then some signHash else announcedUnder env past a := by
    intro a
    rw [announcedUnder, heffect]
  have has : ∀ a, announcedAs env (call :: past) a =
      if signHash = a then some (id, quorum) else announcedAs env past a := by
    intro a
    rw [announcedAs, heffect]
  have hother : ∀ {a : uint256} {t : SessionPtr}, self.sessions[a]? = some t → signHash ≠ a →
      s ≠ t := by
    rintro a t ha hne rfl
    exact hne (h.eq_of_ptr hs ha)
  have hread : ∀ a, (((self.sessionByRecvId.erase x.recvSessionId).erase id).insert id s)[a]? =
      if id = a then some s else
        if x.recvSessionId = a then none else self.sessionByRecvId[a]? := by
    intro a
    rw [getElem?_insert, getElem?_erase, getElem?_erase]
    split_ifs <;> rfl
  refine ⟨h.fresh, fun {a t} ha => ?_, fun {a} ha => ?_, fun {a t} ha => ?_, ?_⟩
  · dsimp only
    rw [getElem?_insert]
    by_cases heq : signHash = a
    · subst heq
      have ht : s = t := Option.some.inj (hs.symm.trans ha)
      obtain ⟨y, hy, htells⟩ := h.found hs
      rw [hx, Option.some.injEq] at hy
      subst hy
      rw [if_pos ht]
      refine ⟨_, rfl, htells.named, htells.hash, ?_, ?_⟩
      · rw [has, if_pos rfl]
        rfl
      · rw [has, if_pos rfl]
        rfl
    · obtain ⟨y, hy, htells⟩ := h.found ha
      rw [if_neg (hother ha heq)]
      refine ⟨y, hy, htells.named, htells.hash, ?_, ?_⟩
      · rw [has, if_neg heq]
        exact htells.recvSessionId
      · rw [has, if_neg heq]
        exact htells.quorum
  · rw [has, if_neg]
    · exact h.live ha
    · rintro rfl
      rw [hs] at ha
      contradiction
  · dsimp only at ha
    rw [hread] at ha
    split_ifs at ha with heq hrecv
    · subst heq
      rw [Option.some.injEq] at ha
      subst ha
      refine ⟨signHash, hs, ?_, ?_⟩
      · rw [hunder, if_pos rfl]
      · rw [has, if_pos rfl, Option.map_some]
    · obtain ⟨b, hb, hbunder, hbas⟩ := h.byId ha
      refine ⟨b, hb, ?_, ?_⟩
      · rw [hunder, if_neg heq]
        exact hbunder
      · rw [has, if_neg (h.recvSessionId_of_byId hs hx hbas hrecv)]
        exact hbas
  · intro a b hundisturbed hb ha
    rw [Undisturbed, heffect] at hundisturbed
    rw [hunder] at hb
    rw [has] at ha
    dsimp only
    rw [hread]
    by_cases heq : id = a
    · rw [if_pos heq, Option.some.injEq] at hb
      rw [if_pos heq, ← hb, hs]
    · rw [if_neg heq] at hb ⊢
      obtain ⟨hundisturbed, hholds⟩ := hundisturbed.resolve_left heq
      have hne : signHash ≠ b := by
        rintro rfl
        rw [if_pos rfl, Option.map_some, Option.some.injEq] at ha
        exact heq ha
      rw [if_neg hne] at ha
      rw [if_neg (h.recvSessionId_ne hs hx hholds hb ha hne)]
      exact h.complete hundisturbed hb ha

/-- A removal takes the id of its session away. -/
theorem removeSession (signHash : uint256) :
    Inv env (.removeSession signHash :: past) (self.removeSession signHash) := by
  have hunder : ∀ {a b}, announcedUnder env (.removeSession signHash :: past) a = some b ↔
      announcedUnder env past a = some b ∧ signHash ≠ b := by
    intro a b
    rw [announcedUnder, effect_removeSession]
    dsimp only
    split_ifs with heq
    · rw [heq, Option.some.injEq]
      exact iff_of_false (fun hnone => by cases hnone) fun hand => hand.2 hand.1
    · refine (and_iff_left_of_imp ?_).symm
      rintro hb rfl
      exact heq hb
  have has : ∀ a, announcedAs env (.removeSession signHash :: past) a =
      if signHash = a then none else announcedAs env past a := fun a => rfl
  have htells : ∀ {a} {y : Session Q}, signHash ≠ a → y.Tells env past a →
      y.Tells env (.removeSession signHash :: past) a := by
    intro a y hne hy
    refine ⟨hy.named, hy.hash, ?_, ?_⟩
    · rw [has, if_neg hne]
      exact hy.recvSessionId
    · rw [has, if_neg hne]
      exact hy.quorum
  unfold CSigSharesNodeState.removeSession
  cases hs : self.sessions[signHash]? with
  | none =>
    have hne : ∀ {a : uint256} {t : SessionPtr}, self.sessions[a]? = some t → signHash ≠ a := by
      rintro a t ha rfl
      rw [hs] at ha
      contradiction
    refine ⟨h.fresh, fun {a t} ha => ?_, fun {a} ha => ?_, fun {a t} ha => ?_, ?_⟩
    · obtain ⟨y, hy, hold⟩ := h.found ha
      exact ⟨y, hy, htells (hne ha) hold⟩
    · rw [has]
      split_ifs
      · rfl
      · exact h.live ha
    · obtain ⟨b, hb, hbunder, hbas⟩ := h.byId ha
      refine ⟨b, hb, hunder.mpr ⟨hbunder, hne hb⟩, ?_⟩
      rw [has, if_neg (hne hb)]
      exact hbas
    · intro a b hundisturbed hb ha
      rw [Undisturbed, effect_removeSession] at hundisturbed
      obtain ⟨hb, hsb⟩ := hunder.mp hb
      rw [has, if_neg hsb] at ha
      exact h.complete hundisturbed.1 hb ha
  | some s =>
    obtain ⟨x, hx, -⟩ := h.found hs
    dsimp only
    rw [hx]
    have hother : ∀ {a : uint256} {t : SessionPtr}, self.sessions[a]? = some t → signHash ≠ a →
        s ≠ t := by
      rintro a t ha hne rfl
      exact hne (h.eq_of_ptr hs ha)
    refine ⟨fun {a t} ha => ?_, fun {a t} ha => ?_, fun {a} ha => ?_, fun {a t} ha => ?_, ?_⟩
    · exact h.fresh (getElem?_erase_eq_some.mp ha).1
    · obtain ⟨ha, hne⟩ := getElem?_erase_eq_some.mp ha
      obtain ⟨y, hy, hold⟩ := h.found ha
      refine ⟨y, ?_, htells hne hold⟩
      exact getElem?_erase_eq_some.mpr ⟨hy, hother ha hne⟩
    · rw [has]
      split_ifs with heq
      · rfl
      · have hnone : (self.sessions.erase signHash)[a]? = none := ha
        rw [getElem?_erase, if_neg heq] at hnone
        exact h.live hnone
    · obtain ⟨ha, hrecv⟩ := getElem?_erase_eq_some.mp ha
      obtain ⟨b, hb, hbunder, hbas⟩ := h.byId ha
      have hne := h.recvSessionId_of_byId hs hx hbas hrecv
      refine ⟨b, getElem?_erase_eq_some.mpr ⟨hb, hne⟩, hunder.mpr ⟨hbunder, hne⟩, ?_⟩
      rw [has, if_neg hne]
      exact hbas
    · intro a b hundisturbed hb ha
      rw [Undisturbed, effect_removeSession] at hundisturbed
      obtain ⟨hundisturbed, hholds⟩ := hundisturbed
      obtain ⟨hb, hsb⟩ := hunder.mp hb
      rw [has, if_neg hsb] at ha
      have hrecv := h.recvSessionId_ne hs hx hholds hb ha hsb
      change (self.sessionByRecvId.erase x.recvSessionId)[a]? =
        (self.sessions.erase signHash)[b]?
      rw [getElem?_erase, getElem?_erase, if_neg hrecv, if_neg hsb]
      exact h.complete hundisturbed hb ha

/-- One call. -/
theorem step (call : Call Q) : Inv env (call :: past) (step env self call) := by
  cases call with
  | announce ann quorum =>
    change Inv env _ ((processMessageSigSesAnn env self ann quorum).getD self)
    unfold processMessageSigSesAnn
    cases haccepted : ann.accepted env quorum with
    | none =>
      apply inv_unchanged _ h
      rw [effect_announce, haccepted]
    | some q =>
      have heffect : (Call.announce ann quorum).effect env =
          .announced ann.sessionId (env.buildSignHash ann.toCSigBase) q := by
        rw [effect_announce, haccepted]
      obtain ⟨size, hsize⟩ := quorumSize_of_accepted haccepted
      obtain ⟨⟨s, self'⟩, hget⟩ := h.exists_getOrCreateSession hsize
      obtain ⟨hinv, hs⟩ := h.getOrCreateSession hget
      obtain ⟨x, hx, -⟩ := hinv.found hs
      dsimp only
      rw [hget]
      dsimp only
      rw [hx, Option.map_some, Option.getD_some]
      exact hinv.announce heffect hs hx
  | removeSession signHash => exact h.removeSession signHash
  | createSession base =>
    apply inv_unchanged rfl
    change Inv env past (((self.getOrCreateSession env base).map Prod.snd).getD self)
    cases hget : self.getOrCreateSession env base with
    | none => exact h
    | some found => exact (h.getOrCreateSession hget).1

end Inv

theorem inv_run (past : List (Call Q)) : Inv env past (run env past : CSigSharesNodeState Q S) := by
  induction past with
  | nil =>
    refine ⟨fun {a s} hs => ?_, fun {a s} hs => ?_, fun {a} _ => rfl, fun {a s} hs => ?_, ?_⟩
    · simp [run] at hs
    · simp [run] at hs
    · simp [run] at hs
    · intro a b _ hb _
      cases hb
  | cons call past ih => exact ih.step call

/-! ### What an id resolves to -/

/-- What an id should resolve to by the announcements: the session that was last announced under
it, is still live, and was not announced under another id since. -/
def current (env : Env) (past : List (Call Q)) (id : UInt32) : Option uint256 :=
  (announcedUnder env past id).filter fun signHash =>
    (announcedAs env past signHash).map Prod.fst = some id

theorem current_eq_some {id : UInt32} {signHash : uint256} :
    current env past id = some signHash ↔ announcedUnder env past id = some signHash ∧
      (announcedAs env past signHash).map Prod.fst = some id := by
  rw [current, Option.filter_eq_some_iff, decide_eq_true_iff]

/-- The data of a session: what it signs, and the quorum of its last announcement. -/
structure SessionInfo.Describes (env : Env) (past : List (Call Q)) (signHash : uint256)
    (info : SessionInfo Q) : Prop where
  named : info.signHash = signHash
  hash : env.buildSignHash info.toCSigBase = signHash
  quorum : info.quorum = (announcedAs env past signHash).map Prod.snd

variable (env) in
/-- Whatever was announced, removed and created, an id resolves to nothing or to the live session
that is current under it, and to that one as long as nothing disturbs it. -/
theorem getSessionInfoByRecvId_resolves (past : List (Call Q)) (id : UInt32) :
    ∃ info, (run env past : CSigSharesNodeState Q S).getSessionInfoByRecvId id = some info ∧
      (∀ found ∈ info, ∃ signHash, current env past id = some signHash ∧
        (run env past : CSigSharesNodeState Q S).sessions[signHash]?.isSome = true ∧
          found.Describes env past signHash) ∧
      (Undisturbed env past id → info.isSome = (current env past id).isSome) := by
  have hinv : Inv env past (run env past : CSigSharesNodeState Q S) := inv_run past
  unfold CSigSharesNodeState.getSessionInfoByRecvId CSigSharesNodeState.getSessionByRecvId
  cases hid : (run env past : CSigSharesNodeState Q S).sessionByRecvId[id]? with
  | none =>
    refine ⟨none, rfl, nofun, fun hundisturbed => ?_⟩
    cases hcurrent : current env past id with
    | none => rfl
    | some signHash =>
      obtain ⟨hunder, has⟩ := current_eq_some.mp hcurrent
      have hnone := (hinv.complete hundisturbed hunder has).symm.trans hid
      rw [hinv.live hnone] at has
      contradiction
  | some s =>
    obtain ⟨signHash, hs, hunder, has⟩ := hinv.byId hid
    obtain ⟨x, hx, htells⟩ := hinv.found hs
    have hcurrent := current_eq_some.mpr ⟨hunder, has⟩
    dsimp only
    rw [hx, Option.map_some]
    refine ⟨_, rfl, fun found hfound => ⟨signHash, hcurrent, ?_, ?_⟩, fun _ => ?_⟩
    · rw [hs, Option.isSome_some]
    · rw [← Option.some.inj hfound]
      exact ⟨htells.named, htells.hash, htells.quorum⟩
    · rw [hcurrent, Option.isSome_some, Option.isSome_some]

/-! ### Ids that change hands -/

def testEnv : Env where
  quorumSize llmqType := if llmqType = 1 then some 3 else none
  buildSignHash base := base.id*256+base.msgHash

def announce (id : uint256) (sessionId : UInt32) : Call Unit :=
  .announce {llmqType := 1, quorumHash := 9, id, msgHash := 7, sessionId} (some ())

/-- A session that is announced under a new id is not found under its old one any more. And once
another session was announced under its id, to announce the first one anew, or to remove it, takes
the id away from the other one. -/
theorem id_lost :
    let moved := [announce 1 6, announce 1 5]
    let anew := [announce 1 6, announce 2 5, announce 1 5]
    let removed := [.removeSession 263, announce 2 5, announce 1 5]
    (announcedUnder testEnv moved 5 = some 263 ∧
        (run testEnv moved : CSigSharesNodeState Unit Unit).sessions[(263 : uint256)]?.isSome ∧
        (run testEnv moved : CSigSharesNodeState Unit Unit).getSessionInfoByRecvId 5 =
          some none) ∧
      ∀ past ∈ [anew, removed], announcedUnder testEnv past 5 = some 519 ∧
        (run testEnv past : CSigSharesNodeState Unit Unit).sessions[(519 : uint256)]?.isSome ∧
        (run testEnv past : CSigSharesNodeState Unit Unit).getSessionInfoByRecvId 5 =
          some none := by
  decide +kernel

end BabaChain.LLMQ.SigShares
