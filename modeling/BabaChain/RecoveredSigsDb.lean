import BabaChain.Quorums
import BabaChain.Lib.LruRecency
import BabaChain.Lib.StoreWrites

/-! `CRecoveredSigsDb`: recovered signatures under all of their keys, the votes of a masternode, and
the cleanups by the time of writing. -/
namespace BabaChain.LLMQ.Signing
open Std LruCache OrdMap

/-! ### Keys -/

/-- What signatures and votes are for. -/
structure IdKey where
  llmqType : LLMQType
  id : uint256
deriving DecidableEq, Repr

instance : Ord IdKey := ⟨compareLex (compareOn IdKey.llmqType) (compareOn IdKey.id)⟩

instance : TransOrd IdKey :=
  inferInstanceAs (TransCmp (compareLex (compareOn IdKey.llmqType) (compareOn IdKey.id)))

instance : LawfulEqOrd IdKey where
  eq_of_compare {a b} h := by
    obtain ⟨atype, aid⟩ := a
    obtain ⟨btype, bid⟩ := b
    obtain ⟨htype, hid⟩ := compareLex_eq_eq.mp h
    rw [IdKey.mk.injEq]
    exact ⟨LawfulEqOrd.eq_of_compare htype, LawfulEqOrd.eq_of_compare hid⟩

structure MsgKey where
  key : IdKey
  msgHash : uint256
deriving DecidableEq, Repr

instance : Ord MsgKey := ⟨compareLex (compareOn MsgKey.key) (compareOn MsgKey.msgHash)⟩

instance : TransOrd MsgKey :=
  inferInstanceAs (TransCmp (compareLex (compareOn MsgKey.key) (compareOn MsgKey.msgHash)))

instance : LawfulEqOrd MsgKey where
  eq_of_compare {a b} h := by
    obtain ⟨akey, ahash⟩ := a
    obtain ⟨bkey, bhash⟩ := b
    obtain ⟨hkey, hhash⟩ := compareLex_eq_eq.mp h
    rw [MsgKey.mk.injEq]
    exact ⟨LawfulEqOrd.eq_of_compare hkey, LawfulEqOrd.eq_of_compare hhash⟩

/-- The time comes first, most significant byte first, so that older keys come first. -/
structure TimeKey where
  time : BitVec 32
  key : IdKey
deriving DecidableEq, Repr

instance : Ord TimeKey := ⟨compareLex (compareOn TimeKey.time) (compareOn TimeKey.key)⟩

instance : TransOrd TimeKey :=
  inferInstanceAs (TransCmp (compareLex (compareOn TimeKey.time) (compareOn TimeKey.key)))

instance : LawfulEqOrd TimeKey where
  eq_of_compare {a b} h := by
    obtain ⟨atime, akey⟩ := a
    obtain ⟨btime, bkey⟩ := b
    obtain ⟨htime, hkey⟩ := compareLex_eq_eq.mp h
    rw [TimeKey.mk.injEq]
    exact ⟨LawfulEqOrd.eq_of_compare htime, LawfulEqOrd.eq_of_compare hkey⟩

/-! ### Signatures -/

structure CRecoveredSig (Sig : Type) where
  llmqType : LLMQType
  quorumHash : uint256
  id : uint256
  msgHash : uint256
  sig : Sig
deriving DecidableEq

/-- The hash of a serialized signature, and that of what is signed. -/
structure Hashing (Sig : Type) where
  serializeHash : CRecoveredSig Sig → uint256
  signHash : LLMQType → uint256 → uint256 → uint256 → uint256

variable {Sig : Type} (c : Hashing Sig)

namespace CRecoveredSig

def key (recSig : CRecoveredSig Sig) : IdKey := ⟨recSig.llmqType, recSig.id⟩

def msgKey (recSig : CRecoveredSig Sig) : MsgKey := ⟨recSig.key, recSig.msgHash⟩

end CRecoveredSig

def Hashing.buildSignHash (recSig : CRecoveredSig Sig) : uint256 :=
  c.signHash recSig.llmqType recSig.quorumHash recSig.id recSig.msgHash

/-- Hashes that can be read, for runs on small inputs. -/
def testHashing : Hashing Unit where
  serializeHash recSig := recSig.msgHash
  signHash _ _ _ msgHash := msgHash

/-! ### State -/

/-- The database, one map for each family of keys. The comments give what their keys start with. -/
structure Database (Sig : Type) where
  -- rs_r
  recSigs : ExtTreeMap IdKey (CRecoveredSig Sig) := ∅
  -- rs_r, with the message hash
  writeTimes : ExtTreeMap MsgKey (BitVec 32) := ∅
  -- rs_h
  hashes : ExtTreeMap uint256 IdKey := ∅
  -- rs_s
  sessions : ExtTreeSet uint256 := ∅
  -- rs_t
  times : ExtTreeSet TimeKey := ∅
  -- rs_v
  votes : ExtTreeMap IdKey uint256 := ∅
  -- rs_vt
  voteTimes : ExtTreeSet TimeKey := ∅

structure CRecoveredSigsDb (Sig : Type) where
  db : Database Sig := {}
  hasSigForIdCache : Cache IdKey Bool := create 30000
  hasSigForSessionCache : Cache uint256 Bool := create 30000
  hasSigForHashCache : Cache uint256 Bool := create 30000

/-- A database with the changes of a batch that is not written yet. -/
structure Batched (Sig : Type) where
  self : CRecoveredSigsDb Sig
  batch : Database Sig
  sizeEstimate : ℕ := 0

namespace CRecoveredSigsDb

variable (d : CRecoveredSigsDb Sig)

/-! ### Lookups -/

def hasRecoveredSig (key : IdKey) (msgHash : uint256) : Bool :=
  d.db.writeTimes.contains ⟨key, msgHash⟩

def hasRecoveredSigForId (key : IdKey) : Bool × CRecoveredSigsDb Sig :=
  let (ret, cache) := ask d.hasSigForIdCache d.db.recSigs.contains key
  (ret, {d with hasSigForIdCache := cache})

def hasRecoveredSigForSession (signHash : uint256) : Bool × CRecoveredSigsDb Sig :=
  let (ret, cache) := ask d.hasSigForSessionCache d.db.sessions.contains signHash
  (ret, {d with hasSigForSessionCache := cache})

def hasRecoveredSigForHash (hash : uint256) : Bool × CRecoveredSigsDb Sig :=
  let (ret, cache) := ask d.hasSigForHashCache d.db.hashes.contains hash
  (ret, {d with hasSigForHashCache := cache})

def readRecoveredSig (key : IdKey) : Option (CRecoveredSig Sig) := d.db.recSigs[key]?

def getRecoveredSigByHash (hash : uint256) : Option (CRecoveredSig Sig) :=
  match d.db.hashes[hash]? with
  | none => none
  | some key => d.readRecoveredSig key

def getRecoveredSigById (key : IdKey) : Option (CRecoveredSig Sig) := d.readRecoveredSig key

/-! ### Changes -/

def writeRecoveredSig (now : ℤ) (recSig : CRecoveredSig Sig) : CRecoveredSigsDb Sig :=
  let curTime := BitVec.ofInt 32 now
  { db :=
      {d.db with
        recSigs := d.db.recSigs.insert recSig.key recSig
        writeTimes := d.db.writeTimes.insert recSig.msgKey curTime
        hashes := d.db.hashes.insert (c.serializeHash recSig) recSig.key
        sessions := d.db.sessions.insert (c.buildSignHash recSig)
        times := d.db.times.insert ⟨curTime, recSig.key⟩}
    hasSigForIdCache := insert d.hasSigForIdCache recSig.key true
    hasSigForSessionCache := insert d.hasSigForSessionCache (c.buildSignHash recSig) true
    hasSigForHashCache := insert d.hasSigForHashCache (c.serializeHash recSig) true }

end CRecoveredSigsDb

/-- The time key that is erased with a signature, if it is asked for. -/
def timeKey (db : Database Sig) (recSig : CRecoveredSig Sig) (deleteTimeKey : Bool) :
    Option TimeKey :=
  if deleteTimeKey then (db.writeTimes[recSig.msgKey]?).map fun t => ⟨t, recSig.key⟩ else none

def removeRecoveredSig (s : Batched Sig) (key : IdKey) (deleteHashKey deleteTimeKey : Bool) :
    Batched Sig :=
  match s.self.readRecoveredSig key with
  | none => s
  | some recSig =>
    let hash := c.serializeHash recSig
    let signHash := c.buildSignHash recSig
    let k5 := timeKey s.self.db recSig deleteTimeKey
    { batch :=
        {s.batch with
          recSigs := s.batch.recSigs.erase recSig.key
          writeTimes := s.batch.writeTimes.erase recSig.msgKey
          hashes := if deleteHashKey then s.batch.hashes.erase hash else s.batch.hashes
          sessions := s.batch.sessions.erase signHash
          times := k5.elim s.batch.times s.batch.times.erase}
      sizeEstimate := s.sizeEstimate+40+72+(if deleteHashKey then 39 else 0)+39+
        (if k5.isSome then 44 else 0)
      self :=
        {s.self with
          hasSigForIdCache := erase s.self.hasSigForIdCache recSig.key
          hasSigForSessionCache := erase s.self.hasSigForSessionCache signHash
          hasSigForHashCache :=
            if deleteHashKey then erase s.self.hasSigForHashCache hash
            else s.self.hasSigForHashCache} }

/-- A batch that has grown large is written at once. -/
def removeOld (s : Batched Sig) (k : TimeKey) : Batched Sig :=
  let s := removeRecoveredSig c s k.key true false
  if 2^24 ≤ s.sizeEstimate then
    {s with self := {s.self with db := s.batch}, sizeEstimate := 0}
  else
    s

/-- The keys before a time. -/
def keysBefore (keys : ExtTreeSet TimeKey) (endTime : BitVec 32) : List TimeKey :=
  keys.toList.takeWhile fun k => k.time < endTime

namespace CRecoveredSigsDb

variable (d : CRecoveredSigsDb Sig)

/-- With neither the hash key nor the time key this is `TruncateRecoveredSig`. -/
def remove (key : IdKey) (deleteHashKey deleteTimeKey : Bool) : CRecoveredSigsDb Sig :=
  let s := removeRecoveredSig c {self := d, batch := d.db} key deleteHashKey deleteTimeKey
  {s.self with db := s.batch}

def truncateRecoveredSig (key : IdKey) : CRecoveredSigsDb Sig := d.remove c key false false

def cleanupOldRecoveredSigs (now maxAge : ℤ) : CRecoveredSigsDb Sig :=
  let endTime := BitVec.ofInt 32 (now-maxAge)
  let toDelete := keysBefore d.db.times endTime
  let s := toDelete.foldl (removeOld c) {self := d, batch := d.db}
  {s.self with
    db := {s.batch with times := toDelete.foldl (fun keys k => keys.erase k) s.batch.times}}

/-! ### Votes -/

def hasVotedOnId (key : IdKey) : Bool := d.db.votes.contains key

def getVoteForId (key : IdKey) : Option uint256 := d.db.votes[key]?

def writeVoteForId (now : ℤ) (key : IdKey) (msgHash : uint256) : CRecoveredSigsDb Sig :=
  {d with db :=
    {d.db with
      votes := d.db.votes.insert key msgHash
      voteTimes := d.db.voteTimes.insert ⟨BitVec.ofInt 32 now, key⟩}}

def cleanupOldVotes (now maxAge : ℤ) : CRecoveredSigsDb Sig :=
  let endTime := BitVec.ofInt 32 (now-maxAge)
  let toDelete := keysBefore d.db.voteTimes endTime
  {d with db :=
    {d.db with
      votes := toDelete.foldl (fun votes k => votes.erase k.key) d.db.votes
      voteTimes := toDelete.foldl (fun keys k => keys.erase k) d.db.voteTimes}}

end CRecoveredSigsDb

/-! ### What is before a time -/

/-- Times that fit into 32 bits are compared as they are. -/
theorem ofInt_lt_ofInt {t t' : ℤ} (ht : 0 ≤ t ∧ t < 2^32) (ht' : 0 ≤ t' ∧ t' < 2^32) :
    BitVec.ofInt 32 t < BitVec.ofInt 32 t' ↔ t < t' := by
  have hcut : ∀ t : ℤ, 0 ≤ t ∧ t < 2^32 → ((BitVec.ofInt 32 t).toNat : ℤ) = t := by
    intro t ht
    rw [BitVec.toNat_ofInt, Int.toNat_of_nonneg (Int.emod_nonneg _ (by norm_num))]
    exact Int.emod_eq_of_lt ht.1 (by exact_mod_cast ht.2)
  have heq := hcut t ht
  have heq' := hcut t' ht'
  rw [BitVec.lt_def]
  omega

theorem time_le_of_compare {a b : TimeKey} (h : compare a b = .lt) : a.time ≤ b.time := by
  have hlex : (compareOn TimeKey.time a b).then (compareOn TimeKey.key a b) = .lt := h
  rw [Ordering.then_eq_lt] at hlex
  rcases hlex with hlt | ⟨heq, -⟩
  · exact BitVec.le_of_lt ((compare_bitVec_eq_lt _ _).mp hlt)
  · have hsame : a.time = b.time := LawfulEqOrd.eq_of_compare heq
    rw [hsame]
    exact BitVec.le_refl _

theorem mem_keysBefore {keys : ExtTreeSet TimeKey} {endTime : BitVec 32} {k : TimeKey} :
    k ∈ keysBefore keys endTime ↔ k ∈ keys ∧ k.time < endTime := by
  have htake := takeWhile_eq_filter (ExtTreeSet.ordered_toList (t := keys))
    (p := fun k => decide (k.time < endTime)) fun a _ b _ hab hb => by
      have hle := time_le_of_compare hab
      rw [BitVec.le_def] at hle
      rw [decide_eq_true_iff, BitVec.lt_def] at hb ⊢
      exact hle.trans_lt hb
  rw [keysBefore, htake, List.mem_filter, ExtTreeSet.mem_toList, decide_eq_true_iff]

end BabaChain.LLMQ.Signing
