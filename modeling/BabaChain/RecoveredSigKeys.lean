import BabaChain.RecoveredSigsDb
import BabaChain.Lib.Runs
import BabaChain.Lib.Tables

/-! The keys of recovered signatures over whole runs: what the lookups answer, and what a cleanup
leaves. -/
namespace BabaChain.LLMQ.Signing
open Std LruCache OrdMap Tables

variable {Sig : Type} (c : Hashing Sig)

/-! ### Calls -/

/-- A signature that was written and not removed since, with the time of writing. -/
structure Stored (Sig : Type) where
  recSig : CRecoveredSig Sig
  time : ℤ
  truncated : Bool := false
deriving DecidableEq

inductive RecSigKey
  | byId (key : IdKey)
  | byMsgHash (key : MsgKey)
  | byHash (hash : uint256)
  | bySession (signHash : uint256)
  | byTime (key : TimeKey)
deriving DecidableEq

namespace Stored

def timeKey (w : Stored Sig) : TimeKey := ⟨BitVec.ofInt 32 w.time, w.recSig.key⟩

/-- A truncated signature is only kept by its hash and its time. -/
def keys (w : Stored Sig) : List RecSigKey :=
  (if w.truncated = true then []
    else [.byId w.recSig.key, .byMsgHash w.recSig.msgKey, .bySession (c.buildSignHash w.recSig)]) ++
    [.byHash (c.serializeHash w.recSig), .byTime w.timeKey]

end Stored

def Database.Has (db : Database Sig) : RecSigKey → Prop
  | .byId key => key ∈ db.recSigs
  | .byMsgHash key => key ∈ db.writeTimes
  | .byHash hash => hash ∈ db.hashes
  | .bySession signHash => signHash ∈ db.sessions
  | .byTime key => key ∈ db.times

/-- The database with its caches, and the signatures that should be in it, newest first. -/
structure Store (Sig : Type) where
  self : CRecoveredSigsDb Sig := {}
  stored : List (Stored Sig) := []

/-- A signature is removed in full, or truncated. -/
inductive StoreCall (Sig : Type)
  | writeRecoveredSig (now : ℤ) (recSig : CRecoveredSig Sig)
  | removeRecoveredSig (key : IdKey) (full : Bool)
  | cleanupOldRecoveredSigs (now maxAge : ℤ)
  | hasRecoveredSigForId (key : IdKey)
  | hasRecoveredSigForSession (signHash : uint256)
  | hasRecoveredSigForHash (hash : uint256)

def storeStep (s : Store Sig) (call : StoreCall Sig) : Unit × Store Sig :=
  ((), match call with
  | .writeRecoveredSig now recSig =>
    {self := s.self.writeRecoveredSig c now recSig, stored := ⟨recSig, now, false⟩ :: s.stored}
  | .removeRecoveredSig key full =>
    { self := s.self.remove c key full full
      stored :=
        if full = true then
          s.stored.filter fun w => w.truncated || decide (w.recSig.key ≠ key)
        else
          s.stored.map fun w => {w with truncated := w.truncated || decide (w.recSig.key = key)} }
  | .cleanupOldRecoveredSigs now maxAge =>
    { self := s.self.cleanupOldRecoveredSigs c now maxAge
      stored := s.stored.filter fun w => now-maxAge ≤ w.time }
  | .hasRecoveredSigForId key => {s with self := (s.self.hasRecoveredSigForId key).2}
  | .hasRecoveredSigForSession signHash =>
    {s with self := (s.self.hasRecoveredSigForSession signHash).2}
  | .hasRecoveredSigForHash hash => {s with self := (s.self.hasRecoveredSigForHash hash).2})

/-- What the lookups answer is in the database, and is what was asked for. -/
structure Answers (d : CRecoveredSigsDb Sig) : Prop where
  byHash : ∀ (hash : uint256) recSig, d.getRecoveredSigByHash hash = some recSig →
    c.serializeHash recSig = hash
  forMsgHash : ∀ (key : IdKey) msgHash,
    d.hasRecoveredSig key msgHash = true ↔ d.db.Has (.byMsgHash ⟨key, msgHash⟩)
  forId : ∀ key : IdKey, (d.hasRecoveredSigForId key).1 = true ↔ d.db.Has (.byId key)
  forSession : ∀ signHash : uint256,
    (d.hasRecoveredSigForSession signHash).1 = true ↔ d.db.Has (.bySession signHash)
  forHash : ∀ hash : uint256, (d.hasRecoveredSigForHash hash).1 = true ↔ d.db.Has (.byHash hash)

/-- What a cleanup leaves: only keys of signatures that are not older than its age, and all of
these. -/
def CleansUp (s : Store Sig) : StoreCall Sig → Prop
  | .cleanupOldRecoveredSigs now maxAge =>
    (∀ k, (s.self.cleanupOldRecoveredSigs c now maxAge).db.Has k →
      ∃ w ∈ s.stored, now-maxAge ≤ w.time ∧ k ∈ w.keys c) ∧
    ∀ w ∈ s.stored, now-maxAge ≤ w.time → ∀ k ∈ w.keys c,
      (s.self.cleanupOldRecoveredSigs c now maxAge).db.Has k
  | _ => True

/-- Nothing is left of another signature of the id, not even of a truncated one, and none has the
same hash or session. Times fit into 32 bits. A cleanup does not reach a truncated signature. -/
def Careful (s : Store Sig) : StoreCall Sig → Prop
  | .writeRecoveredSig now recSig => 0 ≤ now ∧ now < 2^32 ∧ ∀ w ∈ s.stored,
      w.recSig.key ≠ recSig.key ∧ c.serializeHash w.recSig ≠ c.serializeHash recSig ∧
        (w.truncated = false → c.buildSignHash w.recSig ≠ c.buildSignHash recSig)
  | .cleanupOldRecoveredSigs now maxAge => 0 ≤ now-maxAge ∧ now-maxAge < 2^32 ∧
      ∀ w ∈ s.stored, w.time < now-maxAge → w.truncated = false
  | _ => True

instance (s : Store Sig) (call : StoreCall Sig) : Decidable (Careful c s call) :=
  match call with
  | .writeRecoveredSig .. => inferInstanceAs (Decidable (_ ∧ _ ∧ ∀ w ∈ s.stored, _))
  | .cleanupOldRecoveredSigs .. => inferInstanceAs (Decidable (_ ∧ _ ∧ ∀ w ∈ s.stored, _))
  | .removeRecoveredSig .. => .isTrue trivial
  | .hasRecoveredSigForId _ => .isTrue trivial
  | .hasRecoveredSigForSession _ => .isTrue trivial
  | .hasRecoveredSigForHash _ => .isTrue trivial

variable {c} {db : Database Sig} {s : Batched Sig} {d : CRecoveredSigsDb Sig} {key : IdKey}
  {deleteHashKey deleteTimeKey : Bool} {removed removed' : CRecoveredSig Sig → Prop}
  {recSig : CRecoveredSig Sig} {now maxAge : ℤ}

/-! ### Removals -/

/-- The keys of some signatures are gone from a batch and from the caches, those by hash only if
they are to go. Besides, everything is as in the database. -/
structure Removed (c : Hashing Sig) (db : Database Sig) (deleteHashKey : Bool)
    (removed : CRecoveredSig Sig → Prop) (s : Batched Sig) : Prop where
  recSigs : ∀ (key : IdKey) x, s.batch.recSigs[key]? = some x ↔
    db.recSigs[key]? = some x ∧ ∀ y, removed y → y.key ≠ key
  writeTimes : ∀ (key : MsgKey) t, s.batch.writeTimes[key]? = some t ↔
    db.writeTimes[key]? = some t ∧ ∀ y, removed y → y.msgKey ≠ key
  hashes : ∀ (hash : uint256) key, s.batch.hashes[hash]? = some key ↔
    db.hashes[hash]? = some key ∧
      ∀ y, removed y → deleteHashKey = true → c.serializeHash y ≠ hash
  sessions : ∀ signHash, signHash ∈ s.batch.sessions ↔
    signHash ∈ db.sessions ∧ ∀ y, removed y → c.buildSignHash y ≠ signHash
  forId : Holds (fun key ret => ret = db.recSigs.contains key ∧ ∀ y, removed y → y.key ≠ key)
    s.self.hasSigForIdCache
  forSession : Holds (fun signHash ret => ret = db.sessions.contains signHash ∧
    ∀ y, removed y → c.buildSignHash y ≠ signHash) s.self.hasSigForSessionCache
  forHash : Holds (fun hash ret => ret = db.hashes.contains hash ∧
    ∀ y, removed y → deleteHashKey = true → c.serializeHash y ≠ hash) s.self.hasSigForHashCache

theorem forall_or_eq {α : Type*} {R R' P : α → Prop} {x : α} (hR : ∀ y, R' y ↔ R y ∨ y = x) :
    (∀ y, R' y → P y) ↔ (∀ y, R y → P y) ∧ P x := by
  constructor
  · intro h
    exact ⟨fun y hy => h y ((hR y).mpr (Or.inl hy)), h x ((hR x).mpr (Or.inr rfl))⟩
  · rintro ⟨h, hx⟩ y hy
    rcases (hR y).mp hy with hy | rfl
    · exact h y hy
    · exact hx

/-- One more signature is removed. -/
theorem Removed.turn (h : Removed c db deleteHashKey removed s)
    (hread : s.self.readRecoveredSig key = some recSig)
    (hremoved : ∀ y, removed' y ↔ removed y ∨ y = recSig) :
    Removed c db deleteHashKey removed'
      (removeRecoveredSig c s key deleteHashKey deleteTimeKey) := by
  unfold removeRecoveredSig
  rw [hread]
  dsimp only
  refine ⟨fun k x => ?_, fun k t => ?_, fun hash k => ?_, fun signHash => ?_, ?_, ?_, ?_⟩
  · dsimp only
    rw [getElem?_erase_eq_some, h.recSigs, forall_or_eq hremoved, and_assoc]
  · dsimp only
    rw [getElem?_erase_eq_some, h.writeTimes, forall_or_eq hremoved, and_assoc]
  · dsimp only
    rw [forall_or_eq hremoved, ← and_assoc, ← h.hashes]
    cases deleteHashKey with
    | true =>
      rw [if_pos rfl, getElem?_erase_eq_some]
      exact and_congr_right fun _ => ⟨fun hne _ => hne, fun hne => hne rfl⟩
    | false =>
      rw [if_neg Bool.false_ne_true]
      exact (and_iff_left fun hdelete => absurd hdelete Bool.false_ne_true).symm
  · dsimp only
    rw [mem_set_erase, h.sessions, forall_or_eq hremoved, and_comm, and_assoc]
  · refine (h.forId.erase recSig.key).mono fun k ret hret => ⟨hret.1.1, ?_⟩
    exact (forall_or_eq hremoved).mpr ⟨hret.1.2, hret.2.symm⟩
  · refine (h.forSession.erase (c.buildSignHash recSig)).mono fun k ret hret => ⟨hret.1.1, ?_⟩
    exact (forall_or_eq hremoved).mpr ⟨hret.1.2, hret.2.symm⟩
  · dsimp only
    cases deleteHashKey with
    | true =>
      rw [if_pos rfl]
      refine (h.forHash.erase (c.serializeHash recSig)).mono fun k ret hret => ⟨hret.1.1, ?_⟩
      exact (forall_or_eq hremoved).mpr ⟨hret.1.2, fun _ => hret.2.symm⟩
    | false =>
      rw [if_neg Bool.false_ne_true]
      refine h.forHash.mono fun k ret hret => ⟨hret.1, ?_⟩
      exact (forall_or_eq hremoved).mpr
        ⟨hret.2, fun hdelete => absurd hdelete Bool.false_ne_true⟩

theorem Removed.congr (h : Removed c db deleteHashKey removed s)
    (hremoved : ∀ y, removed' y ↔ removed y) : Removed c db deleteHashKey removed' s := by
  have hsame : removed' = removed := funext fun y => propext (hremoved y)
  rw [hsame]
  exact h

/-- The caches hold what the database says. -/
structure CachesTell (d : CRecoveredSigsDb Sig) : Prop where
  forId : Holds (fun key ret => ret = d.db.recSigs.contains key) d.hasSigForIdCache
  forSession : Holds (fun signHash ret => ret = d.db.sessions.contains signHash)
    d.hasSigForSessionCache
  forHash : Holds (fun hash ret => ret = d.db.hashes.contains hash) d.hasSigForHashCache

theorem CachesTell.unchanged (h : CachesTell d) (hnone : ∀ y, ¬removed y) :
    Removed c d.db deleteHashKey removed {self := d, batch := d.db} where
  recSigs _ _ := (and_iff_left fun y hy => absurd hy (hnone y)).symm
  writeTimes _ _ := (and_iff_left fun y hy => absurd hy (hnone y)).symm
  hashes _ _ := (and_iff_left fun y hy => absurd hy (hnone y)).symm
  sessions _ := (and_iff_left fun y hy => absurd hy (hnone y)).symm
  forId := h.forId.mono fun _ _ hret => ⟨hret, fun y hy => absurd hy (hnone y)⟩
  forSession := h.forSession.mono fun _ _ hret => ⟨hret, fun y hy => absurd hy (hnone y)⟩
  forHash := h.forHash.mono fun _ _ hret => ⟨hret, fun y hy => absurd hy (hnone y)⟩

theorem contains_congr {κ ν : Type*} [Ord κ] [TransOrd κ] {m m' : ExtTreeMap κ ν} {k : κ}
    (h : ∀ v, m'[k]? = some v ↔ m[k]? = some v) : m'.contains k = m.contains k := by
  rw [Bool.eq_iff_iff, ← ExtTreeMap.mem_iff_contains, ← ExtTreeMap.mem_iff_contains, mem_iff_exists,
    mem_iff_exists]
  exact exists_congr h

/-- Once the batch is written the caches hold what the database says then. -/
theorem Removed.cachesTell (h : Removed c db deleteHashKey removed s) (times : ExtTreeSet TimeKey) :
    CachesTell {s.self with db := {s.batch with times := times}} where
  forId := h.forId.mono fun key ret hret => hret.1.trans
    (contains_congr fun x => (h.recSigs key x).trans (and_iff_left hret.2)).symm
  forSession := h.forSession.mono fun signHash ret hret => hret.1.trans (by
    rw [Bool.eq_iff_iff, ← ExtTreeSet.mem_iff_contains, ← ExtTreeSet.mem_iff_contains]
    exact ((h.sessions signHash).trans (and_iff_left hret.2)).symm)
  forHash := h.forHash.mono fun hash ret hret => hret.1.trans
    (contains_congr fun key => (h.hashes hash key).trans (and_iff_left hret.2)).symm

/-- A signature is removed from the database. -/
theorem CachesTell.remove (h : CachesTell d) (key : IdKey) (deleteHashKey deleteTimeKey : Bool) :
    Removed c d.db deleteHashKey (fun y => d.db.recSigs[key]? = some y)
      (removeRecoveredSig c {self := d, batch := d.db} key deleteHashKey deleteTimeKey) := by
  cases hread : d.db.recSigs[key]? with
  | none =>
    have hskip : removeRecoveredSig c {self := d, batch := d.db} key deleteHashKey deleteTimeKey =
        {self := d, batch := d.db} := by
      unfold removeRecoveredSig CRecoveredSigsDb.readRecoveredSig
      rw [hread]
    rw [hskip]
    exact h.unchanged fun y hy => absurd hy nofun
  | some recSig =>
    have hsame : Removed c d.db deleteHashKey (fun _ => False) {self := d, batch := d.db} :=
      h.unchanged fun _ hy => hy
    refine hsame.turn hread fun y => ?_
    rw [false_or, Option.some.injEq, eq_comm]

/-! ### The loop of a cleanup -/

/-- The signatures of some ids. -/
def SigsOf (db : Database Sig) (done : List IdKey) (y : CRecoveredSig Sig) : Prop :=
  ∃ key ∈ done, db.recSigs[key]? = some y

/-- What holds when some ids are done. The batch may have been written on the way. -/
structure Cleaned (c : Hashing Sig) (db : Database Sig) (done : List IdKey) (s : Batched Sig) :
    Prop where
  removed : Removed c db true (SigsOf db done) s
  times : s.batch.times = db.times
  left : ∀ key, key ∉ done → s.self.db.recSigs[key]? = db.recSigs[key]?
  read : ∀ (key : IdKey) x, s.self.db.recSigs[key]? = some x → db.recSigs[key]? = some x

theorem sigsOf_append (done : List IdKey) (key : IdKey) (y : CRecoveredSig Sig) :
    SigsOf db (done ++ [key]) y ↔ SigsOf db done y ∨ db.recSigs[key]? = some y := by
  unfold SigsOf
  simp only [List.mem_append, List.mem_singleton, or_and_right, exists_or, exists_eq_left]

theorem times_removeRecoveredSig (s : Batched Sig) (key : IdKey) (deleteHashKey : Bool) :
    (removeRecoveredSig c s key deleteHashKey false).batch.times = s.batch.times := by
  unfold removeRecoveredSig
  split
  · rfl
  · rfl

theorem db_removeRecoveredSig (s : Batched Sig) (key : IdKey)
    (deleteHashKey deleteTimeKey : Bool) :
    (removeRecoveredSig c s key deleteHashKey deleteTimeKey).self.db = s.self.db := by
  unfold removeRecoveredSig
  split
  · rfl
  · rfl

theorem Cleaned.turn {done : List IdKey} (h : Cleaned c db done s)
    (hkeyed : ∀ (key : IdKey) x, db.recSigs[key]? = some x → x.key = key) (k : TimeKey) :
    Cleaned c db (done ++ [k.key]) (removeOld c s k) := by
  have hremove : Cleaned c db (done ++ [k.key]) (removeRecoveredSig c s k.key true false) := by
    refine ⟨?_, (times_removeRecoveredSig s k.key true).trans h.times, fun key hkey => ?_, ?_⟩
    · cases hread : s.self.readRecoveredSig k.key with
      | none =>
        have hskip : removeRecoveredSig c s k.key true false = s := by
          unfold removeRecoveredSig
          rw [hread]
        rw [hskip]
        refine h.removed.congr fun y => (sigsOf_append done k.key y).trans (or_iff_left_of_imp ?_)
        -- the signature has been removed before
        intro hy
        by_cases hdone : k.key ∈ done
        · exact ⟨k.key, hdone, hy⟩
        · have hsame := h.left k.key hdone
          rw [hy] at hsame
          have hnone : s.self.db.recSigs[k.key]? = none := hread
          rw [hnone] at hsame
          contradiction
      | some recSig =>
        refine h.removed.turn hread fun y => (sigsOf_append done k.key y).trans ?_
        rw [h.read k.key recSig hread, Option.some.injEq, eq_comm (a := recSig)]
    · rw [List.mem_append, not_or] at hkey
      rw [db_removeRecoveredSig]
      exact h.left key hkey.1
    · rw [db_removeRecoveredSig]
      exact h.read
  unfold removeOld
  dsimp only
  split_ifs
  · have hremoved := hremove.removed
    refine ⟨⟨hremoved.recSigs, hremoved.writeTimes, hremoved.hashes, hremoved.sessions,
      hremoved.forId, hremoved.forSession, hremoved.forHash⟩, hremove.times, fun key hkey => ?_,
      fun key x hread => ((hremoved.recSigs key x).mp hread).1⟩
    refine Option.ext fun x => (hremoved.recSigs key x).trans (and_iff_left ?_)
    rintro y ⟨key', hdone, hy⟩ rfl
    rw [hkeyed key' y hy] at hkey
    exact hkey hdone
  · exact hremove

theorem Cleaned.loop {done : List IdKey} (h : Cleaned c db done s)
    (hkeyed : ∀ (key : IdKey) x, db.recSigs[key]? = some x → x.key = key) (l : List TimeKey) :
    Cleaned c db (done ++ l.map TimeKey.key) (l.foldl (removeOld c) s) := by
  induction l generalizing done s with
  | nil =>
    rw [List.map_nil, List.append_nil]
    exact h
  | cons k l ih =>
    rw [List.map_cons, List.append_cons]
    exact ih (h.turn hkeyed k)

theorem CachesTell.cleaned (h : CachesTell d) :
    Cleaned c d.db [] {self := d, batch := d.db} where
  removed := h.unchanged fun _ ⟨_, hkey, _⟩ => absurd hkey List.not_mem_nil
  times := rfl
  left _ _ := rfl
  read _ _ hread := hread

/-! ### The database against what should be in it -/

/-- The signatures that are not truncated. -/
def live (stored : List (Stored Sig)) : List (Stored Sig) := stored.filter fun w => !w.truncated

/-- Two signatures share no key. -/
def Apart (c : Hashing Sig) (w w' : Stored Sig) : Prop :=
  w.recSig.key ≠ w'.recSig.key ∧ c.serializeHash w.recSig ≠ c.serializeHash w'.recSig ∧
    (w.truncated = false → w'.truncated = false →
      c.buildSignHash w.recSig ≠ c.buildSignHash w'.recSig)

/-- The keys are those of the signatures that should be there, and the caches say the same. -/
structure Refines (c : Hashing Sig) (s : Store Sig) : Prop where
  recSigs : Tabulates s.self.db.recSigs (live s.stored) (fun w => w.recSig.key) fun w => w.recSig
  writeTimes : Tabulates s.self.db.writeTimes (live s.stored) (fun w => w.recSig.msgKey)
    fun w => BitVec.ofInt 32 w.time
  hashes : Tabulates s.self.db.hashes s.stored (fun w => c.serializeHash w.recSig)
    fun w => w.recSig.key
  sessions : Lists s.self.db.sessions (live s.stored) fun w => c.buildSignHash w.recSig
  times : Lists s.self.db.times s.stored Stored.timeKey
  caches : CachesTell s.self
  fits : ∀ w ∈ s.stored, 0 ≤ w.time ∧ w.time < 2^32
  apart : s.stored.Pairwise (Apart c)

variable {store : Store Sig} {w : Stored Sig}

theorem mem_live {stored : List (Stored Sig)} :
    w ∈ live stored ↔ w ∈ stored ∧ w.truncated = false := by
  rw [live, List.mem_filter, Bool.not_eq_true']

theorem live_filter (stored : List (Stored Sig)) (keep : Stored Sig → Bool) :
    live (stored.filter keep) = (live stored).filter keep := by
  rw [live, live, List.filter_filter, List.filter_filter]
  simp only [Bool.and_comm]

theorem Apart.symm {w' : Stored Sig} (h : Apart c w w') : Apart c w' w :=
  ⟨h.1.symm, h.2.1.symm, fun hw' hw => (h.2.2 hw hw').symm⟩

theorem Refines.eq_of_not_apart (h : Refines c store) {w w' : Stored Sig} (hw : w ∈ store.stored)
    (hw' : w' ∈ store.stored) (hnot : ¬Apart c w w') : w = w' := by
  have : Std.Symm (Apart c) := ⟨fun _ _ => Apart.symm⟩
  by_contra hne
  exact hnot (h.apart.forall hw hw' hne)

theorem Refines.eq_of_key (h : Refines c store) {w w' : Stored Sig} (hw : w ∈ store.stored)
    (hw' : w' ∈ store.stored) (hkey : w.recSig.key = w'.recSig.key) : w = w' :=
  h.eq_of_not_apart hw hw' fun hapart => hapart.1 hkey

/-- The keys of the database. -/
theorem Refines.has (h : Refines c store) (k : RecSigKey) :
    store.self.db.Has k ↔ ∃ w ∈ store.stored, k ∈ w.keys c := by
  have hlive : ∀ (key : Stored Sig → RecSigKey),
      (∀ w, w.truncated = false → (key w ∈ w.keys c)) →
      (∀ w, k ∈ w.keys c → w.truncated = false ∧ key w = k) →
      ((∃ w ∈ live store.stored, key w = k) ↔ ∃ w ∈ store.stored, k ∈ w.keys c) := by
    intro key hin hout
    constructor
    · rintro ⟨w, hw, rfl⟩
      exact ⟨w, (mem_live.mp hw).1, hin w (mem_live.mp hw).2⟩
    · rintro ⟨w, hw, hk⟩
      obtain ⟨htruncated, hkey⟩ := hout w hk
      exact ⟨w, mem_live.mpr ⟨hw, htruncated⟩, hkey⟩
  cases k with
  | byId key =>
    rw [← hlive (fun w => .byId w.recSig.key) (fun w hw => by simp [Stored.keys, hw])
      (fun w hk => by
        cases htruncated : w.truncated with
        | true => simp [Stored.keys, htruncated] at hk
        | false => simpa [Stored.keys, htruncated, eq_comm] using hk)]
    simp only [RecSigKey.byId.injEq]
    exact h.recSigs.mem_iff key
  | byMsgHash key =>
    rw [← hlive (fun w => .byMsgHash w.recSig.msgKey) (fun w hw => by simp [Stored.keys, hw])
      (fun w hk => by
        cases htruncated : w.truncated with
        | true => simp [Stored.keys, htruncated] at hk
        | false => simpa [Stored.keys, htruncated, eq_comm] using hk)]
    simp only [RecSigKey.byMsgHash.injEq]
    exact h.writeTimes.mem_iff key
  | bySession signHash =>
    rw [← hlive (fun w => .bySession (c.buildSignHash w.recSig))
      (fun w hw => by simp [Stored.keys, hw])
      (fun w hk => by
        cases htruncated : w.truncated with
        | true => simp [Stored.keys, htruncated] at hk
        | false => simpa [Stored.keys, htruncated, eq_comm] using hk)]
    simp only [RecSigKey.bySession.injEq]
    exact h.sessions signHash
  | byHash hash =>
    refine (h.hashes.mem_iff hash).trans (exists_congr fun w => and_congr_right fun _ => ?_)
    cases htruncated : w.truncated <;> simp [Stored.keys, htruncated, eq_comm]
  | byTime key =>
    refine (h.times key).trans (exists_congr fun w => and_congr_right fun _ => ?_)
    cases htruncated : w.truncated <;> simp [Stored.keys, htruncated, eq_comm]

theorem refines_start : Refines c ({} : Store Sig) where
  recSigs := tabulates_empty _ _
  writeTimes := tabulates_empty _ _
  hashes := tabulates_empty _ _
  sessions := lists_empty _
  times := lists_empty _
  caches := ⟨holds_create _ _, holds_create _ _, holds_create _ _⟩
  fits _ hw := absurd hw List.not_mem_nil
  apart := List.Pairwise.nil

/-! ### Calls one by one -/

theorem Refines.write (h : Refines c store)
    (hcareful : Careful c store (.writeRecoveredSig now recSig)) :
    Refines c (storeStep c store (.writeRecoveredSig now recSig)).2 := by
  obtain ⟨hzero, hsmall, hfresh⟩ := hcareful
  have hlive : ∀ w ∈ live store.stored, w.recSig.key ≠ recSig.key :=
    fun w hw => (hfresh w (mem_live.mp hw).1).1
  have hnew : live (⟨recSig, now, false⟩ :: store.stored) =
      ⟨recSig, now, false⟩ :: live store.stored := rfl
  refine ⟨?_, ?_, ?_, ?_, ?_, ?_, ?_, ?_⟩
  · change Tabulates (store.self.db.recSigs.insert recSig.key recSig)
      (live (⟨recSig, now, false⟩ :: store.stored)) _ _
    rw [hnew]
    exact h.recSigs.insert (a := ⟨recSig, now, false⟩) hlive
  · change Tabulates (store.self.db.writeTimes.insert recSig.msgKey (BitVec.ofInt 32 now))
      (live (⟨recSig, now, false⟩ :: store.stored)) _ _
    rw [hnew]
    exact h.writeTimes.insert (a := ⟨recSig, now, false⟩) fun w hw hsame =>
      hlive w hw (MsgKey.mk.inj hsame).1
  · exact h.hashes.insert (a := ⟨recSig, now, false⟩) fun w hw => (hfresh w hw).2.1
  · change Lists (store.self.db.sessions.insert (c.buildSignHash recSig))
      (live (⟨recSig, now, false⟩ :: store.stored)) _
    rw [hnew]
    exact h.sessions.insert ⟨recSig, now, false⟩
  · exact h.times.insert ⟨recSig, now, false⟩
  · have hmap : ∀ {κ ν : Type} [Ord κ] [TransOrd κ] [LawfulEqOrd κ] (m : ExtTreeMap κ ν)
        (k a : κ) (v : ν), a ≠ k → (m.insert k v).contains a = m.contains a := by
      intro κ ν _ _ _ m k a v hne
      classical
      refine contains_congr fun x => ?_
      rw [getElem?_insert, if_neg (Ne.symm hne)]
    refine ⟨?_, ?_, ?_⟩
    · refine h.caches.forId.insert_of (fun key ret hret hne => ?_) ?_
      · exact hret.trans (hmap _ _ _ _ hne).symm
      · exact ExtTreeMap.contains_insert_self.symm
    · refine h.caches.forSession.insert_of (fun signHash ret hret hne => ?_) ?_
      · rw [hret, Bool.eq_iff_iff, ← ExtTreeSet.mem_iff_contains, ← ExtTreeSet.mem_iff_contains]
        exact (mem_set_insert.trans (or_iff_right hne.symm)).symm
      · exact ExtTreeSet.contains_insert_self.symm
    · refine h.caches.forHash.insert_of (fun hash ret hret hne => ?_) ?_
      · exact hret.trans (hmap _ _ _ _ hne).symm
      · exact ExtTreeMap.contains_insert_self.symm
  · exact List.forall_mem_cons.mpr ⟨⟨hzero, hsmall⟩, h.fits⟩
  · refine List.pairwise_cons.mpr ⟨fun w hw => ?_, h.apart⟩
    obtain ⟨hkey, hhash, hsession⟩ := hfresh w hw
    exact ⟨hkey.symm, hhash.symm, fun _ hw => (hsession hw).symm⟩

/-- What is kept of the signatures that are not truncated, where some of them are removed. -/
structure Remains (c : Hashing Sig) (db : Database Sig) (kept : List (Stored Sig)) : Prop where
  recSigs : Tabulates db.recSigs kept (fun w => w.recSig.key) fun w => w.recSig
  writeTimes : Tabulates db.writeTimes kept (fun w => w.recSig.msgKey)
    fun w => BitVec.ofInt 32 w.time
  sessions : Lists db.sessions kept fun w => c.buildSignHash w.recSig

theorem Refines.remains (h : Refines c store) (keep : Stored Sig → Bool)
    (hremoved : ∀ y, removed y ↔ ∃ w ∈ live store.stored, keep w = false ∧ w.recSig = y)
    (hbatch : Removed c store.self.db deleteHashKey removed s) :
    Remains c s.batch ((live store.stored).filter keep) := by
  have hall : ∀ P : CRecoveredSig Sig → Prop, (∀ y, removed y → P y) ↔
      ∀ w ∈ live store.stored, keep w = false → P w.recSig := by
    intro P
    constructor
    · intro hP w hw hlost
      exact hP _ ((hremoved _).mpr ⟨w, hw, hlost, rfl⟩)
    · intro hP y hy
      obtain ⟨w, hw, hlost, rfl⟩ := (hremoved y).mp hy
      exact hP w hw hlost
  refine ⟨?_, ?_, ?_⟩
  · refine h.recSigs.remove (fun w hw w' hw' hkey => ?_) fun key x => ?_
    · exact h.eq_of_key (mem_live.mp hw).1 (mem_live.mp hw').1 hkey
    · rw [hbatch.recSigs, hall]
  · refine h.writeTimes.remove (fun w hw w' hw' hkey => ?_) fun key t => ?_
    · exact h.eq_of_key (mem_live.mp hw).1 (mem_live.mp hw').1 (MsgKey.mk.inj hkey).1
    · rw [hbatch.writeTimes, hall]
  · refine h.sessions.remove (fun w hw w' hw' hkey => ?_) fun signHash => ?_
    · exact h.eq_of_not_apart (mem_live.mp hw).1 (mem_live.mp hw').1 fun hapart =>
        hapart.2.2 (mem_live.mp hw).2 (mem_live.mp hw').2 hkey
    · rw [hbatch.sessions, hall]

/-- The hash keys, where they are removed as well. -/
theorem Refines.hashes_remove (h : Refines c store) {keep : Stored Sig → Bool}
    (hremoved : ∀ y, removed y ↔ ∃ w ∈ store.stored, keep w = false ∧ w.recSig = y)
    (hbatch : Removed c store.self.db true removed s) :
    Tabulates s.batch.hashes (store.stored.filter keep) (fun w => c.serializeHash w.recSig)
      fun w => w.recSig.key := by
  refine h.hashes.remove (fun w hw w' hw' hkey => ?_) fun hash key => ?_
  · exact h.eq_of_not_apart hw hw' fun hapart => hapart.2.1 hkey
  · rw [hbatch.hashes]
    refine and_congr_right fun _ => ⟨fun hP w hw hlost => ?_, fun hP y hy _ => ?_⟩
    · exact hP _ ((hremoved _).mpr ⟨w, hw, hlost, rfl⟩) rfl
    · obtain ⟨w, hw, hlost, rfl⟩ := (hremoved y).mp hy
      exact hP w hw hlost

theorem Refines.read_iff (h : Refines c store) {y : CRecoveredSig Sig} :
    store.self.db.recSigs[key]? = some y ↔
      ∃ w ∈ store.stored, w.truncated = false ∧ w.recSig.key = key ∧ w.recSig = y := by
  rw [h.recSigs key y]
  simp only [mem_live, and_assoc]

/-- A signature is kept when another is removed in full. -/
def keepsOthers (key : IdKey) (w : Stored Sig) : Bool := w.truncated || decide (w.recSig.key ≠ key)

theorem keepsOthers_eq_false : keepsOthers key w = false ↔
    w.truncated = false ∧ w.recSig.key = key := by
  rw [keepsOthers, Bool.or_eq_false_iff, decide_eq_false_iff_not, not_not]

theorem Refines.removed_iff (h : Refines c store) (y : CRecoveredSig Sig) :
    store.self.db.recSigs[key]? = some y ↔
      ∃ w ∈ store.stored, keepsOthers key w = false ∧ w.recSig = y := by
  simp only [h.read_iff, keepsOthers_eq_false, and_assoc]

theorem Refines.times_remove (h : Refines c store) (key : IdKey) :
    Lists (store.self.remove c key true true).db.times
      (store.stored.filter (keepsOthers key)) Stored.timeKey := by
  refine h.times.remove (fun w hw w' hw' hkey => ?_) fun k => ?_
  · exact h.eq_of_key hw hw' (TimeKey.mk.inj hkey).2
  · unfold CRecoveredSigsDb.remove removeRecoveredSig CRecoveredSigsDb.readRecoveredSig
    cases hread : store.self.db.recSigs[key]? with
    | none =>
      refine (and_iff_left fun w hw hlost => ?_).symm
      have hsome : store.self.db.recSigs[key]? = some w.recSig :=
        (h.removed_iff w.recSig).mpr ⟨w, hw, hlost, rfl⟩
      rw [hread] at hsome
      contradiction
    | some recSig =>
      obtain ⟨w, hw, hlost, rfl⟩ := (h.removed_iff recSig).mp hread
      have hwritten : store.self.db.writeTimes[w.recSig.msgKey]? =
          some (BitVec.ofInt 32 w.time) :=
        (h.writeTimes _ _).mpr ⟨w, mem_live.mpr ⟨hw, (keepsOthers_eq_false.mp hlost).1⟩, rfl, rfl⟩
      dsimp only
      rw [timeKey, if_pos rfl, hwritten]
      dsimp only [Option.map_some, Option.elim_some]
      rw [mem_set_erase, and_comm]
      refine and_congr_right fun _ => ⟨fun hne w' hw' hlost' => ?_, fun hne => hne w hw hlost⟩
      have hsame : w' = w := h.eq_of_key hw' hw
        ((keepsOthers_eq_false.mp hlost').2.trans (keepsOthers_eq_false.mp hlost).2.symm)
      rw [hsame]
      exact hne

/-- A signature is removed in full. -/
theorem Refines.removeFull (h : Refines c store) (key : IdKey) :
    Refines c (storeStep c store (.removeRecoveredSig key true)).2 := by
  have hbatch := h.caches.remove (c := c) key true true
  have hremains := h.remains (keepsOthers key) (fun y => ?_) hbatch
  · have hhashes := h.hashes_remove h.removed_iff hbatch
    rw [← live_filter] at hremains
    exact ⟨hremains.recSigs, hremains.writeTimes, hhashes, hremains.sessions, h.times_remove key,
      hbatch.cachesTell _, fun w hw => h.fits w (List.mem_of_mem_filter hw),
      h.apart.sublist List.filter_sublist⟩
  · rw [h.removed_iff y]
    refine exists_congr fun w => ⟨fun ⟨hw, hlost, hy⟩ => ⟨?_, hlost, hy⟩,
      fun ⟨hw, hlost, hy⟩ => ⟨(mem_live.mp hw).1, hlost, hy⟩⟩
    exact mem_live.mpr ⟨hw, (keepsOthers_eq_false.mp hlost).1⟩

/-- A signature is truncated. -/
theorem Refines.truncate (h : Refines c store) (key : IdKey) :
    Refines c (storeStep c store (.removeRecoveredSig key false)).2 := by
  let cut : Stored Sig → Stored Sig := fun w =>
    {w with truncated := w.truncated || decide (w.recSig.key = key)}
  have hbatch := h.caches.remove (c := c) key false false
  have hremains := h.remains (fun w => !decide (w.recSig.key = key)) (fun y => ?_) hbatch
  · have hlive : live (store.stored.map cut) =
        (live store.stored).filter fun w => !decide (w.recSig.key = key) := by
      have hnot : ∀ w : Stored Sig, (!(cut w).truncated) =
          ((!w.truncated) && !decide (w.recSig.key = key)) := fun w => Bool.not_or _ _
      have hsame : ∀ w ∈ store.stored.filter ((fun w => !w.truncated) ∘ cut), cut w = w := by
        intro w hw
        have hkept := List.of_mem_filter hw
        rw [Function.comp_apply, Bool.not_eq_true', Bool.or_eq_false_iff] at hkept
        change ({w with truncated := w.truncated || decide (w.recSig.key = key)} : Stored Sig) = w
        rw [hkept.2, Bool.or_false]
      rw [live, List.filter_map, List.map_congr_left hsame, List.map_id', live, List.filter_filter]
      refine List.filter_congr fun w _ => ?_
      rw [Function.comp_apply, hnot, Bool.and_comm]
    rw [← hlive] at hremains
    have hhashes : Tabulates (removeRecoveredSig c {self := store.self, batch := store.self.db} key
        false false).batch.hashes store.stored (fun w => c.serializeHash w.recSig)
          fun w => w.recSig.key := by
      intro hash k
      rw [hbatch.hashes, and_iff_left fun y _ hdelete => absurd hdelete Bool.false_ne_true]
      exact h.hashes hash k
    have htimes : Lists (removeRecoveredSig c {self := store.self, batch := store.self.db} key
        false false).batch.times store.stored Stored.timeKey := by
      rw [times_removeRecoveredSig]
      exact h.times
    refine ⟨hremains.recSigs, hremains.writeTimes, hhashes.map (fun _ => rfl) fun _ => rfl,
      hremains.sessions, htimes.map fun _ => rfl, hbatch.cachesTell _, ?_, ?_⟩
    · rintro w hw
      obtain ⟨w', hw', rfl⟩ := List.mem_map.mp hw
      exact h.fits w' hw'
    · refine List.pairwise_map.mpr (h.apart.imp fun {w w'} hapart => ?_)
      exact ⟨hapart.1, hapart.2.1, fun hw hw' => hapart.2.2 (Bool.or_eq_false_iff.mp hw).1
        (Bool.or_eq_false_iff.mp hw').1⟩
  · rw [h.read_iff]
    simp only [mem_live, Bool.not_eq_false', decide_eq_true_iff, and_assoc]

/-! ### Cleanups -/

theorem Refines.cleaned_iff (h : Refines c store)
    (hcareful : Careful c store (.cleanupOldRecoveredSigs now maxAge)) (y : CRecoveredSig Sig) :
    SigsOf store.self.db ((keysBefore store.self.db.times (BitVec.ofInt 32 (now-maxAge))).map
        TimeKey.key) y ↔
      ∃ w ∈ store.stored, decide (now-maxAge ≤ w.time) = false ∧ w.recSig = y := by
  obtain ⟨hzero, hsmall, htruncated⟩ := hcareful
  have hlt : ∀ w ∈ store.stored,
      BitVec.ofInt 32 w.time < BitVec.ofInt 32 (now-maxAge) ↔ w.time < now-maxAge :=
    fun w hw => ofInt_lt_ofInt (h.fits w hw) ⟨hzero, hsmall⟩
  constructor
  · rintro ⟨key, hkey, hy⟩
    obtain ⟨k, hk, rfl⟩ := List.mem_map.mp hkey
    obtain ⟨hk, hbefore⟩ := mem_keysBefore.mp hk
    obtain ⟨w, hw, -, hkey, rfl⟩ := h.read_iff.mp hy
    obtain ⟨w', hw', rfl⟩ := (h.times k).mp hk
    have hsame : w = w' := h.eq_of_key hw hw' hkey
    subst hsame
    refine ⟨w, hw, decide_eq_false ?_, rfl⟩
    rw [Int.not_le]
    exact (hlt w hw).mp hbefore
  · rintro ⟨w, hw, hold, rfl⟩
    rw [decide_eq_false_iff_not, Int.not_le] at hold
    refine ⟨w.recSig.key, List.mem_map.mpr ⟨w.timeKey, mem_keysBefore.mpr ⟨?_, ?_⟩, rfl⟩, ?_⟩
    · exact (h.times _).mpr ⟨w, hw, rfl⟩
    · exact (hlt w hw).mpr hold
    · exact h.read_iff.mpr ⟨w, hw, htruncated w hw hold, rfl, rfl⟩

theorem Refines.cleanup (h : Refines c store)
    (hcareful : Careful c store (.cleanupOldRecoveredSigs now maxAge)) :
    Refines c (storeStep c store (.cleanupOldRecoveredSigs now maxAge)).2 := by
  have hkeyed : ∀ (key : IdKey) x, store.self.db.recSigs[key]? = some x → x.key = key := by
    intro key x hread
    obtain ⟨w, -, -, hkey, rfl⟩ := h.read_iff.mp hread
    exact hkey
  let toDelete := keysBefore store.self.db.times (BitVec.ofInt 32 (now-maxAge))
  have hclean := (h.caches.cleaned (c := c)).loop hkeyed toDelete
  rw [List.nil_append] at hclean
  have hcleaned := h.cleaned_iff hcareful
  have hremains := h.remains (fun w => decide (now-maxAge ≤ w.time)) (fun y => ?_)
    hclean.removed
  · have hhashes := h.hashes_remove hcleaned hclean.removed
    rw [← live_filter] at hremains
    refine ⟨hremains.recSigs, hremains.writeTimes, hhashes, hremains.sessions, ?_,
      hclean.removed.cachesTell _, fun w hw => h.fits w (List.mem_of_mem_filter hw),
      h.apart.sublist List.filter_sublist⟩
    refine h.times.remove (fun w hw w' hw' hkey => ?_) fun k => ?_
    · exact h.eq_of_key hw hw' (TimeKey.mk.inj hkey).2
    · refine (mem_set_foldl_erase _ _ k).trans ?_
      rw [hclean.times]
      refine and_congr_right fun hk => ⟨fun hout w hw hold heq => hout ?_, fun hne hin => ?_⟩
      · rw [decide_eq_false_iff_not, Int.not_le] at hold
        refine mem_keysBefore.mpr ⟨hk, ?_⟩
        rw [← heq]
        exact (ofInt_lt_ofInt (h.fits w hw) ⟨hcareful.1, hcareful.2.1⟩).mpr hold
      · obtain ⟨w, hw, rfl⟩ := (h.times k).mp hk
        refine hne w hw (decide_eq_false ?_) rfl
        rw [Int.not_le]
        exact (ofInt_lt_ofInt (h.fits w hw) ⟨hcareful.1, hcareful.2.1⟩).mp
          (mem_keysBefore.mp hin).2
  · rw [hcleaned y]
    refine exists_congr fun w => ⟨fun ⟨hw, hold, hy⟩ => ⟨?_, hold, hy⟩,
      fun ⟨hw, hold, hy⟩ => ⟨(mem_live.mp hw).1, hold, hy⟩⟩
    refine mem_live.mpr ⟨hw, hcareful.2.2 w hw ?_⟩
    rwa [decide_eq_false_iff_not, Int.not_le] at hold

/-! ### Lookups -/

theorem CachesTell.askId (h : CachesTell d) (key : IdKey) :
    (d.hasRecoveredSigForId key).1 = d.db.recSigs.contains key ∧
      CachesTell (d.hasRecoveredSigForId key).2 := by
  obtain ⟨hret, hcache⟩ := h.forId.ask key
  exact ⟨hret, hcache, h.forSession, h.forHash⟩

theorem CachesTell.askSession (h : CachesTell d) (signHash : uint256) :
    (d.hasRecoveredSigForSession signHash).1 = d.db.sessions.contains signHash ∧
      CachesTell (d.hasRecoveredSigForSession signHash).2 := by
  obtain ⟨hret, hcache⟩ := h.forSession.ask signHash
  exact ⟨hret, h.forId, hcache, h.forHash⟩

theorem CachesTell.askHash (h : CachesTell d) (hash : uint256) :
    (d.hasRecoveredSigForHash hash).1 = d.db.hashes.contains hash ∧
      CachesTell (d.hasRecoveredSigForHash hash).2 := by
  obtain ⟨hret, hcache⟩ := h.forHash.ask hash
  exact ⟨hret, h.forId, h.forSession, hcache⟩

/-- Only the caches have changed. -/
theorem Refines.lookup (h : Refines c store) (hdb : d.db = store.self.db) (hcaches : CachesTell d) :
    Refines c {store with self := d} where
  recSigs := by
    rw [hdb]
    exact h.recSigs
  writeTimes := by
    rw [hdb]
    exact h.writeTimes
  hashes := by
    rw [hdb]
    exact h.hashes
  sessions := by
    rw [hdb]
    exact h.sessions
  times := by
    rw [hdb]
    exact h.times
  caches := hcaches
  fits := h.fits
  apart := h.apart

theorem Refines.answers (h : Refines c store) : Answers c store.self where
  byHash hash recSig hread := by
    unfold CRecoveredSigsDb.getRecoveredSigByHash at hread
    cases hkey : store.self.db.hashes[hash]? with
    | none =>
      rw [hkey] at hread
      contradiction
    | some key =>
      rw [hkey] at hread
      obtain ⟨w, hw, hhash, rfl⟩ := (h.hashes hash key).mp hkey
      obtain ⟨w', hw', -, hsame, rfl⟩ := h.read_iff.mp hread
      rw [h.eq_of_key hw' hw hsame]
      exact hhash
  forMsgHash _ _ := ExtTreeMap.mem_iff_contains.symm
  forId key := by
    rw [(h.caches.askId key).1]
    exact ExtTreeMap.mem_iff_contains.symm
  forSession signHash := by
    rw [(h.caches.askSession signHash).1]
    exact ExtTreeSet.mem_iff_contains.symm
  forHash hash := by
    rw [(h.caches.askHash hash).1]
    exact ExtTreeMap.mem_iff_contains.symm

/-! ### Runs -/

theorem Refines.step (h : Refines c store) {call : StoreCall Sig}
    (hcareful : Careful c store call) : Refines c (storeStep c store call).2 := by
  cases call with
  | writeRecoveredSig now recSig => exact h.write hcareful
  | removeRecoveredSig key full =>
    cases full with
    | true => exact h.removeFull key
    | false => exact h.truncate key
  | cleanupOldRecoveredSigs now maxAge => exact h.cleanup hcareful
  | hasRecoveredSigForId key => exact h.lookup rfl (h.caches.askId key).2
  | hasRecoveredSigForSession signHash => exact h.lookup rfl (h.caches.askSession signHash).2
  | hasRecoveredSigForHash hash => exact h.lookup rfl (h.caches.askHash hash).2

theorem Refines.cleansUp (h : Refines c store) {call : StoreCall Sig}
    (hcareful : Careful c store call) : CleansUp c store call := by
  cases call with
  | cleanupOldRecoveredSigs now maxAge =>
    have hafter := (h.cleanup hcareful).has
    constructor
    · intro k hk
      obtain ⟨w, hw, hkey⟩ := (hafter k).mp hk
      obtain ⟨hw, hnew⟩ := List.mem_filter.mp hw
      exact ⟨w, hw, of_decide_eq_true hnew, hkey⟩
    · intro w hw hnew k hk
      exact (hafter k).mpr ⟨w, List.mem_filter.mpr ⟨hw, decide_eq_true hnew⟩, hk⟩
  | writeRecoveredSig => trivial
  | removeRecoveredSig => trivial
  | hasRecoveredSigForId => trivial
  | hasRecoveredSigForSession => trivial
  | hasRecoveredSigForHash => trivial

variable (c) in
/-- Signatures are found under their own keys, and cleaned up by their own age. -/
theorem recoveredSigs_sound (calls : List (StoreCall Sig))
    (hcareful : Runs.EveryStep (storeStep c) (Careful c) {} calls) :
    (∀ past, past <+: calls → Answers c (Runs.final (storeStep c) {} past).self) ∧
      Runs.EveryStep (storeStep c) (CleansUp c) {} calls := by
  have hstep : ∀ s call, Refines c s → Careful c s call → Refines c (storeStep c s call).2 :=
    fun s call hs hcall => hs.step hcall
  constructor
  · intro past hpast
    exact (Runs.prefix_invariant (Refines c) hstep refines_start hcareful hpast).answers
  · exact Runs.everyStep_of_invariant (Refines c)
      (fun s call hs hcall => ⟨hs.cleansUp hcall, hs.step hcall⟩) refines_start hcareful

/-! ### Two signatures of one id -/

def lockOf (id msgHash : uint256) : CRecoveredSig Unit := ⟨5, 1, id, msgHash, ()⟩

/-- Two inputs are locked. A week later the older signature is cleaned up. -/
theorem recoveredSigs_sound_two :
    let calls := [.writeRecoveredSig 1700000000 (lockOf 7 11), .hasRecoveredSigForId ⟨5, 7⟩,
      .writeRecoveredSig 1700700000 (lockOf 8 12), .removeRecoveredSig ⟨5, 8⟩ false,
      .cleanupOldRecoveredSigs 1700700001 604800, .hasRecoveredSigForHash 11]
    (∀ past, past <+: calls →
        Answers testHashing (Runs.final (storeStep testHashing) {} past).self) ∧
      Runs.EveryStep (storeStep testHashing) (CleansUp testHashing) {} calls :=
  recoveredSigs_sound testHashing _ (by decide +kernel)

/-- Once its signature is truncated an input is locked by another transaction. -/
def relockCalls : List (StoreCall Unit) :=
  [.writeRecoveredSig 1700000000 (lockOf 7 11), .removeRecoveredSig ⟨5, 7⟩ false,
    .writeRecoveredSig 1700000100 (lockOf 7 12)]

/-- The hash of the first signature finds the second one. -/
theorem other_signature_found :
    let s := Runs.final (storeStep testHashing) {} relockCalls
    s.self.getRecoveredSigByHash 11 = some (lockOf 7 12) ∧ ¬Answers testHashing s.self := by
  have hfound : (Runs.final (storeStep testHashing) {} relockCalls).self.getRecoveredSigByHash 11 =
      some (lockOf 7 12) := by
    decide +kernel
  refine ⟨hfound, fun h => ?_⟩
  have hhash := h.byHash 11 _ hfound
  revert hhash
  decide +kernel

end BabaChain.LLMQ.Signing
