import BabaChain.InstantSendDb
import BabaChain.Lib.Runs
import BabaChain.Lib.Worklist

/-! What the indexes of the InstantSend database say of the locks in it, and what the
archive says of those that have left it. -/
namespace BabaChain.InstantSend
open Std OrdMap CInstantSendDb

variable {Sig : Type} {serializeHash : InstantSendLock Sig → uint256} {db b : Database Sig}
  {hash : uint256} {islock : InstantSendLock Sig}

/-! ### Keys in order -/

theorem compare_key_eq_lt (a b : InversedISLockKey) :
    compare a b = .lt ↔ a.inversedHeight < b.inversedHeight ∨
      a.inversedHeight = b.inversedHeight ∧ a.islockHash < b.islockHash := by
  change compareLex (compareOn InversedISLockKey.inversedHeight)
    (compareOn InversedISLockKey.islockHash) a b = .lt ↔ _
  rw [compareLex, Ordering.then_eq_lt, compareOn, compareOn, compare_bitVec_eq_lt,
    compare_bitVec_eq_lt, LawfulEqCmp.compare_eq_iff_eq]

theorem compare_outPoint_eq_lt (a b : COutPoint) :
    compare a b = .lt ↔ a.hash < b.hash ∨ a.hash = b.hash ∧ a.n < b.n := by
  change compareLex (compareOn COutPoint.hash) (compareOn COutPoint.n) a b = .lt ↔ _
  rw [compareLex, Ordering.then_eq_lt, compareOn, compareOn, compare_bitVec_eq_lt,
    compare_bitVec_eq_lt, LawfulEqCmp.compare_eq_iff_eq]

/-- A loop up to a height visits the keys of that height and below, as the heights read
as unsigned numbers. -/
theorem mem_keysUntil {keys : ExtTreeSet InversedISLockKey} {nUntilHeight : ℤ}
    {k : InversedISLockKey} :
    k ∈ Database.keysUntil keys nUntilHeight ↔
      k ∈ keys ∧ k.nHeight ≤ BitVec.ofInt 32 nUntilHeight := by
  have hlt : ∀ a : InversedISLockKey,
      (compare a (buildInversedISLockKey nUntilHeight 0)).isLT = true ↔
        ¬a.nHeight ≤ BitVec.ofInt 32 nUntilHeight := by
    intro a
    rw [Ordering.isLT_iff_eq_lt, compare_key_eq_lt, buildInversedISLockKey,
      InversedISLockKey.nHeight]
    have hzero : ¬a.islockHash < 0 := BitVec.not_lt_zero
    simp only [hzero, and_false, or_false]
    bv_omega
  have hdrop := dropWhile_eq_filter (ExtTreeSet.ordered_toList (t := keys))
    (p := fun a => (compare a (buildInversedISLockKey nUntilHeight 0)).isLT)
    fun a _ b _ hab hb => by
      rw [Ordering.isLT_iff_eq_lt] at hb ⊢
      exact TransCmp.lt_trans hab hb
  have hnot : ∀ a : InversedISLockKey,
      (!(compare a (buildInversedISLockKey nUntilHeight 0)).isLT) = true ↔
        a.nHeight ≤ BitVec.ofInt 32 nUntilHeight := by
    intro a
    rw [Bool.not_eq_true', ← Bool.not_eq_true, hlt, not_not]
  have htake := takeWhile_eq_filter ((ExtTreeSet.ordered_toList (t := keys)).filter fun a =>
      !(compare a (buildInversedISLockKey nUntilHeight 0)).isLT)
    (p := fun a => a.nHeight ≤ BitVec.ofInt 32 nUntilHeight)
    fun a ha b _ _ _ => by
      have hheight := (hnot a).mp (List.mem_filter.mp ha).2
      simpa only [decide_eq_true_iff] using hheight
  rw [Database.keysUntil, hdrop, htake, List.mem_filter, List.mem_filter, ExtTreeSet.mem_toList]
  constructor
  · rintro ⟨⟨hk, -⟩, hheight⟩
    exact ⟨hk, of_decide_eq_true hheight⟩
  · rintro ⟨hk, hheight⟩
    exact ⟨⟨hk, (hnot k).mpr hheight⟩, decide_eq_true hheight⟩

/-- The locks that the index has for the outputs of a transaction. -/
theorem mem_getInstantSendLocksByParent {parent h : uint256} :
    h ∈ db.getInstantSendLocksByParent parent ↔
      ∃ o : COutPoint, o.hash = parent ∧ db.hashByOutpoint[o]? = some h := by
  have hlt : ∀ p : COutPoint × uint256, (compare p.1 (⟨parent, 0⟩ : COutPoint)).isLT = true ↔
      p.1.hash < parent := by
    intro p
    rw [Ordering.isLT_iff_eq_lt, compare_outPoint_eq_lt]
    have hzero : ¬p.1.n < 0 := BitVec.not_lt_zero
    simp only [hzero, and_false, or_false]
  have hsorted : db.hashByOutpoint.toList.Pairwise fun p q => compare p.1 q.1 = .lt := by
    have hkeys := ExtTreeMap.ordered_keys (t := db.hashByOutpoint)
    rw [← ExtTreeMap.map_fst_toList_eq_keys, List.pairwise_map] at hkeys
    exact hkeys
  have hdrop := dropWhile_eq_filter hsorted
    (p := fun p => (compare p.1 (⟨parent, 0⟩ : COutPoint)).isLT) fun p _ q _ hpq hq => by
      rw [Ordering.isLT_iff_eq_lt] at hq ⊢
      exact TransCmp.lt_trans hpq hq
  have htake := takeWhile_eq_filter (hsorted.filter fun p =>
      !(compare p.1 (⟨parent, 0⟩ : COutPoint)).isLT) (p := fun p => p.1.hash = parent)
    fun p hp q _ hpq hq => by
      have hnot := (List.mem_filter.mp hp).2
      rw [Bool.not_eq_true', ← Bool.not_eq_true, hlt] at hnot
      rw [decide_eq_true_iff] at hq ⊢
      rcases (compare_outPoint_eq_lt _ _).mp hpq with hless | ⟨heq, -⟩
      · rw [hq] at hless
        exact absurd hless hnot
      · rw [heq, hq]
  rw [Database.getInstantSendLocksByParent, hdrop, htake, List.mem_map]
  constructor
  · rintro ⟨p, hp, rfl⟩
    obtain ⟨hp, hhash⟩ := List.mem_filter.mp hp
    exact ⟨p.1, of_decide_eq_true hhash, mem_toList (List.mem_filter.mp hp).1⟩
  · rintro ⟨o, rfl, hget⟩
    refine ⟨(o, h), List.mem_filter.mpr ⟨List.mem_filter.mpr ⟨?_, ?_⟩, decide_eq_true rfl⟩, rfl⟩
    · exact ExtTreeMap.mem_toList_iff_getElem?_eq_some.mpr hget
    · rw [Bool.not_eq_true', ← Bool.not_eq_true, hlt]
      exact BitVec.lt_irrefl _

/-! ### Indexes -/

/-- The indexes name exactly the locks in the database, and each lock is under its hash,
which is not the null hash: that one is never looked up. -/
structure Indexed (serializeHash : InstantSendLock Sig → uint256) (db : Database Sig) : Prop where
  txid : ∀ t h : uint256, db.hashByTxid[t]? = some h ↔
    ∃ islock : InstantSendLock Sig, db.islockByHash[h]? = some islock ∧ islock.txid = t
  outpoint : ∀ (o : COutPoint) (h : uint256), db.hashByOutpoint[o]? = some h ↔
    ∃ islock : InstantSendLock Sig, db.islockByHash[h]? = some islock ∧ o ∈ islock.inputs
  hash : ∀ (h : uint256) (islock : InstantSendLock Sig),
    db.islockByHash[h]? = some islock → serializeHash islock = h ∧ h ≠ 0

/-- A database that has lost some locks, and their entries in the indexes with them. -/
structure Shrunk (db b : Database Sig) (gone : uint256 → Prop) : Prop where
  islock : ∀ (h : uint256) (islock : InstantSendLock Sig),
    b.islockByHash[h]? = some islock ↔ db.islockByHash[h]? = some islock ∧ ¬gone h
  txid : ∀ t h : uint256, b.hashByTxid[t]? = some h ↔ db.hashByTxid[t]? = some h ∧ ¬gone h
  outpoint : ∀ (o : COutPoint) (h : uint256),
    b.hashByOutpoint[o]? = some h ↔ db.hashByOutpoint[o]? = some h ∧ ¬gone h

theorem shrunk_refl (db : Database Sig) : Shrunk db db fun _ => False :=
  ⟨fun _ _ => by simp, fun _ _ => by simp, fun _ _ => by simp⟩

theorem Shrunk.congr {gone gone' : uint256 → Prop} (h : Shrunk db b gone)
    (hgone : ∀ k, gone k ↔ gone' k) : Shrunk db b gone' := by
  have heq : gone = gone' := funext fun k => propext (hgone k)
  exact heq ▸ h

theorem Indexed.shrunk {gone : uint256 → Prop} (hdb : Indexed serializeHash db)
    (h : Shrunk db b gone) : Indexed serializeHash b := by
  refine ⟨fun t k => ?_, fun o k => ?_, fun k islock hlock => ?_⟩
  · rw [h.txid, hdb.txid]
    simp only [h.islock]
    grind
  · rw [h.outpoint, hdb.outpoint]
    simp only [h.islock]
    grind
  · exact hdb.hash k islock ((h.islock k _).mp hlock).1

/-- Removing a lock of the database takes it and its entries away. -/
theorem Shrunk.removeInstantSendLock {gone : uint256 → Prop} (h : Shrunk db b gone)
    (hdb : Indexed serializeHash db) (hlock : db.islockByHash[hash]? = some islock) :
    Shrunk db (b.removeInstantSendLock hash islock) fun k => gone k ∨ k = hash := by
  refine ⟨fun k l => ?_, fun t k => ?_, fun o k => ?_⟩
  · have hget := getElem?_erase b.islockByHash hash k
    rw [Database.removeInstantSendLock, hget]
    split_ifs with hk
    · simp [hk]
    · rw [h.islock, not_or]
      simp [Ne.symm hk]
  · have hget := getElem?_erase b.hashByTxid islock.txid t
    rw [Database.removeInstantSendLock, hget]
    split_ifs with ht
    · refine iff_of_false (by simp) ?_
      rintro ⟨hindex, hnot⟩
      have hown := (hdb.txid t hash).mpr ⟨islock, hlock, ht⟩
      rw [hindex, Option.some.injEq] at hown
      exact hnot (Or.inr hown)
    · rw [h.txid, not_or]
      refine and_congr_right fun hindex => (and_iff_left ?_).symm
      rintro rfl
      obtain ⟨islock', hlock', htxid⟩ := (hdb.txid t k).mp hindex
      rw [hlock, Option.some.injEq] at hlock'
      exact ht (hlock' ▸ htxid)
  · have hget := getElem?_foldl_erase islock.inputs b.hashByOutpoint o
    rw [Database.removeInstantSendLock, hget]
    split_ifs with ho
    · refine iff_of_false (by simp) ?_
      rintro ⟨hindex, hnot⟩
      have hown := (hdb.outpoint o hash).mpr ⟨islock, hlock, ho⟩
      rw [hindex, Option.some.injEq] at hown
      exact hnot (Or.inr hown)
    · rw [h.outpoint, not_or]
      refine and_congr_right fun hindex => (and_iff_left ?_).symm
      rintro rfl
      obtain ⟨islock', hlock', hin⟩ := (hdb.outpoint o k).mp hindex
      rw [hlock, Option.some.injEq] at hlock'
      exact ho (hlock' ▸ hin)

/-- Nothing is there to remove for a hash without a lock. -/
theorem Shrunk.of_absent {gone : uint256 → Prop} (h : Shrunk db b gone)
    (hdb : Indexed serializeHash db) (hnone : db.islockByHash[hash]? = none) :
    Shrunk db b fun k => gone k ∨ k = hash := by
  refine ⟨fun k l => ?_, fun t k => ?_, fun o k => ?_⟩
  · rw [h.islock, not_or]
    refine and_congr_right fun hlock => (and_iff_left ?_).symm
    rintro rfl
    rw [hnone] at hlock
    contradiction
  · rw [h.txid, not_or]
    refine and_congr_right fun hindex => (and_iff_left ?_).symm
    rintro rfl
    obtain ⟨l, hlock, -⟩ := (hdb.txid t k).mp hindex
    rw [hnone] at hlock
    contradiction
  · rw [h.outpoint, not_or]
    refine and_congr_right fun hindex => (and_iff_left ?_).symm
    rintro rfl
    obtain ⟨l, hlock, -⟩ := (hdb.outpoint o k).mp hindex
    rw [hnone] at hlock
    contradiction

/-- A lock that is read past the caches is the one in the database. -/
theorem Indexed.getByHash_uncached (hdb : Indexed serializeHash db) {d : CInstantSendDb Sig}
    (hd : d.db = db) (hash : uint256) :
    (d.getInstantSendLockByHashInternal serializeHash hash false).1 = db.islockByHash[hash]? ∧
      (d.getInstantSendLockByHashInternal serializeHash hash false).2.db = db := by
  rw [CInstantSendDb.getByHash_uncached]
  cases hlock : db.islockByHash[hash]? with
  | none =>
    split_ifs
    · exact ⟨rfl, hd⟩
    · refine ⟨?_, hd⟩
      rw [hd, Database.readInstantSendLock, hlock]
      rfl
  | some islock =>
    obtain ⟨hhash, hne⟩ := hdb.hash hash islock hlock
    rw [if_neg hne]
    refine ⟨?_, hd⟩
    rw [hd, Database.readInstantSendLock, hlock, Option.filter_some, if_pos (decide_eq_true hhash)]

/-! ### Locks removed because confirmed -/

theorem buildInversedISLockKey_nHeight (k : InversedISLockKey) :
    buildInversedISLockKey k.nHeight.toInt k.islockHash = k := by
  cases k with
  | mk inversedHeight islockHash =>
    rw [buildInversedISLockKey, BitVec.ofInt_toInt, InversedISLockKey.nHeight,
      InversedISLockKey.mk.injEq]
    exact ⟨by bv_omega, rfl⟩

theorem mem_archivedByHeight_write {k : InversedISLockKey} {nHeight : ℤ} :
    k ∈ (db.writeInstantSendLockArchived hash nHeight).archivedByHeightAndHash ↔
      buildInversedISLockKey nHeight hash = k ∨ k ∈ db.archivedByHeightAndHash :=
  mem_set_insert

theorem mem_archivedByHash_write {h : uint256} {nHeight : ℤ} :
    h ∈ (db.writeInstantSendLockArchived hash nHeight).archivedByHash ↔
      hash = h ∨ h ∈ db.archivedByHash :=
  mem_set_insert

/-- Once the loop has visited some keys: their locks are out of the batch and in the
answer, and the keys in the archive. -/
structure Confirmed (db : Database Sig) (keys : List InversedISLockKey)
    (s : Batched Sig × ExtTreeMap uint256 (InstantSendLock Sig)) : Prop where
  db_eq : s.1.self.db = db
  shrunk : Shrunk db s.1.batch fun h => ∃ k ∈ keys, k.islockHash = h
  archivedByHeight : ∀ k, k ∈ s.1.batch.archivedByHeightAndHash ↔
    k ∈ db.archivedByHeightAndHash ∨ k ∈ keys
  archivedByHash : ∀ h, h ∈ s.1.batch.archivedByHash ↔
    h ∈ db.archivedByHash ∨ ∃ k ∈ keys, k.islockHash = h

theorem Confirmed.confirmLock {keys : List InversedISLockKey}
    {s : Batched Sig × ExtTreeMap uint256 (InstantSendLock Sig)} (h : Confirmed db keys s)
    (hdb : Indexed serializeHash db) (curKey : InversedISLockKey) :
    Confirmed db (keys ++ [curKey]) (CInstantSendDb.confirmLock serializeHash s curKey) := by
  obtain ⟨hread, hself⟩ := hdb.getByHash_uncached h.db_eq curKey.islockHash
  have hgone : ∀ k : uint256, ((∃ key ∈ keys, key.islockHash = k) ∨ k = curKey.islockHash) ↔
      ∃ key ∈ keys ++ [curKey], key.islockHash = k := by
    intro k
    simp only [List.mem_append, List.mem_singleton]
    grind
  have harchive : ∀ (b : Database Sig),
      b.archivedByHeightAndHash = s.1.batch.archivedByHeightAndHash →
      b.archivedByHash = s.1.batch.archivedByHash →
      (∀ k, k ∈ (b.writeInstantSendLockArchived curKey.islockHash
          curKey.nHeight.toInt).archivedByHeightAndHash ↔
        k ∈ db.archivedByHeightAndHash ∨ k ∈ keys ++ [curKey]) ∧
      ∀ k, k ∈ (b.writeInstantSendLockArchived curKey.islockHash
          curKey.nHeight.toInt).archivedByHash ↔
        k ∈ db.archivedByHash ∨ ∃ key ∈ keys ++ [curKey], key.islockHash = k := by
    intro b hheight hhash
    constructor
    · intro k
      rw [mem_archivedByHeight_write, buildInversedISLockKey_nHeight, hheight, h.archivedByHeight,
        List.mem_append, List.mem_singleton]
      grind
    · intro k
      rw [mem_archivedByHash_write, hhash, h.archivedByHash, ← hgone]
      grind
  unfold CInstantSendDb.confirmLock
  dsimp only
  cases hlock : (s.1.self.getInstantSendLockByHashInternal serializeHash curKey.islockHash false).1
    with
  | none =>
    obtain ⟨hheight, hhash⟩ := harchive s.1.batch rfl rfl
    have hshrunk := (h.shrunk.of_absent hdb (hread ▸ hlock)).congr hgone
    exact ⟨hself, ⟨hshrunk.islock, hshrunk.txid, hshrunk.outpoint⟩, hheight, hhash⟩
  | some islock =>
    obtain ⟨hheight, hhash⟩ := harchive (s.1.batch.removeInstantSendLock curKey.islockHash islock)
      rfl rfl
    have hshrunk := (h.shrunk.removeInstantSendLock hdb (hread ▸ hlock)).congr hgone
    exact ⟨hself, ⟨hshrunk.islock, hshrunk.txid, hshrunk.outpoint⟩, hheight, hhash⟩

theorem Confirmed.confirmLocks {past : List InversedISLockKey}
    {s : Batched Sig × ExtTreeMap uint256 (InstantSendLock Sig)} (h : Confirmed db past s)
    (hdb : Indexed serializeHash db) (keys : List InversedISLockKey) :
    Confirmed db (past ++ keys) (keys.foldl (CInstantSendDb.confirmLock serializeHash) s) := by
  induction keys generalizing past s with
  | nil => rwa [List.append_nil]
  | cons key keys ih =>
    rw [List.append_cons]
    exact ih (h.confirmLock hdb key)

theorem confirmed_start (d : CInstantSendDb Sig) (nUntilHeight : ℤ) :
    Confirmed d.db [] (⟨{d with best_confirmed_height := nUntilHeight}, d.db⟩, ∅) where
  db_eq := rfl
  shrunk := (shrunk_refl d.db).congr fun _ => by simp
  archivedByHeight _ := by simp
  archivedByHash _ := by simp

/-! ### Locks chained to another one -/

/-- The locks of the database that spend an output of a transaction, or of the transaction
of such a lock, and so on. -/
inductive Descends (db : Database Sig) (txid : uint256) : uint256 → Prop
  | child {h : uint256} {islock : InstantSendLock Sig} {o : COutPoint}
      (hlock : db.islockByHash[h]? = some islock) (ho : o ∈ islock.inputs) (hhash : o.hash = txid) :
      Descends db txid h
  | grandchild {h parent : uint256} {islock islockParent : InstantSendLock Sig} {o : COutPoint}
      (hparent : Descends db txid parent)
      (hlockParent : db.islockByHash[parent]? = some islockParent)
      (hlock : db.islockByHash[h]? = some islock) (ho : o ∈ islock.inputs)
      (hhash : o.hash = islockParent.txid) : Descends db txid h

/-- The locks that spend an output of a transaction, with their hashes. -/
def childLocks (db : Database Sig) (parent : uint256) : List (uint256 × InstantSendLock Sig) :=
  (db.getInstantSendLocksByParent parent).filterMap fun h =>
    (db.islockByHash[h]?).map fun islock => (h, islock)

def childTxid (p : uint256 × InstantSendLock Sig) : uint256 := p.2.txid

theorem Indexed.mem_childLocks (hdb : Indexed serializeHash db) {parent h : uint256} :
    (h, islock) ∈ childLocks db parent ↔
      db.islockByHash[h]? = some islock ∧ ∃ o ∈ islock.inputs, o.hash = parent := by
  rw [childLocks, List.mem_filterMap]
  constructor
  · rintro ⟨k, hk, heq⟩
    obtain ⟨l, hlock, heq⟩ := Option.map_eq_some_iff.mp heq
    rw [Prod.mk.injEq] at heq
    obtain ⟨rfl, rfl⟩ := heq
    obtain ⟨o, ho, hindex⟩ := mem_getInstantSendLocksByParent.mp hk
    obtain ⟨l', hlock', hin⟩ := (hdb.outpoint o k).mp hindex
    rw [hlock, Option.some.injEq] at hlock'
    exact ⟨hlock, o, hlock' ▸ hin, ho⟩
  · rintro ⟨hlock, o, hin, ho⟩
    refine ⟨h, mem_getInstantSendLocksByParent.mpr ⟨o, ho, ?_⟩, by rw [hlock]; rfl⟩
    exact (hdb.outpoint o h).mpr ⟨islock, hlock, hin⟩

theorem Indexed.below_iff_descends (hdb : Indexed serializeHash db) {txid h : uint256} :
    (db.islockByHash[h]? = some islock ∧ Descends db txid h) ↔
      Worklist.Below (childLocks db) childTxid txid (h, islock) := by
  constructor
  · rintro ⟨hlock, hdesc⟩
    induction hdesc generalizing islock with
    | child hlock' ho hhash =>
      rw [hlock', Option.some.injEq] at hlock
      subst hlock
      exact Worklist.Below.direct (hdb.mem_childLocks.mpr ⟨hlock', _, ho, hhash⟩)
    | grandchild hparent hlockParent hlock' ho hhash ih =>
      rw [hlock', Option.some.injEq] at hlock
      subst hlock
      exact Worklist.Below.step (ih hlockParent) (hdb.mem_childLocks.mpr ⟨hlock', _, ho, hhash⟩)
  · intro hbelow
    generalize hp : (h, islock) = p at hbelow
    induction hbelow generalizing h islock with
    | direct hmem =>
      subst hp
      obtain ⟨hlock, o, ho, hhash⟩ := hdb.mem_childLocks.mp hmem
      exact ⟨hlock, Descends.child hlock ho hhash⟩
    | @step i j hj hmem ih =>
      subst hp
      obtain ⟨hlock, o, ho, hhash⟩ := hdb.mem_childLocks.mp hmem
      obtain ⟨hlockParent, hdesc⟩ := @ih j.2 j.1 rfl
      exact ⟨hlock, Descends.grandchild hdesc hlockParent hlock ho hhash⟩

/-- What the batch does with a lock that is found. -/
def removeFound (nHeight : ℤ) (b : Database Sig) (p : uint256 × InstantSendLock Sig) :
    Database Sig :=
  (b.removeInstantSendLock p.1 p.2).writeInstantSendLockArchived p.1 nHeight

/-- The loop that removes chained locks goes step by step with the search for them. -/
structure Follows (db : Database Sig) (nHeight : ℤ) (s : ChainedRemoval Sig)
    (w : Worklist.Search uint256 (uint256 × InstantSendLock Sig)) : Prop where
  db_eq : s.self.db = db
  stack : s.stack = w.stack
  added : ∀ t, t ∈ s.added ↔ t ∈ w.added
  result : s.result = w.found.map Prod.fst
  batch : s.batch = w.found.foldl (removeFound nHeight) db

theorem Follows.removeChild {nHeight : ℤ} {s : ChainedRemoval Sig}
    {w : Worklist.Search uint256 (uint256 × InstantSendLock Sig)} (h : Follows db nHeight s w)
    (hdb : Indexed serializeHash db) (childIslockHash : uint256) :
    Follows db nHeight (CInstantSendDb.removeChild serializeHash nHeight s childIslockHash)
      (match db.islockByHash[childIslockHash]? with
        | none => w
        | some islock => Worklist.visit childTxid w (childIslockHash, islock)) := by
  obtain ⟨hread, hself⟩ := hdb.getByHash_uncached h.db_eq childIslockHash
  unfold CInstantSendDb.removeChild
  dsimp only
  cases hlock : db.islockByHash[childIslockHash]? with
  | none =>
    rw [hread, hlock]
    exact ⟨hself, h.stack, h.added, h.result, h.batch⟩
  | some islock =>
    rw [hread, hlock]
    dsimp only
    refine ⟨hself, ?_, fun t => ?_, ?_, ?_⟩
    · rw [Worklist.visit, childTxid, h.stack]
      simp only [h.added]
    · rw [Worklist.visit, childTxid, mem_set_insert, Finset.mem_insert, h.added, eq_comm]
    · rw [Worklist.visit, List.map_append, h.result]
      rfl
    · rw [Worklist.visit, List.foldl_append, ← h.batch]
      rfl

theorem Follows.removeChildLocks {nHeight : ℤ} {s : ChainedRemoval Sig}
    {w : Worklist.Search uint256 (uint256 × InstantSendLock Sig)} (h : Follows db nHeight s w)
    (hdb : Indexed serializeHash db) (hashes : List uint256) :
    Follows db nHeight (hashes.foldl (CInstantSendDb.removeChild serializeHash nHeight) s)
      ((hashes.filterMap fun h => (db.islockByHash[h]?).map fun islock => (h, islock)).foldl
        (Worklist.visit childTxid) w) := by
  induction hashes generalizing s w with
  | nil => exact h
  | cons k hashes ih =>
    have hone := h.removeChild hdb k
    rw [List.foldl_cons]
    cases hlock : db.islockByHash[k]? with
    | none =>
      rw [hlock] at hone
      rw [List.filterMap_cons_none (by rw [hlock]; rfl)]
      exact ih hone
    | some islock =>
      rw [hlock] at hone
      rw [List.filterMap_cons_some (by rw [hlock]; rfl), List.foldl_cons]
      exact ih hone

theorem Follows.removeChildren {nHeight : ℤ} (fuel : ℕ) {s : ChainedRemoval Sig}
    {w : Worklist.Search uint256 (uint256 × InstantSendLock Sig)} (h : Follows db nHeight s w)
    (hdb : Indexed serializeHash db) :
    Follows db nHeight (CInstantSendDb.removeChildren serializeHash nHeight fuel s)
      (Worklist.search (childLocks db) childTxid fuel w) := by
  induction fuel generalizing s w with
  | zero => exact h
  | succ fuel ih =>
    rw [CInstantSendDb.removeChildren, Worklist.search]
    cases hstack : w.stack with
    | nil =>
      rw [h.stack, hstack]
      exact h
    | cons parent stack =>
      rw [h.stack, hstack]
      dsimp only
      apply ih
      rw [h.db_eq]
      have hpopped : Follows db nHeight {s with stack := stack} {w with stack := stack} :=
        ⟨h.db_eq, rfl, h.added, h.result, h.batch⟩
      exact hpopped.removeChildLocks hdb (db.getInstantSendLocksByParent parent)

theorem Shrunk.writeArchived {gone : uint256 → Prop} (h : Shrunk db b gone) (hash : uint256)
    (nHeight : ℤ) : Shrunk db (b.writeInstantSendLockArchived hash nHeight) gone :=
  ⟨h.islock, h.txid, h.outpoint⟩

/-- What has been archived stays so. -/
def KeepsArchive (db b : Database Sig) : Prop :=
  (∀ k, k ∈ db.archivedByHeightAndHash → k ∈ b.archivedByHeightAndHash) ∧
    ∀ h, h ∈ db.archivedByHash → h ∈ b.archivedByHash

theorem KeepsArchive.write (h : KeepsArchive db b) (hash : uint256) (nHeight : ℤ) :
    KeepsArchive db (b.writeInstantSendLockArchived hash nHeight) :=
  ⟨fun k hk => mem_archivedByHeight_write.mpr (Or.inr (h.1 k hk)),
    fun k hk => mem_archivedByHash_write.mpr (Or.inr (h.2 k hk))⟩

theorem KeepsArchive.remove (h : KeepsArchive db b) (hash : uint256)
    (islock : InstantSendLock Sig) : KeepsArchive db (b.removeInstantSendLock hash islock) := h

theorem Shrunk.removeFound {gone : uint256 → Prop} (h : Shrunk db b gone)
    (hdb : Indexed serializeHash db) (hkeeps : KeepsArchive db b) (nHeight : ℤ)
    (found : List (uint256 × InstantSendLock Sig))
    (hfound : ∀ p ∈ found, db.islockByHash[p.1]? = some p.2) :
    Shrunk db (found.foldl (InstantSend.removeFound nHeight) b)
        (fun k => gone k ∨ k ∈ found.map Prod.fst) ∧
      KeepsArchive db (found.foldl (InstantSend.removeFound nHeight) b) := by
  induction found generalizing b gone with
  | nil => exact ⟨h.congr fun k => by simp, hkeeps⟩
  | cons p found ih =>
    rw [List.forall_mem_cons] at hfound
    have hone : Shrunk db (InstantSend.removeFound nHeight b p) fun k => gone k ∨ k = p.1 :=
      (h.removeInstantSendLock hdb hfound.1).writeArchived p.1 nHeight
    obtain ⟨hrest, hkeeps'⟩ := ih hone ((hkeeps.remove p.1 p.2).write p.1 nHeight) hfound.2
    refine ⟨hrest.congr fun k => ?_, hkeeps'⟩
    rw [List.map_cons, List.mem_cons, or_assoc]

theorem Descends.lock {txid h : uint256} (hdesc : Descends db txid h) :
    ∃ islock : InstantSendLock Sig, db.islockByHash[h]? = some islock := by
  cases hdesc with
  | child hlock ho hhash => exact ⟨_, hlock⟩
  | grandchild hparent hlockParent hlock ho hhash => exact ⟨_, hlock⟩

/-- The removal of chained locks takes the lock and all that descend from its transaction,
and ends: there are turns enough for every lock. -/
theorem Indexed.removeChained {d : CInstantSendDb Sig} (hdb : Indexed serializeHash d.db)
    (islockHash txid : uint256) (nHeight : ℤ) :
    Shrunk d.db (d.removeChainedInstantSendLocks serializeHash islockHash txid nHeight).2.db
        (fun k => Descends d.db txid k ∨ k = islockHash) ∧
      (∀ k, k ∈ (d.removeChainedInstantSendLocks serializeHash islockHash txid nHeight).1 ↔
        Descends d.db txid k ∨ k = islockHash) ∧
      KeepsArchive d.db
        (d.removeChainedInstantSendLocks serializeHash islockHash txid nHeight).2.db := by
  have hstart : Follows d.db nHeight {self := d, batch := d.db, stack := [txid]}
      ⟨[txid], ∅, []⟩ := ⟨rfl, rfl, fun t => by simp, rfl, rfl⟩
  have hfollows := hstart.removeChildren (d.db.islockByHash.size+1) hdb
  have hnodes : ∀ v, ∀ i ∈ childLocks d.db v,
      childTxid i ∈ (d.db.islockByHash.toList.map fun p => p.2.txid).toFinset := by
    intro v i hi
    rw [List.mem_toFinset, List.mem_map]
    refine ⟨i, ?_, rfl⟩
    exact ExtTreeMap.mem_toList_iff_getElem?_eq_some.mpr (hdb.mem_childLocks.mp hi).1
  have hfuel : (1 : ℕ)+((d.db.islockByHash.toList.map fun p => p.2.txid).toFinset \ ∅).card ≤
      d.db.islockByHash.size+1 := by
    have hcard := List.toFinset_card_le (d.db.islockByHash.toList.map fun p => p.2.txid)
    rw [List.length_map, ExtTreeMap.length_toList] at hcard
    rw [Finset.sdiff_empty]
    omega
  obtain ⟨hempty, hsound⟩ := Worklist.search_spec (s := ⟨[txid], ∅, []⟩) hnodes hfuel
    (Worklist.sound_start (childLocks d.db) childTxid txid)
  generalize Worklist.search (childLocks d.db) childTxid (d.db.islockByHash.size+1)
    ⟨[txid], ∅, []⟩ = w at hfollows hempty hsound
  have hfound : ∀ p ∈ w.found, d.db.islockByHash[p.1]? = some p.2 ∧ Descends d.db txid p.1 :=
    fun p hp => hdb.below_iff_descends.mpr ((hsound.mem_found_iff hempty p).mp hp)
  have hmem : ∀ k, k ∈ w.found.map Prod.fst ↔ Descends d.db txid k := by
    intro k
    rw [List.mem_map]
    constructor
    · rintro ⟨p, hp, rfl⟩
      exact (hfound p hp).2
    · intro hdesc
      obtain ⟨islock, hlock⟩ := hdesc.lock
      exact ⟨(k, islock), (hsound.mem_found_iff hempty _).mpr
        (hdb.below_iff_descends.mp ⟨hlock, hdesc⟩), rfl⟩
  obtain ⟨hshrunk, hkeeps⟩ := (shrunk_refl d.db).removeFound hdb ⟨fun _ hk => hk, fun _ hk => hk⟩
    nHeight w.found fun p hp => (hfound p hp).1
  rw [← hfollows.batch] at hshrunk hkeeps
  have hshrunk := hshrunk.congr fun k => (false_or _).to_iff.trans (hmem k)
  obtain ⟨hread, -⟩ := hdb.getByHash_uncached hfollows.db_eq islockHash
  unfold CInstantSendDb.removeChainedInstantSendLocks
  dsimp only
  rw [hread]
  have hanswer : ∀ k, k ∈ (CInstantSendDb.removeChildren serializeHash nHeight
      (d.db.islockByHash.size+1) {self := d, batch := d.db, stack := [txid]}).result ++
        [islockHash] ↔ Descends d.db txid k ∨ k = islockHash := by
    intro k
    rw [hfollows.result, List.mem_append, hmem, List.mem_singleton]
  cases hlock : d.db.islockByHash[islockHash]? with
  | none =>
    exact ⟨(hshrunk.of_absent hdb hlock).writeArchived islockHash nHeight, hanswer,
      hkeeps.write islockHash nHeight⟩
  | some islock =>
    exact ⟨(hshrunk.removeInstantSendLock hdb hlock).writeArchived islockHash nHeight, hanswer,
      (hkeeps.remove islockHash islock).write islockHash nHeight⟩

/-! ### Archive removal -/

/-- The loop of an archive removal erases the keys it visits, and their hashes. -/
theorem forgetArchived_spec (keys : List InversedISLockKey) (db : Database Sig) :
    (keys.foldl forgetArchived db).islockByHash = db.islockByHash ∧
      (keys.foldl forgetArchived db).hashByTxid = db.hashByTxid ∧
      (keys.foldl forgetArchived db).hashByOutpoint = db.hashByOutpoint ∧
      (∀ k, k ∈ (keys.foldl forgetArchived db).archivedByHeightAndHash ↔
        k ∈ db.archivedByHeightAndHash ∧ k ∉ keys) ∧
      ∀ h, h ∈ (keys.foldl forgetArchived db).archivedByHash ↔
        h ∈ db.archivedByHash ∧ ∀ k ∈ keys, k.islockHash ≠ h := by
  induction keys generalizing db with
  | nil => simp
  | cons key keys ih =>
    obtain ⟨hislock, htxid, hout, hheight, hhash⟩ := ih (forgetArchived db key)
    refine ⟨hislock, htxid, hout, fun k => ?_, fun h => ?_⟩
    · rw [List.foldl_cons, hheight, forgetArchived, mem_set_erase, List.mem_cons, not_or]
      grind
    · rw [List.foldl_cons, hhash, forgetArchived, mem_set_erase, List.forall_mem_cons]
      grind

/-! ### Runs -/

/-- An update of the database. -/
inductive LockCall (Sig : Type) where
  | writeNewInstantSendLock (islock : InstantSendLock Sig)
  | removeInstantSendLock (hash : uint256) (keep_cache : Bool)
  | writeInstantSendLockMined (hash : uint256) (nHeight : ℤ)
  | removeConfirmedInstantSendLocks (nUntilHeight : ℤ)
  | removeArchivedInstantSendLocks (nUntilHeight : ℤ)
  | removeChainedInstantSendLocks (islockHash txid : uint256) (nHeight : ℤ)

/-- The database, and the archive keys of the locks that were removed because confirmed
and that no archive removal has reached since. -/
structure Watched (Sig : Type) where
  self : CInstantSendDb Sig := {}
  confirmed : List InversedISLockKey := []

/-- `RemoveInstantSendLock` for a lock that is in the database, in a batch of its own. -/
def removeLock (d : CInstantSendDb Sig) (hash : uint256) (keep_cache : Bool) : CInstantSendDb Sig :=
  match d.db.islockByHash[hash]? with
  | none => d
  | some islock =>
    let s := CInstantSendDb.removeInstantSendLock ⟨d, d.db⟩ hash islock keep_cache
    {s.self with db := s.batch}

/-- An update, with the hashes that a chained removal answers. A lock is written under its
own hash. -/
def update (serializeHash : InstantSendLock Sig → uint256) (s : Watched Sig) :
    LockCall Sig → List uint256 × Watched Sig
  | .writeNewInstantSendLock islock =>
    ([], {s with self := s.self.writeNewInstantSendLock (serializeHash islock) islock})
  | .removeInstantSendLock hash keep_cache =>
    ([], {s with self := removeLock s.self hash keep_cache})
  | .writeInstantSendLockMined hash nHeight =>
    ([], {s with self := s.self.writeInstantSendLockMined hash nHeight})
  | .removeConfirmedInstantSendLocks nUntilHeight =>
    let self := (s.self.removeConfirmedInstantSendLocks serializeHash nUntilHeight).2
    ([], {
      self := self
      confirmed :=
        if nUntilHeight ≤ s.self.best_confirmed_height then s.confirmed
        else s.confirmed ++
          (Database.keysUntil s.self.db.minedByHeightAndHash nUntilHeight).filter fun k =>
            s.self.db.islockByHash.contains k.islockHash })
  | .removeArchivedInstantSendLocks nUntilHeight =>
    ([], {
      self := s.self.removeArchivedInstantSendLocks nUntilHeight
      confirmed :=
        if nUntilHeight ≤ 0 then s.confirmed
        else s.confirmed.filter fun k => !decide (k.nHeight ≤ BitVec.ofInt 32 nUntilHeight) })
  | .removeChainedInstantSendLocks islockHash txid nHeight =>
    let r := s.self.removeChainedInstantSendLocks serializeHash islockHash txid nHeight
    (r.1, {s with self := r.2})

/-- A lock that shares neither its transaction nor an input with another lock of the
database. Under its own hash there may be the lock itself. -/
def Fits (serializeHash : InstantSendLock Sig → uint256) (db : Database Sig)
    (islock : InstantSendLock Sig) : Prop :=
  serializeHash islock ≠ 0 ∧ ∀ p ∈ db.islockByHash.toList,
    if p.1 = serializeHash islock then
      p.2.txid = islock.txid ∧ ∀ o ∈ p.2.inputs, o ∈ islock.inputs
    else
      p.2.txid ≠ islock.txid ∧ ∀ o ∈ p.2.inputs, o ∉ islock.inputs

/-- What an update must meet: a new lock fits, and an archive removal does not reach a hash
that is also in the archive for a confirmed lock at a height beyond it. -/
def Careful (serializeHash : InstantSendLock Sig → uint256) (s : Watched Sig) :
    LockCall Sig → Prop
  | .writeNewInstantSendLock islock => Fits serializeHash s.self.db islock
  | .removeArchivedInstantSendLocks nUntilHeight =>
    nUntilHeight ≤ 0 ∨
      ∀ k ∈ Database.keysUntil s.self.db.archivedByHeightAndHash nUntilHeight,
        ∀ k' ∈ s.confirmed, k'.islockHash = k.islockHash →
          k'.nHeight ≤ BitVec.ofInt 32 nUntilHeight
  | _ => True

/-- What is claimed of an update: the indexes are right after it, the confirmed locks
answer from the archive, and a chained removal takes what it should. -/
def Intact (serializeHash : InstantSendLock Sig → uint256) (s : Watched Sig)
    (call : LockCall Sig) : Prop :=
  Indexed serializeHash (update serializeHash s call).2.self.db ∧
    (∀ k ∈ (update serializeHash s call).2.confirmed,
      k.islockHash ∈ (update serializeHash s call).2.self.db.archivedByHash) ∧
    match call with
    | .removeChainedInstantSendLocks islockHash txid _ =>
      (∀ (k : uint256) (islock : InstantSendLock Sig),
        (update serializeHash s call).2.self.db.islockByHash[k]? = some islock ↔
          s.self.db.islockByHash[k]? = some islock ∧
            ¬(Descends s.self.db txid k ∨ k = islockHash)) ∧
      ∀ k, k ∈ (update serializeHash s call).1 ↔ Descends s.self.db txid k ∨ k = islockHash
    | _ => True

/-- What holds of the database between two updates. -/
structure Settled (serializeHash : InstantSendLock Sig → uint256) (s : Watched Sig) : Prop where
  indexed : Indexed serializeHash s.self.db
  height : ∀ k ∈ s.confirmed, k ∈ s.self.db.archivedByHeightAndHash
  hash : ∀ k ∈ s.confirmed, k.islockHash ∈ s.self.db.archivedByHash

theorem settled_start : Settled serializeHash ({} : Watched Sig) where
  indexed := ⟨fun t h => by simp, fun o h => by simp, fun h l hl => by simp at hl⟩
  height k hk := absurd hk List.not_mem_nil
  hash k hk := absurd hk List.not_mem_nil

/-- Writing a lock under all its keys keeps an index right exactly when no other lock owns
one of them, and the lock it replaces owned no more. -/
theorem index_write_iff {κ : Type} {live : uint256 → Option (InstantSendLock Sig)}
    {index : κ → Option uint256} (owns : InstantSendLock Sig → κ → Prop)
    (h : ∀ k h, index k = some h ↔ ∃ islock, live h = some islock ∧ owns islock k) (h₀ : uint256)
    (islock₀ : InstantSendLock Sig) [∀ k, Decidable (owns islock₀ k)] :
    (∀ k h, (if owns islock₀ k then some h₀ else index k) = some h ↔
        ∃ islock, (if h₀ = h then some islock₀ else live h) = some islock ∧ owns islock k) ↔
      ∀ h islock, live h = some islock →
        if h = h₀ then ∀ k, owns islock k → owns islock₀ k
        else ∀ k, owns islock k → ¬owns islock₀ k := by
  constructor
  · intro hafter h' islock hlock
    split_ifs with hh
    · subst hh
      intro k hk
      by_contra hnot
      obtain ⟨islock', hlock', hk'⟩ := (hafter k h').mp (by
        rw [if_neg hnot]
        exact (h k h').mpr ⟨islock, hlock, hk⟩)
      rw [if_pos rfl, Option.some.injEq] at hlock'
      exact hnot (hlock' ▸ hk')
    · intro k hk hk₀
      have hindex := (hafter k h').mpr ⟨islock, by rw [if_neg (Ne.symm hh), hlock], hk⟩
      rw [if_pos hk₀, Option.some.injEq] at hindex
      exact hh hindex.symm
  · intro hfits k h'
    by_cases hk₀ : owns islock₀ k
    · rw [if_pos hk₀, Option.some.injEq]
      constructor
      · rintro rfl
        exact ⟨islock₀, if_pos rfl, hk₀⟩
      · rintro ⟨islock, hlock, hk⟩
        by_contra hh
        rw [if_neg hh] at hlock
        have hother := hfits h' islock hlock
        rw [if_neg (Ne.symm hh)] at hother
        exact hother k hk hk₀
    · rw [if_neg hk₀, h k h']
      refine exists_congr fun islock => and_congr_left fun hk => ?_
      split_ifs with hh
      · subst hh
        refine iff_of_false (fun hlock => ?_) fun heq => ?_
        · have hsame := hfits h₀ islock hlock
          rw [if_pos rfl] at hsame
          exact hk₀ (hsame k hk)
        · exact hk₀ (Option.some.inj heq ▸ hk)
      · rfl

theorem fits_iff : Fits serializeHash db islock ↔ serializeHash islock ≠ 0 ∧
    (∀ (h : uint256) (l : InstantSendLock Sig), db.islockByHash[h]? = some l →
      if h = serializeHash islock then ∀ t, l.txid = t → islock.txid = t
      else ∀ t, l.txid = t → ¬islock.txid = t) ∧
    ∀ (h : uint256) (l : InstantSendLock Sig), db.islockByHash[h]? = some l →
      if h = serializeHash islock then ∀ o, o ∈ l.inputs → o ∈ islock.inputs
      else ∀ o, o ∈ l.inputs → o ∉ islock.inputs := by
  refine and_congr_right fun _ => ?_
  constructor
  · intro h
    refine ⟨fun k l hlock => ?_, fun k l hlock => ?_⟩
    · have hp := h (k, l) (ExtTreeMap.mem_toList_iff_getElem?_eq_some.mpr hlock)
      split_ifs at hp ⊢
      · rintro t rfl
        exact hp.1.symm
      · rintro t rfl
        exact Ne.symm hp.1
    · have hp := h (k, l) (ExtTreeMap.mem_toList_iff_getElem?_eq_some.mpr hlock)
      split_ifs at hp ⊢
      · exact hp.2
      · exact hp.2
  · rintro ⟨htxid, hinputs⟩ p hp
    have htx := htxid p.1 p.2 (mem_toList hp)
    have hin := hinputs p.1 p.2 (mem_toList hp)
    split_ifs at htx hin ⊢
    · exact ⟨(htx p.2.txid rfl).symm, hin⟩
    · exact ⟨fun heq => htx p.2.txid rfl heq.symm, hin⟩

/-- Writing a lock keeps the indexes right exactly when it fits. -/
theorem Indexed.writeNew_iff (hdb : Indexed serializeHash db) :
    Indexed serializeHash (db.writeNewInstantSendLock (serializeHash islock) islock) ↔
      Fits serializeHash db islock := by
  have hlive : ∀ h : uint256,
      (db.writeNewInstantSendLock (serializeHash islock) islock).islockByHash[h]? =
        if serializeHash islock = h then some islock else db.islockByHash[h]? :=
    fun h => getElem?_insert _ _ _ _
  have htxid : ∀ t : uint256,
      (db.writeNewInstantSendLock (serializeHash islock) islock).hashByTxid[t]? =
        if islock.txid = t then some (serializeHash islock) else db.hashByTxid[t]? :=
    fun t => getElem?_insert _ _ _ _
  have hout : ∀ o : COutPoint,
      (db.writeNewInstantSendLock (serializeHash islock) islock).hashByOutpoint[o]? =
        if o ∈ islock.inputs then some (serializeHash islock) else db.hashByOutpoint[o]? :=
    fun o => getElem?_foldl_insert _ _ _ _
  have htx := index_write_iff (fun l t => l.txid = t) hdb.txid (serializeHash islock) islock
  have hio := index_write_iff (fun l o => o ∈ l.inputs) hdb.outpoint (serializeHash islock) islock
  rw [fits_iff, ← htx, ← hio]
  constructor
  · intro h
    refine ⟨(h.hash (serializeHash islock) islock (by rw [hlive, if_pos rfl])).2, ?_, ?_⟩
    · have hafter := h.txid
      simp only [hlive, htxid] at hafter
      exact hafter
    · have hafter := h.outpoint
      simp only [hlive, hout] at hafter
      exact hafter
  · rintro ⟨hne, hx, ho⟩
    refine ⟨?_, ?_, fun h l hlock => ?_⟩
    · simpa only [hlive, htxid] using hx
    · simpa only [hlive, hout] using ho
    · rw [hlive] at hlock
      split_ifs at hlock with hh
      · subst hh
        exact ⟨congrArg serializeHash (Option.some.inj hlock).symm, hne⟩
      · exact hdb.hash h l hlock

theorem Settled.removeConfirmed {s : Watched Sig} (h : Settled serializeHash s)
    (nUntilHeight : ℤ) : Settled serializeHash
      (update serializeHash s (.removeConfirmedInstantSendLocks nUntilHeight)).2 := by
  by_cases hbest : nUntilHeight ≤ s.self.best_confirmed_height
  · have heq : (update serializeHash s (.removeConfirmedInstantSendLocks nUntilHeight)).2 = s := by
      simp only [update, removeConfirmedInstantSendLocks, hbest, if_true]
    rw [heq]
    exact h
  · have hloop := (confirmed_start s.self nUntilHeight).confirmLocks h.indexed
      (Database.keysUntil s.self.db.minedByHeightAndHash nUntilHeight)
    rw [List.nil_append] at hloop
    simp only [update, removeConfirmedInstantSendLocks, hbest, if_false]
    refine ⟨h.indexed.shrunk hloop.shrunk, fun k hk => ?_, fun k hk => ?_⟩
    · rw [List.mem_append, List.mem_filter] at hk
      exact (hloop.archivedByHeight k).mpr (hk.imp (h.height k) And.left)
    · rw [List.mem_append, List.mem_filter] at hk
      exact (hloop.archivedByHash k.islockHash).mpr
        (hk.imp (h.hash k) fun hk => ⟨k, hk.1, rfl⟩)

/-- After an archive removal the confirmed locks that it has not reached still answer
exactly when it has reached no other key of theirs. -/
theorem Settled.removeArchived_iff {s : Watched Sig} (h : Settled serializeHash s)
    (nUntilHeight : ℤ) :
    (Careful serializeHash s (.removeArchivedInstantSendLocks nUntilHeight) →
      Settled serializeHash
        (update serializeHash s (.removeArchivedInstantSendLocks nUntilHeight)).2) ∧
    ((∀ k ∈ (update serializeHash s (.removeArchivedInstantSendLocks nUntilHeight)).2.confirmed,
      k.islockHash ∈ (update serializeHash s
        (.removeArchivedInstantSendLocks nUntilHeight)).2.self.db.archivedByHash) →
      Careful serializeHash s (.removeArchivedInstantSendLocks nUntilHeight)) := by
  by_cases hzero : nUntilHeight ≤ 0
  · have heq : (update serializeHash s (.removeArchivedInstantSendLocks nUntilHeight)).2 = s := by
      simp only [update, removeArchivedInstantSendLocks, hzero, if_true]
    rw [heq]
    exact ⟨fun _ => h, fun _ => Or.inl hzero⟩
  · obtain ⟨hislock, htxid, hout, hheight, hhash⟩ := forgetArchived_spec
      (Database.keysUntil s.self.db.archivedByHeightAndHash nUntilHeight) s.self.db
    simp only [update, removeArchivedInstantSendLocks, hzero, if_false, Careful, false_or,
      List.mem_filter, Bool.not_eq_true', decide_eq_false_iff_not]
    constructor
    · intro hcareful
      refine ⟨⟨?_, ?_, ?_⟩, fun k hk => ?_, fun k hk => ?_⟩
      · simpa only [hislock, htxid] using h.indexed.txid
      · simpa only [hislock, hout] using h.indexed.outpoint
      · simpa only [hislock] using h.indexed.hash
      · rw [List.mem_filter, Bool.not_eq_true', decide_eq_false_iff_not] at hk
        exact (hheight k).mpr ⟨h.height k hk.1, fun hin => hk.2 (mem_keysUntil.mp hin).2⟩
      · rw [List.mem_filter, Bool.not_eq_true', decide_eq_false_iff_not] at hk
        refine (hhash k.islockHash).mpr ⟨h.hash k hk.1, fun k' hk' heq => hk.2 ?_⟩
        exact hcareful k' hk' k hk.1 heq.symm
    · intro hanswers k hk k' hk' heq
      by_contra hbeyond
      exact ((hhash k'.islockHash).mp (hanswers k' ⟨hk', hbeyond⟩)).2 k hk heq.symm

/-- The archive of a settled database, where only more is archived. -/
theorem Settled.keepsArchive {s : Watched Sig} (h : Settled serializeHash s)
    (self : CInstantSendDb Sig) (hself : Indexed serializeHash self.db)
    (hkeeps : KeepsArchive s.self.db self.db) :
    Settled serializeHash {s with self := self} where
  indexed := hself
  height k hk := hkeeps.1 k (h.height k hk)
  hash k hk := hkeeps.2 k.islockHash (h.hash k hk)

theorem Settled.removeLock {s : Watched Sig} (h : Settled serializeHash s) (hash : uint256)
    (keep_cache : Bool) :
    Settled serializeHash {s with self := InstantSend.removeLock s.self hash keep_cache} := by
  unfold InstantSend.removeLock
  cases hlock : s.self.db.islockByHash[hash]? with
  | none => exact h
  | some islock =>
    have hshrunk := (shrunk_refl s.self.db).removeInstantSendLock h.indexed hlock
    exact h.keepsArchive _ (h.indexed.shrunk hshrunk) ⟨fun _ hk => hk, fun _ hk => hk⟩

/-- A careful update does what is claimed of it, and leaves the database settled. -/
theorem Settled.update {s : Watched Sig} (h : Settled serializeHash s) (call : LockCall Sig)
    (hcareful : Careful serializeHash s call) :
    Intact serializeHash s call ∧ Settled serializeHash (update serializeHash s call).2 := by
  have hintact : ∀ call, Settled serializeHash (InstantSend.update serializeHash s call).2 →
      Indexed serializeHash (InstantSend.update serializeHash s call).2.self.db ∧
        ∀ k ∈ (InstantSend.update serializeHash s call).2.confirmed,
          k.islockHash ∈ (InstantSend.update serializeHash s call).2.self.db.archivedByHash :=
    fun call h => ⟨h.indexed, h.hash⟩
  cases call with
  | writeNewInstantSendLock islock =>
    have hafter := h.keepsArchive (s.self.writeNewInstantSendLock _ islock)
      (h.indexed.writeNew_iff.mpr hcareful) ⟨fun _ hk => hk, fun _ hk => hk⟩
    exact ⟨⟨hafter.indexed, hafter.hash, trivial⟩, hafter⟩
  | removeInstantSendLock hash keep_cache =>
    have hafter := h.removeLock hash keep_cache
    exact ⟨⟨hafter.indexed, hafter.hash, trivial⟩, hafter⟩
  | writeInstantSendLockMined hash nHeight =>
    have hafter := h.keepsArchive (s.self.writeInstantSendLockMined hash nHeight)
      ⟨h.indexed.txid, h.indexed.outpoint, h.indexed.hash⟩ ⟨fun _ hk => hk, fun _ hk => hk⟩
    exact ⟨⟨hafter.indexed, hafter.hash, trivial⟩, hafter⟩
  | removeConfirmedInstantSendLocks nUntilHeight =>
    have hafter := h.removeConfirmed nUntilHeight
    exact ⟨⟨hafter.indexed, hafter.hash, trivial⟩, hafter⟩
  | removeArchivedInstantSendLocks nUntilHeight =>
    have hafter := (h.removeArchived_iff nUntilHeight).1 hcareful
    exact ⟨⟨hafter.indexed, hafter.hash, trivial⟩, hafter⟩
  | removeChainedInstantSendLocks islockHash txid nHeight =>
    obtain ⟨hshrunk, hanswer, hkeeps⟩ := h.indexed.removeChained islockHash txid nHeight
    have hafter := h.keepsArchive _ (h.indexed.shrunk hshrunk) hkeeps
    exact ⟨⟨hafter.indexed, hafter.hash, hshrunk.islock, hanswer⟩, hafter⟩

/-- An update that does what is claimed of it was careful. -/
theorem Settled.careful {s : Watched Sig} (h : Settled serializeHash s) (call : LockCall Sig)
    (hintact : Intact serializeHash s call) : Careful serializeHash s call := by
  cases call with
  | writeNewInstantSendLock islock => exact h.indexed.writeNew_iff.mp hintact.1
  | removeArchivedInstantSendLocks nUntilHeight =>
    exact (h.removeArchived_iff nUntilHeight).2 hintact.2.1
  | removeInstantSendLock hash keep_cache => trivial
  | writeInstantSendLockMined hash nHeight => trivial
  | removeConfirmedInstantSendLocks nUntilHeight => trivial
  | removeChainedInstantSendLocks islockHash txid nHeight => trivial

/-- Along any sequence of updates, the indexes name the locks that are there, the archive
has the confirmed ones and chained removals take the descendants, exactly when every new
lock fits and no archive removal takes the answer of a lock archived at a height beyond. -/
theorem indexes_exact_iff (serializeHash : InstantSendLock Sig → uint256)
    (calls : List (LockCall Sig)) :
    Runs.EveryStep (update serializeHash) (Intact serializeHash) {} calls ↔
      Runs.EveryStep (update serializeHash) (Careful serializeHash) {} calls :=
  Runs.everyStep_iff (Settled serializeHash) (fun _ call h hcareful => h.update call hcareful)
    (fun _ call h hintact => h.careful call hintact) settled_start calls

section Examples

def twoTransactionsOneInput : List (LockCall Unit) :=
  [.writeNewInstantSendLock ⟨[⟨7, 0⟩], 1, 2, some ()⟩,
    .writeNewInstantSendLock ⟨[⟨7, 0⟩], 3, 2, some ()⟩]

/-- A lock for another transaction with the same input takes the index entry of the
first, which is then in the database and not found. -/
theorem indexes_not_exact :
    ¬Runs.EveryStep (update fun islock => islock.txid+1) (Intact fun islock => islock.txid+1) {}
      twoTransactionsOneInput := by
  rintro ⟨-, hsecond, -⟩
  have hfound := (hsecond.1.outpoint ⟨7, 0⟩ 2).mpr
    ⟨⟨[⟨7, 0⟩], 1, 2, some ()⟩, by decide +kernel, by decide⟩
  exact absurd hfound (by decide +kernel)

end Examples

end BabaChain.InstantSend
