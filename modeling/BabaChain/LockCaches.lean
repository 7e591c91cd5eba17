import BabaChain.InstantSendDb
import BabaChain.Lib.CachedReads
import BabaChain.Lib.Runs

/-! What the lookups of InstantSend locks answer when the caches are full of earlier
answers. -/
namespace BabaChain.InstantSend
open Std CachedReads

variable {Sig : Type} (serializeHash : InstantSendLock Sig → uint256)

/-- What the lookups read, however it is stored. -/
structure View (Sig : Type) where
  islock : uint256 → Option (InstantSendLock Sig)
  txid : uint256 → Option uint256
  outpoint : COutPoint → Option uint256

namespace View

variable (v : View Sig)

def instantSendLockByHash (hash : uint256) : Option (InstantSendLock Sig) :=
  if hash = 0 then none else v.islock hash

def instantSendLockHashByTxid (txid : uint256) : uint256 := (v.txid txid).getD 0

def instantSendLockByTxid (txid : uint256) : Option (InstantSendLock Sig) :=
  v.instantSendLockByHash (v.instantSendLockHashByTxid txid)

def instantSendLockByInput (outpoint : COutPoint) : Option (InstantSendLock Sig) :=
  (v.outpoint outpoint).bind v.instantSendLockByHash

def knownInstantSendLock (archived : uint256 → Bool) (islockHash : uint256) : Bool :=
  (v.instantSendLockByHash islockHash).isSome || archived islockHash

/-- The first lock of an input that is for another transaction. -/
def conflictingLock (tx : CTransaction) : Option (InstantSendLock Sig) :=
  tx.vin.findSome? fun txin =>
    (v.instantSendLockByInput txin.prevout).filter fun islock => islock.txid ≠ tx.hash

end View

/-- The answers computed directly from the database. -/
def Database.view (db : Database Sig) : View Sig where
  islock := db.readInstantSendLock serializeHash
  txid txid := db.hashByTxid[txid]?
  outpoint outpoint := db.hashByOutpoint[outpoint]?

/-- The caches of a database that go with what is kept besides it. -/
structure Told (kept : View Sig) (d : CInstantSendDb Sig) : Prop where
  islock : CachedReads.Told id (d.db.view serializeHash).islock kept.islock d.islockCache
  txid : CachedReads.Told some (d.db.view serializeHash).txid kept.txid d.txidCache
  outpoint : CachedReads.Told some (d.db.view serializeHash).outpoint kept.outpoint d.outpointCache
  covers_islock : Covers kept.islock (d.db.view serializeHash).islock
  covers_txid : Covers kept.txid (d.db.view serializeHash).txid
  covers_outpoint : Covers kept.outpoint (d.db.view serializeHash).outpoint

variable {serializeHash} {kept : View Sig} {d : CInstantSendDb Sig}

/-! ### Lookups -/

theorem Told.getByHash (h : Told serializeHash kept d) (hash : uint256) (use_cache : Bool) :
    ((d.getInstantSendLockByHashInternal serializeHash hash use_cache).1 =
        (d.db.view serializeHash).instantSendLockByHash hash ∨
      use_cache = true ∧ (d.getInstantSendLockByHashInternal serializeHash hash use_cache).1 =
        kept.instantSendLockByHash hash) ∧
      Told serializeHash kept (d.getInstantSendLockByHashInternal serializeHash hash use_cache).2 ∧
      (d.getInstantSendLockByHashInternal serializeHash hash use_cache).2.db = d.db := by
  unfold CInstantSendDb.getInstantSendLockByHashInternal View.instantSendLockByHash
  by_cases hzero : hash = 0
  · simp only [hzero, if_true, true_or, true_and, and_true]
    exact h
  · simp only [hzero, if_false]
    have hread : Told serializeHash kept {d with
        islockCache :=
          LruCache.insert d.islockCache hash (d.db.readInstantSendLock serializeHash hash)} :=
      {h with islock := h.islock.insert rfl}
    split
    · rename_i ret hget
      refine ⟨?_, {h with islock := h.islock.get_state hash}, rfl⟩
      exact (h.islock.get_value hget).imp_right fun hk => ⟨rfl, hk⟩
    · exact ⟨Or.inl rfl, hread, rfl⟩

theorem Told.getHashByTxid (h : Told serializeHash kept d) (txid : uint256) :
    ((d.getInstantSendLockHashByTxidInternal txid).1 =
        (d.db.view serializeHash).instantSendLockHashByTxid txid ∨
      (d.getInstantSendLockHashByTxidInternal txid).1 = kept.instantSendLockHashByTxid txid) ∧
      Told serializeHash kept (d.getInstantSendLockHashByTxidInternal txid).2 ∧
      (d.getInstantSendLockHashByTxidInternal txid).2.db = d.db := by
  unfold CInstantSendDb.getInstantSendLockHashByTxidInternal View.instantSendLockHashByTxid
  dsimp only
  split
  · rename_i islockHash hget
    refine ⟨?_, {h with txid := h.txid.get_state txid}, rfl⟩
    rcases h.txid.get_value hget with hv | hv
    · exact Or.inl (by rw [← hv, Option.getD_some])
    · exact Or.inr (by rw [← hv, Option.getD_some])
  · have hview : (d.db.view serializeHash).txid txid = d.db.hashByTxid[txid]? := rfl
    rw [hview]
    split
    · rename_i hdb
      exact ⟨Or.inl (by rw [hdb, Option.getD_none]), h, rfl⟩
    · rename_i islockHash hdb
      refine ⟨Or.inl (by rw [hdb, Option.getD_some]), {h with txid := h.txid.insert ?_}, rfl⟩
      rw [hview, hdb]

theorem View.instantSendLockByHash_zero (v : View Sig) : v.instantSendLockByHash 0 = none :=
  if_pos rfl

theorem Told.byHash_mono (h : Told serializeHash kept d) {hash : uint256}
    {islock : InstantSendLock Sig}
    (hnow : (d.db.view serializeHash).instantSendLockByHash hash = some islock) :
    kept.instantSendLockByHash hash = some islock := by
  unfold View.instantSendLockByHash at hnow ⊢
  split_ifs at hnow with hzero
  rw [if_neg hzero]
  exact h.covers_islock hash islock hnow

/-- An index lookup followed by the lookup of the lock it names: each may be answered
by the database or by what is kept, and together they are, too. -/
theorem Told.of_two_lookups (h : Told serializeHash kept d) {now past : Option uint256}
    (hcovers : ∀ hash, now = some hash → past = some hash) {hash : uint256}
    (hindex : now = some hash ∨ past = some hash) {answer : Option (InstantSendLock Sig)}
    (hlock : answer = (d.db.view serializeHash).instantSendLockByHash hash ∨
      answer = kept.instantSendLockByHash hash) :
    answer = now.bind (d.db.view serializeHash).instantSendLockByHash ∨
      answer = past.bind kept.instantSendLockByHash := by
  cases hnow : now with
  | some hash' =>
    have hpast := hcovers hash' hnow
    have hhash : hash' = hash := by
      rcases hindex with hi | hi
      · exact Option.some.inj (hnow.symm.trans hi)
      · exact Option.some.inj (hpast.symm.trans hi)
    rw [hpast, Option.bind_some, Option.bind_some, hhash]
    exact hlock
  | none =>
    have hpast : past = some hash := hindex.resolve_left (by rw [hnow]; simp)
    rw [hpast, Option.bind_some, Option.bind_none]
    rcases hlock with hlock | hlock
    · cases hfound : (d.db.view serializeHash).instantSendLockByHash hash with
      | none => exact Or.inl (by rw [hlock, hfound])
      | some islock => exact Or.inr (by rw [hlock, hfound, h.byHash_mono hfound])
    · exact Or.inr hlock

theorem View.instantSendLockByTxid_eq (v : View Sig) (txid : uint256) :
    v.instantSendLockByTxid txid = (v.txid txid).bind v.instantSendLockByHash := by
  unfold instantSendLockByTxid instantSendLockHashByTxid
  cases v.txid txid with
  | none => exact v.instantSendLockByHash_zero
  | some hash => rfl

theorem Told.getByTxid (h : Told serializeHash kept d) (txid : uint256) :
    ((d.getInstantSendLockByTxid serializeHash txid).1 =
        (d.db.view serializeHash).instantSendLockByTxid txid ∨
      (d.getInstantSendLockByTxid serializeHash txid).1 = kept.instantSendLockByTxid txid) ∧
      Told serializeHash kept (d.getInstantSendLockByTxid serializeHash txid).2 ∧
      (d.getInstantSendLockByTxid serializeHash txid).2.db = d.db := by
  obtain ⟨hhash, htold, hdb⟩ := h.getHashByTxid txid
  obtain ⟨hlock, htold', hdb'⟩ :=
    htold.getByHash (d.getInstantSendLockHashByTxidInternal txid).1 true
  refine ⟨?_, htold', hdb'.trans hdb⟩
  rw [hdb] at hlock
  rw [View.instantSendLockByTxid_eq, View.instantSendLockByTxid_eq]
  have hlock := hlock.imp_right And.right
  rw [CInstantSendDb.getInstantSendLockByTxid]
  generalize (d.getInstantSendLockHashByTxidInternal txid).1 = hash at hhash hlock
  unfold View.instantSendLockHashByTxid at hhash
  by_cases hzero : hash = 0
  · subst hzero
    rw [View.instantSendLockByHash_zero, View.instantSendLockByHash_zero, or_self] at hlock
    rw [hlock]
    left
    cases hnow : (d.db.view serializeHash).txid txid with
    | none => rfl
    | some hash' =>
      rw [hnow, h.covers_txid txid hash' hnow, or_self, Option.getD_some] at hhash
      rw [← hhash, Option.bind_some, View.instantSendLockByHash_zero]
  · have hsome : ∀ x : Option uint256, hash = x.getD 0 → x = some hash := by
      intro x hx
      cases x with
      | none => exact absurd hx hzero
      | some hash' => rw [hx, Option.getD_some]
    exact h.of_two_lookups (h.covers_txid txid) (hhash.imp (hsome _) (hsome _)) hlock

theorem Told.getByInput (h : Told serializeHash kept d) (outpoint : COutPoint) :
    ((d.getInstantSendLockByInput serializeHash outpoint).1 =
        (d.db.view serializeHash).instantSendLockByInput outpoint ∨
      (d.getInstantSendLockByInput serializeHash outpoint).1 =
        kept.instantSendLockByInput outpoint) ∧
      Told serializeHash kept (d.getInstantSendLockByInput serializeHash outpoint).2 ∧
      (d.getInstantSendLockByInput serializeHash outpoint).2.db = d.db := by
  unfold CInstantSendDb.getInstantSendLockByInput View.instantSendLockByInput
  dsimp only
  split
  · rename_i islockHash hget
    have htold : Told serializeHash kept
        {d with outpointCache := (LruCache.get d.outpointCache outpoint).2} :=
      {h with outpoint := h.outpoint.get_state outpoint}
    obtain ⟨hlock, htold', hdb⟩ := htold.getByHash islockHash true
    refine ⟨h.of_two_lookups (h.covers_outpoint outpoint) ?_ (hlock.imp_right And.right), htold', hdb⟩
    exact (h.outpoint.get_value hget).imp Eq.symm Eq.symm
  · split
    · rename_i hdb
      have hview : (d.db.view serializeHash).outpoint outpoint = none := hdb
      exact ⟨Or.inl (by rw [hview, Option.bind_none]), h, rfl⟩
    · rename_i islockHash hdb
      have hview : (d.db.view serializeHash).outpoint outpoint = some islockHash := hdb
      have htold : Told serializeHash kept
          {d with outpointCache := LruCache.insert d.outpointCache outpoint islockHash} :=
        {h with outpoint := h.outpoint.insert hview.symm}
      obtain ⟨hlock, htold', hdb'⟩ := htold.getByHash islockHash true
      exact ⟨h.of_two_lookups (h.covers_outpoint outpoint) (Or.inl hview)
        (hlock.imp_right And.right), htold', hdb'⟩

theorem Told.known (h : Told serializeHash kept d) (islockHash : uint256) :
    ((d.knownInstantSendLock serializeHash islockHash).1 =
        (d.db.view serializeHash).knownInstantSendLock d.db.archivedByHash.contains islockHash ∨
      (d.knownInstantSendLock serializeHash islockHash).1 =
        kept.knownInstantSendLock d.db.archivedByHash.contains islockHash) ∧
      Told serializeHash kept (d.knownInstantSendLock serializeHash islockHash).2 ∧
      (d.knownInstantSendLock serializeHash islockHash).2.db = d.db := by
  obtain ⟨hlock, htold, hdb⟩ := h.getByHash islockHash true
  refine ⟨?_, htold, hdb⟩
  have hor : ∀ {answer answer' : Option (InstantSendLock Sig)}, answer = answer' →
      (answer.isSome || d.db.archivedByHash.contains islockHash) =
        (answer'.isSome || d.db.archivedByHash.contains islockHash) := by
    rintro answer _ rfl
    rfl
  exact hlock.imp hor fun heq => hor heq.2

/-! ### Changes of the database -/

/-- What is kept when the database becomes another one and nothing is removed as
confirmed. -/
def View.after (kept now then_ : View Sig) : View Sig where
  islock := keptAfter now.islock then_.islock kept.islock
  txid := keptAfter now.txid then_.txid kept.txid
  outpoint := keptAfter now.outpoint then_.outpoint kept.outpoint

variable (db : Database Sig) (hash : uint256) (islock : InstantSendLock Sig)

theorem view_writeNew :
    (∀ h, ((db.writeNewInstantSendLock (serializeHash islock) islock).view serializeHash).islock h =
      if serializeHash islock = h then some islock else (db.view serializeHash).islock h) ∧
    (∀ t, ((db.writeNewInstantSendLock (serializeHash islock) islock).view serializeHash).txid t =
      if islock.txid = t then some (serializeHash islock) else (db.view serializeHash).txid t) ∧
    ∀ o, ((db.writeNewInstantSendLock (serializeHash islock) islock).view serializeHash).outpoint o =
      if o ∈ islock.inputs then some (serializeHash islock)
      else (db.view serializeHash).outpoint o := by
  refine ⟨fun h => ?_, fun t => OrdMap.getElem?_insert _ _ _ _,
    fun o => OrdMap.getElem?_foldl_insert _ _ _ _⟩
  show ((db.islockByHash.insert (serializeHash islock) islock)[h]?).filter _ = _
  rw [OrdMap.getElem?_insert]
  split_ifs with hh
  · rw [Option.filter_some, if_pos (decide_eq_true hh)]
  · rfl

theorem view_remove :
    (∀ h, ((db.removeInstantSendLock hash islock).view serializeHash).islock h =
      if hash = h then none else (db.view serializeHash).islock h) ∧
    (∀ t, ((db.removeInstantSendLock hash islock).view serializeHash).txid t =
      if islock.txid = t then none else (db.view serializeHash).txid t) ∧
    ∀ o, ((db.removeInstantSendLock hash islock).view serializeHash).outpoint o =
      if o ∈ islock.inputs then none else (db.view serializeHash).outpoint o := by
  refine ⟨fun h => ?_, fun t => OrdMap.getElem?_erase _ _ _,
    fun o => OrdMap.getElem?_foldl_erase _ _ _⟩
  show ((db.islockByHash.erase hash)[h]?).filter _ = _
  rw [OrdMap.getElem?_erase]
  split_ifs
  · rfl
  · rfl

variable {db hash islock}

theorem Told.writeNew (h : Told serializeHash kept d) :
    Told serializeHash (kept.after (d.db.view serializeHash)
        ((d.writeNewInstantSendLock (serializeHash islock) islock).db.view serializeHash))
      (d.writeNewInstantSendLock (serializeHash islock) islock) := by
  obtain ⟨hislock, htxid, houtpoint⟩ := @view_writeNew _ serializeHash d.db islock
  refine ⟨?_, ?_, ?_, covers_keptAfter, covers_keptAfter, covers_keptAfter⟩
  · refine h.islock.insertAll h.covers_islock [serializeHash islock] (fun k hk => ?_)
      fun k hk => ?_
    · rw [List.mem_singleton.mp hk]
      exact ((hislock _).trans (if_pos rfl)).symm
    · exact (hislock k).trans (if_neg fun heq => hk (List.mem_singleton.mpr heq.symm))
  · refine h.txid.insertAll h.covers_txid [islock.txid] (fun k hk => ?_) fun k hk => ?_
    · rw [List.mem_singleton.mp hk]
      exact ((htxid _).trans (if_pos rfl)).symm
    · exact (htxid k).trans (if_neg fun heq => hk (List.mem_singleton.mpr heq.symm))
  · refine h.outpoint.insertAll h.covers_outpoint islock.inputs (fun k hk => ?_) fun k hk => ?_
    · exact ((houtpoint k).trans (if_pos hk)).symm
    · exact (houtpoint k).trans (if_neg hk)

/-- A database that answers less than another one. -/
structure LosesView (now then_ : View Sig) : Prop where
  islock : Loses now.islock then_.islock
  txid : Loses now.txid then_.txid
  outpoint : Loses now.outpoint then_.outpoint

theorem losesView_refl (v : View Sig) : LosesView v v :=
  ⟨loses_refl _, loses_refl _, loses_refl _⟩

theorem LosesView.remove {now : View Sig} (h : LosesView now (db.view serializeHash)) :
    LosesView now ((db.removeInstantSendLock hash islock).view serializeHash) := by
  obtain ⟨hislock, htxid, houtpoint⟩ := @view_remove _ serializeHash db hash islock
  exact ⟨h.islock.remove hislock, h.txid.remove htxid, h.outpoint.remove houtpoint⟩

/-- What the caches know stays told when the database loses entries that are kept. -/
theorem Told.of_losesView (h : Told serializeHash kept d)
    (hloses : LosesView (d.db.view serializeHash) (db.view serializeHash)) :
    Told serializeHash kept {d with db := db} where
  islock := h.islock.of_loses h.covers_islock hloses.islock
  txid := h.txid.of_loses h.covers_txid hloses.txid
  outpoint := h.outpoint.of_loses h.covers_outpoint hloses.outpoint
  covers_islock := h.covers_islock.of_loses hloses.islock
  covers_txid := h.covers_txid.of_loses hloses.txid
  covers_outpoint := h.covers_outpoint.of_loses hloses.outpoint

/-- Within the loop over confirmed locks: nothing is written yet, and the batch only
removes. -/
structure Confirming (serializeHash : InstantSendLock Sig → uint256) (kept : View Sig)
    (db : Database Sig) (s : CInstantSendDb.Batched Sig) : Prop where
  db_eq : s.self.db = db
  told : Told serializeHash kept s.self
  loses : LosesView (db.view serializeHash) (s.batch.view serializeHash)

theorem Confirming.confirmLock
    {s : CInstantSendDb.Batched Sig × ExtTreeMap uint256 (InstantSendLock Sig)}
    (h : Confirming serializeHash kept db s.1) (curKey : InversedISLockKey) :
    Confirming serializeHash kept db (CInstantSendDb.confirmLock serializeHash s curKey).1 := by
  obtain ⟨-, htold, hdb⟩ := h.told.getByHash curKey.islockHash false
  unfold CInstantSendDb.confirmLock
  dsimp only
  cases (s.1.self.getInstantSendLockByHashInternal serializeHash curKey.islockHash false).1 with
  | none => exact ⟨hdb.trans h.db_eq, htold, h.loses⟩
  | some islock => exact ⟨hdb.trans h.db_eq, htold, h.loses.remove⟩

theorem Told.removeConfirmed (h : Told serializeHash kept d) (nUntilHeight : ℤ) :
    Told serializeHash kept (d.removeConfirmedInstantSendLocks serializeHash nUntilHeight).2 := by
  unfold CInstantSendDb.removeConfirmedInstantSendLocks
  split_ifs
  · exact h
  · have hloop : ∀ (keys : List InversedISLockKey)
        (s : CInstantSendDb.Batched Sig × ExtTreeMap uint256 (InstantSendLock Sig)),
        Confirming serializeHash kept d.db s.1 → Confirming serializeHash kept d.db
          (keys.foldl (CInstantSendDb.confirmLock serializeHash) s).1 := by
      intro keys
      induction keys with
      | nil => exact fun s hs => hs
      | cons key keys ih => exact fun s hs => ih _ (hs.confirmLock key)
    have hend := hloop (Database.keysUntil d.db.minedByHeightAndHash nUntilHeight)
      (⟨{d with best_confirmed_height := nUntilHeight}, d.db⟩, ∅)
      ⟨rfl, {h with islock := h.islock}, losesView_refl _⟩
    refine hend.told.of_losesView ?_
    rw [hend.db_eq]
    exact hend.loses

/-- Within the removal of chained locks: no cache holds an entry that the batch
removes. -/
structure Removing (serializeHash : InstantSendLock Sig → uint256) (kept : View Sig)
    (db : Database Sig) (s : CInstantSendDb.Batched Sig) : Prop where
  db_eq : s.self.db = db
  islock : Untouched id (db.view serializeHash).islock kept.islock
    (s.batch.view serializeHash).islock s.self.islockCache
  txid : Untouched some (db.view serializeHash).txid kept.txid
    (s.batch.view serializeHash).txid s.self.txidCache
  outpoint : Untouched some (db.view serializeHash).outpoint kept.outpoint
    (s.batch.view serializeHash).outpoint s.self.outpointCache
  loses : LosesView (db.view serializeHash) (s.batch.view serializeHash)

/-- A lock that is read past the caches and removed, where there is one. -/
theorem Removing.readAndRemove {s : CInstantSendDb.Batched Sig}
    (h : Removing serializeHash kept db s) (hash : uint256) :
    (∀ islock,
      (s.self.getInstantSendLockByHashInternal serializeHash hash false).1 = some islock →
      Removing serializeHash kept db (CInstantSendDb.removeInstantSendLock
        {s with self := (s.self.getInstantSendLockByHashInternal serializeHash hash false).2}
        hash islock false)) ∧
    ((s.self.getInstantSendLockByHashInternal serializeHash hash false).1 = none →
      Removing serializeHash kept db
        {s with self := (s.self.getInstantSendLockByHashInternal serializeHash hash false).2}) := by
  rw [CInstantSendDb.getByHash_uncached]
  split_ifs with hzero
  · exact ⟨fun islock hislock => by contradiction, fun _ => h⟩
  · have hread : s.self.db.readInstantSendLock serializeHash hash =
        (db.view serializeHash).islock hash := by
      rw [h.db_eq]
      rfl
    rw [hread]
    constructor
    · intro islock hislock
      obtain ⟨hislock', htxid, houtpoint⟩ := @view_remove _ serializeHash s.batch hash islock
      refine ⟨h.db_eq, ?_, ?_, ?_, h.loses.remove⟩
      · exact h.islock.insert_erase _ fun k hk => (hislock' k).trans (if_neg (Ne.symm hk))
      · refine h.txid.eraseAll [islock.txid] fun k hk => (htxid k).trans (if_neg fun heq => hk ?_)
        exact List.mem_singleton.mpr heq.symm
      · exact h.outpoint.eraseAll islock.inputs fun k hk => (houtpoint k).trans (if_neg hk)
    · intro hnone
      refine {h with islock := h.islock.insert rfl ?_}
      rcases h.loses.islock hash with heq | heq
      · exact heq
      · rw [heq]
        exact hnone.symm

theorem Removing.removeChild {s : CInstantSendDb.ChainedRemoval Sig}
    (h : Removing serializeHash kept db s.toBatched) (nHeight : ℤ) (childIslockHash : uint256) :
    Removing serializeHash kept db
      (CInstantSendDb.removeChild serializeHash nHeight s childIslockHash).toBatched := by
  obtain ⟨hsome, hnone⟩ := h.readAndRemove childIslockHash
  unfold CInstantSendDb.removeChild
  dsimp only
  cases hread : (s.self.getInstantSendLockByHashInternal serializeHash childIslockHash false).1 with
  | none => exact hnone hread
  | some islock =>
    have hremoved := hsome islock hread
    exact ⟨hremoved.db_eq, hremoved.islock, hremoved.txid, hremoved.outpoint, hremoved.loses⟩

theorem Removing.removeChildren (nHeight : ℤ) (fuel : ℕ) {s : CInstantSendDb.ChainedRemoval Sig}
    (h : Removing serializeHash kept db s.toBatched) :
    Removing serializeHash kept db
      (CInstantSendDb.removeChildren serializeHash nHeight fuel s).toBatched := by
  have hloop : ∀ (hashes : List uint256) (s : CInstantSendDb.ChainedRemoval Sig),
      Removing serializeHash kept db s.toBatched → Removing serializeHash kept db
        (hashes.foldl (CInstantSendDb.removeChild serializeHash nHeight) s).toBatched := by
    intro hashes
    induction hashes with
    | nil => exact fun s hs => hs
    | cons hash hashes ih => exact fun s hs => ih _ (hs.removeChild nHeight hash)
  induction fuel generalizing s with
  | zero => exact h
  | succ fuel ih =>
    rw [CInstantSendDb.removeChildren]
    split
    · exact h
    · exact ih (hloop _ _ h)

theorem Told.removeChained (h : Told serializeHash kept d) (islockHash txid : uint256)
    (nHeight : ℤ) :
    Told serializeHash
      (kept.after (d.db.view serializeHash)
        ((d.removeChainedInstantSendLocks serializeHash islockHash txid nHeight).2.db.view
          serializeHash))
      (d.removeChainedInstantSendLocks serializeHash islockHash txid nHeight).2 := by
  have hstart : Removing serializeHash kept d.db
      (CInstantSendDb.ChainedRemoval.toBatched {self := d, batch := d.db, stack := [txid]}) :=
    ⟨rfl, h.islock.untouched, h.txid.untouched, h.outpoint.untouched, losesView_refl _⟩
  have hchildren := hstart.removeChildren nHeight (d.db.islockByHash.size+1)
  obtain ⟨hsome, hnone⟩ := hchildren.readAndRemove islockHash
  -- once the batch is written, its view is that of the database
  have hwrite : ∀ t : CInstantSendDb.Batched Sig, Removing serializeHash kept d.db t →
      Told serializeHash
        (kept.after (d.db.view serializeHash) (t.batch.view serializeHash))
        {t.self with db := t.batch.writeInstantSendLockArchived islockHash nHeight} :=
    fun t ht => ⟨ht.islock.told_after h.covers_islock, ht.txid.told_after h.covers_txid,
      ht.outpoint.told_after h.covers_outpoint, covers_keptAfter, covers_keptAfter,
      covers_keptAfter⟩
  unfold CInstantSendDb.removeChainedInstantSendLocks
  dsimp only
  split
  · rename_i hread
    exact hwrite _ (hnone hread)
  · rename_i islock hread
    exact hwrite _ (hsome islock hread)

theorem Told.blockLocks (h : Told serializeHash kept d)
    (change : Database Sig → uint256 → Database Sig)
    (hview : ∀ db hash, (change db hash).view serializeHash = db.view serializeHash)
    (vtx : List CTransaction) :
    Told serializeHash kept
      {(vtx.foldl (CInstantSendDb.blockLock change) ⟨d, d.db⟩).self with
        db := (vtx.foldl (CInstantSendDb.blockLock change) ⟨d, d.db⟩).batch} ∧
      (vtx.foldl (CInstantSendDb.blockLock change) ⟨d, d.db⟩).batch.view serializeHash =
        d.db.view serializeHash := by
  have hloop : ∀ s : CInstantSendDb.Batched Sig,
      (s.self.db = d.db ∧ Told serializeHash kept s.self ∧
        s.batch.view serializeHash = d.db.view serializeHash) →
      let s' := vtx.foldl (CInstantSendDb.blockLock change) s
      s'.self.db = d.db ∧ Told serializeHash kept s'.self ∧
        s'.batch.view serializeHash = d.db.view serializeHash := by
    induction vtx with
    | nil => exact fun s hs => hs
    | cons tx vtx ih =>
      rintro s ⟨hdb, htold, hbatch⟩
      apply ih
      unfold CInstantSendDb.blockLock
      split_ifs
      · obtain ⟨-, htold', hdb'⟩ := htold.getHashByTxid tx.hash
        refine ⟨hdb'.trans hdb, htold', ?_⟩
        dsimp only
        split_ifs
        · exact hbatch
        · rw [hview, hbatch]
      · exact ⟨hdb, htold, hbatch⟩
  obtain ⟨hdb, htold, hbatch⟩ := hloop ⟨d, d.db⟩ ⟨rfl, h, rfl⟩
  refine ⟨htold.of_losesView ?_, hbatch⟩
  rw [hdb, hbatch]
  exact losesView_refl _

theorem view_removeArchived (d : CInstantSendDb Sig) (nUntilHeight : ℤ) :
    (d.removeArchivedInstantSendLocks nUntilHeight).db.view serializeHash =
      d.db.view serializeHash := by
  have hloop : ∀ (keys : List InversedISLockKey) (db : Database Sig),
      (keys.foldl CInstantSendDb.forgetArchived db).view serializeHash = db.view serializeHash := by
    intro keys
    induction keys with
    | nil => exact fun db => rfl
    | cons key keys ih => exact fun db => ih _
  unfold CInstantSendDb.removeArchivedInstantSendLocks
  split_ifs
  · rfl
  · exact hloop _ _

theorem Told.removeArchived (h : Told serializeHash kept d) (nUntilHeight : ℤ) :
    Told serializeHash kept (d.removeArchivedInstantSendLocks nUntilHeight) := by
  have hview := @view_removeArchived _ serializeHash d nUntilHeight
  unfold CInstantSendDb.removeArchivedInstantSendLocks at hview ⊢
  split_ifs with hpositive
  · exact h
  · rw [if_neg hpositive] at hview
    apply h.of_losesView
    rw [hview]
    exact losesView_refl _

/-! ### Runs -/

/-- What may happen to the database: its updates, its lookups, and the loss of some
entries or all of the caches. -/
inductive DbCall (Sig : Type) where
  | writeNewInstantSendLock (islock : InstantSendLock Sig)
  | writeInstantSendLockMined (hash : uint256) (nHeight : ℤ)
  | removeConfirmedInstantSendLocks (nUntilHeight : ℤ)
  | removeArchivedInstantSendLocks (nUntilHeight : ℤ)
  | removeChainedInstantSendLocks (islockHash txid : uint256) (nHeight : ℤ)
  | writeBlockInstantSendLocks (vtx : List CTransaction) (nHeight : ℤ)
  | removeBlockInstantSendLocks (vtx : List CTransaction) (nHeight : ℤ)
  | getInstantSendLockByHash (hash : uint256) (use_cache : Bool)
  | getInstantSendLockHashByTxid (txid : uint256)
  | getInstantSendLockByTxid (txid : uint256)
  | getInstantSendLockByInput (outpoint : COutPoint)
  | knownInstantSendLock (islockHash : uint256)
  | evict (islocks txids : uint256 → Bool) (outpoints : COutPoint → Bool)
  | restart

inductive DbAnswer (Sig : Type) where
  | done
  | islock (islock : Option (InstantSendLock Sig))
  | hash (islockHash : uint256)
  | known (known : Bool)
deriving DecidableEq

/-- A call, and what it answers. A lock is written under its own hash. -/
def CInstantSendDb.perform (serializeHash : InstantSendLock Sig → uint256)
    (d : CInstantSendDb Sig) : DbCall Sig → DbAnswer Sig × CInstantSendDb Sig
  | .writeNewInstantSendLock islock =>
    (.done, d.writeNewInstantSendLock (serializeHash islock) islock)
  | .writeInstantSendLockMined hash nHeight => (.done, d.writeInstantSendLockMined hash nHeight)
  | .removeConfirmedInstantSendLocks nUntilHeight =>
    (.done, (d.removeConfirmedInstantSendLocks serializeHash nUntilHeight).2)
  | .removeArchivedInstantSendLocks nUntilHeight =>
    (.done, d.removeArchivedInstantSendLocks nUntilHeight)
  | .removeChainedInstantSendLocks islockHash txid nHeight =>
    (.done, (d.removeChainedInstantSendLocks serializeHash islockHash txid nHeight).2)
  | .writeBlockInstantSendLocks vtx nHeight => (.done, d.writeBlockInstantSendLocks vtx nHeight)
  | .removeBlockInstantSendLocks vtx nHeight => (.done, d.removeBlockInstantSendLocks vtx nHeight)
  | .getInstantSendLockByHash hash use_cache =>
    (d.getInstantSendLockByHashInternal serializeHash hash use_cache).map .islock id
  | .getInstantSendLockHashByTxid txid => (d.getInstantSendLockHashByTxidInternal txid).map .hash id
  | .getInstantSendLockByTxid txid =>
    (d.getInstantSendLockByTxid serializeHash txid).map .islock id
  | .getInstantSendLockByInput outpoint =>
    (d.getInstantSendLockByInput serializeHash outpoint).map .islock id
  | .knownInstantSendLock islockHash =>
    (d.knownInstantSendLock serializeHash islockHash).map .known id
  | .evict islocks txids outpoints =>
    (.done, {d with
      islockCache := LruCache.keepOnly d.islockCache islocks
      txidCache := LruCache.keepOnly d.txidCache txids
      outpointCache := LruCache.keepOnly d.outpointCache outpoints})
  | .restart => (.done, d.restart)

/-- What a call should answer, computed without a cache. -/
def View.answer (v : View Sig) (archived : uint256 → Bool) : DbCall Sig → DbAnswer Sig
  | .getInstantSendLockByHash hash _ => .islock (v.instantSendLockByHash hash)
  | .getInstantSendLockHashByTxid txid => .hash (v.instantSendLockHashByTxid txid)
  | .getInstantSendLockByTxid txid => .islock (v.instantSendLockByTxid txid)
  | .getInstantSendLockByInput outpoint => .islock (v.instantSendLockByInput outpoint)
  | .knownInstantSendLock islockHash =>
    .known (v.knownInstantSendLock archived islockHash)
  | _ => .done

def DbCall.confirms : DbCall Sig → Bool
  | .removeConfirmedInstantSendLocks _ => true
  | _ => false

/-- What is kept after a call: what the database holds then, and the entries of locks
removed because confirmed until something else removes them or the node restarts. -/
def View.afterCall (kept now then_ : View Sig) : DbCall Sig → View Sig
  | .removeConfirmedInstantSendLocks _ => kept
  | .restart => then_
  | _ => kept.after now then_

/-- A call, and what is kept after it. -/
def performKept (serializeHash : InstantSendLock Sig → uint256)
    (s : View Sig × CInstantSendDb Sig) (call : DbCall Sig) :
    DbAnswer Sig × (View Sig × CInstantSendDb Sig) :=
  let r := s.2.perform serializeHash call
  (r.1, s.1.afterCall (s.2.db.view serializeHash) (r.2.db.view serializeHash) call, r.2)

theorem View.after_self (h : Told serializeHash kept d) :
    kept.after (d.db.view serializeHash) (d.db.view serializeHash) = kept := by
  rw [View.after, keptAfter_self h.covers_islock, keptAfter_self h.covers_txid,
    keptAfter_self h.covers_outpoint]

theorem told_restart (d : CInstantSendDb Sig) :
    Told serializeHash (d.db.view serializeHash) d.restart where
  islock := LruCache.holds_create _ _
  txid := LruCache.holds_create _ _
  outpoint := LruCache.holds_create _ _
  covers_islock := covers_refl _
  covers_txid := covers_refl _
  covers_outpoint := covers_refl _

/-- Every answer is the database's or that of what is kept, and the caches stay in step
with both. -/
theorem Told.performKept {s : View Sig × CInstantSendDb Sig} (h : Told serializeHash s.1 s.2)
    (call : DbCall Sig) :
    ((performKept serializeHash s call).1 =
        (s.2.db.view serializeHash).answer s.2.db.archivedByHash.contains call ∨
      (performKept serializeHash s call).1 = s.1.answer s.2.db.archivedByHash.contains call) ∧
      Told serializeHash (performKept serializeHash s call).2.1
        (performKept serializeHash s call).2.2 := by
  obtain ⟨kept, d⟩ := s
  -- a call that leaves what the lookups read as it is
  have hstill : ∀ d' : CInstantSendDb Sig, Told serializeHash kept d' → d'.db.view serializeHash =
      d.db.view serializeHash → Told serializeHash (kept.after (d.db.view serializeHash)
        (d'.db.view serializeHash)) d' := by
    intro d' hd' hview
    rw [hview, View.after_self h]
    exact hd'
  cases call with
  | writeNewInstantSendLock islock => exact ⟨Or.inl rfl, h.writeNew⟩
  | writeInstantSendLockMined hash nHeight =>
    exact ⟨Or.inl rfl, hstill _ (h.of_losesView (losesView_refl _)) rfl⟩
  | removeConfirmedInstantSendLocks nUntilHeight =>
    exact ⟨Or.inl rfl, h.removeConfirmed nUntilHeight⟩
  | removeArchivedInstantSendLocks nUntilHeight =>
    exact ⟨Or.inl rfl, hstill _ (h.removeArchived nUntilHeight) (view_removeArchived d nUntilHeight)⟩
  | removeChainedInstantSendLocks islockHash txid nHeight =>
    exact ⟨Or.inl rfl, h.removeChained islockHash txid nHeight⟩
  | writeBlockInstantSendLocks vtx nHeight =>
    obtain ⟨htold, hview⟩ := h.blockLocks
      (fun db hash => db.writeInstantSendLockMined hash nHeight) (fun _ _ => rfl) vtx
    exact ⟨Or.inl rfl, hstill _ htold hview⟩
  | removeBlockInstantSendLocks vtx nHeight =>
    obtain ⟨htold, hview⟩ := h.blockLocks
      (fun db hash => db.removeInstantSendLockMined hash nHeight) (fun _ _ => rfl) vtx
    exact ⟨Or.inl rfl, hstill _ htold hview⟩
  | getInstantSendLockByHash hash use_cache =>
    obtain ⟨hanswer, htold, hdb⟩ := h.getByHash hash use_cache
    refine ⟨hanswer.imp (congrArg DbAnswer.islock) fun hk => congrArg DbAnswer.islock hk.2, ?_⟩
    exact hstill _ htold (congrArg (Database.view serializeHash) hdb)
  | getInstantSendLockHashByTxid txid =>
    obtain ⟨hanswer, htold, hdb⟩ := h.getHashByTxid txid
    refine ⟨hanswer.imp (congrArg DbAnswer.hash) (congrArg DbAnswer.hash), ?_⟩
    exact hstill _ htold (congrArg (Database.view serializeHash) hdb)
  | getInstantSendLockByTxid txid =>
    obtain ⟨hanswer, htold, hdb⟩ := h.getByTxid txid
    refine ⟨hanswer.imp (congrArg DbAnswer.islock) (congrArg DbAnswer.islock), ?_⟩
    exact hstill _ htold (congrArg (Database.view serializeHash) hdb)
  | getInstantSendLockByInput outpoint =>
    obtain ⟨hanswer, htold, hdb⟩ := h.getByInput outpoint
    refine ⟨hanswer.imp (congrArg DbAnswer.islock) (congrArg DbAnswer.islock), ?_⟩
    exact hstill _ htold (congrArg (Database.view serializeHash) hdb)
  | knownInstantSendLock islockHash =>
    obtain ⟨hanswer, htold, hdb⟩ := h.known islockHash
    refine ⟨hanswer.imp (congrArg DbAnswer.known) (congrArg DbAnswer.known), ?_⟩
    exact hstill _ htold (congrArg (Database.view serializeHash) hdb)
  | evict islocks txids outpoints =>
    refine ⟨Or.inl rfl, hstill _ {h with
      islock := LruCache.Holds.keepOnly h.islock islocks
      txid := LruCache.Holds.keepOnly h.txid txids
      outpoint := LruCache.Holds.keepOnly h.outpoint outpoints} rfl⟩
  | restart => exact ⟨Or.inl rfl, told_restart d⟩

/-- Where nothing is kept, the answers are the database's, and stay so until locks are
removed as confirmed. -/
theorem told_now {s : View Sig × CInstantSendDb Sig} {call : DbCall Sig}
    (h : s.1 = s.2.db.view serializeHash) (hcall : call.confirms = false) :
    (performKept serializeHash s call).2.1 =
      (performKept serializeHash s call).2.2.db.view serializeHash := by
  obtain ⟨kept, d⟩ := s
  dsimp only at h
  subst h
  have hafter : ∀ then_ : View Sig, (d.db.view serializeHash).after (d.db.view serializeHash) then_ =
      then_ := by
    intro then_
    rw [View.after, keptAfter_now, keptAfter_now, keptAfter_now]
  cases call with
  | removeConfirmedInstantSendLocks nUntilHeight => contradiction
  | restart => rfl
  | _ => exact hafter _

/-! ### Without removals of confirmed locks -/

variable (h : Told serializeHash (d.db.view serializeHash) d)
include h

theorem Told.isLocked (isInstantSendEnabled : Bool) (txHash : uint256) :
    (d.isLocked serializeHash isInstantSendEnabled txHash).1 =
      (isInstantSendEnabled && (d.db.view serializeHash).knownInstantSendLock
        d.db.archivedByHash.contains
        ((d.db.view serializeHash).instantSendLockHashByTxid txHash)) := by
  cases isInstantSendEnabled with
  | false => rfl
  | true =>
    obtain ⟨hhash, htold, hdb⟩ := h.getHashByTxid txHash
    obtain ⟨hknown, -, -⟩ := htold.known (d.getInstantSendLockHashByTxidInternal txHash).1
    rw [or_self] at hhash
    rw [hdb, or_self] at hknown
    rw [Bool.true_and, ← hhash, ← hknown]
    rfl

theorem Told.findConflictingLock (txHash : uint256) (vin : List CTxIn) :
    (CInstantSendDb.findConflictingLock serializeHash txHash vin d).1 = vin.findSome? fun txin =>
      ((d.db.view serializeHash).instantSendLockByInput txin.prevout).filter fun islock =>
        islock.txid ≠ txHash := by
  induction vin generalizing d with
  | nil => rfl
  | cons txin vin ih =>
    obtain ⟨hlock, htold, hdb⟩ := h.getByInput txin.prevout
    rw [or_self] at hlock
    have hrest := @ih (d.getInstantSendLockByInput serializeHash txin.prevout).2 (hdb ▸ htold)
    rw [hdb] at hrest
    rw [CInstantSendDb.findConflictingLock, List.findSome?_cons, ← hlock]
    cases hread : (d.getInstantSendLockByInput serializeHash txin.prevout).1 with
    | none => exact hrest
    | some islock =>
      dsimp only
      by_cases hother : islock.txid = txHash
      · rw [if_neg (not_not.mpr hother), Option.filter_some, if_neg (by simp [hother])]
        exact hrest
      · rw [if_pos hother, Option.filter_some, if_pos (by simp [hother])]
        exact hread

theorem Told.getConflictingLock (isInstantSendEnabled : Bool) (tx : CTransaction) :
    (d.getConflictingLock serializeHash isInstantSendEnabled tx).1 =
      if isInstantSendEnabled then (d.db.view serializeHash).conflictingLock tx else none := by
  cases isInstantSendEnabled with
  | false => rfl
  | true => exact h.findConflictingLock tx.hash tx.vin

omit h

/-- Every lookup of every run is answered as the database answers it, or as it would with
the entries of locks removed because confirmed still in it. A node that has removed no
lock as confirmed since it started answers as the database does, and so do `IsLocked` and
`GetConflictingLock`. -/
theorem lookups_told (serializeHash : InstantSendLock Sig → uint256) (db : Database Sig)
    (calls : List (DbCall Sig)) :
    Runs.EveryStep (performKept serializeHash)
        (fun s call => (performKept serializeHash s call).1 =
            (s.2.db.view serializeHash).answer s.2.db.archivedByHash.contains call ∨
          (performKept serializeHash s call).1 = s.1.answer s.2.db.archivedByHash.contains call)
        (db.view serializeHash, {db := db}) calls ∧
      ((∀ call ∈ calls, call.confirms = false) →
        Runs.EveryStep (performKept serializeHash)
          (fun s call => (performKept serializeHash s call).1 =
            (s.2.db.view serializeHash).answer s.2.db.archivedByHash.contains call)
          (db.view serializeHash, {db := db}) calls ∧
        let d := (Runs.final (performKept serializeHash) (db.view serializeHash, {db := db}) calls).2
        ∀ isInstantSendEnabled,
          (∀ txHash, (d.isLocked serializeHash isInstantSendEnabled txHash).1 =
            (isInstantSendEnabled && (d.db.view serializeHash).knownInstantSendLock
              d.db.archivedByHash.contains
              ((d.db.view serializeHash).instantSendLockHashByTxid txHash))) ∧
          ∀ tx, (d.getConflictingLock serializeHash isInstantSendEnabled tx).1 =
            if isInstantSendEnabled then (d.db.view serializeHash).conflictingLock tx
            else none) := by
  have hstart : Told serializeHash (db.view serializeHash) ({db := db} : CInstantSendDb Sig) :=
    told_restart {db := db}
  constructor
  · exact Runs.everyStep_of_invariant
      (fun s : View Sig × CInstantSendDb Sig => Told serializeHash s.1 s.2)
      (fun s call hs _ => hs.performKept call) hstart (Runs.everyStep_true _ calls)
  · intro hconfirms
    have hcalls : Runs.EveryStep (performKept serializeHash) (fun _ call => call.confirms = false)
        (db.view serializeHash, {db := db}) calls := Runs.everyStep_of_forall _ hconfirms
    have hkeep : ∀ (s : View Sig × CInstantSendDb Sig) (call : DbCall Sig),
        Told serializeHash s.1 s.2 ∧ s.1 = s.2.db.view serializeHash → call.confirms = false →
        (performKept serializeHash s call).1 =
            (s.2.db.view serializeHash).answer s.2.db.archivedByHash.contains call ∧
          Told serializeHash (performKept serializeHash s call).2.1
              (performKept serializeHash s call).2.2 ∧
            (performKept serializeHash s call).2.1 =
              (performKept serializeHash s call).2.2.db.view serializeHash := by
      rintro s call ⟨htold, hnow⟩ hcall
      obtain ⟨hanswer, htold'⟩ := htold.performKept call
      rw [hnow, or_self] at hanswer
      exact ⟨hnow ▸ hanswer, htold', told_now hnow hcall⟩
    refine ⟨Runs.everyStep_of_invariant _ hkeep ⟨hstart, rfl⟩ hcalls, ?_⟩
    obtain ⟨htold, hnow⟩ := Runs.final_invariant _ (fun s call hs hcall => (hkeep s call hs hcall).2)
      ⟨hstart, rfl⟩ hcalls
    rw [hnow] at htold
    exact fun enabled => ⟨htold.isLocked enabled, htold.getConflictingLock enabled⟩

section Examples

def oneInputLock : InstantSendLock Unit := ⟨[⟨7, 0⟩], 1, 2, some ()⟩

def afterItsTxid (islock : InstantSendLock Unit) : uint256 := islock.txid+1

/-- A lock that was removed because it is confirmed is still found by its transaction,
and not after a restart. -/
theorem lookups_not_direct : ¬∀ (db : Database Unit) (calls : List (DbCall Unit)),
    Runs.EveryStep (performKept afterItsTxid)
      (fun s call => (performKept afterItsTxid s call).1 =
        (s.2.db.view afterItsTxid).answer s.2.db.archivedByHash.contains call)
      (db.view afterItsTxid, {db := db}) calls := by
  intro h
  have hrun := h {} [.writeNewInstantSendLock oneInputLock, .writeInstantSendLockMined 2 5,
    .removeConfirmedInstantSendLocks 10, .getInstantSendLockByTxid 1]
  exact absurd hrun.2.2.2.1 (by decide +kernel)

end Examples

end BabaChain.InstantSend
