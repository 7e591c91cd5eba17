import BabaChain.InstantSend
import BabaChain.Lib.LruCache
import BabaChain.Lib.StoreWrites

/-! `CInstantSendDb`: the InstantSend locks, the indexes that find them, and the
archive of those that are gone. -/
namespace BabaChain.InstantSend
open Std

/-- `BuildInversedISLockKey`: keys with a greater height come first. -/
structure InversedISLockKey where
  inversedHeight : BitVec 32
  islockHash : uint256
deriving DecidableEq

instance : Ord InversedISLockKey :=
  ⟨compareLex (compareOn InversedISLockKey.inversedHeight)
    (compareOn InversedISLockKey.islockHash)⟩

instance : TransOrd InversedISLockKey :=
  inferInstanceAs (TransCmp (compareLex (compareOn InversedISLockKey.inversedHeight)
    (compareOn InversedISLockKey.islockHash)))

instance : LawfulEqOrd InversedISLockKey where
  eq_of_compare {a b} h := by
    obtain ⟨hheight, hhash⟩ := compareLex_eq_eq.mp h
    cases a
    cases b
    rw [InversedISLockKey.mk.injEq]
    exact ⟨LawfulEqOrd.eq_of_compare hheight, LawfulEqOrd.eq_of_compare hhash⟩

def buildInversedISLockKey (nHeight : ℤ) (islockHash : uint256) : InversedISLockKey :=
  ⟨0xFFFFFFFF-BitVec.ofInt 32 nHeight, islockHash⟩

def InversedISLockKey.nHeight (k : InversedISLockKey) : BitVec 32 := 0xFFFFFFFF-k.inversedHeight

/-- The database, one map for each family of keys. -/
structure Database (Sig : Type) where
  islockByHash : ExtTreeMap uint256 (InstantSendLock Sig) := ∅
  hashByTxid : ExtTreeMap uint256 uint256 := ∅
  hashByOutpoint : ExtTreeMap COutPoint uint256 := ∅
  minedByHeightAndHash : ExtTreeSet InversedISLockKey := ∅
  archivedByHeightAndHash : ExtTreeSet InversedISLockKey := ∅
  archivedByHash : ExtTreeSet uint256 := ∅

/-- The database and its caches. A lock that is not in the database may be cached as
`none`. -/
structure CInstantSendDb (Sig : Type) where
  best_confirmed_height : ℤ := 0
  db : Database Sig := {}
  islockCache : LruCache.Cache uint256 (Option (InstantSendLock Sig)) := LruCache.create 10000
  txidCache : LruCache.Cache uint256 uint256 := LruCache.create 10000
  outpointCache : LruCache.Cache COutPoint uint256 := LruCache.create 10000

variable {Sig : Type}

namespace Database

def writeNewInstantSendLock (db : Database Sig) (hash : uint256) (islock : InstantSendLock Sig) :
    Database Sig :=
  {db with
    islockByHash := db.islockByHash.insert hash islock
    hashByTxid := db.hashByTxid.insert islock.txid hash
    hashByOutpoint := islock.inputs.foldl (fun m o => m.insert o hash) db.hashByOutpoint}

def removeInstantSendLock (db : Database Sig) (hash : uint256) (islock : InstantSendLock Sig) :
    Database Sig :=
  {db with
    islockByHash := db.islockByHash.erase hash
    hashByTxid := db.hashByTxid.erase islock.txid
    hashByOutpoint := islock.inputs.foldl (fun m o => m.erase o) db.hashByOutpoint}

def writeInstantSendLockMined (db : Database Sig) (hash : uint256) (nHeight : ℤ) : Database Sig :=
  {db with
    minedByHeightAndHash := db.minedByHeightAndHash.insert (buildInversedISLockKey nHeight hash)}

def removeInstantSendLockMined (db : Database Sig) (hash : uint256) (nHeight : ℤ) : Database Sig :=
  {db with
    minedByHeightAndHash := db.minedByHeightAndHash.erase (buildInversedISLockKey nHeight hash)}

def writeInstantSendLockArchived (db : Database Sig) (hash : uint256) (nHeight : ℤ) :
    Database Sig :=
  {db with
    archivedByHeightAndHash :=
      db.archivedByHeightAndHash.insert (buildInversedISLockKey nHeight hash)
    archivedByHash := db.archivedByHash.insert hash}

/-- The keys that a loop up to a height visits: from the key of the height on. -/
def keysUntil (keys : ExtTreeSet InversedISLockKey) (nUntilHeight : ℤ) : List InversedISLockKey :=
  let firstKey := buildInversedISLockKey nUntilHeight 0
  (keys.toList.dropWhile fun k => (compare k firstKey).isLT).takeWhile fun k =>
    k.nHeight ≤ BitVec.ofInt 32 nUntilHeight

/-- `GetInstantSendLocksByParent`. -/
def getInstantSendLocksByParent (db : Database Sig) (parent : uint256) : List uint256 :=
  let firstKey : COutPoint := ⟨parent, 0⟩
  ((db.hashByOutpoint.toList.dropWhile fun p => (compare p.1 firstKey).isLT).takeWhile
    fun p => p.1.hash = parent).map Prod.snd

variable (serializeHash : InstantSendLock Sig → uint256)

/-- A lock as it is read from the database. A value with another hash is refused; the
source reads it a second time, and gets the same. -/
def readInstantSendLock (db : Database Sig) (hash : uint256) : Option (InstantSendLock Sig) :=
  (db.islockByHash[hash]?).filter fun islock => serializeHash islock = hash

end Database

namespace CInstantSendDb

/-- `WriteNewInstantSendLock`. -/
def writeNewInstantSendLock (d : CInstantSendDb Sig) (hash : uint256)
    (islock : InstantSendLock Sig) : CInstantSendDb Sig :=
  {d with
    db := d.db.writeNewInstantSendLock hash islock
    islockCache := LruCache.insert d.islockCache hash (some islock)
    txidCache := LruCache.insert d.txidCache islock.txid hash
    outpointCache := islock.inputs.foldl (fun c o => LruCache.insert c o hash) d.outpointCache}

/-- A database with the changes of a batch that is not written yet. -/
structure Batched (Sig : Type) where
  self : CInstantSendDb Sig
  batch : Database Sig

/-- `RemoveInstantSendLock`. -/
def removeInstantSendLock (s : Batched Sig) (hash : uint256) (islock : InstantSendLock Sig)
    (keep_cache : Bool) : Batched Sig :=
  {s with
    batch := s.batch.removeInstantSendLock hash islock
    self :=
      if keep_cache then s.self
      else {s.self with
        islockCache := LruCache.erase s.self.islockCache hash
        txidCache := LruCache.erase s.self.txidCache islock.txid
        outpointCache := islock.inputs.foldl (fun c o => LruCache.erase c o) s.self.outpointCache}}

/-- `WriteInstantSendLockMined`. -/
def writeInstantSendLockMined (d : CInstantSendDb Sig) (hash : uint256) (nHeight : ℤ) :
    CInstantSendDb Sig :=
  {d with db := d.db.writeInstantSendLockMined hash nHeight}

variable (serializeHash : InstantSendLock Sig → uint256)

/-- `GetInstantSendLockByHashInternal`. -/
def getInstantSendLockByHashInternal (d : CInstantSendDb Sig) (hash : uint256)
    (use_cache : Bool) : Option (InstantSendLock Sig) × CInstantSendDb Sig :=
  if hash = 0 then
    (none, d)
  else
    let cached := LruCache.get d.islockCache hash
    match use_cache, cached.1 with
    | true, some ret => (ret, {d with islockCache := cached.2})
    | _, _ =>
      let ret := d.db.readInstantSendLock serializeHash hash
      (ret, {d with islockCache := LruCache.insert d.islockCache hash ret})

theorem getByHash_uncached (d : CInstantSendDb Sig) (hash : uint256) :
    d.getInstantSendLockByHashInternal serializeHash hash false =
      if hash = 0 then (none, d)
      else (d.db.readInstantSendLock serializeHash hash,
        {d with
          islockCache :=
            LruCache.insert d.islockCache hash (d.db.readInstantSendLock serializeHash hash)}) :=
  rfl

/-- `GetInstantSendLockHashByTxidInternal`. -/
def getInstantSendLockHashByTxidInternal (d : CInstantSendDb Sig) (txid : uint256) :
    uint256 × CInstantSendDb Sig :=
  let cached := LruCache.get d.txidCache txid
  match cached.1 with
  | some islockHash => (islockHash, {d with txidCache := cached.2})
  | none =>
    match d.db.hashByTxid[txid]? with
    | none => (0, d)
    | some islockHash => (islockHash, {d with txidCache := LruCache.insert d.txidCache txid islockHash})

/-- `GetInstantSendLockByTxid`. -/
def getInstantSendLockByTxid (d : CInstantSendDb Sig) (txid : uint256) :
    Option (InstantSendLock Sig) × CInstantSendDb Sig :=
  let islockHash := d.getInstantSendLockHashByTxidInternal txid
  islockHash.2.getInstantSendLockByHashInternal serializeHash islockHash.1 true

/-- `GetInstantSendLockByInput`. -/
def getInstantSendLockByInput (d : CInstantSendDb Sig) (outpoint : COutPoint) :
    Option (InstantSendLock Sig) × CInstantSendDb Sig :=
  let cached := LruCache.get d.outpointCache outpoint
  match cached.1 with
  | some islockHash =>
    {d with outpointCache := cached.2}.getInstantSendLockByHashInternal serializeHash islockHash true
  | none =>
    match d.db.hashByOutpoint[outpoint]? with
    | none => (none, d)
    | some islockHash =>
      {d with outpointCache := LruCache.insert d.outpointCache outpoint islockHash}
        |>.getInstantSendLockByHashInternal serializeHash islockHash true

/-- `KnownInstantSendLock`. -/
def knownInstantSendLock (d : CInstantSendDb Sig) (islockHash : uint256) :
    Bool × CInstantSendDb Sig :=
  let islock := d.getInstantSendLockByHashInternal serializeHash islockHash true
  (islock.1.isSome || d.db.archivedByHash.contains islockHash, islock.2)

/-- One turn of the loop of `RemoveConfirmedInstantSendLocks`. -/
def confirmLock (s : Batched Sig × ExtTreeMap uint256 (InstantSendLock Sig))
    (curKey : InversedISLockKey) : Batched Sig × ExtTreeMap uint256 (InstantSendLock Sig) :=
  let islock := s.1.self.getInstantSendLockByHashInternal serializeHash curKey.islockHash false
  let s := ({s.1 with self := islock.2}, s.2)
  let s :=
    match islock.1 with
    | none => s
    | some islock =>
      (removeInstantSendLock s.1 curKey.islockHash islock true,
        s.2.insertIfNew curKey.islockHash islock)
  -- the hash is archived even where the lock is gone
  let batch := s.1.batch.writeInstantSendLockArchived curKey.islockHash curKey.nHeight.toInt
  ({s.1 with batch := {batch with
    minedByHeightAndHash := batch.minedByHeightAndHash.erase curKey}}, s.2)

/-- `RemoveConfirmedInstantSendLocks`. -/
def removeConfirmedInstantSendLocks (d : CInstantSendDb Sig) (nUntilHeight : ℤ) :
    ExtTreeMap uint256 (InstantSendLock Sig) × CInstantSendDb Sig :=
  if nUntilHeight ≤ d.best_confirmed_height then
    (∅, d)
  else
    let keys := Database.keysUntil d.db.minedByHeightAndHash nUntilHeight
    let s := keys.foldl (confirmLock serializeHash)
      (⟨{d with best_confirmed_height := nUntilHeight}, d.db⟩, ∅)
    (s.2, {s.1.self with db := s.1.batch})

/-- One turn of the loop of `RemoveArchivedInstantSendLocks`. -/
def forgetArchived (db : Database Sig) (curKey : InversedISLockKey) : Database Sig :=
  {db with
    archivedByHash := db.archivedByHash.erase curKey.islockHash
    archivedByHeightAndHash := db.archivedByHeightAndHash.erase curKey}

/-- `RemoveArchivedInstantSendLocks`. -/
def removeArchivedInstantSendLocks (d : CInstantSendDb Sig) (nUntilHeight : ℤ) :
    CInstantSendDb Sig :=
  if nUntilHeight ≤ 0 then
    d
  else
    let keys := Database.keysUntil d.db.archivedByHeightAndHash nUntilHeight
    {d with db := keys.foldl forgetArchived d.db}

/-- Coinbase transactions and those without inputs cannot be locked. -/
def lockable (tx : CTransaction) : Bool :=
  !(tx.vin == [⟨⟨0, 0xFFFFFFFF⟩⟩]) && !tx.vin.isEmpty

/-- What the loops of `WriteBlockInstantSendLocks` and `RemoveBlockInstantSendLocks` do
for one transaction. -/
def blockLock (change : Database Sig → uint256 → Database Sig) (s : Batched Sig)
    (tx : CTransaction) : Batched Sig :=
  if lockable tx then
    let islockHash := s.self.getInstantSendLockHashByTxidInternal tx.hash
    {self := islockHash.2
     batch := if islockHash.1 = 0 then s.batch else change s.batch islockHash.1}
  else
    s

/-- `WriteBlockInstantSendLocks`. -/
def writeBlockInstantSendLocks (d : CInstantSendDb Sig) (vtx : List CTransaction) (nHeight : ℤ) :
    CInstantSendDb Sig :=
  let s := vtx.foldl (blockLock fun db hash => db.writeInstantSendLockMined hash nHeight) ⟨d, d.db⟩
  {s.self with db := s.batch}

/-- `RemoveBlockInstantSendLocks`. -/
def removeBlockInstantSendLocks (d : CInstantSendDb Sig) (vtx : List CTransaction) (nHeight : ℤ) :
    CInstantSendDb Sig :=
  let s := vtx.foldl (blockLock fun db hash => db.removeInstantSendLockMined hash nHeight) ⟨d, d.db⟩
  {s.self with db := s.batch}

/-- The variables of the loop of `RemoveChainedInstantSendLocks`. The stack has its back
at the head of the list. -/
structure ChainedRemoval (Sig : Type) extends Batched Sig where
  stack : List uint256
  added : ExtTreeSet uint256 := ∅
  result : List uint256 := []

/-- The loop's body for one child. -/
def removeChild (nHeight : ℤ) (s : ChainedRemoval Sig) (childIslockHash : uint256) :
    ChainedRemoval Sig :=
  let childIsLock := s.self.getInstantSendLockByHashInternal serializeHash childIslockHash false
  let s := {s with self := childIsLock.2}
  match childIsLock.1 with
  | none => s
  | some childIsLock =>
    let t := removeInstantSendLock s.toBatched childIslockHash childIsLock false
    {s with
      self := t.self
      batch := t.batch.writeInstantSendLockArchived childIslockHash nHeight
      result := s.result ++ [childIslockHash]
      added := s.added.insert childIsLock.txid
      stack := if childIsLock.txid ∈ s.added then s.stack else childIsLock.txid :: s.stack}

/-- The loop, for as many turns as there may be. -/
def removeChildren (nHeight : ℤ) : ℕ → ChainedRemoval Sig → ChainedRemoval Sig
  | 0, s => s
  | fuel+1, s =>
    match s.stack with
    | [] => s
    | parent :: stack =>
      removeChildren nHeight fuel
        ((s.self.db.getInstantSendLocksByParent parent).foldl (removeChild serializeHash nHeight)
          {s with stack := stack})

/-- `RemoveChainedInstantSendLocks`. Each turn beyond the first is for the transaction of
another lock. -/
def removeChainedInstantSendLocks (d : CInstantSendDb Sig) (islockHash txid : uint256)
    (nHeight : ℤ) : List uint256 × CInstantSendDb Sig :=
  let s := removeChildren serializeHash nHeight (d.db.islockByHash.size+1)
    {self := d, batch := d.db, stack := [txid]}
  let islock := s.self.getInstantSendLockByHashInternal serializeHash islockHash false
  let t : Batched Sig := {self := islock.2, batch := s.batch}
  let t :=
    match islock.1 with
    | none => t
    | some islock => removeInstantSendLock t islockHash islock false
  (s.result ++ [islockHash],
    {t.self with db := t.batch.writeInstantSendLockArchived islockHash nHeight})

/-- `CInstantSendManager::IsLocked`, where InstantSend may be off. -/
def isLocked (d : CInstantSendDb Sig) (isInstantSendEnabled : Bool) (txHash : uint256) :
    Bool × CInstantSendDb Sig :=
  if isInstantSendEnabled then
    let islockHash := d.getInstantSendLockHashByTxidInternal txHash
    islockHash.2.knownInstantSendLock serializeHash islockHash.1
  else
    (false, d)

/-- The loop of `GetConflictingLock` over the inputs of a transaction. -/
def findConflictingLock (txHash : uint256) :
    List CTxIn → CInstantSendDb Sig → Option (InstantSendLock Sig) × CInstantSendDb Sig
  | [], d => (none, d)
  | txin :: vin, d =>
    let otherIsLock := d.getInstantSendLockByInput serializeHash txin.prevout
    match otherIsLock.1 with
    | none => findConflictingLock txHash vin otherIsLock.2
    | some islock =>
      if islock.txid ≠ txHash then otherIsLock else findConflictingLock txHash vin otherIsLock.2

/-- `CInstantSendManager::GetConflictingLock`. -/
def getConflictingLock (d : CInstantSendDb Sig) (isInstantSendEnabled : Bool) (tx : CTransaction) :
    Option (InstantSendLock Sig) × CInstantSendDb Sig :=
  if isInstantSendEnabled then findConflictingLock serializeHash tx.hash tx.vin d else (none, d)

/-- A restart leaves the database, and the caches empty. -/
def restart (d : CInstantSendDb Sig) : CInstantSendDb Sig := {db := d.db}

end CInstantSendDb

end BabaChain.InstantSend
