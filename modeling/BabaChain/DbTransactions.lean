import BabaChain.Lib.Cursors
import BabaChain.Lib.Overlay

/-! Databases and the transactions over them, which keep writes and deletes until they are
committed, with iterators that merge the two. -/
namespace BabaChain.DbWrapper
open Std Overlay Cursors

/-- The bytes of a serialized key. -/
abbrev Key := List UInt8

/-- The types of values, and how values are serialized; `deserialize` fails where the source's
throws. -/
structure Codecs where
  Ty : Type
  decEq : DecidableEq Ty
  Val : Ty → Type
  serialize : (V : Ty) → Val V → List UInt8
  deserialize : (V : Ty) → List UInt8 → Option (Val V)

instance (C : Codecs) : DecidableEq C.Ty := C.decEq

variable {C : Codecs}

/-- A read at a type: an error where the source throws, `none` where it returns false. -/
abbrev Reading (C : Codecs) (V : C.Ty) := Except String (Option (C.Val V))

/-! ### Databases -/

/-- The loop of `CDataStream::Xor`, at index `j` of the key. -/
def xorLoop (key : List UInt8) : ℕ → List UInt8 → List UInt8
  | _, [] => []
  | j, b :: vch => (b ^^^ key.getD j 0) :: xorLoop key (if j+1 = key.length then 0 else j+1) vch

def xor (key vch : List UInt8) : List UInt8 := if key.length = 0 then vch else xorLoop key 0 vch

inductive BatchOp where
  | put (key : Key) (value : List UInt8)
  | delete (key : Key)
deriving DecidableEq

/-- `CDBBatch`, of a database with the given `obfuscate_key`. -/
structure CDBBatch where
  obfuscate_key : List UInt8
  batch : List BatchOp := []

namespace CDBBatch

def write (b : CDBBatch) (ssKey : Key) (V : C.Ty) (value : C.Val V) : CDBBatch :=
  {b with batch := b.batch ++ [.put ssKey (xor b.obfuscate_key (C.serialize V value))]}

def erase (b : CDBBatch) (ssKey : Key) : CDBBatch := {b with batch := b.batch ++ [.delete ssKey]}

def clear (b : CDBBatch) : CDBBatch := {b with batch := []}

end CDBBatch

/-- `CDBWrapper`: what the database holds, in the order of the bytes. -/
structure CDBWrapper where
  pdb : ExtTreeMap Key (List UInt8) := ∅
  obfuscate_key : List UInt8 := []

namespace CDBWrapper

def applyOp (pdb : ExtTreeMap Key (List UInt8)) : BatchOp → ExtTreeMap Key (List UInt8)
  | .put key value => pdb.insert key value
  | .delete key => pdb.erase key

def writeBatch (db : CDBWrapper) (b : CDBBatch) : CDBWrapper :=
  {db with pdb := b.batch.foldl applyOp db.pdb}

def read (db : CDBWrapper) (ssKey : Key) (V : C.Ty) : Reading C V :=
  match db.pdb[ssKey]? with
  | none => .ok none
  | some strValue => .ok (C.deserialize V (xor db.obfuscate_key strValue))

def «exists» (db : CDBWrapper) (ssKey : Key) : Bool := db.pdb[ssKey]?.isSome

/-- `CDBIterator`: a position is the list of the keys that are left. -/
def iterator (db : CDBWrapper) : Cursor (List Key) Key := ofKeys [] db.pdb.keys

end CDBWrapper

/-! ### Transactions -/

/-- `ValueHolder`, with the size that it was made with. -/
structure ValueHolder (C : Codecs) where
  V : C.Ty
  value : C.Val V
  memoryUsage : ℕ
  memoryUsage_eq : memoryUsage = (C.serialize V value).length

/-- The cast to `ValueHolderImpl<V>`, and the value. -/
def ValueHolder.read (impl : ValueHolder C) (V : C.Ty) : Reading C V :=
  if h : impl.V = V then
    .ok (some (h ▸ impl.value))
  else
    .error "Read called with V != previously written type"

/-- `CDBTransaction`. The sizes of what is held in memory do not overflow. -/
structure CDBTransaction (C : Codecs) extends Transaction Key (ValueHolder C) where
  memoryUsage : ℤ := 0

namespace CDBTransaction

variable (t : CDBTransaction C)

def write (ssKey : Key) (V : C.Ty) (v : C.Val V) : CDBTransaction C :=
  let valueMemoryUsage := (C.serialize V v).length
  let memoryUsage := if ssKey ∈ t.deletes then t.memoryUsage-ssKey.length else t.memoryUsage
  let memoryUsage :=
    match t.writes[ssKey]? with
    | some it => memoryUsage-(ssKey.length+it.memoryUsage)
    | none => memoryUsage
  { toTransaction := t.toTransaction.write ssKey ⟨V, v, valueMemoryUsage, rfl⟩
    memoryUsage := memoryUsage+(ssKey.length+valueMemoryUsage) }

def read (parent : Key → (V : C.Ty) → Reading C V) (ssKey : Key) (V : C.Ty) : Reading C V :=
  if ssKey ∈ t.deletes then
    .ok none
  else
    match t.writes[ssKey]? with
    | some it => it.read V
    | none => parent ssKey V

def «exists» (parent : Key → Bool) (ssKey : Key) : Bool :=
  if ssKey ∈ t.deletes then false
  else if t.writes[ssKey]?.isSome then true
  else parent ssKey

def erase (ssKey : Key) : CDBTransaction C :=
  let memoryUsage :=
    match t.writes[ssKey]? with
    | some it => t.memoryUsage-(ssKey.length+it.memoryUsage)
    | none => t.memoryUsage
  { toTransaction := t.toTransaction.erase ssKey
    memoryUsage := if ssKey ∈ t.deletes then memoryUsage else memoryUsage+ssKey.length }

def clear : CDBTransaction C := {}

/-- `Commit`: what becomes of the target and of the transaction. -/
def commit {σ : Type*} (write : σ → Key → (V : C.Ty) → C.Val V → σ) (erase : σ → Key → σ)
    (commitTarget : σ) : σ × CDBTransaction C :=
  (t.toTransaction.commit (fun s ssKey it => write s ssKey it.V it.value) erase commitTarget, clear)

def isClean : Bool := t.writes.isEmpty && t.deletes.isEmpty

def getMemoryUsage : ℕ := if t.memoryUsage < 0 then 0 else t.memoryUsage.toNat

end CDBTransaction

/-! ### Iterators -/

section Iterators

variable {π : Type} (parent : Cursor π Key)

/-- `CDBTransactionIterator`. `transactionIt` is the list of the written keys that are left. Where
there is a current key, it is the one that `curIsParent` says. -/
structure CDBTransactionIterator where
  transactionIt : List Key
  parentIt : π
  parentKey : Key
  curIsParent : Bool
  decided : transactionIt ≠ [] ∨ parent.valid parentIt = true →
    if curIsParent then parent.valid parentIt = true else transactionIt ≠ []

/-- `DecideCur`. -/
def decideCur (transactionIt : List Key) (parentIt : π) (parentKey : Key) (curIsParent : Bool) :
    Bool :=
  match transactionIt, parent.valid parentIt with
  | _ :: _, false => false
  | [], true => true
  | key :: _, true => !(compare key parentKey).isLT
  | [], false => curIsParent

theorem decideCur_decided (transactionIt : List Key) (parentIt : π) (parentKey : Key)
    (curIsParent : Bool) (h : transactionIt ≠ [] ∨ parent.valid parentIt = true) :
    if decideCur parent transactionIt parentIt parentKey curIsParent then
      parent.valid parentIt = true
    else transactionIt ≠ [] := by
  unfold decideCur
  rcases transactionIt with _ | ⟨key, rest⟩ <;> rcases hvalid : parent.valid parentIt with _ | _
  · simp [hvalid] at h
  · simp
  · simp
  · split_ifs
    · rfl
    · exact List.cons_ne_nil key rest

/-- The iterator that comes out of `DecideCur`. -/
def afterDecideCur (transactionIt : List Key) (parentIt : π) (parentKey : Key) (curIsParent : Bool) :
    CDBTransactionIterator parent where
  transactionIt := transactionIt
  parentIt := parentIt
  parentKey := parentKey
  curIsParent := decideCur parent transactionIt parentIt parentKey curIsParent
  decided := decideCur_decided parent transactionIt parentIt parentKey curIsParent

variable (t : CDBTransaction C)

/-- Whether a key of the parent shows through the transaction. -/
def CDBTransaction.hides (ssKey : Key) : Bool :=
  decide (ssKey ∈ t.deletes) || t.writes[ssKey]?.isSome

/-- `SkipDeletedAndOverwritten`. -/
def skipDeletedAndOverwritten (parentIt : π) (parentKey : Key) : π × Key :=
  if _h : parent.valid parentIt = true then
    if t.hides (parent.getKey parentIt) then
      skipDeletedAndOverwritten (parent.next parentIt) (parent.getKey parentIt)
    else
      (parentIt, parent.getKey parentIt)
  else
    (parentIt, parentKey)
termination_by parent.left parentIt
decreasing_by exact parent.left_next parentIt ‹_›

/-- A skip leaves no more to move on to. -/
theorem left_skip_le (parentIt : π) (parentKey : Key) :
    parent.left (skipDeletedAndOverwritten parent t parentIt parentKey).1 ≤
      parent.left parentIt := by
  fun_induction skipDeletedAndOverwritten parent t parentIt parentKey with
  | case1 parentIt parentKey hvalid hhides ih =>
    exact ih.trans (parent.left_next parentIt hvalid).le
  | case2 => exact le_rfl
  | case3 => exact le_rfl

namespace CDBTransactionIterator

variable {parent} (it : CDBTransactionIterator parent)

def valid : Bool := !it.transactionIt.isEmpty || parent.valid it.parentIt

def getKey : Key :=
  if !it.valid then []
  else if it.curIsParent then it.parentKey
  else it.transactionIt.headD []

/-- `GetValue`, given how the parent reads; `none` also where there is no current key. -/
def getValue (read : Key → (V : C.Ty) → Reading C V) (V : C.Ty) : Reading C V :=
  if !it.valid then .ok none
  else if it.curIsParent then t.read read it.parentKey V
  else t.read read (it.transactionIt.headD []) V

def next : CDBTransactionIterator parent :=
  if !it.valid then it
  else if it.curIsParent then
    let (parentIt, parentKey) :=
      skipDeletedAndOverwritten parent t (parent.next it.parentIt) it.parentKey
    afterDecideCur parent it.transactionIt parentIt parentKey it.curIsParent
  else
    afterDecideCur parent it.transactionIt.tail it.parentIt it.parentKey it.curIsParent

def seek (ssKey : Key) : CDBTransactionIterator parent :=
  let (parentIt, parentKey) :=
    skipDeletedAndOverwritten parent t (parent.seek ssKey it.parentIt) it.parentKey
  afterDecideCur parent (t.writes.keys.dropWhile fun a => (compare a ssKey).isLT) parentIt parentKey
    it.curIsParent

def seekToFirst : CDBTransactionIterator parent :=
  let (parentIt, parentKey) :=
    skipDeletedAndOverwritten parent t (parent.seekToFirst it.parentIt) it.parentKey
  afterDecideCur parent t.writes.keys parentIt parentKey it.curIsParent

def left : ℕ := it.transactionIt.length+parent.left it.parentIt

variable {it} in
theorem left_next (h : it.valid = true) : (it.next t).left < it.left := by
  have hsome : it.transactionIt ≠ [] ∨ parent.valid it.parentIt = true := by
    simpa [valid] using h
  have hdecided := it.decided hsome
  rw [next, h, Bool.not_true, if_neg Bool.false_ne_true]
  split_ifs at hdecided ⊢
  · have hskip := left_skip_le parent t (parent.next it.parentIt) it.parentKey
    have hnext := parent.left_next it.parentIt hdecided
    simp only [left, afterDecideCur]
    omega
  · have hpos := List.length_pos_of_ne_nil hdecided
    simp only [left, afterDecideCur, List.length_tail]
    omega

end CDBTransactionIterator

/-- `NewIterator`. -/
def CDBTransaction.iterator (t : CDBTransaction C) (parent : Cursor π Key) :
    Cursor (CDBTransactionIterator parent) Key where
  valid it := it.valid
  getKey it := it.getKey
  next it := it.next t
  seek ssKey it := it.seek t ssKey
  seekToFirst it := it.seekToFirst t
  left it := it.left
  left_next _ h := CDBTransactionIterator.left_next t h

end Iterators

/-! ### The database of the evo data -/

structure CEvoDB (C : Codecs) where
  db : CDBWrapper := {}
  rootBatch : CDBBatch
  rootDBTransaction : CDBTransaction C := {}
  curDBTransaction : CDBTransaction C := {}

namespace CEvoDB

/-- The constructor, on a database that has been opened. -/
def new (db : CDBWrapper) : CEvoDB C where
  db := db
  rootBatch := {obfuscate_key := db.obfuscate_key}

variable (evoDB : CEvoDB C)

def readRoot : Key → (V : C.Ty) → Reading C V := evoDB.rootDBTransaction.read evoDB.db.read

def existsRoot : Key → Bool := evoDB.rootDBTransaction.exists evoDB.db.exists

def read : Key → (V : C.Ty) → Reading C V := evoDB.curDBTransaction.read evoDB.readRoot

def «exists» : Key → Bool := evoDB.curDBTransaction.exists evoDB.existsRoot

def write (ssKey : Key) (V : C.Ty) (v : C.Val V) : CEvoDB C :=
  {evoDB with curDBTransaction := evoDB.curDBTransaction.write ssKey V v}

def erase (ssKey : Key) : CEvoDB C :=
  {evoDB with curDBTransaction := evoDB.curDBTransaction.erase ssKey}

def commitCurTransaction : CEvoDB C :=
  let (rootDBTransaction, curDBTransaction) := evoDB.curDBTransaction.commit CDBTransaction.write
    CDBTransaction.erase evoDB.rootDBTransaction
  {evoDB with rootDBTransaction, curDBTransaction}

def rollbackCurTransaction : CEvoDB C := {evoDB with curDBTransaction := .clear}

/-- `CommitRootTransaction`; `none` where the assertion fails. -/
def commitRootTransaction : Option (CEvoDB C) :=
  if evoDB.curDBTransaction.isClean then
    let (rootBatch, rootDBTransaction) :=
      evoDB.rootDBTransaction.commit CDBBatch.write CDBBatch.erase evoDB.rootBatch
    some {evoDB with
      db := evoDB.db.writeBatch rootBatch
      rootBatch := rootBatch.clear
      rootDBTransaction }
  else
    none

def getMemoryUsage : ℕ := evoDB.rootDBTransaction.getMemoryUsage

def rootIterator : Cursor (CDBTransactionIterator evoDB.db.iterator) Key :=
  evoDB.rootDBTransaction.iterator evoDB.db.iterator

def curIterator : Cursor (CDBTransactionIterator evoDB.rootIterator) Key :=
  evoDB.curDBTransaction.iterator evoDB.rootIterator

end CEvoDB

/-- `CEvoDBScopedCommitter`. -/
structure CEvoDBScopedCommitter where
  didCommitOrRollback : Bool := false

namespace CEvoDBScopedCommitter

variable (committer : CEvoDBScopedCommitter) (evoDB : CEvoDB C)

/-- `none` where the assertion fails, here and in the rollback. -/
def commit : Option (CEvoDBScopedCommitter × CEvoDB C) :=
  if committer.didCommitOrRollback then none else some (⟨true⟩, evoDB.commitCurTransaction)

def rollback : Option (CEvoDBScopedCommitter × CEvoDB C) :=
  if committer.didCommitOrRollback then none else some (⟨true⟩, evoDB.rollbackCurTransaction)

/-- The destructor. -/
def destroy : CEvoDB C :=
  if committer.didCommitOrRollback then evoDB else evoDB.rollbackCurTransaction

end CEvoDBScopedCommitter
end BabaChain.DbWrapper
