import BabaChain.DbIterators

/-! The transactions of the evo database as plain ordered maps. -/
namespace BabaChain.DbWrapper
open Std Overlay Cursors OrdMap

variable {C : Codecs}

/-! ### Sizes -/

namespace CDBTransaction

variable (t : CDBTransaction C)

def writeSize (ssKey : Key) (it : ValueHolder C) : ℤ :=
  ssKey.length+(C.serialize it.V it.value).length

def deleteSize (ssKey : Key) : ℤ := ssKey.length

/-- The sizes of the pending writes and deletes. -/
def pendingSize : ℤ := total writeSize t.writes+setTotal deleteSize t.deletes

/-- What the accounts hold for a key, and give back before it is written. -/
def released (ssKey : Key) : ℤ :=
  (t.writes[ssKey]?.map (writeSize ssKey)).getD 0+if ssKey ∈ t.deletes then deleteSize ssKey else 0

theorem memoryUsage_write (ssKey : Key) (V : C.Ty) (v : C.Val V) :
    (t.write ssKey V v).memoryUsage =
      t.memoryUsage-t.released ssKey+(ssKey.length+(C.serialize V v).length) := by
  unfold write released deleteSize
  dsimp only
  rcases t.writes[ssKey]? with _ | it
  · split_ifs <;> simp
  · simp only [Option.map_some, Option.getD_some, writeSize, it.memoryUsage_eq]
    split_ifs <;> omega

theorem memoryUsage_erase (ssKey : Key) : (t.erase ssKey).memoryUsage =
    t.memoryUsage-t.released ssKey+ssKey.length := by
  unfold erase released deleteSize
  dsimp only
  rcases t.writes[ssKey]? with _ | it
  · split_ifs <;> simp
  · simp only [Option.map_some, Option.getD_some, writeSize, it.memoryUsage_eq]
    split_ifs <;> omega

/-- What is pending besides a key. -/
theorem pendingSize_sub_released (ssKey : Key) : t.pendingSize-t.released ssKey =
    total writeSize (t.writes.erase ssKey)+setTotal deleteSize (t.deletes.erase ssKey) := by
  rw [pendingSize, released, total_erase]
  split_ifs with hdeleted
  · rw [setTotal_erase deleteSize hdeleted]
    omega
  · have hsame : t.deletes.erase ssKey = t.deletes := by
      classical
      apply ExtTreeSet.ext_mem
      intro a
      rw [mem_set_erase, and_iff_right_iff_imp]
      rintro ha rfl
      exact hdeleted ha
    rw [hsame]
    omega

theorem pendingSize_write (ssKey : Key) (V : C.Ty) (v : C.Val V) :
    (t.write ssKey V v).pendingSize =
      t.pendingSize-t.released ssKey+(ssKey.length+(C.serialize V v).length) := by
  rw [pendingSize_sub_released]
  simp only [pendingSize, write, Transaction.write, total_insert, writeSize]
  omega

theorem pendingSize_erase (ssKey : Key) :
    (t.erase ssKey).pendingSize = t.pendingSize-t.released ssKey+ssKey.length := by
  have hinsert : setTotal deleteSize (t.deletes.insert ssKey) =
      setTotal deleteSize (t.deletes.erase ssKey)+ssKey.length := by
    classical
    have hnot : ssKey ∉ t.deletes.erase ssKey := fun hmem => (mem_set_erase.mp hmem).1 rfl
    have hsame : (t.deletes.erase ssKey).insert ssKey = t.deletes.insert ssKey := by
      apply ExtTreeSet.ext_mem
      intro a
      rw [mem_set_insert, mem_set_insert, mem_set_erase]
      tauto
    rw [← hsame]
    exact setTotal_insert deleteSize hnot
  rw [pendingSize_sub_released]
  simp only [pendingSize, erase, Transaction.erase, hinsert]
  omega

/-- The account is the exact size of what is pending. -/
def Accounted : Prop := t.memoryUsage = t.pendingSize

variable {t}

theorem Accounted.write (h : t.Accounted) (ssKey : Key) (V : C.Ty) (v : C.Val V) :
    (t.write ssKey V v).Accounted := by
  rw [Accounted, memoryUsage_write, pendingSize_write, h]

theorem Accounted.erase (h : t.Accounted) (ssKey : Key) : (t.erase ssKey).Accounted := by
  rw [Accounted, memoryUsage_erase, pendingSize_erase, h]

theorem accounted_clear : (clear : CDBTransaction C).Accounted := rfl

/-- What is committed into another transaction is accounted for there. -/
theorem Accounted.commit (h : t.Accounted) (t' : CDBTransaction C) :
    (t'.commit CDBTransaction.write CDBTransaction.erase t).1.Accounted := by
  have herased : ∀ (keys : List Key) (t : CDBTransaction C), t.Accounted →
      (keys.foldl CDBTransaction.erase t).Accounted := by
    intro keys
    induction keys with
    | nil => exact fun t ht => ht
    | cons k keys ih => exact fun t ht => ih _ (ht.erase k)
  have hwritten : ∀ (items : List (Key × ValueHolder C)) (t : CDBTransaction C), t.Accounted →
      (items.foldl (fun t p => t.write p.1 p.2.V p.2.value) t).Accounted := by
    intro items
    induction items with
    | nil => exact fun t ht => ht
    | cons p items ih => exact fun t ht => ih _ (ht.write p.1 p.2.V p.2.value)
  exact hwritten _ _ (herased _ t h)

theorem writeSize_nonneg (ssKey : Key) (it : ValueHolder C) : 0 ≤ writeSize ssKey it :=
  add_nonneg (Int.natCast_nonneg _) (Int.natCast_nonneg _)

theorem deleteSize_nonneg (ssKey : Key) : 0 ≤ deleteSize ssKey := Int.natCast_nonneg _

theorem Accounted.getMemoryUsage_eq (h : t.Accounted) :
    (t.getMemoryUsage : ℤ) = t.pendingSize := by
  have hnonneg : 0 ≤ t.pendingSize :=
    add_nonneg (total_nonneg writeSize_nonneg t.writes) (setTotal_nonneg deleteSize_nonneg t.deletes)
  rw [getMemoryUsage, h, if_neg hnonneg.not_gt, Int.toNat_of_nonneg hnonneg]

/-- No subtraction takes the account below zero. -/
theorem Accounted.released_le (h : t.Accounted) (ssKey : Key) :
    t.released ssKey ≤ t.memoryUsage := by
  have hrest := t.pendingSize_sub_released ssKey
  have hwrites := total_nonneg writeSize_nonneg (t.writes.erase ssKey)
  have hdeletes := setTotal_nonneg deleteSize_nonneg (t.deletes.erase ssKey)
  rw [Accounted] at h
  omega

end CDBTransaction

/-! ### Cells -/

/-- What a key holds: a value that has not gone to the database, or the bytes there. -/
inductive Cell (C : Codecs) where
  | pending (V : C.Ty) (value : C.Val V)
  | stored (bytes : List UInt8)

namespace Cell

def bytes : Cell C → List UInt8
  | .pending V value => C.serialize V value
  | .stored bytes => bytes

/-- A pending value is only read at its own type. -/
def read : Cell C → (V : C.Ty) → Reading C V
  | .pending W value, V =>
    if h : W = V then
      .ok (some (h ▸ value))
    else
      .error "Read called with V != previously written type"
  | .stored bytes, V => .ok (C.deserialize V bytes)

/-- A read of a key that may hold nothing. -/
def readAt (cell : Option (Cell C)) (V : C.Ty) : Reading C V :=
  match cell with
  | none => .ok none
  | some cell => cell.read V

end Cell

def ValueHolder.cell (it : ValueHolder C) : Cell C := .pending it.V it.value

theorem xorLoop_xorLoop (key : List UInt8) (j : ℕ) (vch : List UInt8) :
    xorLoop key j (xorLoop key j vch) = vch := by
  induction vch generalizing j with
  | nil => rfl
  | cons b vch ih => rw [xorLoop, xorLoop, ih, UInt8.xor_assoc, UInt8.xor_self, UInt8.xor_zero]

/-- What has been obfuscated is read as it was. -/
theorem xor_xor (key vch : List UInt8) : xor key (xor key vch) = vch := by
  unfold xor
  split_ifs
  · rfl
  · exact xorLoop_xorLoop key 0 vch

namespace CDBWrapper

variable (db : CDBWrapper)

/-- The bytes under a key, as they were written. -/
def bytes (ssKey : Key) : Option (List UInt8) := db.pdb[ssKey]?.map (xor db.obfuscate_key)

def cells (ssKey : Key) : Option (Cell C) := (db.bytes ssKey).map .stored

theorem read_eq (ssKey : Key) (V : C.Ty) : db.read ssKey V = Cell.readAt (db.cells ssKey) V := by
  unfold read cells bytes
  cases db.pdb[ssKey]? <;> rfl

theorem exists_eq (ssKey : Key) : db.exists ssKey = (db.cells ssKey : Option (Cell C)).isSome := by
  rw [CDBWrapper.exists, cells, bytes, Option.isSome_map, Option.isSome_map]

end CDBWrapper

namespace CDBTransaction

variable (t : CDBTransaction C)

/-- The cells that show through a transaction. -/
def cells (parent : Key → Option (Cell C)) : Key → Option (Cell C) :=
  t.toTransaction.readAs ValueHolder.cell parent

theorem read_eq {parent : Key → (V : C.Ty) → Reading C V} {cells : Key → Option (Cell C)}
    (h : ∀ ssKey V, parent ssKey V = Cell.readAt (cells ssKey) V) (ssKey : Key) (V : C.Ty) :
    t.read parent ssKey V = Cell.readAt (t.cells cells ssKey) V := by
  unfold read CDBTransaction.cells Transaction.readAs
  split_ifs
  · rfl
  · rcases t.writes[ssKey]? with _ | it
    · exact h ssKey V
    · rfl

theorem exists_eq {parent : Key → Bool} {cells : Key → Option (Cell C)}
    (h : ∀ ssKey, parent ssKey = (cells ssKey).isSome) (ssKey : Key) :
    t.exists parent ssKey = (t.cells cells ssKey).isSome := by
  unfold CDBTransaction.exists CDBTransaction.cells Transaction.readAs
  split_ifs with hdelete hwrite
  · rfl
  · obtain ⟨it, hit⟩ := Option.isSome_iff_exists.mp hwrite
    rw [hit]
    rfl
  · rw [Option.not_isSome_iff_eq_none.mp hwrite]
    exact h ssKey

theorem cells_of_isClean (h : t.isClean = true) (parent : Key → Option (Cell C)) :
    t.cells parent = parent := by
  obtain ⟨hwrites, hdeletes⟩ := Bool.and_eq_true_iff.mp h
  funext ssKey
  rw [cells, Transaction.readAs, ExtTreeSet.isEmpty_iff.mp hdeletes,
    ExtTreeMap.isEmpty_iff.mp hwrites, if_neg (by simp)]
  simp

theorem isClean_clear : (clear : CDBTransaction C).isClean = true := rfl

end CDBTransaction

/-! ### Plain maps -/

/-- The database and what is seen through each transaction, as maps of their own. -/
structure PlainMaps (C : Codecs) where
  db : ExtTreeMap Key (List UInt8)
  root : ExtTreeMap Key (Cell C)
  cur : ExtTreeMap Key (Cell C)

/-- The operations on the evo database. -/
inductive Op (C : Codecs) where
  | write (ssKey : Key) (V : C.Ty) (v : C.Val V)
  | erase (ssKey : Key)
  | commit (committer : CEvoDBScopedCommitter)
  | rollback (committer : CEvoDBScopedCommitter)
  | destroy (committer : CEvoDBScopedCommitter)
  | commitRoot

namespace PlainMaps

/-- The maps over a database without transactions. -/
def ofDb (db : ExtTreeMap Key (List UInt8)) : PlainMaps C where
  db := db
  root := db.map fun _ bytes => .stored bytes
  cur := db.map fun _ bytes => .stored bytes

def commitCur (s : PlainMaps C) : PlainMaps C := {s with root := s.cur}

def rollbackCur (s : PlainMaps C) : PlainMaps C := {s with cur := s.root}

def step (s : PlainMaps C) : Op C → PlainMaps C
  | .write ssKey V v => {s with cur := s.cur.insert ssKey (.pending V v)}
  | .erase ssKey => {s with cur := s.cur.erase ssKey}
  | .commit _ => s.commitCur
  | .rollback _ => s.rollbackCur
  | .destroy committer => if committer.didCommitOrRollback then s else s.rollbackCur
  | .commitRoot => ofDb (s.root.map fun _ cell => cell.bytes)

end PlainMaps

namespace CEvoDB

/-- `none` where an assertion fails. -/
def step (evoDB : CEvoDB C) : Op C → Option (CEvoDB C)
  | .write ssKey V v => some (evoDB.write ssKey V v)
  | .erase ssKey => some (evoDB.erase ssKey)
  | .commit committer => (committer.commit evoDB).map Prod.snd
  | .rollback committer => (committer.rollback evoDB).map Prod.snd
  | .destroy committer => some (committer.destroy evoDB)
  | .commitRoot => evoDB.commitRootTransaction

def rootCells (evoDB : CEvoDB C) : Key → Option (Cell C) :=
  evoDB.rootDBTransaction.cells evoDB.db.cells

def curCells (evoDB : CEvoDB C) : Key → Option (Cell C) :=
  evoDB.curDBTransaction.cells evoDB.rootCells

end CEvoDB

/-- The evo database holds what the maps hold. -/
structure Refines (evoDB : CEvoDB C) (s : PlainMaps C) : Prop where
  db : ∀ ssKey, evoDB.db.bytes ssKey = s.db[ssKey]?
  root : ∀ ssKey, evoDB.rootCells ssKey = s.root[ssKey]?
  cur : ∀ ssKey, evoDB.curCells ssKey = s.cur[ssKey]?
  batch : evoDB.rootBatch = {obfuscate_key := evoDB.db.obfuscate_key}
  root_accounted : evoDB.rootDBTransaction.Accounted
  cur_accounted : evoDB.curDBTransaction.Accounted

/-- A transaction as a store of cells. -/
theorem storesAs_cells (parent : Key → Option (Cell C)) :
    StoresAs ValueHolder.cell (fun (t : CDBTransaction C) ssKey => t.cells parent ssKey)
      (fun t ssKey it => t.write ssKey it.V it.value) CDBTransaction.erase where
  read_write t ssKey it a := (Transaction.storesAs ValueHolder.cell parent).read_write
    t.toTransaction ssKey ⟨it.V, it.value, _, rfl⟩ a
  read_erase t ssKey a :=
    (Transaction.storesAs ValueHolder.cell parent).read_erase t.toTransaction ssKey a

/-- What a batch is going to leave under a key of a database. -/
def CDBBatch.bytes (pdb : ExtTreeMap Key (List UInt8)) (b : CDBBatch) (ssKey : Key) :
    Option (List UInt8) :=
  (b.batch.foldl CDBWrapper.applyOp pdb)[ssKey]?.map (xor b.obfuscate_key)

/-- A batch as a store of bytes, on top of a database. -/
theorem storesAs_batch (pdb : ExtTreeMap Key (List UInt8)) :
    StoresAs (fun it : ValueHolder C => C.serialize it.V it.value) (CDBBatch.bytes pdb)
      (fun b ssKey it => b.write ssKey it.V it.value) CDBBatch.erase where
  read_write b ssKey it a := by
    simp only [CDBBatch.bytes, CDBBatch.write, List.foldl_append, List.foldl_cons, List.foldl_nil,
      CDBWrapper.applyOp, getElem?_insert]
    split_ifs
    · rw [Option.map_some, xor_xor]
    · rfl
  read_erase b ssKey a := by
    simp only [CDBBatch.bytes, CDBBatch.erase, List.foldl_append, List.foldl_cons, List.foldl_nil,
      CDBWrapper.applyOp, getElem?_erase]
    split_ifs <;> rfl

/-- A batch stays one of its database. -/
theorem obfuscate_key_commit (t : CDBTransaction C) (b : CDBBatch) :
    (t.commit CDBBatch.write CDBBatch.erase b).1.obfuscate_key = b.obfuscate_key := by
  have herased : ∀ (keys : List Key) (b : CDBBatch),
      (keys.foldl CDBBatch.erase b).obfuscate_key = b.obfuscate_key := by
    intro keys
    induction keys with
    | nil => exact fun b => rfl
    | cons k keys ih => exact fun b => ih (b.erase k)
  have hwritten : ∀ (items : List (Key × ValueHolder C)) (b : CDBBatch),
      (items.foldl (fun b p => b.write p.1 p.2.V p.2.value) b).obfuscate_key = b.obfuscate_key := by
    intro items
    induction items with
    | nil => exact fun b => rfl
    | cons p items ih => exact fun b => ih (b.write p.1 p.2.V p.2.value)
  exact (hwritten _ _).trans (herased _ b)

namespace Refines

theorem stored_cells {db : CDBWrapper} {m : ExtTreeMap Key (List UInt8)}
    (h : ∀ ssKey, db.bytes ssKey = m[ssKey]?) (ssKey : Key) :
    (db.cells ssKey : Option (Cell C)) = (PlainMaps.ofDb m).root[ssKey]? := by
  rw [CDBWrapper.cells, h, PlainMaps.ofDb, ExtTreeMap.getElem?_map]

theorem new (db : CDBWrapper) {m : ExtTreeMap Key (List UInt8)}
    (h : ∀ ssKey, db.bytes ssKey = m[ssKey]?) :
    Refines (CEvoDB.new db : CEvoDB C) (.ofDb m) where
  db := h
  root ssKey := by
    rw [← stored_cells h]
    exact congrFun (CDBTransaction.cells_of_isClean _ CDBTransaction.isClean_clear _) ssKey
  cur ssKey := by
    have hcur := CDBTransaction.cells_of_isClean (C := C) _ CDBTransaction.isClean_clear
    rw [CEvoDB.curCells, CEvoDB.rootCells]
    refine (congrFun (hcur _) ssKey).trans ((congrFun (hcur _) ssKey).trans ?_)
    exact stored_cells h ssKey
  batch := rfl
  root_accounted := CDBTransaction.accounted_clear
  cur_accounted := CDBTransaction.accounted_clear

variable {evoDB : CEvoDB C} {s : PlainMaps C} (h : Refines evoDB s)
include h

theorem write (ssKey : Key) (V : C.Ty) (v : C.Val V) :
    Refines (evoDB.write ssKey V v) (s.step (.write ssKey V v)) where
  db := h.db
  root := h.root
  cur a := by
    have hwrite := (storesAs_cells evoDB.rootCells).read_write evoDB.curDBTransaction ssKey
      ⟨V, v, _, rfl⟩ a
    rw [PlainMaps.step, getElem?_insert, ← h.cur]
    exact hwrite
  batch := h.batch
  root_accounted := h.root_accounted
  cur_accounted := h.cur_accounted.write ssKey V v

theorem erase (ssKey : Key) : Refines (evoDB.erase ssKey) (s.step (.erase ssKey)) where
  db := h.db
  root := h.root
  cur a := by
    have herase := (storesAs_cells evoDB.rootCells).read_erase evoDB.curDBTransaction ssKey a
    rw [PlainMaps.step, getElem?_erase, ← h.cur]
    exact herase
  batch := h.batch
  root_accounted := h.root_accounted
  cur_accounted := h.cur_accounted.erase ssKey

theorem rootCells_commitCur (ssKey : Key) :
    evoDB.commitCurTransaction.rootCells ssKey = s.cur[ssKey]? := by
  have hcommit : evoDB.commitCurTransaction.rootCells ssKey = evoDB.curCells ssKey :=
    (storesAs_cells evoDB.db.cells).read_commit evoDB.curDBTransaction.toTransaction ssKey
  exact hcommit.trans (h.cur ssKey)

theorem commitCur : Refines evoDB.commitCurTransaction s.commitCur where
  db := h.db
  root := h.rootCells_commitCur
  cur ssKey := by
    refine Eq.trans ?_ (h.rootCells_commitCur ssKey)
    exact congrFun (CDBTransaction.cells_of_isClean _ CDBTransaction.isClean_clear _) ssKey
  batch := h.batch
  root_accounted := h.root_accounted.commit evoDB.curDBTransaction
  cur_accounted := CDBTransaction.accounted_clear

theorem rollbackCur : Refines evoDB.rollbackCurTransaction s.rollbackCur where
  db := h.db
  root := h.root
  cur ssKey := by
    refine Eq.trans ?_ (h.root ssKey)
    exact congrFun (CDBTransaction.cells_of_isClean _ CDBTransaction.isClean_clear _) ssKey
  batch := h.batch
  root_accounted := h.root_accounted
  cur_accounted := CDBTransaction.accounted_clear

/-- A root commit brings the bytes of every cell to the database. -/
theorem bytes_commitRoot (ssKey : Key) :
    (evoDB.db.writeBatch (evoDB.rootDBTransaction.commit CDBBatch.write CDBBatch.erase
      evoDB.rootBatch).1).bytes ssKey = s.root[ssKey]?.map Cell.bytes := by
  have hkey := obfuscate_key_commit evoDB.rootDBTransaction evoDB.rootBatch
  have hcommit : CDBBatch.bytes evoDB.db.pdb
      (evoDB.rootDBTransaction.commit CDBBatch.write CDBBatch.erase evoDB.rootBatch).1 ssKey =
        evoDB.rootDBTransaction.toTransaction.readAs
          (fun it : ValueHolder C => C.serialize it.V it.value)
          (CDBBatch.bytes evoDB.db.pdb evoDB.rootBatch) ssKey :=
    (storesAs_batch evoDB.db.pdb).read_commit evoDB.rootDBTransaction.toTransaction ssKey
  have hbytes : (evoDB.db.writeBatch (evoDB.rootDBTransaction.commit CDBBatch.write CDBBatch.erase
      evoDB.rootBatch).1).bytes ssKey = CDBBatch.bytes evoDB.db.pdb
        (evoDB.rootDBTransaction.commit CDBBatch.write CDBBatch.erase evoDB.rootBatch).1 ssKey := by
    rw [CDBWrapper.bytes, CDBBatch.bytes, hkey, h.batch]
    rfl
  have hbelow : CDBBatch.bytes evoDB.db.pdb evoDB.rootBatch ssKey = evoDB.db.bytes ssKey := by
    rw [h.batch]
    rfl
  rw [hbytes, hcommit, ← h.root, CEvoDB.rootCells, CDBTransaction.cells, Transaction.readAs,
    Transaction.readAs, hbelow]
  split_ifs
  · rfl
  · rcases evoDB.rootDBTransaction.writes[ssKey]? with _ | it
    · rw [CDBWrapper.cells, Option.map_map]
      exact (Option.map_id' ..).symm
    · rfl

theorem commitRoot {evoDB' : CEvoDB C} (hcommit : evoDB.commitRootTransaction = some evoDB') :
    Refines evoDB' (s.step .commitRoot) := by
  have hbytes := h.bytes_commitRoot
  have hkey := obfuscate_key_commit evoDB.rootDBTransaction evoDB.rootBatch
  rw [CEvoDB.commitRootTransaction] at hcommit
  split_ifs at hcommit with hclean
  obtain rfl := Option.some.inj hcommit
  have hdb : ∀ ssKey, (evoDB.db.writeBatch (evoDB.rootDBTransaction.commit CDBBatch.write
      CDBBatch.erase evoDB.rootBatch).1).bytes ssKey =
        (s.root.map fun _ cell => cell.bytes)[ssKey]? := by
    intro ssKey
    rw [ExtTreeMap.getElem?_map]
    exact hbytes ssKey
  have hroot : ∀ ssKey, (CDBTransaction.clear : CDBTransaction C).cells (evoDB.db.writeBatch
      (evoDB.rootDBTransaction.commit CDBBatch.write CDBBatch.erase evoDB.rootBatch).1).cells ssKey =
        (s.step .commitRoot).root[ssKey]? := by
    intro ssKey
    rw [CDBTransaction.cells_of_isClean _ CDBTransaction.isClean_clear]
    exact stored_cells hdb ssKey
  refine ⟨hdb, hroot, fun ssKey => ?_, ?_, CDBTransaction.accounted_clear, h.cur_accounted⟩
  · exact (congrFun (CDBTransaction.cells_of_isClean _ hclean _) ssKey).trans (hroot ssKey)
  · have hsame : evoDB.rootBatch.obfuscate_key = evoDB.db.obfuscate_key := by rw [h.batch]
    exact congrArg (fun key => ({obfuscate_key := key} : CDBBatch)) (hkey.trans hsame)

theorem step {evoDB' : CEvoDB C} {op : Op C} (hstep : evoDB.step op = some evoDB') :
    Refines evoDB' (s.step op) := by
  cases op with
  | write ssKey V v => exact Option.some.inj hstep ▸ h.write ssKey V v
  | erase ssKey => exact Option.some.inj hstep ▸ h.erase ssKey
  | commit committer =>
    rw [CEvoDB.step, CEvoDBScopedCommitter.commit] at hstep
    split_ifs at hstep
    · cases hstep
    · exact Option.some.inj hstep ▸ h.commitCur
  | rollback committer =>
    rw [CEvoDB.step, CEvoDBScopedCommitter.rollback] at hstep
    split_ifs at hstep
    · cases hstep
    · exact Option.some.inj hstep ▸ h.rollbackCur
  | destroy committer =>
    obtain rfl := Option.some.inj hstep
    rw [CEvoDBScopedCommitter.destroy, PlainMaps.step]
    split_ifs
    · exact h
    · exact h.rollbackCur
  | commitRoot => exact h.commitRoot hstep

/-- The maps follow the database through any operations. -/
theorem run {evoDB' : CEvoDB C} {ops : List (Op C)}
    (hrun : ops.foldlM CEvoDB.step evoDB = some evoDB') :
    Refines evoDB' (ops.foldl PlainMaps.step s) := by
  induction ops generalizing evoDB s with
  | nil => exact Option.some.inj hrun ▸ h
  | cons op ops ih =>
    rw [List.foldlM_cons, Option.bind_eq_bind, Option.bind_eq_some_iff] at hrun
    obtain ⟨evoDB₁, hstep, hrun⟩ := hrun
    exact ih (h.step hstep) hrun

/-! ### What a caller sees -/

theorem readRoot_eq (ssKey : Key) (V : C.Ty) :
    evoDB.readRoot ssKey V = Cell.readAt s.root[ssKey]? V := by
  rw [← h.root]
  exact evoDB.rootDBTransaction.read_eq evoDB.db.read_eq ssKey V

theorem read_eq (ssKey : Key) (V : C.Ty) : evoDB.read ssKey V = Cell.readAt s.cur[ssKey]? V := by
  have hroot : ∀ ssKey V, evoDB.readRoot ssKey V = Cell.readAt (evoDB.rootCells ssKey) V :=
    evoDB.rootDBTransaction.read_eq evoDB.db.read_eq
  rw [← h.cur]
  exact evoDB.curDBTransaction.read_eq hroot ssKey V

theorem existsRoot_eq (ssKey : Key) : evoDB.existsRoot ssKey = s.root[ssKey]?.isSome := by
  rw [← h.root]
  exact evoDB.rootDBTransaction.exists_eq evoDB.db.exists_eq ssKey

theorem exists_eq (ssKey : Key) : evoDB.exists ssKey = s.cur[ssKey]?.isSome := by
  have hroot : ∀ ssKey, evoDB.existsRoot ssKey = (evoDB.rootCells ssKey).isSome :=
    evoDB.rootDBTransaction.exists_eq evoDB.db.exists_eq
  rw [← h.cur]
  exact evoDB.curDBTransaction.exists_eq hroot ssKey

omit h in
/-- A key shows through a transaction where it is written, or not hidden and there below. -/
theorem isSome_cells (t : CDBTransaction C) {parent : Key → Option (Cell C)} (ssKey : Key) :
    (t.cells parent ssKey).isSome = true ↔
      t.writes[ssKey]?.isSome = true ∨ (parent ssKey).isSome = true ∧ t.hides ssKey = false := by
  rw [CDBTransaction.cells, Transaction.readAs, CDBTransaction.hides]
  by_cases hdelete : ssKey ∈ t.deletes
  · simp [hdelete, t.disjoint ssKey hdelete]
  · rcases hwrite : t.writes[ssKey]? with _ | it <;> simp [hdelete]

theorem walks_root : ∃ At, Walks evoDB.rootIterator s.root.keys At := by
  have hdb := walks_ofKeys [] (ascending_keys evoDB.db.pdb)
  refine ⟨_, walks_iterator hdb evoDB.rootDBTransaction (ascending_keys s.root) fun k => ?_⟩
  have hbelow : k ∈ evoDB.db.pdb.keys ↔ (evoDB.db.cells k : Option (Cell C)).isSome = true := by
    rw [CDBWrapper.cells, CDBWrapper.bytes, Option.isSome_map, Option.isSome_map,
      ExtTreeMap.mem_keys, ExtTreeMap.mem_iff_isSome_getElem?]
  rw [ExtTreeMap.mem_keys, ExtTreeMap.mem_iff_isSome_getElem?, ← h.root, hbelow]
  exact isSome_cells evoDB.rootDBTransaction k

theorem walks_cur : ∃ At, Walks evoDB.curIterator s.cur.keys At := by
  obtain ⟨At, hroot⟩ := h.walks_root
  refine ⟨_, walks_iterator hroot evoDB.curDBTransaction (ascending_keys s.cur) fun k => ?_⟩
  have hbelow : k ∈ s.root.keys ↔ (evoDB.rootCells k).isSome = true := by
    rw [h.root, ExtTreeMap.mem_keys, ExtTreeMap.mem_iff_isSome_getElem?]
  rw [ExtTreeMap.mem_keys, ExtTreeMap.mem_iff_isSome_getElem?, ← h.cur, hbelow]
  exact isSome_cells evoDB.curDBTransaction k

end Refines

theorem getValue_eq {π : Type} {parent : Cursor π Key} (t : CDBTransaction C)
    {it : CDBTransactionIterator parent} (hvalid : it.valid = true)
    (read : Key → (V : C.Ty) → Reading C V) (V : C.Ty) :
    it.getValue t read V = t.read read it.getKey V := by
  rw [CDBTransactionIterator.getValue, CDBTransactionIterator.getKey, hvalid, Bool.not_true,
    if_neg Bool.false_ne_true, if_neg Bool.false_ne_true]
  split_ifs <;> rfl

/-- What an iterator over a transaction reads at the type `V`, from a position on. -/
def entries {π : Type} {parent : Cursor π Key} (t : CDBTransaction C)
    (read : Key → (V : C.Ty) → Reading C V) (V : C.Ty) (it : CDBTransactionIterator parent) :
    List (Key × Reading C V) :=
  collect (t.iterator parent) (fun it => (it.getKey, it.getValue t read V)) it

/-- What a map holds under the given keys, as it is read at the type `V`. -/
def PlainMaps.entries (m : ExtTreeMap Key (Cell C)) (V : C.Ty) (keys : List Key) :
    List (Key × Reading C V) :=
  keys.map fun ssKey => (ssKey, Cell.readAt m[ssKey]? V)

/-- The account of a transaction is exact, and no subtraction takes it below zero. -/
structure ExactSize (t : CDBTransaction C) : Prop where
  getMemoryUsage_eq : (t.getMemoryUsage : ℤ) = t.pendingSize
  released_le : ∀ ssKey, t.released ssKey ≤ t.memoryUsage

/-- An iterator visits the keys of a map in order, each once, with its value. -/
structure Iterates {π : Type} (parent : Cursor π Key) (t : CDBTransaction C)
    (read : Key → (V : C.Ty) → Reading C V) (m : ExtTreeMap Key (Cell C)) : Prop where
  seek : ∀ V (it : CDBTransactionIterator parent) ssKey,
    entries t read V (it.seek t ssKey) = PlainMaps.entries m V (onward ssKey m.keys)
  seekToFirst : ∀ V (it : CDBTransactionIterator parent),
    entries t read V (it.seekToFirst t) = PlainMaps.entries m V m.keys

theorem iterates_of_walks {π : Type} {parent : Cursor π Key} {t : CDBTransaction C}
    {read : Key → (V : C.Ty) → Reading C V} {m : ExtTreeMap Key (Cell C)}
    {At : CDBTransactionIterator parent → List Key → Prop}
    (hwalks : Walks (t.iterator parent) m.keys At)
    (hread : ∀ ssKey V, t.read read ssKey V = Cell.readAt m[ssKey]? V) :
    Iterates parent t read m := by
  have hentry (V : C.Ty) : ∀ it, (t.iterator parent).valid it = true →
      (it.getKey, it.getValue t read V) =
        (fun ssKey => (ssKey, Cell.readAt m[ssKey]? V)) ((t.iterator parent).getKey it) := by
    intro it hvalid
    rw [getValue_eq t hvalid, hread]
    rfl
  exact ⟨fun V it ssKey => hwalks.collect_eq (hentry V) (hwalks.seek it ssKey),
    fun V it => hwalks.collect_eq (hentry V) (hwalks.seekToFirst it)⟩

/-- The evo database is seen as the plain maps are, through the current transaction and through the
root transaction below it. -/
structure MapOverlay (evoDB : CEvoDB C) (s : PlainMaps C) : Prop where
  db : ∀ ssKey, evoDB.db.bytes ssKey = s.db[ssKey]?
  read : ∀ ssKey V, evoDB.read ssKey V = Cell.readAt s.cur[ssKey]? V
  exists_eq : ∀ ssKey, evoDB.exists ssKey = s.cur[ssKey]?.isSome
  readRoot : ∀ ssKey V, evoDB.readRoot ssKey V = Cell.readAt s.root[ssKey]? V
  existsRoot : ∀ ssKey, evoDB.existsRoot ssKey = s.root[ssKey]?.isSome
  cur_size : ExactSize evoDB.curDBTransaction
  root_size : ExactSize evoDB.rootDBTransaction
  cur_iterates : Iterates evoDB.rootIterator evoDB.curDBTransaction evoDB.readRoot s.cur
  root_iterates : Iterates evoDB.db.iterator evoDB.rootDBTransaction evoDB.db.read s.root
  commitCur : evoDB.commitCurTransaction.curDBTransaction.isClean = true ∧
    evoDB.commitCurTransaction.db = evoDB.db ∧
    ∀ ssKey V, evoDB.commitCurTransaction.readRoot ssKey V = evoDB.read ssKey V
  rollbackCur : evoDB.rollbackCurTransaction.curDBTransaction.isClean = true ∧
    evoDB.rollbackCurTransaction.db = evoDB.db ∧
    evoDB.rollbackCurTransaction.rootDBTransaction = evoDB.rootDBTransaction
  commitRoot_isSome : evoDB.commitRootTransaction.isSome = evoDB.curDBTransaction.isClean
  commitRoot : ∀ evoDB', evoDB.commitRootTransaction = some evoDB' →
    evoDB'.rootDBTransaction.isClean = true ∧ evoDB'.rootBatch.batch = [] ∧
      ∀ ssKey, evoDB'.db.bytes ssKey = s.root[ssKey]?.map Cell.bytes

/-- Through any operations, on any database to start with, the transactions of the evo database are
plain ordered maps over what is below them. -/
theorem overlay_is_plain_map (db : CDBWrapper) (ops : List (Op C)) (evoDB : CEvoDB C)
    (hrun : ops.foldlM CEvoDB.step (.new db) = some evoDB) :
    MapOverlay evoDB
      (ops.foldl PlainMaps.step (.ofDb (db.pdb.map fun _ => xor db.obfuscate_key))) := by
  have hbytes : ∀ ssKey, db.bytes ssKey = (db.pdb.map fun _ => xor db.obfuscate_key)[ssKey]? := by
    intro ssKey
    rw [CDBWrapper.bytes, ExtTreeMap.getElem?_map]
  have h := (Refines.new (C := C) db hbytes).run hrun
  obtain ⟨_, hroot⟩ := h.walks_root
  obtain ⟨_, hcur⟩ := h.walks_cur
  refine ⟨h.db, h.read_eq, h.exists_eq, h.readRoot_eq, h.existsRoot_eq,
    ⟨h.cur_accounted.getMemoryUsage_eq, h.cur_accounted.released_le⟩,
    ⟨h.root_accounted.getMemoryUsage_eq, h.root_accounted.released_le⟩,
    iterates_of_walks hcur h.read_eq, iterates_of_walks hroot h.readRoot_eq, ⟨rfl, rfl, ?_⟩,
    ⟨rfl, rfl, rfl⟩, ?_, ?_⟩
  · intro ssKey V
    rw [h.commitCur.readRoot_eq, h.read_eq]
    rfl
  · rw [CEvoDB.commitRootTransaction]
    split_ifs with hclean
    · exact hclean.symm
    · exact (Bool.not_eq_true _ ▸ hclean).symm
  · intro evoDB' hcommit
    have hdb := (h.commitRoot hcommit).db
    have hbatch := (h.commitRoot hcommit).batch
    refine ⟨?_, by rw [hbatch], fun ssKey => (hdb ssKey).trans ?_⟩
    · rw [CEvoDB.commitRootTransaction] at hcommit
      split_ifs at hcommit
      obtain rfl := Option.some.inj hcommit
      rfl
    · exact ExtTreeMap.getElem?_map

/-- Values that are bytes. -/
def byteCodecs : Codecs where
  Ty := Unit
  decEq := inferInstance
  Val _ := List UInt8
  serialize _ v := v
  deserialize _ bytes := some bytes

/-- A key of the database is deleted and another one written, and both are committed down to it. -/
theorem overlay_is_plain_map_committed : ∃ evoDB : CEvoDB byteCodecs,
    [Op.write [2] () [7, 7], .erase [1], .commit {}, .write [3] () [9], .rollback {},
      .commitRoot].foldlM CEvoDB.step
        (.new {pdb := (∅ : ExtTreeMap Key (List UInt8)).insert [1] [5]}) = some evoDB ∧
      MapOverlay evoDB ([Op.write [2] () [7, 7], .erase [1], .commit {}, .write [3] () [9],
        .rollback {}, .commitRoot].foldl PlainMaps.step
          (.ofDb (((∅ : ExtTreeMap Key (List UInt8)).insert [1] [5]).map fun _ => xor []))) :=
  ⟨_, rfl, overlay_is_plain_map {pdb := (∅ : ExtTreeMap Key (List UInt8)).insert [1] [5]} _ _ rfl⟩

end BabaChain.DbWrapper
