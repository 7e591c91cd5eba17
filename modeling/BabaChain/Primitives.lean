import BabaChain.Lib.ByteReader

/-! Hashes, public keys and the parts of a transaction. -/
namespace BabaChain
open ByteReader Std

/-- A `uint256` as its bytes in memory order. -/
abbrev uint256 := BitVec 256

instance : TransOrd uint256 := inferInstanceAs (TransOrd (BitVec 256))

instance : LawfulEqOrd uint256 := inferInstanceAs (LawfulEqOrd (BitVec 256))

instance : LawfulBEq uint256 := inferInstanceAs (LawfulBEq (BitVec 256))

structure COutPoint where
  hash : uint256
  n : BitVec 32
deriving DecidableEq, Repr

/-- `operator<` compares the hash, then the index. -/
instance : Ord COutPoint := ⟨compareLex (compareOn COutPoint.hash) (compareOn COutPoint.n)⟩

instance : TransOrd COutPoint :=
  inferInstanceAs (TransCmp (compareLex (compareOn COutPoint.hash) (compareOn COutPoint.n)))

instance : LawfulEqOrd COutPoint where
  eq_of_compare {a b} h := by
    obtain ⟨hh, hn⟩ := compareLex_eq_eq.mp h
    cases a
    cases b
    rw [COutPoint.mk.injEq]
    exact ⟨LawfulEqOrd.eq_of_compare hh, LawfulEqOrd.eq_of_compare hn⟩

/-- `CPubKey::GetLen`, the length that the first byte of a key stands for. -/
def CPubKey.getLen (chHeader : UInt8) : ℕ :=
  if chHeader = 2 ∨ chHeader = 3 then 33
  else if chHeader = 4 ∨ chHeader = 6 ∨ chHeader = 7 then 65
  else 0

/-- The significant bytes of a `CPubKey`: its header and what the header says
follows. -/
structure CPubKey where
  header : UInt8
  tail : List UInt8
  tail_length : tail.length = CPubKey.getLen header-1
deriving DecidableEq

namespace CPubKey

/-- `CPubKey::IsValid`. -/
def isValid (k : CPubKey) : Bool := decide (0 < getLen k.header)

def invalid : CPubKey := ⟨0xFF, [], rfl⟩

/-- Keys compare as byte strings. -/
instance : Ord CPubKey := ⟨compareOn fun k => k.header :: k.tail⟩

instance : TransOrd CPubKey :=
  inferInstanceAs (TransCmp (compareOn fun k : CPubKey => k.header :: k.tail))

instance : LawfulEqOrd CPubKey where
  eq_of_compare {a b} h := by
    have heq : a.header :: a.tail = b.header :: b.tail := LawfulEqOrd.eq_of_compare h
    obtain ⟨hh, ht⟩ := List.cons.inj heq
    cases a
    cases b
    simp only at hh ht
    subst hh ht
    rfl

/-- The key with the given bytes, invalid where their number is not the one
their header stands for. -/
def ofBytes : List UInt8 → CPubKey
  | [] => invalid
  | h :: t =>
    if ht : t.length+1 = getLen h then ⟨h, t, by omega⟩ else invalid

end CPubKey

/-- `MAX_SIZE` of `serialize.h`. -/
def MAX_SIZE : ℕ := 0x02000000

/-- `ReadCompactSize`. -/
def readCompactSize : Reader ℕ := do
  let chSize ← readUInt 1
  -- a size that has a shorter encoding is refused
  let nSizeRet ←
    if chSize < 253 then pure chSize
    else if chSize = 253 then do
      let n ← readUInt 2
      if n < 253 then failure else pure n
    else if chSize = 254 then do
      let n ← readUInt 4
      if n < 0x10000 then failure else pure n
    else do
      let n ← readUInt 8
      if n < 0x100000000 then failure else pure n
  if MAX_SIZE < nSizeRet then failure else pure nSizeRet

/-- A script or a string: its size and its bytes. -/
def readVarBytes : Reader (List UInt8) := do
  readBytes (← readCompactSize)

/-- `CPubKey::Unserialize`. -/
def readPubKey : Reader CPubKey := do
  let len ← readCompactSize
  let vch ← readBytes len
  return if len ≤ 65 then CPubKey.ofBytes vch else CPubKey.invalid

def readUint256 : Reader uint256 :=
  (fun bs => bs.foldl (fun h b => (h <<< 8) ||| b.toBitVec.setWidth 256) 0) <$> readBytes 32

def readOutPoint : Reader COutPoint := do
  let hash ← readUint256
  let n ← readUInt 4
  return ⟨hash, BitVec.ofNat 32 n⟩

structure CTxIn where
  prevout : COutPoint
deriving DecidableEq, Repr

structure CTxOut where
  nValue : ℤ
  scriptPubKey : List UInt8
deriving DecidableEq, Repr

/-- The special transaction types of the staking module. -/
def TRANSACTION_STAKE : BitVec 16 := 10
def TRANSACTION_UNSTAKE : BitVec 16 := 11
def TRANSACTION_VALIDATOR_REGISTER : BitVec 16 := 12

/-- A transaction, with the hash that `CTransaction` keeps of itself. -/
structure CTransaction where
  hash : uint256
  nType : BitVec 16
  vin : List CTxIn
  vout : List CTxOut
  vExtraPayload : List UInt8
deriving DecidableEq, Repr

end BabaChain
