import Mathlib.Data.BitVec

/-! Reading values from the front of a byte string; a read past its end fails. -/
namespace ByteReader

abbrev Reader (α : Type) := StateT (List UInt8) Option α

def readBytes (n : ℕ) : Reader (List UInt8) := fun bs =>
  if n ≤ bs.length then some (bs.take n, bs.drop n) else none

def leNat (bs : List UInt8) : ℕ := bs.foldr (fun b n => b.toNat+256*n) 0

theorem leNat_lt (bs : List UInt8) : leNat bs < 256^bs.length := by
  induction bs with
  | nil => exact Nat.one_pos
  | cons b bs ih =>
    have hb : b.toNat < 256 := b.toNat_lt
    change b.toNat+256*leNat bs < 256^(bs.length+1)
    rw [pow_succ]
    omega

/-- An unsigned little-endian integer of `n` bytes. -/
def readUInt (n : ℕ) : Reader ℕ := leNat <$> readBytes n

/-- A signed little-endian integer of `n` bytes. -/
def readInt (n : ℕ) : Reader ℤ :=
  (fun bs => (BitVec.ofNat (8*n) (leNat bs)).toInt) <$> readBytes n

end ByteReader
