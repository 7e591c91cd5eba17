import BabaChain.Lib.ByteReader
import Mathlib.Tactic

/-! Numbers as byte strings of a fixed length. -/
namespace ByteWriter
open ByteReader

/-- The lowest `n` bytes of a number, the lowest first. -/
def writeLE : ℕ → ℕ → List UInt8
  | 0, _ => []
  | n+1, v => UInt8.ofNat v :: writeLE n (v/256)

def writeBE (n v : ℕ) : List UInt8 := (writeLE n v).reverse

theorem length_writeLE (n v : ℕ) : (writeLE n v).length = n := by
  induction n generalizing v with
  | zero => rfl
  | succ n ih => rw [writeLE, List.length_cons, ih]

theorem length_writeBE (n v : ℕ) : (writeBE n v).length = n := by
  rw [writeBE, List.length_reverse, length_writeLE]

/-- Reading gives back what was written, as far as the bytes hold it. -/
theorem leNat_writeLE (n v : ℕ) : leNat (writeLE n v) = v % 256^n := by
  induction n generalizing v with
  | zero => rw [pow_zero, Nat.mod_one]; rfl
  | succ n ih =>
    have hcons : leNat (writeLE (n+1) v) = (UInt8.ofNat v).toNat+256*leNat (writeLE n (v/256)) := rfl
    have hpow : 256^(n+1) = 256*256^n := pow_succ' 256 n
    rw [hcons, ih, UInt8.toNat_ofNat', hpow]
    exact Nat.mod_mul.symm

theorem writeBE_injOn (n : ℕ) : Set.InjOn (writeBE n) {v | v < 256^n} := by
  intro v hv w hw heq
  have hread := congrArg leNat (List.reverse_injective heq)
  rw [leNat_writeLE, leNat_writeLE, Nat.mod_eq_of_lt hv, Nat.mod_eq_of_lt hw] at hread
  exact hread

end ByteWriter
