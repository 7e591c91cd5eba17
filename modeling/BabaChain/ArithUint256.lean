import BabaChain.Lib.ByteWriter
import BabaChain.Lib.Limbs
import BabaChain.Primitives
import Mathlib.Data.Nat.Bitwise

/-! 256-bit unsigned arithmetic on 32-bit words, and the compact encoding of targets. -/
namespace BabaChain
open Limbs ByteReader ByteWriter

/-- `base_uint<256>`: the words, the lowest first. -/
structure arith_uint256 where
  pn : List ℕ
  length_pn : pn.length = 8
  bounded_pn : Bounded 32 pn

namespace arith_uint256

/-- The number that the words stand for. -/
def toNat (x : arith_uint256) : ℕ := value 32 x.pn

/-- `base_uint(uint64_t)`. -/
def ofUInt64 (b : BitVec 64) : arith_uint256 where
  pn := [b.toNat % 2^32, b.toNat >>> 32, 0, 0, 0, 0, 0, 0]
  length_pn := rfl
  bounded_pn := by
    have hlow : b.toNat % 2^32 < 2^32 := Nat.mod_lt _ (Nat.two_pow_pos 32)
    have hhigh : b.toNat >>> 32 < 2^32 := by
      rw [Nat.shiftRight_eq_div_pow]
      have := b.isLt
      omega
    exact bounded_cons hlow (bounded_cons hhigh (bounded_replicate_zero 6))

/-- `UintToArith256`: a little-endian word from every four bytes. -/
def ofUint256 (a : uint256) : arith_uint256 where
  pn := (List.range 8).map fun x => leNat (((writeBE 32 a.toNat).drop (4*x)).take 4)
  length_pn := rfl
  bounded_pn := by
    intro y hy
    obtain ⟨x, -, rfl⟩ := List.mem_map.mp hy
    have hlen : (((writeBE 32 a.toNat).drop (4*x)).take 4).length ≤ 4 := by
      rw [List.length_take]
      exact Nat.min_le_left 4 _
    calc leNat (((writeBE 32 a.toNat).drop (4*x)).take 4) < 256^_ := leNat_lt _
      _ ≤ 256^4 := Nat.pow_le_pow_right (by decide) hlen

/-- `operator*=(uint32_t)`. -/
def mul (x : arith_uint256) (b32 : BitVec 32) : arith_uint256 where
  pn := mulSmall 32 b32.toNat 0 x.pn
  length_pn := (length_mulSmall _ _ _).trans x.length_pn
  bounded_pn := bounded_mulSmall _ _ _

/-- `operator/=`. -/
def div (x b : arith_uint256) : Except String arith_uint256 :=
  match h : divide 32 x.pn b.pn with
  | none => .error "Division by zero"
  | some quotient => .ok {
      pn := quotient
      length_pn := (divide_wellFormed (by decide) h).1.trans x.length_pn
      bounded_pn := (divide_wellFormed (by decide) h).2}

/-- `operator<<=`. -/
def shiftLeft (x : arith_uint256) (shift : ℕ) : arith_uint256 where
  pn := Limbs.shiftLeft 32 shift x.pn
  length_pn := (length_shiftLeft _ _).trans x.length_pn
  bounded_pn := bounded_shiftLeft _ x.bounded_pn

/-- `operator>>=`. -/
def shiftRight (x : arith_uint256) (shift : ℕ) : arith_uint256 where
  pn := Limbs.shiftRight 32 shift x.pn
  length_pn := (length_shiftRight _ _).trans x.length_pn
  bounded_pn := bounded_shiftRight _ x.bounded_pn

def compareTo (x b : arith_uint256) : Ordering := Limbs.compareTo x.pn b.pn

def bits (x : arith_uint256) : ℕ := Limbs.bits 32 x.pn

def getLow64 (x : arith_uint256) : BitVec 64 :=
  BitVec.ofNat 64 (x.pn.getD 0 0 ||| x.pn.getD 1 0 <<< 32)

/-- `EqualTo(uint64_t)`. -/
def equalTo (x : arith_uint256) (b : BitVec 64) : Bool :=
  (x.pn.drop 2).all (· == 0) && x.pn.getD 1 0 == b.toNat >>> 32 &&
    x.pn.getD 0 0 == b.toNat % 2^32

/-- The value and the flags `fNegative` and `fOverflow`. -/
def setCompact (nCompact : BitVec 32) : arith_uint256 × Bool × Bool :=
  let nSize := (nCompact >>> 24).toNat
  let nWord := nCompact &&& 0x007fffff#32
  let nWord := if nSize ≤ 3 then nWord >>> (8*(3-nSize)) else nWord
  let value :=
    if nSize ≤ 3 then ofUInt64 (nWord.setWidth 64)
    else (ofUInt64 (nWord.setWidth 64)).shiftLeft (8*(nSize-3))
  (value, decide (nWord ≠ 0 ∧ nCompact &&& 0x00800000#32 ≠ 0),
    decide (nWord ≠ 0 ∧ (34 < nSize ∨ (0xff#32 < nWord ∧ 33 < nSize) ∨
      (0xffff#32 < nWord ∧ 32 < nSize))))

/-- A failed assertion is an error. -/
def getCompact (x : arith_uint256) (fNegative : Bool) : Except String (BitVec 32) :=
  let nSize := (x.bits+7)/8
  let nCompact : BitVec 32 :=
    if nSize ≤ 3 then (x.getLow64 <<< (8*(3-nSize))).setWidth 32
    else (x.shiftRight (8*(nSize-3))).getLow64.setWidth 32
  -- the bit 0x00800000 denotes the sign
  let (nCompact, nSize) :=
    if nCompact &&& 0x00800000#32 ≠ 0 then (nCompact >>> 8, nSize+1) else (nCompact, nSize)
  if nCompact &&& ~~~0x007fffff#32 ≠ 0 then .error "(nCompact & ~0x007fffffU) == 0"
  else if 256 ≤ nSize then .error "nSize < 256"
  else
    let nCompact := nCompact ||| BitVec.ofNat 32 nSize <<< 24
    .ok (nCompact ||| if fNegative ∧ nCompact &&& 0x007fffff#32 ≠ 0 then 0x00800000#32 else 0#32)

theorem toNat_lt (x : arith_uint256) : x.toNat < 2^256 := by
  have h := value_lt x.bounded_pn
  rwa [x.length_pn] at h

@[simp] theorem toNat_ofUInt64 (b : BitVec 64) : (ofUInt64 b).toNat = b.toNat := by
  have hsplit := Nat.mod_add_div b.toNat (2^32)
  unfold toNat ofUInt64
  simp only [value_cons, value_nil, Nat.mul_zero, Nat.add_zero, Nat.shiftRight_eq_div_pow]
  exact hsplit

/-- A conversion that loses nothing. -/
theorem toNat_ofInt_of_lt {w : ℕ} {i : ℤ} (h0 : 0 ≤ i) (h : i < 2^w) :
    (BitVec.ofInt w i).toNat = i.toNat := by
  have hcast : ((2^w : ℕ) : ℤ) = 2^w := by push_cast; rfl
  rw [BitVec.toNat_ofInt, hcast, Int.emod_eq_of_lt h0 h]

@[simp] theorem toNat_mul (x : arith_uint256) (b32 : BitVec 32) :
    (x.mul b32).toNat = x.toNat*b32.toNat % 2^256 := by
  have h := @value_mulSmall 32 b32.toNat 0 x.pn
  rwa [x.length_pn, Nat.add_zero] at h

/-- A division by anything else gives the quotient. -/
theorem div_of_pos {x b : arith_uint256} (hb : 0 < b.toNat) :
    ∃ quotient, x.div b = .ok quotient ∧ quotient.toNat = x.toNat/b.toNat := by
  have hlen : x.pn.length = b.pn.length := x.length_pn.trans b.length_pn.symm
  unfold div
  split
  · rename_i h
    exact absurd ((divide_eq_none_iff (by decide) b.bounded_pn).mp h) hb.ne'
  · rename_i quotient h
    exact ⟨_, rfl, value_divide (by decide) hlen x.bounded_pn b.bounded_pn h⟩

@[simp] theorem toNat_shiftLeft (x : arith_uint256) (shift : ℕ) :
    (x.shiftLeft shift).toNat = x.toNat*2^shift % 2^256 := by
  have h := @value_shiftLeft 32 (by decide) shift _ x.bounded_pn
  rwa [x.length_pn] at h

@[simp] theorem toNat_shiftRight (x : arith_uint256) (shift : ℕ) :
    (x.shiftRight shift).toNat = x.toNat/2^shift :=
  value_shiftRight (by decide) shift x.bounded_pn

theorem compareTo_eq (x b : arith_uint256) : x.compareTo b = compare x.toNat b.toNat :=
  Limbs.compareTo_eq (x.length_pn.trans b.length_pn.symm) x.bounded_pn b.bounded_pn

theorem bits_eq (x : arith_uint256) : x.bits = Nat.size x.toNat :=
  Limbs.bits_eq (by decide) x.bounded_pn

@[simp] theorem toNat_getLow64 (x : arith_uint256) : x.getLow64.toNat = x.toNat % 2^64 := by
  obtain ⟨pn, hlen, hlt⟩ := x
  match pn, hlen with
  | [a, b, c, d, e, f, g, h], _ =>
    have ha := hlt.head
    have hb := hlt.tail.head
    -- the two low words do not overlap
    have hor : a ||| b <<< 32 = 2^32*b+a := by
      rw [Nat.or_comm, Nat.shiftLeft_eq, Nat.mul_comm, Nat.two_pow_add_eq_or_of_lt ha]
    unfold getLow64 toNat
    simp only [List.getD_cons_zero, List.getD_cons_succ, BitVec.toNat_ofNat, value_cons, value_nil,
      hor]
    omega

theorem equalTo_zero_iff (x : arith_uint256) : x.equalTo 0 = true ↔ x.toNat = 0 := by
  have hlow : (0 : BitVec 64).toNat % 2^32 = 0 := rfl
  have hhigh : (0 : BitVec 64).toNat >>> 32 = 0 := rfl
  obtain ⟨pn, hlen, hlt⟩ := x
  match pn, hlen with
  | a :: b :: l, _ =>
    unfold equalTo toNat
    rw [hlow, hhigh, value_eq_zero_iff, List.forall_mem_cons, List.forall_mem_cons, Bool.and_eq_true,
      Bool.and_eq_true, beq_iff_eq, beq_iff_eq, List.all_eq_true, List.getD_cons_succ,
      List.getD_cons_zero, List.getD_cons_zero]
    simp only [List.drop_succ_cons, List.drop_zero, beq_iff_eq]
    tauto

section Compact

/-- The numbers that a mantissa of 23 bits and an exponent of base 256 stand for. -/
def IsCompact (v : ℕ) : Prop := ∃ m e, m < 2^23 ∧ v = m*256^e

/-- The number that a mantissa and a size stand for. -/
def expand (m n : ℕ) : ℕ := if n ≤ 3 then m/256^(3-n) else m*256^(n-3)

/-- As many low bytes as needed, and no more, are cleared for the rest to fit a mantissa. -/
def Rounds (x v : ℕ) : Prop :=
  ∃ k, v = x/256^k*256^k ∧ x/256^k < 2^23 ∧ ∀ j, k = j+1 → 2^23 ≤ x/256^j

theorem Rounds.isGreatest {x v : ℕ} (h : Rounds x v) :
    IsGreatest {u | IsCompact u ∧ u ≤ x} v := by
  obtain ⟨k, rfl, hk, hmin⟩ := h
  refine ⟨⟨⟨_, k, hk, rfl⟩, Nat.div_mul_le_self x (256^k)⟩, ?_⟩
  rintro u ⟨⟨m, e, hm, rfl⟩, hle⟩
  rcases le_or_gt k e with hke | hek
  · -- a multiple of `256^k`
    obtain ⟨d, rfl⟩ := Nat.exists_eq_add_of_le hke
    have hsplit : m*256^(k+d) = m*256^d*256^k := by ring
    rw [hsplit] at hle ⊢
    exact Nat.mul_le_mul_right _ ((Nat.le_div_iff_mul_le (by positivity)).mpr hle)
  · -- too small an exponent for the mantissa to reach
    obtain ⟨j, rfl⟩ : ∃ j, k = j+1 := ⟨k-1, by omega⟩
    have hlow := hmin j rfl
    have htop : 2^15 ≤ x/256^(j+1) := by
      rw [pow_succ 256 j, ← Nat.div_div_eq_div_mul]
      omega
    calc m*256^e ≤ 2^23*256^j := Nat.mul_le_mul hm.le (Nat.pow_le_pow_right (by decide) (by omega))
      _ = 2^15*256^(j+1) := by ring
      _ ≤ x/256^(j+1)*256^(j+1) := Nat.mul_le_mul_right _ htop

/-- Nothing but zero is rounded to zero. -/
theorem Rounds.eq_zero_iff {x v : ℕ} (h : Rounds x v) : v = 0 ↔ x = 0 := by
  constructor
  · intro hv
    by_contra hx
    have hone : IsCompact 1 := ⟨1, 0, by decide, rfl⟩
    have hle : 1 ≤ v := h.isGreatest.2 ⟨hone, Nat.one_le_iff_ne_zero.mpr hx⟩
    omega
  · intro hx
    have hle : v ≤ x := h.isGreatest.1.2
    omega

/-- The size in bytes. -/
theorem size_bytes {x : ℕ} (hx : x < 2^256) :
    (Nat.size x+7)/8 ≤ 32 ∧ x < 256^((Nat.size x+7)/8) ∧
      ∀ j, (Nat.size x+7)/8 = j+1 → 256^j ≤ x := by
  have hsize : Nat.size x ≤ 256 := Nat.size_le.mpr hx
  have hbase (n : ℕ) : 256^n = 2^(8*n) := (pow_mul 2 8 n).symm
  refine ⟨by omega, ?_, fun j hj => ?_⟩
  · rw [hbase]
    exact Nat.size_le.mp (by omega)
  · rw [hbase]
    exact Nat.lt_size.mp (by omega)

/-- The three high bytes, and what they stand for once the sign bit is left free. -/
theorem rounds_expand {x S : ℕ} (hS : S ≤ 32) (hx : x < 256^S) (hmin : ∀ j, S = j+1 → 256^j ≤ x) :
    let w := if S ≤ 3 then x*256^(3-S) else x/256^(S-3)
    w < 2^24 ∧ (w < 2^23 → Rounds x (expand w S)) ∧
      (2^23 ≤ w → Rounds x (expand (w/256) (S+1))) := by
  intro w
  by_cases h3 : S ≤ 3
  · -- at most three bytes: the whole number moves up, nothing is lost
    have hw : w = x*256^(3-S) := if_pos h3
    have hxw : x*256^(3-S) < 2^24 := by
      calc x*256^(3-S) < 256^S*256^(3-S) := Nat.mul_lt_mul_of_pos_right hx (by positivity)
        _ = 2^24 := by rw [← pow_add, Nat.add_sub_cancel' h3]; rfl
    refine ⟨hw ▸ hxw, fun hlt => ⟨0, ?_, ?_, nofun⟩, fun hge => ?_⟩
    · rw [expand, if_pos h3, hw, Nat.mul_div_cancel _ (by positivity), pow_zero, Nat.div_one,
        Nat.mul_one]
    · rw [pow_zero, Nat.div_one]
      exact (Nat.le_mul_of_pos_right x (by positivity)).trans_lt (hw ▸ hlt)
    · rcases Nat.lt_or_ge S 3 with hlt | hge3
      · -- the mantissa has room for one byte more
        refine ⟨0, ?_, ?_, nofun⟩
        · have hsplit : 256^(3-S) = 256*256^(3-(S+1)) := by
            rw [← pow_succ', show 3-S = 3-(S+1)+1 by omega]
          rw [expand, if_pos (show S+1 ≤ 3 from hlt), hw, hsplit, pow_zero, Nat.div_one, Nat.mul_one,
            Nat.mul_left_comm, Nat.mul_div_cancel_left _ (by decide),
            Nat.mul_div_cancel _ (by positivity)]
        · rw [pow_zero, Nat.div_one]
          calc x < 256^S := hx
            _ ≤ 256^2 := Nat.pow_le_pow_right (by decide) (by omega)
            _ < 2^23 := by decide
      · -- three bytes with the top bit set: the lowest one goes
        obtain rfl : S = 3 := by omega
        have hxw : w = x := by rw [hw, Nat.sub_self, pow_zero, Nat.mul_one]
        rw [hxw] at hge ⊢
        refine ⟨1, rfl, ?_, fun j hj => ?_⟩
        · omega
        · obtain rfl : j = 0 := by omega
          rwa [pow_zero, Nat.div_one]
  · -- more than three bytes: all but the highest three go
    have hw : w = x/256^(S-3) := if_neg h3
    obtain ⟨e, rfl⟩ : ∃ e, S = e+4 := ⟨S-4, by omega⟩
    have he : e+4-3 = e+1 := by omega
    rw [he] at hw
    have hlow : 2^16 ≤ w := by
      rw [hw, Nat.le_div_iff_mul_le (by positivity)]
      calc 2^16*256^(e+1) = 256^(e+3) := by ring
        _ ≤ x := hmin (e+3) rfl
    have hxw : w < 2^24 := by
      rw [hw]
      apply Nat.div_lt_of_lt_mul
      calc x < 256^(e+4) := hx
        _ = 256^(e+1)*2^24 := by ring
    refine ⟨hxw, fun hlt => ⟨e+1, ?_, ?_, fun j hj => ?_⟩, fun hge => ⟨e+2, ?_, ?_, fun j hj => ?_⟩⟩
    · rw [expand, if_neg h3, hw, he]
    · rwa [← hw]
    · obtain rfl : j = e := by omega
      rw [Nat.le_div_iff_mul_le (by positivity)]
      rw [hw, Nat.le_div_iff_mul_le (by positivity)] at hlow
      calc 2^23*256^j ≤ 2^16*256^(j+1) := by rw [pow_succ]; omega
        _ ≤ x := hlow
    · rw [expand, if_neg (by omega), hw, Nat.div_div_eq_div_mul, ← pow_succ]
      rfl
    · rw [pow_succ, ← Nat.div_div_eq_div_mul, ← hw]
      omega
    · obtain rfl : j = e+1 := by omega
      rwa [← hw]

theorem sign_eq_zero_iff (nCompact : BitVec 32) :
    nCompact &&& 0x00800000#32 = 0 ↔ nCompact.toNat/2^23 % 2 = 0 := by
  have hand : (nCompact &&& 0x00800000#32).toNat = (nCompact.toNat.testBit 23).toNat*2^23 := by
    rw [BitVec.toNat_and]
    exact Nat.and_two_pow _ 23
  -- the mask leaves bit 23 alone
  rw [← BitVec.toNat_inj, hand, Nat.testBit_eq_decide_div_mod_eq]
  by_cases h : nCompact.toNat/2^23 % 2 = 1
  · rw [decide_eq_true h, h]
    decide
  · rw [decide_eq_false h]
    exact iff_of_true rfl (by omega)

theorem and_not_mantissa {nCompact : BitVec 32} (hm : nCompact.toNat < 2^23) :
    nCompact &&& ~~~0x007fffff#32 = 0 := by
  apply BitVec.eq_of_toNat_eq
  rw [BitVec.toNat_and]
  apply Nat.eq_of_testBit_eq
  intro i
  change (nCompact.toNat &&& 2^23*511).testBit i = (0 : ℕ).testBit i
  rw [Nat.testBit_and, Nat.testBit_two_pow_mul, Nat.zero_testBit]
  -- below bit 23 the mask is clear, above it the number is
  rcases Nat.lt_or_ge i 23 with hi | hi
  · rw [decide_eq_false (not_le.mpr hi), Bool.false_and, Bool.and_false]
  · rw [Nat.testBit_lt_two_pow (hm.trans_le (Nat.pow_le_pow_right Nat.two_pos hi)), Bool.false_and]

theorem toNat_or_size {nCompact : BitVec 32} {n : ℕ} (hm : nCompact.toNat < 2^24) (hn : n < 256) :
    (nCompact ||| BitVec.ofNat 32 n <<< 24).toNat = nCompact.toNat+2^24*n := by
  have hsize : (BitVec.ofNat 32 n <<< 24).toNat = 2^24*n := by
    rw [BitVec.toNat_shiftLeft, BitVec.toNat_ofNat, Nat.shiftLeft_eq]
    omega
  rw [BitVec.toNat_or, hsize, Nat.or_comm, ← Nat.two_pow_add_eq_or_of_lt hm, Nat.add_comm]

/-- A word of 32 bits as its three parts: the mantissa, a clear sign bit, the size. -/
theorem setCompact_eq {nCompact : BitVec 32} {m n : ℕ} (hc : nCompact.toNat = m+2^24*n)
    (hm : m < 2^23) (hfit : expand m n < 2^256) (hn : n ≤ 33) (htop : n = 33 → m < 2^16) :
    (setCompact nCompact).1.toNat = expand m n ∧ (setCompact nCompact).2 = (false, false) := by
  have hsize : (nCompact >>> 24).toNat = n := by
    rw [BitVec.toNat_ushiftRight, Nat.shiftRight_eq_div_pow, hc]
    omega
  have hword : (nCompact &&& 0x007fffff#32).toNat = m := by
    rw [BitVec.toNat_and, hc]
    exact (Nat.and_two_pow_sub_one_eq_mod _ 23).trans (by omega)
  have hsign : nCompact &&& 0x00800000#32 = 0 := by
    rw [sign_eq_zero_iff, hc]
    omega
  refine ⟨?_, ?_⟩
  · unfold setCompact expand
    unfold expand at hfit
    dsimp only
    rw [hsize]
    by_cases h3 : n ≤ 3
    · rw [if_pos h3, if_pos h3, if_pos h3, toNat_ofUInt64, BitVec.toNat_setWidth,
        BitVec.toNat_ushiftRight, hword, Nat.shiftRight_eq_div_pow, pow_mul]
      apply Nat.mod_eq_of_lt
      exact (Nat.div_le_self _ _).trans_lt (by omega)
    · rw [if_neg h3] at hfit
      rw [if_neg h3, if_neg h3, if_neg h3, toNat_shiftLeft, toNat_ofUInt64, BitVec.toNat_setWidth,
        hword, pow_mul, Nat.mod_eq_of_lt (by omega : m < 2^64)]
      exact Nat.mod_eq_of_lt hfit
  · unfold setCompact
    dsimp only
    rw [hsize, hsign]
    refine Prod.ext ?_ ?_
    · exact decide_eq_false fun h => h.2 rfl
    · -- of the three ways to overflow, two need a size above 33
      apply decide_eq_false
      rintro ⟨-, h | ⟨-, h⟩ | ⟨hword', h⟩⟩
      · omega
      · omega
      · obtain rfl : n = 33 := by omega
        rw [if_neg (by decide), BitVec.lt_def, hword] at hword'
        exact absurd (htop rfl) (not_lt.mpr hword')

/-- The word put together from a mantissa and a size decodes to what they stand for. -/
theorem setCompact_packed {x n : ℕ} {nCompact : BitVec 32} (hx : x < 2^256)
    (hm : nCompact.toNat < 2^23) (hn : n ≤ 33) (htop : n = 33 → nCompact.toNat < 2^16)
    (hr : Rounds x (expand nCompact.toNat n)) :
    Rounds x (setCompact (nCompact ||| BitVec.ofNat 32 n <<< 24)).1.toNat ∧
      (setCompact (nCompact ||| BitVec.ofNat 32 n <<< 24)).2 = (false, false) := by
  have hfit : expand nCompact.toNat n < 2^256 := hr.isGreatest.1.2.trans_lt hx
  obtain ⟨hvalue, hflags⟩ :=
    setCompact_eq (toNat_or_size (by omega) (by omega)) hm hfit hn htop
  rw [hvalue]
  exact ⟨hr, hflags⟩

/-- Encoding keeps the greatest compact number that is not above, and never fails. -/
theorem getCompact_rounds (x : arith_uint256) :
    ∃ nCompact, x.getCompact false = .ok nCompact ∧
      Rounds x.toNat (setCompact nCompact).1.toNat ∧
      (setCompact nCompact).2 = (false, false) := by
  obtain ⟨hS, hx, hmin⟩ := size_bytes x.toNat_lt
  generalize hsize : (Nat.size x.toNat+7)/8 = S at hS hx hmin
  obtain ⟨hw24, hfree, hsign⟩ := rounds_expand hS hx hmin
  generalize hw : (if S ≤ 3 then x.toNat*256^(3-S) else x.toNat/256^(S-3)) = w at hw24 hfree hsign
  -- the word that the source calls nCompact at first
  have hword : ((if S ≤ 3 then (x.getLow64 <<< (8*(3-S))).setWidth 32
      else (x.shiftRight (8*(S-3))).getLow64.setWidth 32) : BitVec 32).toNat = w := by
    rw [← hw] at hw24 ⊢
    split
    · rename_i h3
      rw [if_pos h3] at hw24
      have hlow : x.toNat < 2^24 := (Nat.le_mul_of_pos_right _ (by positivity)).trans_lt hw24
      rw [BitVec.toNat_setWidth, BitVec.toNat_shiftLeft, toNat_getLow64, Nat.shiftLeft_eq, pow_mul,
        Nat.mod_eq_of_lt (by omega : x.toNat < 2^64)]
      change x.toNat*256^(3-S) % 2^64 % 2^32 = _
      omega
    · rename_i h3
      rw [if_neg h3] at hw24
      rw [BitVec.toNat_setWidth, toNat_getLow64, toNat_shiftRight, pow_mul]
      change x.toNat/256^(S-3) % 2^64 % 2^32 = _
      rw [Nat.mod_eq_of_lt (hw24.trans (by decide)), Nat.mod_eq_of_lt (hw24.trans (by decide))]
  generalize hnCompact : ((if S ≤ 3 then (x.getLow64 <<< (8*(3-S))).setWidth 32
    else (x.shiftRight (8*(S-3))).getLow64.setWidth 32) : BitVec 32) = nCompact at hword
  have hsize' : (x.bits+7)/8 = S := by rw [bits_eq, hsize]
  unfold getCompact
  rw [hsize']
  dsimp only
  rw [hnCompact]
  by_cases hlt : w < 2^23
  · -- the sign bit is clear
    have hclear : nCompact &&& 0x00800000#32 = 0 := by
      rw [sign_eq_zero_iff, hword]
      omega
    have hm : nCompact.toNat < 2^23 := hword.trans_lt hlt
    rw [if_neg (not_not.mpr hclear)]
    dsimp only
    rw [if_neg (not_not.mpr (and_not_mantissa hm)), if_neg (by omega),
      if_neg (fun h => Bool.false_ne_true h.1)]
    refine ⟨_, rfl, ?_⟩
    rw [BitVec.or_zero]
    exact setCompact_packed x.toNat_lt hm (by omega) (by omega) (hword ▸ hfree hlt)
  · -- it is set, so the mantissa moves down by a byte
    have hset : nCompact &&& 0x00800000#32 ≠ 0 := by
      rw [ne_eq, sign_eq_zero_iff, hword]
      omega
    have hshifted : (nCompact >>> 8).toNat = w/256 := by
      rw [BitVec.toNat_ushiftRight, Nat.shiftRight_eq_div_pow, hword]
    have hm : (nCompact >>> 8).toNat < 2^16 := by omega
    rw [if_pos hset]
    dsimp only
    rw [if_neg (not_not.mpr (and_not_mantissa (by omega))), if_neg (by omega),
      if_neg (fun h => Bool.false_ne_true h.1)]
    refine ⟨_, rfl, ?_⟩
    rw [BitVec.or_zero]
    exact setCompact_packed x.toNat_lt (by omega) (by omega) (fun _ => hm)
      (hshifted ▸ hsign (not_lt.mp hlt))

end Compact

end arith_uint256

end BabaChain
