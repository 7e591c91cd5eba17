import Mathlib.Data.Nat.Digits.Lemmas
import Mathlib.Data.Nat.Size
import Mathlib.Tactic

/-! Unsigned integers of a fixed width as little-endian lists of `w`-bit limbs, with
the word loops of a big-number class and what they compute on the values. -/
namespace Limbs
open Nat (ofDigits)

variable {w : ℕ}

/-- Every limb fits its word. -/
def Bounded (w : ℕ) (l : List ℕ) : Prop := ∀ x ∈ l, x < 2^w

def value (w : ℕ) (l : List ℕ) : ℕ := ofDigits (2^w) l

@[simp] theorem value_nil : value w [] = 0 := rfl

@[simp] theorem value_cons {x : ℕ} {l : List ℕ} :
    value w (x :: l) = x+2^w*value w l := Nat.ofDigits_cons

theorem Bounded.head {x : ℕ} {l : List ℕ} (h : Bounded w (x :: l)) : x < 2^w :=
  h x List.mem_cons_self

theorem Bounded.tail {x : ℕ} {l : List ℕ} (h : Bounded w (x :: l)) : Bounded w l :=
  fun y hy => h y (List.mem_cons_of_mem x hy)

theorem bounded_cons {x : ℕ} {l : List ℕ} (hx : x < 2^w) (hl : Bounded w l) :
    Bounded w (x :: l) := List.forall_mem_cons.mpr ⟨hx, hl⟩

theorem bounded_replicate_zero (n : ℕ) : Bounded w (List.replicate n 0) := by
  intro x hx
  rw [List.eq_of_mem_replicate hx]
  exact Nat.two_pow_pos w

theorem pow_length_cons {x : ℕ} {l : List ℕ} :
    2^(w*(x :: l).length) = 2^w*2^(w*l.length) := by
  rw [List.length_cons, Nat.mul_succ, pow_add, Nat.mul_comm]

/-- The limbs below never make up for a difference above. -/
theorem add_mul_lt {x v v' : ℕ} (hx : x < 2^w) (h : v < v') : x+2^w*v < 2^w*v' := by
  have hle : 2^w*(v+1) ≤ 2^w*v' := Nat.mul_le_mul_left _ h
  rw [Nat.mul_add_one] at hle
  omega

theorem value_lt {l : List ℕ} (h : Bounded w l) : value w l < 2^(w*l.length) := by
  induction l with
  | nil => exact Nat.one_pos
  | cons x l ih =>
    rw [value_cons, pow_length_cons]
    exact add_mul_lt h.head (ih h.tail)

theorem value_eq_zero_iff {l : List ℕ} : value w l = 0 ↔ ∀ x ∈ l, x = 0 := by
  induction l with
  | nil => exact iff_of_true rfl (fun x hx => absurd hx List.not_mem_nil)
  | cons x l ih =>
    have hpos := Nat.two_pow_pos w
    rw [value_cons, List.forall_mem_cons, ← ih, Nat.add_eq_zero_iff, Nat.mul_eq_zero]
    omega

/-- Two lists of one length and one value are the same. -/
theorem value_injective (hw : 0 < w) {l l' : List ℕ} (hlen : l.length = l'.length)
    (hl : Bounded w l) (hl' : Bounded w l') (h : value w l = value w l') : l = l' :=
  Nat.ofDigits_inj_of_len_eq (Nat.one_lt_two_pow hw.ne') hlen hl hl' h

/-- The lowest `n` limbs of a number. -/
def ofValue (w : ℕ) : ℕ → ℕ → List ℕ
  | 0, _ => []
  | n+1, v => v % 2^w :: ofValue w n (v/2^w)

theorem length_ofValue (n v : ℕ) : (ofValue w n v).length = n := by
  induction n generalizing v with
  | zero => rfl
  | succ n ih => exact congrArg (·+1) (ih _)

theorem bounded_ofValue (n v : ℕ) : Bounded w (ofValue w n v) := by
  induction n generalizing v with
  | zero => exact fun x hx => absurd hx List.not_mem_nil
  | succ n ih => exact bounded_cons (Nat.mod_lt _ (Nat.two_pow_pos w)) (ih _)

theorem value_ofValue (n v : ℕ) : value w (ofValue w n v) = v % 2^(w*n) := by
  induction n generalizing v with
  | zero => exact (Nat.mod_one v).symm
  | succ n ih =>
    rw [ofValue, value_cons, ih, Nat.mul_succ, Nat.add_comm (w*n), pow_add, Nat.mod_mul]

/-- One limb of a result and the carry into the rest, seen on the values. -/
theorem carry_step (n v m : ℕ) :
    n % 2^w+2^w*((v+n/2^w) % m) = (n+2^w*v) % (2^w*m) := by
  rw [Nat.mod_mul, Nat.add_mul_mod_self_left, Nat.add_mul_div_left _ _ (Nat.two_pow_pos w),
    Nat.add_comm v]

section Multiplication

/-- `n = carry+b*x`, limb by limb. -/
def mulSmall (w b : ℕ) : ℕ → List ℕ → List ℕ
  | _, [] => []
  | carry, x :: l => (carry+b*x) % 2^w :: mulSmall w b ((carry+b*x)/2^w) l

theorem length_mulSmall (b carry : ℕ) (l : List ℕ) :
    (mulSmall w b carry l).length = l.length := by
  induction l generalizing carry with
  | nil => rfl
  | cons x l ih => exact congrArg (·+1) (ih _)

theorem bounded_mulSmall (b carry : ℕ) (l : List ℕ) : Bounded w (mulSmall w b carry l) := by
  induction l generalizing carry with
  | nil => exact fun x hx => absurd hx List.not_mem_nil
  | cons x l ih => exact bounded_cons (Nat.mod_lt _ (Nat.two_pow_pos w)) (ih _)

theorem value_mulSmall (b carry : ℕ) (l : List ℕ) :
    value w (mulSmall w b carry l) = (value w l*b+carry) % 2^(w*l.length) := by
  induction l generalizing carry with
  | nil => exact (Nat.mod_one _).symm
  | cons x l ih =>
    rw [mulSmall, value_cons, ih, carry_step, value_cons, pow_length_cons]
    congr 1
    ring

end Multiplication

section Subtraction

/-- `n = carry+x+y`, limb by limb. -/
def addCarry (w : ℕ) : ℕ → List ℕ → List ℕ → List ℕ
  | carry, x :: l, y :: l' => (carry+x+y) % 2^w :: addCarry w ((carry+x+y)/2^w) l l'
  | _, [], _ => []
  | _, _ :: _, [] => []

theorem length_addCarry (carry : ℕ) {l l' : List ℕ} (hlen : l.length = l'.length) :
    (addCarry w carry l l').length = l.length := by
  induction l generalizing carry l' with
  | nil =>
    rw [addCarry]
  | cons x l ih =>
    cases l' with
    | nil => exact absurd hlen (Nat.succ_ne_zero _)
    | cons y l' => exact congrArg (·+1) (ih _ (Nat.succ.inj hlen))

theorem bounded_addCarry (carry : ℕ) (l l' : List ℕ) : Bounded w (addCarry w carry l l') := by
  fun_induction addCarry w carry l l' with
  | case1 carry x l y l' ih => exact bounded_cons (Nat.mod_lt _ (Nat.two_pow_pos w)) ih
  | case2 => exact fun x hx => absurd hx List.not_mem_nil
  | case3 => exact fun x hx => absurd hx List.not_mem_nil

theorem value_addCarry (carry : ℕ) {l l' : List ℕ} (hlen : l.length = l'.length) :
    value w (addCarry w carry l l') = (value w l+value w l'+carry) % 2^(w*l.length) := by
  induction l generalizing carry l' with
  | nil => exact (Nat.mod_one _).symm
  | cons x l ih =>
    cases l' with
    | nil => exact absurd hlen (Nat.succ_ne_zero _)
    | cons y l' =>
      rw [addCarry, value_cons, ih _ (Nat.succ.inj hlen), carry_step, value_cons, value_cons,
        pow_length_cons]
      congr 1
      ring

/-- The words with all their bits flipped. -/
def complement (w : ℕ) (l : List ℕ) : List ℕ := l.map fun x => 2^w-1-x

theorem length_complement (l : List ℕ) : (complement w l).length = l.length := List.length_map _

theorem bounded_complement (l : List ℕ) : Bounded w (complement w l) := by
  intro y hy
  obtain ⟨x, -, rfl⟩ := List.mem_map.mp hy
  have := Nat.two_pow_pos w
  omega

theorem value_complement {l : List ℕ} (h : Bounded w l) :
    value w (complement w l)+value w l+1 = 2^(w*l.length) := by
  induction l with
  | nil => rfl
  | cons x l ih =>
    have hx := h.head
    have hword : 2^w-1-x+x+1 = 2^w := by omega
    rw [complement, List.map_cons, value_cons, value_cons, pow_length_cons, ← ih h.tail]
    calc 2^w-1-x+2^w*value w (complement w l)+(x+2^w*value w l)+1
        = (2^w-1-x+x+1)+2^w*(value w (complement w l)+value w l) := by ring
      _ = 2^w+2^w*(value w (complement w l)+value w l) := by rw [hword]
      _ = 2^w*(value w (complement w l)+value w l+1) := by ring

/-- The loop of a prefix increment: on while the word wraps to zero. -/
def increment (w : ℕ) : List ℕ → List ℕ
  | [] => []
  | x :: l => if (x+1) % 2^w = 0 then 0 :: increment w l else (x+1) % 2^w :: l

theorem length_increment (l : List ℕ) : (increment w l).length = l.length := by
  induction l with
  | nil => rfl
  | cons x l ih =>
    rw [increment]
    split
    · exact congrArg (·+1) ih
    · rfl

theorem value_increment {l : List ℕ} (h : Bounded w l) :
    value w (increment w l) = (value w l+1) % 2^(w*l.length) := by
  induction l with
  | nil => exact (Nat.mod_one _).symm
  | cons x l ih =>
    have hx : x+1 ≤ 2^w := h.head
    have hstep : value w (increment w (x :: l)) =
        (x+1) % 2^w+2^w*((value w l+(x+1)/2^w) % 2^(w*l.length)) := by
      rw [increment]
      split
      · rename_i hwrap
        -- the word wraps exactly when it was the largest one
        have hfull : x+1 = 2^w := Nat.eq_of_dvd_of_lt_two_mul (Nat.succ_ne_zero x)
          (Nat.dvd_of_mod_eq_zero hwrap) (by omega)
        rw [hwrap, hfull, Nat.div_self (Nat.two_pow_pos w), value_cons, ih h.tail]
      · rename_i hwrap
        have hlt : x+1 < 2^w := lt_of_le_of_ne hx fun he => hwrap (he ▸ Nat.mod_self _)
        rw [Nat.div_eq_of_lt hlt, Nat.add_zero (value w l), value_cons,
          Nat.mod_eq_of_lt (value_lt h.tail)]
    rw [hstep, carry_step, value_cons, pow_length_cons]
    congr 1
    ring

/-- Subtraction as addition of the two's complement. -/
def sub (w : ℕ) (l l' : List ℕ) : List ℕ := addCarry w 0 l (increment w (complement w l'))

theorem length_sub {l l' : List ℕ} (hlen : l.length = l'.length) :
    (sub w l l').length = l.length := by
  apply length_addCarry
  rw [length_increment, length_complement, hlen]

theorem value_sub {l l' : List ℕ} (hlen : l.length = l'.length) (hl : Bounded w l)
    (hl' : Bounded w l') (hle : value w l' ≤ value w l) :
    value w (sub w l l') = value w l-value w l' := by
  have hlen' : l.length = (increment w (complement w l')).length := by
    rw [length_increment, length_complement, hlen]
  have hcomplement := value_complement hl'
  have hlt := value_lt hl
  -- `l+(2^n-1-l'+1)` is `l-l'` and a carry out of the top, which is dropped
  rw [sub, value_addCarry 0 hlen', value_increment (bounded_complement l'), length_complement,
    ← hlen, Nat.add_zero, Nat.add_mod_mod]
  rw [← hlen] at hcomplement
  have hsum : value w l+(value w (complement w l')+1) =
      value w l-value w l'+2^(w*l.length) := by omega
  rw [hsum, Nat.add_mod_right, Nat.mod_eq_of_lt (by omega)]

end Subtraction

section Comparison

/-- The words from the top, up to the first that differ. -/
def compareTo : List ℕ → List ℕ → Ordering
  | x :: l, y :: l' =>
    match compareTo l l' with
    | .eq => compare x y
    | o => o
  | [], _ => .eq
  | _ :: _, [] => .eq

theorem compareTo_eq {l l' : List ℕ} (hlen : l.length = l'.length) (hl : Bounded w l)
    (hl' : Bounded w l') : compareTo l l' = compare (value w l) (value w l') := by
  induction l generalizing l' with
  | nil =>
    obtain rfl := List.length_eq_zero_iff.mp hlen.symm
    rfl
  | cons x l ih =>
    cases l' with
    | nil => exact absurd hlen (Nat.succ_ne_zero _)
    | cons y l' =>
      have hx := hl.head
      have hy := hl'.head
      rw [compareTo, ih (Nat.succ.inj hlen) hl.tail hl'.tail, value_cons, value_cons]
      -- the words above decide, and only where they agree does the lowest one
      rcases lt_trichotomy (value w l) (value w l') with h | h | h
      · have hlt : x+2^w*value w l < y+2^w*value w l' :=
          (add_mul_lt hx h).trans_le (Nat.le_add_left _ _)
        rw [Nat.compare_eq_lt.mpr h, Nat.compare_eq_lt.mpr hlt]
      · rw [h, Nat.compare_eq_eq.mpr rfl]
        dsimp only
        rcases lt_trichotomy x y with hxy | hxy | hxy
        · rw [Nat.compare_eq_lt.mpr hxy, Nat.compare_eq_lt.mpr (Nat.add_lt_add_right hxy _)]
        · rw [hxy, Nat.compare_eq_eq.mpr rfl, Nat.compare_eq_eq.mpr rfl]
        · rw [Nat.compare_eq_gt.mpr hxy, Nat.compare_eq_gt.mpr (Nat.add_lt_add_right hxy _)]
      · have hlt : y+2^w*value w l' < x+2^w*value w l :=
          (add_mul_lt hy h).trans_le (Nat.le_add_left _ _)
        rw [Nat.compare_eq_gt.mpr h, Nat.compare_eq_gt.mpr hlt]

end Comparison

section Bits

/-- The highest set bit of a word, from position `nbits` down, plus one. -/
def topBit : ℕ → ℕ → ℕ
  | 0, _ => 1
  | nbits+1, x => if x.testBit (nbits+1) then nbits+2 else topBit nbits x

/-- The position of the highest bit set plus one: the words from the top, down to
the first that is not zero. -/
def bits (w : ℕ) : List ℕ → ℕ
  | [] => 0
  | x :: l =>
    match bits w l with
    | 0 => if x = 0 then 0 else topBit (w-1) x
    | n+1 => w+(n+1)

theorem topBit_eq {nbits x : ℕ} (hx : x < 2^(nbits+1)) (h0 : 0 < x) :
    topBit nbits x = Nat.size x := by
  induction nbits with
  | zero =>
    obtain rfl : x = 1 := by omega
    rfl
  | succ nbits ih =>
    rw [topBit]
    split
    · rename_i hbit
      apply le_antisymm
      · exact Nat.lt_size.mpr (Nat.ge_two_pow_of_testBit hbit)
      · exact Nat.size_le.mpr hx
    · rename_i hbit
      apply ih
      -- a number with a clear bit `nbits+1` and none above is below it
      by_contra hge
      have hone : x.testBit (nbits+1) = true := by
        rw [Nat.testBit_eq_decide_div_mod_eq, decide_eq_true_eq]
        have hlow : 1 ≤ x/2^(nbits+1) := (Nat.one_le_div_iff (Nat.two_pow_pos _)).mpr (by omega)
        have hhigh : x/2^(nbits+1) < 2 := Nat.div_lt_of_lt_mul (by rw [← pow_succ]; exact hx)
        omega
      exact hbit hone

theorem bits_eq (hw : 0 < w) {l : List ℕ} (h : Bounded w l) : bits w l = Nat.size (value w l) := by
  induction l with
  | nil => exact Nat.size_zero.symm
  | cons x l ih =>
    have hl := ih h.tail
    have hx := h.head
    rw [bits, value_cons]
    cases hb : bits w l with
    | zero =>
      -- nothing above, so the highest bit is one of this word
      have hzero : value w l = 0 := Nat.size_eq_zero.mp (hl.symm.trans hb)
      rw [hzero, Nat.mul_zero, Nat.add_zero]
      dsimp only
      split
      · rename_i h0
        rw [h0, Nat.size_zero]
      · rename_i h0
        exact topBit_eq (by rwa [Nat.sub_add_cancel hw]) (Nat.pos_of_ne_zero h0)
    | succ n =>
      -- the words above hold the highest bit, `w` places up
      have hsize : n+1 = Nat.size (value w l) := hb.symm.trans hl
      have hlow : 2^n ≤ value w l := Nat.lt_size.mp (by omega)
      have hhigh : value w l < 2^(n+1) := Nat.size_le.mp hsize.ge
      apply le_antisymm
      · apply Nat.lt_size.mpr
        calc 2^(w+n) = 2^w*2^n := pow_add 2 w n
          _ ≤ 2^w*value w l := Nat.mul_le_mul_left _ hlow
          _ ≤ x+2^w*value w l := Nat.le_add_left _ _
      · apply Nat.size_le.mpr
        rw [pow_add]
        exact add_mul_lt hx hhigh

/-- The bit `i % w` of the word `i/w` is set. -/
def setBit (w i : ℕ) (l : List ℕ) : List ℕ := l.modify (i/w) fun x => x ||| 1 <<< (i % w)

theorem length_setBit (i : ℕ) (l : List ℕ) : (setBit w i l).length = l.length :=
  List.length_modify _ _ _

theorem bounded_setBit (hw : 0 < w) (i : ℕ) {l : List ℕ} (h : Bounded w l) :
    Bounded w (setBit w i l) := by
  have hbit : 1 <<< (i % w) < 2^w := by
    rw [Nat.one_shiftLeft]
    exact Nat.pow_lt_pow_right Nat.one_lt_two (Nat.mod_lt i hw)
  intro y hy
  obtain ⟨k, hk⟩ := List.mem_iff_getElem?.mp hy
  rw [setBit, List.getElem?_modify, Option.map_eq_map, Option.map_eq_some_iff] at hk
  obtain ⟨x, hx, rfl⟩ := hk
  have hxw := h x (List.mem_iff_getElem?.mpr ⟨k, hx⟩)
  split
  · exact Nat.or_lt_two_pow hxw hbit
  · exact hxw

/-- A bit below which and at which the value has none. -/
theorem value_setBit (hw : 0 < w) {i : ℕ} {l : List ℕ} (hl : Bounded w l)
    (hi : i < w*l.length) (hdvd : 2^(i+1) ∣ value w l) :
    value w (setBit w i l) = value w l+2^i := by
  induction l generalizing i with
  | nil => exact absurd hi (Nat.not_lt_zero i)
  | cons x l ih =>
    rw [value_cons] at hdvd
    rw [setBit]
    by_cases hiw : i < w
    · -- the bit is one of the lowest word
      have hx : 2^(i+1) ∣ x :=
        (Nat.dvd_add_left ((pow_dvd_pow 2 hiw).mul_right _)).mp hdvd
      obtain ⟨y, rfl⟩ := hx
      have hor : 2^(i+1)*y ||| 2^i = 2^(i+1)*y+2^i :=
        (Nat.two_pow_add_eq_or_of_lt (Nat.pow_lt_pow_right Nat.one_lt_two (Nat.lt_succ_self i))
          y).symm
      rw [Nat.div_eq_of_lt hiw, Nat.mod_eq_of_lt hiw, List.modify_zero_cons, value_cons,
        Nat.one_shiftLeft, hor, value_cons]
      ring
    · -- the bit is above, so the lowest word is zero
      obtain ⟨j, rfl⟩ := Nat.exists_eq_add_of_le (not_lt.mp hiw)
      have hx : x = 0 := by
        have hword : 2^w ∣ x := by
          apply (Nat.dvd_add_left (Nat.dvd_mul_right _ (value w l))).mp
          exact (pow_dvd_pow 2 (by omega)).trans hdvd
        exact Nat.eq_zero_of_dvd_of_lt hword hl.head
      have hv : 2^(j+1) ∣ value w l := by
        rw [hx, Nat.zero_add, Nat.add_assoc, pow_add] at hdvd
        exact Nat.dvd_of_mul_dvd_mul_left (Nat.two_pow_pos w) hdvd
      have hj : j < w*l.length := by
        rw [List.length_cons, Nat.mul_succ] at hi
        omega
      have hrest := ih hl.tail hj hv
      rw [setBit] at hrest
      rw [Nat.add_div_left _ hw, Nat.add_mod_left, List.modify_succ_cons, value_cons, hrest,
        value_cons, pow_add]
      ring

end Bits

section Shifts

/-- The words shifted up by `s < w` bits, each with the top bits of the one below. -/
def shiftUp (w s : ℕ) : ℕ → List ℕ → List ℕ
  | _, [] => []
  | below, x :: l => (x <<< s % 2^w ||| below >>> (w-s)) :: shiftUp w s x l

/-- The words shifted down by `s < w` bits, each with the low bits of the one above. -/
def shiftDown (w s : ℕ) : List ℕ → List ℕ
  | [] => []
  | x :: l => (x >>> s ||| l.headD 0 <<< (w-s) % 2^w) :: shiftDown w s l

/-- `<<=`: by whole words and by the bits that are left. -/
def shiftLeft (w shift : ℕ) (l : List ℕ) : List ℕ :=
  (List.replicate (shift/w) 0++shiftUp w (shift % w) 0 l).take l.length

/-- `>>=`. -/
def shiftRight (w shift : ℕ) (l : List ℕ) : List ℕ :=
  shiftDown w (shift % w) (l.drop (shift/w))++List.replicate (min (shift/w) l.length) 0

theorem length_shiftUp (s below : ℕ) (l : List ℕ) : (shiftUp w s below l).length = l.length := by
  induction l generalizing below with
  | nil => rfl
  | cons x l ih => exact congrArg (·+1) (ih x)

theorem length_shiftDown (s : ℕ) (l : List ℕ) : (shiftDown w s l).length = l.length := by
  induction l with
  | nil => rfl
  | cons x l ih => exact congrArg (·+1) ih

theorem length_shiftLeft (shift : ℕ) (l : List ℕ) : (shiftLeft w shift l).length = l.length := by
  rw [shiftLeft, List.length_take, List.length_append, List.length_replicate, length_shiftUp]
  exact Nat.min_eq_left (Nat.le_add_left _ _)

theorem length_shiftRight (shift : ℕ) (l : List ℕ) : (shiftRight w shift l).length = l.length := by
  rw [shiftRight, List.length_append, length_shiftDown, List.length_drop, List.length_replicate]
  omega

/-- A word shifted up, joined to the bits that come in from below: what stays in the
word, and what goes on above. -/
theorem split_shifted {s x below : ℕ} (hs : s ≤ w) (hb : below < 2^w) :
    x <<< s % 2^w ||| below >>> (w-s) = (x*2^s+below/2^(w-s)) % 2^w ∧
      x/2^(w-s) = (x*2^s+below/2^(w-s))/2^w := by
  have hsplit : 2^w = 2^s*2^(w-s) := by rw [← pow_add, Nat.add_sub_cancel' hs]
  have hlow : below/2^(w-s) < 2^s := Nat.div_lt_of_lt_mul (by rwa [Nat.mul_comm, ← hsplit])
  have hhigh : x*2^s % 2^w = 2^s*(x % 2^(w-s)) := by
    rw [hsplit, Nat.mul_comm x, Nat.mul_mod_mul_left]
  have hsum : x*2^s+below/2^(w-s) =
      (2^s*(x % 2^(w-s))+below/2^(w-s))+2^w*(x/2^(w-s)) := by
    calc x*2^s+below/2^(w-s)
        = 2^s*(2^(w-s)*(x/2^(w-s))+x % 2^(w-s))+below/2^(w-s) := by
          rw [Nat.div_add_mod, Nat.mul_comm]
      _ = _ := by rw [hsplit]; ring
  have hlt : 2^s*(x % 2^(w-s))+below/2^(w-s) < 2^w := by
    have hmod : x % 2^(w-s)+1 ≤ 2^(w-s) := Nat.mod_lt x (Nat.two_pow_pos _)
    have hle : 2^s*(x % 2^(w-s)+1) ≤ 2^w := hsplit ▸ Nat.mul_le_mul_left (2^s) hmod
    rw [Nat.mul_add_one] at hle
    omega
  constructor
  · rw [Nat.shiftLeft_eq, Nat.shiftRight_eq_div_pow, hhigh,
      ← Nat.two_pow_add_eq_or_of_lt hlow (x % 2^(w-s)), hsum, Nat.add_mul_mod_self_left,
      Nat.mod_eq_of_lt hlt]
  · rw [hsum, Nat.add_mul_div_left _ _ (Nat.two_pow_pos w), Nat.div_eq_of_lt hlt, Nat.zero_add]

theorem bounded_shiftUp {s below : ℕ} {l : List ℕ} (hb : below < 2^w) (hl : Bounded w l) :
    Bounded w (shiftUp w s below l) := by
  induction l generalizing below with
  | nil => exact hl
  | cons x l ih =>
    have hbelow : below >>> (w-s) < 2^w := (Nat.shiftRight_le _ _).trans_lt hb
    exact bounded_cons (Nat.or_lt_two_pow (Nat.mod_lt _ (Nat.two_pow_pos w)) hbelow)
      (ih hl.head hl.tail)

theorem value_shiftUp {s below : ℕ} (hs : s ≤ w) {l : List ℕ} (hb : below < 2^w)
    (hl : Bounded w l) :
    value w (shiftUp w s below l) = (value w l*2^s+below/2^(w-s)) % 2^(w*l.length) := by
  induction l generalizing below with
  | nil => exact (Nat.mod_one _).symm
  | cons x l ih =>
    obtain ⟨hdigit, hcarry⟩ := @split_shifted w s x below hs hb
    rw [shiftUp, value_cons, ih hl.head hl.tail, hdigit, hcarry, carry_step, value_cons,
      pow_length_cons]
    congr 1
    ring

theorem value_append (l l' : List ℕ) :
    value w (l++l') = value w l+2^(w*l.length)*value w l' := by
  rw [value, Nat.ofDigits_append, pow_mul]
  rfl

theorem value_replicate_zero (n : ℕ) : value w (List.replicate n 0) = 0 :=
  Nat.ofDigits_replicate_zero

theorem value_take (n : ℕ) {l : List ℕ} (hl : Bounded w l) :
    value w (l.take n) = value w l % 2^(w*n) := by
  rw [pow_mul]
  exact (Nat.ofDigits_mod_pow_eq_ofDigits_take n (Nat.two_pow_pos w) l hl).symm

theorem value_drop (n : ℕ) {l : List ℕ} (hl : Bounded w l) :
    value w (l.drop n) = value w l/2^(w*n) := by
  rw [pow_mul]
  exact (Nat.ofDigits_div_pow_eq_ofDigits_drop n (Nat.two_pow_pos w) l hl).symm

theorem bounded_shiftLeft (shift : ℕ) {l : List ℕ} (hl : Bounded w l) :
    Bounded w (shiftLeft w shift l) := by
  intro x hx
  rcases List.mem_append.mp (List.mem_of_mem_take hx) with hx | hx
  · exact bounded_replicate_zero _ x hx
  · exact bounded_shiftUp (Nat.two_pow_pos w) hl x hx

theorem value_shiftLeft (hw : 0 < w) (shift : ℕ) {l : List ℕ} (hl : Bounded w l) :
    value w (shiftLeft w shift l) = value w l*2^shift % 2^(w*l.length) := by
  have hup : Bounded w (shiftUp w (shift % w) 0 l) := bounded_shiftUp (Nat.two_pow_pos w) hl
  have hall : Bounded w (List.replicate (shift/w) 0++shiftUp w (shift % w) 0 l) :=
    List.forall_mem_append.mpr ⟨bounded_replicate_zero _, hup⟩
  have hpow : 2^shift = 2^(w*(shift/w))*2^(shift % w) := by rw [← pow_add, Nat.div_add_mod]
  rw [shiftLeft, value_take _ hall, value_append, value_replicate_zero, Nat.zero_add,
    List.length_replicate, value_shiftUp (Nat.mod_lt shift hw).le (Nat.two_pow_pos w) hl,
    Nat.zero_div, Nat.add_zero, hpow]
  -- the product is cut off once more than it was, at the same width
  rw [Nat.mul_mod, Nat.mod_mod, ← Nat.mul_mod]
  congr 1
  ring

theorem bounded_shiftDown {s : ℕ} {l : List ℕ} (hl : Bounded w l) :
    Bounded w (shiftDown w s l) := by
  induction l with
  | nil => exact hl
  | cons x l ih =>
    have hx : x >>> s < 2^w := (Nat.shiftRight_le _ _).trans_lt hl.head
    exact bounded_cons (Nat.or_lt_two_pow hx (Nat.mod_lt _ (Nat.two_pow_pos w))) (ih hl.tail)

theorem value_shiftDown {s : ℕ} (hs : s ≤ w) {l : List ℕ} (hl : Bounded w l) :
    value w (shiftDown w s l) = value w l/2^s := by
  have hsplit : 2^w = 2^s*2^(w-s) := by rw [← pow_add, Nat.add_sub_cancel' hs]
  induction l with
  | nil => exact (Nat.zero_div _).symm
  | cons x l ih =>
    have hlow : x/2^s < 2^(w-s) := Nat.div_lt_of_lt_mul (hsplit ▸ hl.head)
    -- the low bits of the word above are the low bits of all that is above
    have hhead : l.headD 0*2^(w-s) % 2^w = 2^(w-s)*(value w l % 2^s) := by
      have hword : l.headD 0 % 2^s = value w l % 2^s := by
        cases l with
        | nil => rfl
        | cons y l =>
          rw [value_cons, hsplit, Nat.mul_assoc, Nat.add_mul_mod_self_left, List.headD_cons]
      rw [hsplit, Nat.mul_comm (2^s), Nat.mul_comm (l.headD 0), Nat.mul_mod_mul_left, hword]
    have hor : x >>> s ||| l.headD 0 <<< (w-s) % 2^w = 2^(w-s)*(value w l % 2^s)+x/2^s := by
      rw [Nat.shiftLeft_eq, Nat.shiftRight_eq_div_pow, hhead, Nat.or_comm,
        Nat.two_pow_add_eq_or_of_lt hlow]
    have hsum : x+2^w*value w l = x+2^s*(2^(w-s)*value w l) := by rw [hsplit, Nat.mul_assoc]
    rw [shiftDown, value_cons, value_cons, ih hl.tail, hor, hsum,
      Nat.add_mul_div_left _ _ (Nat.two_pow_pos s)]
    calc 2^(w-s)*(value w l % 2^s)+x/2^s+2^w*(value w l/2^s)
        = x/2^s+2^(w-s)*(2^s*(value w l/2^s)+value w l % 2^s) := by rw [hsplit]; ring
      _ = x/2^s+2^(w-s)*value w l := by rw [Nat.div_add_mod]

theorem bounded_drop (n : ℕ) {l : List ℕ} (hl : Bounded w l) : Bounded w (l.drop n) :=
  fun x hx => hl x (List.mem_of_mem_drop hx)

theorem bounded_shiftRight (shift : ℕ) {l : List ℕ} (hl : Bounded w l) :
    Bounded w (shiftRight w shift l) := by
  intro x hx
  rcases List.mem_append.mp hx with hx | hx
  · exact bounded_shiftDown (bounded_drop _ hl) x hx
  · exact bounded_replicate_zero _ x hx

theorem value_shiftRight (hw : 0 < w) (shift : ℕ) {l : List ℕ} (hl : Bounded w l) :
    value w (shiftRight w shift l) = value w l/2^shift := by
  rw [shiftRight, value_append, value_replicate_zero, Nat.mul_zero, Nat.add_zero,
    value_shiftDown (Nat.mod_lt shift hw).le (bounded_drop _ hl), value_drop _ hl, Nat.div_div_eq_div_mul,
    ← pow_add, Nat.div_add_mod]

end Shifts

section Division

/-- The shift-and-subtract loop, with the number of turns that are left. -/
def divLoop (w : ℕ) : ℕ → List ℕ → List ℕ → List ℕ → List ℕ
  | 0, _, _, quotient => quotient
  | shift+1, div, num, quotient =>
    if compareTo num div = .lt then divLoop w shift (shiftRight w 1 div) num quotient
    else divLoop w shift (shiftRight w 1 div) (sub w num div) (setBit w shift quotient)

/-- `/=`, with `none` for a division by zero. -/
def divide (w : ℕ) (num div : List ℕ) : Option (List ℕ) :=
  let num_bits := bits w num
  let div_bits := bits w div
  if div_bits = 0 then none
  else if num_bits < div_bits then some (List.replicate num.length 0)
  else
    let shift := num_bits-div_bits
    some (divLoop w (shift+1) (shiftLeft w shift div) num (List.replicate num.length 0))

theorem length_divLoop (n : ℕ) (div num quotient : List ℕ) :
    (divLoop w n div num quotient).length = quotient.length := by
  induction n generalizing div num quotient with
  | zero => rfl
  | succ n ih =>
    rw [divLoop]
    split
    · exact ih _ _ _
    · rw [ih, length_setBit]

theorem bounded_divLoop (hw : 0 < w) (n : ℕ) (div num : List ℕ) {quotient : List ℕ}
    (hq : Bounded w quotient) : Bounded w (divLoop w n div num quotient) := by
  induction n generalizing div num quotient with
  | zero => exact hq
  | succ n ih =>
    rw [divLoop]
    split
    · exact ih _ _ hq
    · exact ih _ _ (bounded_setBit hw n hq)

/-- With `n` turns left the divisor stands `n-1` places up, the remainder is less than
`n` places of it, and the quotient has no bit below the place `n`. -/
theorem value_divLoop (hw : 0 < w) {n d : ℕ} {div num quotient : List ℕ}
    (hdiv : Bounded w div) (hnum : Bounded w num) (hq : Bounded w quotient)
    (hlen : num.length = div.length) (hn : n ≤ w*quotient.length) (hd : 0 < d)
    (hplace : ∀ k, n = k+1 → value w div = d*2^k) (hrem : value w num < d*2^n)
    (hdvd : 2^n ∣ value w quotient) :
    value w (divLoop w n div num quotient) = value w quotient+value w num/d := by
  induction n generalizing div num quotient with
  | zero =>
    rw [pow_zero, Nat.mul_one] at hrem
    rw [divLoop, Nat.div_eq_of_lt hrem, Nat.add_zero]
  | succ n ih =>
    have hplace' : value w div = d*2^n := hplace n rfl
    have hhalf (k : ℕ) (hk : n = k+1) : value w (shiftRight w 1 div) = d*2^k := by
      rw [value_shiftRight hw 1 hdiv, hplace', hk, pow_succ, pow_one, ← Nat.mul_assoc,
        Nat.mul_div_cancel _ Nat.two_pos]
    have hdiv' : Bounded w (shiftRight w 1 div) := bounded_shiftRight 1 hdiv
    have hlen' : num.length = (shiftRight w 1 div).length := by rw [length_shiftRight, hlen]
    have hless : compareTo num div = .lt ↔ value w num < d*2^n := by
      rw [compareTo_eq hlen hnum hdiv, Nat.compare_eq_lt, hplace']
    rw [divLoop]
    split
    · -- the divisor does not fit at this place: only the place moves
      rename_i hlt
      exact ih hdiv' hnum hq hlen' (by omega) hhalf (hless.mp hlt)
        ((pow_dvd_pow 2 (by omega)).trans hdvd)
    · -- it fits: `d*2^n` goes from the remainder, `2^n` into the quotient
      rename_i hge
      have hle : d*2^n ≤ value w num := not_lt.mp (mt hless.mpr hge)
      have hsub : value w (sub w num div) = value w num-d*2^n := by
        rw [value_sub hlen hnum hdiv (hplace' ▸ hle), hplace']
      have hset : value w (setBit w n quotient) = value w quotient+2^n :=
        value_setBit hw hq hn hdvd
      have hdouble : d*2^(n+1) = d*2^n+d*2^n := by rw [pow_succ]; ring
      have hsublen : (sub w num div).length = (shiftRight w 1 div).length := by
        rw [length_sub hlen, hlen']
      have hdvd' : 2^n ∣ value w (setBit w n quotient) := by
        rw [hset]
        exact ((pow_dvd_pow 2 (Nat.le_succ n)).trans hdvd).add (dvd_refl _)
      have hsubrem : value w (sub w num div) < d*2^n := by omega
      have hsetlen : n ≤ w*(setBit w n quotient).length := by
        rw [length_setBit]
        exact Nat.le_of_succ_le hn
      have hsubbounded : Bounded w (sub w num div) := bounded_addCarry _ _ _
      rw [ih hdiv' hsubbounded (bounded_setBit hw n hq) hsublen hsetlen hhalf hsubrem hdvd', hset,
        hsub, Nat.add_assoc]
      congr 1
      -- what was taken from the remainder is what the quotient gained
      calc 2^n+(value w num-d*2^n)/d = (value w num-d*2^n+d*2^n)/d := by
            rw [Nat.add_mul_div_left _ _ hd, Nat.add_comm]
        _ = value w num/d := by rw [Nat.sub_add_cancel hle]

theorem divide_eq_none_iff (hw : 0 < w) {num div : List ℕ} (hdiv : Bounded w div) :
    divide w num div = none ↔ value w div = 0 := by
  rw [← Nat.size_eq_zero, ← bits_eq hw hdiv, divide]
  dsimp only
  split
  · rename_i h0
    exact iff_of_true rfl h0
  · rename_i h0
    refine iff_of_false ?_ h0
    split <;> exact Option.some_ne_none _

theorem divide_wellFormed (hw : 0 < w) {num div quotient : List ℕ}
    (h : divide w num div = some quotient) :
    quotient.length = num.length ∧ Bounded w quotient := by
  unfold divide at h
  dsimp only at h
  split_ifs at h
  · obtain rfl := Option.some.inj h
    exact ⟨List.length_replicate, bounded_replicate_zero _⟩
  · obtain rfl := Option.some.inj h
    refine ⟨?_, bounded_divLoop hw _ _ _ (bounded_replicate_zero _)⟩
    rw [length_divLoop, List.length_replicate]

/-- The loop computes the quotient of the values. -/
theorem value_divide (hw : 0 < w) {num div quotient : List ℕ} (hlen : num.length = div.length)
    (hnum : Bounded w num) (hdiv : Bounded w div) (h : divide w num div = some quotient) :
    value w quotient = value w num/value w div := by
  have hpos : 0 < value w div := by
    rw [Nat.pos_iff_ne_zero, ne_eq, ← divide_eq_none_iff hw hdiv, h]
    exact Option.some_ne_none _
  unfold divide at h
  dsimp only at h
  rw [bits_eq hw hnum, bits_eq hw hdiv] at h
  have hsizes := Nat.size_pos.mpr hpos
  have hnumlt : value w num < 2^Nat.size (value w num) := Nat.lt_size_self _
  have hdivlt : value w div < 2^Nat.size (value w div) := Nat.lt_size_self _
  split_ifs at h with h0 hlt
  · -- fewer bits than the divisor: the quotient is zero
    obtain rfl := Option.some.inj h
    have hless : value w num < value w div := by
      by_contra hge
      exact absurd (Nat.size_le_size (not_lt.mp hge)) (not_le.mpr hlt)
    rw [value_replicate_zero, Nat.div_eq_of_lt hless]
  · obtain rfl := Option.some.inj h
    obtain ⟨shift, hshift⟩ := Nat.exists_eq_add_of_le (not_lt.mp hlt)
    have hbits : Nat.size (value w num) ≤ w*num.length := Nat.size_le.mpr (value_lt hnum)
    have hsub : Nat.size (value w num)-Nat.size (value w div) = shift := by omega
    -- the divisor is moved up to the top bit of the dividend, where it still fits
    have haligned : value w (shiftLeft w shift div) = value w div*2^shift := by
      rw [value_shiftLeft hw shift hdiv]
      apply Nat.mod_eq_of_lt
      calc value w div*2^shift < 2^Nat.size (value w div)*2^shift :=
            Nat.mul_lt_mul_of_pos_right hdivlt (Nat.two_pow_pos shift)
        _ = 2^Nat.size (value w num) := by rw [← pow_add, ← hshift]
        _ ≤ 2^(w*div.length) := Nat.pow_le_pow_right Nat.two_pos (hlen ▸ hbits)
    have hrem : value w num < value w div*2^(shift+1) := by
      have htop : 2^(Nat.size (value w div)-1) ≤ value w div := Nat.lt_size.mp (by omega)
      calc value w num < 2^(Nat.size (value w div)-1)*2^(shift+1) := by
            rw [← pow_add]
            exact hnumlt.trans_eq (congrArg (2^·) (by omega))
        _ ≤ value w div*2^(shift+1) := Nat.mul_le_mul_right _ htop
    rw [hsub, value_divLoop hw (bounded_shiftLeft shift hdiv) hnum (bounded_replicate_zero _)
      (by rw [length_shiftLeft, hlen]) (by rw [List.length_replicate]; omega) hpos
      (fun k hk => by rw [haligned, Nat.succ.inj hk]) hrem
      (by rw [value_replicate_zero]; exact dvd_zero _), value_replicate_zero, Nat.zero_add]

end Division

end Limbs
