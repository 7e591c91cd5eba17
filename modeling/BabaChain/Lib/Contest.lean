import Mathlib.Algebra.BigOperators.Fin
import Mathlib.Algebra.Order.BigOperators.Ring.Finset
import Mathlib.Data.Fintype.Pi
import Mathlib.Data.Fintype.Fin
import Mathlib.Tactic

/-! A contest in which everyone draws a number below `N` and divides it by a divisor of
its own; the greatest quotient wins. How many of the draws let one of them win. -/
namespace Contest
open Finset

section FirstMax

variable {α : Type*} (score : α → ℕ)

/-- The first with the greatest score in a list, if that is more than `m`. -/
def firstMax : List α → Option α → ℕ → Option α
  | [], best, _ => best
  | a :: l, best, m => if m < score a then firstMax l (some a) (score a) else firstMax l best m

variable {score}

theorem firstMax_cases (l : List α) (best : Option α) (m : ℕ) :
    (firstMax score l best m = best ∧ ∀ a ∈ l, score a ≤ m) ∨
      ∃ a ∈ l, firstMax score l best m = some a ∧ m < score a ∧ ∀ b ∈ l, score b ≤ score a := by
  induction l generalizing best m with
  | nil => exact .inl ⟨rfl, fun a ha => absurd ha List.not_mem_nil⟩
  | cons a l ih =>
    rw [firstMax]
    split
    · -- `a` is the first so far, and stays it unless a later one has more
      rename_i hlt
      rcases ih (some a) (score a) with ⟨hbest, hle⟩ | ⟨b, hb, hbest, hmore, hle⟩
      · exact .inr ⟨a, List.mem_cons_self, hbest, hlt, List.forall_mem_cons.mpr ⟨le_rfl, hle⟩⟩
      · exact .inr ⟨b, List.mem_cons_of_mem a hb, hbest, hlt.trans hmore,
          List.forall_mem_cons.mpr ⟨hmore.le, hle⟩⟩
    · rename_i hge
      rcases ih best m with ⟨hbest, hle⟩ | ⟨b, hb, hbest, hmore, hle⟩
      · exact .inl ⟨hbest, List.forall_mem_cons.mpr ⟨not_lt.mp hge, hle⟩⟩
      · exact .inr ⟨b, List.mem_cons_of_mem a hb, hbest, hmore,
          List.forall_mem_cons.mpr ⟨(not_lt.mp hge).trans hmore.le, hle⟩⟩

theorem le_of_firstMax {l : List α} {a : α} (h : firstMax score l none 0 = some a) :
    ∀ b ∈ l, score b ≤ score a := by
  rcases firstMax_cases l none 0 with ⟨hnone, -⟩ | ⟨c, -, hsome, -, hle⟩
  · exact absurd (hnone.symm.trans h) (Option.some_ne_none a).symm
  · obtain rfl : c = a := Option.some.inj (hsome.symm.trans h)
    exact hle

theorem firstMax_of_lt {l : List α} {a : α} (ha : a ∈ l) (hpos : 0 < score a)
    (h : ∀ b ∈ l, b ≠ a → score b < score a) : firstMax score l none 0 = some a := by
  rcases firstMax_cases l none 0 with ⟨-, hle⟩ | ⟨c, hc, hsome, -, hle⟩
  · exact absurd (hle a ha) (not_le.mpr hpos)
  · by_cases hca : c = a
    · rw [hsome, hca]
    · exact absurd (hle a ha) (not_le.mpr (h c hc hca))

end FirstMax

section PowerSums

/-- The step of `y^n` from below. -/
theorem pow_add_le (y n : ℕ) : y^n+n*y^(n-1) ≤ (y+1)^n := by
  cases n with
  | zero => simp
  | succ n =>
    induction n with
    | zero => rw [Nat.sub_self, pow_zero, zero_add, pow_one, pow_one, Nat.one_mul]
    | succ n ih =>
      rw [Nat.add_sub_cancel] at ih ⊢
      calc y^(n+1+1)+(n+1+1)*y^(n+1) ≤ (y^(n+1)+(n+1)*y^n)*(y+1) := by
            have h : (y^(n+1)+(n+1)*y^n)*(y+1) = y^(n+1+1)+(n+1+1)*y^(n+1)+(n+1)*y^n := by ring
            omega
        _ ≤ (y+1)^(n+1)*(y+1) := Nat.mul_le_mul_right _ ih
        _ = (y+1)^(n+1+1) := (pow_succ _ _).symm

/-- The same step from above. -/
theorem pow_le_add (y n : ℕ) : (y+1)^n ≤ y^n+n*(y+1)^(n-1) := by
  cases n with
  | zero => simp
  | succ n =>
    induction n with
    | zero => rw [Nat.sub_self, pow_zero, zero_add, pow_one, pow_one, Nat.one_mul]
    | succ n ih =>
      rw [Nat.add_sub_cancel] at ih ⊢
      calc (y+1)^(n+1+1) = (y+1)^(n+1)*y+(y+1)^(n+1) := by ring
        _ ≤ (y^(n+1)+(n+1)*(y+1)^n)*y+(y+1)^(n+1) :=
          Nat.add_le_add_right (Nat.mul_le_mul_right _ ih) _
        _ ≤ y^(n+1+1)+(n+1+1)*(y+1)^(n+1) := by
          have h : (y^(n+1)+(n+1)*(y+1)^n)*y+(y+1)^(n+1)+(n+1)*(y+1)^n =
              y^(n+1+1)+(n+1+1)*(y+1)^(n+1) := by ring
          omega

theorem sum_pow_le (n M : ℕ) : n*∑ v ∈ range M, (v+1)^(n-1) ≤ (M+1)^n := by
  induction M with
  | zero => simp
  | succ M ih =>
    rw [sum_range_succ, Nat.mul_add]
    exact (Nat.add_le_add_right ih _).trans (pow_add_le (M+1) n)

theorem le_sum_pow {n : ℕ} (hn : 0 < n) (M : ℕ) : M^n ≤ n*∑ v ∈ range M, (v+1)^(n-1) := by
  induction M with
  | zero => rw [zero_pow hn.ne']; exact Nat.zero_le _
  | succ M ih =>
    rw [sum_range_succ, Nat.mul_add]
    exact (pow_le_add M n).trans (Nat.add_le_add_right ih _)

/-- `(1-d/y)^n` is at least `1-n*d/y`. -/
theorem sub_mul_pow_le {y d : ℤ} (hd : 0 ≤ d) (hdy : d ≤ y) (n : ℕ) :
    (y-n*d)*y^n ≤ y*(y-d)^n := by
  induction n with
  | zero => simp
  | succ n ih =>
    have hy : 0 ≤ y := hd.trans hdy
    have hrest : 0 ≤ y-d := sub_nonneg.mpr hdy
    have hextra : 0 ≤ n*d*d*y^n := by positivity
    have hstep : (y-n*d)*y^n*(y-d) = (y-(n+1 : ℕ)*d)*y^(n+1)+n*d*d*y^n := by
      push_cast
      ring
    calc (y-(n+1 : ℕ)*d)*y^(n+1) ≤ (y-n*d)*y^n*(y-d) := by
          rw [hstep]
          exact le_add_of_nonneg_right hextra
      _ ≤ y*(y-d)^n*(y-d) := mul_le_mul_of_nonneg_right ih hrest
      _ = y*(y-d)^(n+1) := by ring

/-- Blocks of `q` numbers with one quotient. -/
theorem sum_div (f : ℕ → ℕ) {q : ℕ} (hq : 0 < q) (M : ℕ) :
    ∑ x ∈ range (q*M), f (x/q) = q*∑ v ∈ range M, f v := by
  induction M with
  | zero => simp
  | succ M ih =>
    have hblock (i : ℕ) (hi : i ∈ range q) : f ((q*M+i)/q) = f M := by
      rw [Nat.mul_add_div hq, Nat.div_eq_of_lt (mem_range.mp hi), Nat.add_zero]
    rw [Nat.mul_succ, sum_range_add, ih, sum_congr rfl hblock, sum_const, card_range, smul_eq_mul,
      sum_range_succ, Nat.mul_add]

end PowerSums

section Counting

variable {ι : Type*} [Fintype ι] [DecidableEq ι] {N : ℕ} {q : ι → ℕ}

/-- The draws in which no other is ahead of `k`. -/
def leading (N : ℕ) (q : ι → ℕ) (k : ι) : Finset (ι → Fin N) :=
  {h | ∀ j, j ≠ k → (h j : ℕ)/q j ≤ (h k : ℕ)/q k}

/-- The draws in which `k` is ahead of zero and of all the others. -/
def winning (N : ℕ) (q : ι → ℕ) (k : ι) : Finset (ι → Fin N) :=
  {h | 0 < (h k : ℕ)/q k ∧ ∀ j, j ≠ k → (h j : ℕ)/q j < (h k : ℕ)/q k}

@[simp] theorem mem_leading {k : ι} {h : ι → Fin N} :
    h ∈ leading N q k ↔ ∀ j, j ≠ k → (h j : ℕ)/q j ≤ (h k : ℕ)/q k := by
  rw [leading, mem_filter, and_iff_right (mem_univ h)]

@[simp] theorem mem_winning {k : ι} {h : ι → Fin N} :
    h ∈ winning N q k ↔
      0 < (h k : ℕ)/q k ∧ ∀ j, j ≠ k → (h j : ℕ)/q j < (h k : ℕ)/q k := by
  rw [winning, mem_filter, and_iff_right (mem_univ h)]

/-- Draws counted by what `k` draws. -/
theorem card_by_coordinate (k : ι) (P : Fin N → Prop) [DecidablePred P]
    (A : Fin N → ι → Finset (Fin N)) :
    #{h : ι → Fin N | P (h k) ∧ ∀ j, j ≠ k → h j ∈ A (h k) j} =
      ∑ x with P x, ∏ j ∈ univ.erase k, #(A x j) := by
  have hmaps : ∀ h ∈ ({h : ι → Fin N | P (h k) ∧ ∀ j, j ≠ k → h j ∈ A (h k) j} : Finset _),
      h k ∈ ({x | P x} : Finset (Fin N)) := by
    intro h hh
    exact mem_filter.mpr ⟨mem_univ _, (mem_filter.mp hh).2.1⟩
  rw [card_eq_sum_card_fiberwise hmaps]
  -- with `h k` fixed the other coordinates are free of each other
  apply sum_congr rfl
  intro x hx
  have hPx : P x := (mem_filter.mp hx).2
  have hfiber : ({h ∈ ({h : ι → Fin N | P (h k) ∧ ∀ j, j ≠ k → h j ∈ A (h k) j} : Finset _) |
      h k = x} : Finset _) = Fintype.piFinset fun j => if j = k then {x} else A x j := by
    ext h
    rw [mem_filter, mem_filter, Fintype.mem_piFinset]
    constructor
    · rintro ⟨⟨-, -, hA⟩, rfl⟩ j
      by_cases hj : j = k
      · rw [if_pos hj, hj]
        exact mem_singleton_self _
      · rw [if_neg hj]
        exact hA j hj
    · intro hpi
      have hk := hpi k
      rw [if_pos rfl, mem_singleton] at hk
      refine ⟨⟨mem_univ _, hk ▸ hPx, fun j hj => ?_⟩, hk⟩
      have hj' := hpi j
      rw [if_neg hj] at hj'
      rwa [hk]
  rw [hfiber, Fintype.card_piFinset, ← mul_prod_erase univ _ (mem_univ k), if_pos rfl,
    card_singleton, Nat.one_mul]
  apply prod_congr rfl
  intro j hj
  rw [if_neg (ne_of_mem_erase hj)]

theorem card_quotient_lt {d : ℕ} (hd : 0 < d) (v : ℕ) :
    #{y : Fin N | (y : ℕ)/d < v} = min N (d*v) := by
  rw [← Fin.card_filter_val_lt]
  congr 1
  ext y
  rw [mem_filter, mem_filter, Nat.div_lt_iff_lt_mul hd, Nat.mul_comm]

/-- At most so many draws leave nobody ahead of `k`. -/
theorem card_leading_le (hq : ∀ j, 0 < q j) (k : ι) :
    Fintype.card ι*#(leading N q k) ≤ (∏ j, q j)*(N/q k+2)^Fintype.card ι := by
  have hform : leading N q k = ({h | True ∧ ∀ j, j ≠ k →
      h j ∈ ({y : Fin N | (y : ℕ)/q j < (h k : ℕ)/q k+1} : Finset (Fin N))} : Finset _) := by
    apply filter_congr
    intro h _
    rw [true_and]
    refine forall₂_congr fun j _ => ?_
    rw [mem_filter, Nat.lt_succ_iff]
    exact (and_iff_right (mem_univ _)).symm
  -- a draw `x` of `k` leaves the others at most `q j*(x/q k+1)` each
  have hcount : #(leading N q k) ≤
      (∏ j ∈ univ.erase k, q j)*∑ x ∈ range N, (x/q k+1)^(Fintype.card ι-1) := by
    rw [hform, card_by_coordinate k (fun _ => True)
      (fun x j => ({y : Fin N | (y : ℕ)/q j < (x : ℕ)/q k+1} : Finset (Fin N))), filter_true,
      ← Fin.sum_univ_eq_sum_range (fun x => (x/q k+1)^(Fintype.card ι-1)), mul_sum]
    apply sum_le_sum
    intro x _
    calc ∏ j ∈ univ.erase k, #({y : Fin N | (y : ℕ)/q j < (x : ℕ)/q k+1} : Finset (Fin N))
        ≤ ∏ j ∈ univ.erase k, q j*((x : ℕ)/q k+1) := by
          apply prod_le_prod' fun j _ => ?_
          rw [card_quotient_lt (hq j)]
          exact Nat.min_le_right _ _
      _ = (∏ j ∈ univ.erase k, q j)*((x : ℕ)/q k+1)^(Fintype.card ι-1) := by
          rw [prod_mul_distrib, prod_const, card_erase_of_mem (mem_univ k), card_univ]
  -- the last block of one quotient is filled up
  have hblocks : ∑ x ∈ range N, (x/q k+1)^(Fintype.card ι-1) ≤
      q k*∑ v ∈ range (N/q k+1), (v+1)^(Fintype.card ι-1) := by
    rw [← sum_div (fun v => (v+1)^(Fintype.card ι-1)) (hq k)]
    apply sum_le_sum_of_subset
    exact range_subset_range.mpr (Nat.lt_mul_div_succ N (hq k)).le
  calc Fintype.card ι*#(leading N q k)
      ≤ Fintype.card ι*((∏ j ∈ univ.erase k, q j)*
          (q k*∑ v ∈ range (N/q k+1), (v+1)^(Fintype.card ι-1))) :=
        Nat.mul_le_mul_left _ (hcount.trans (Nat.mul_le_mul_left _ hblocks))
    _ = (∏ j, q j)*(Fintype.card ι*∑ v ∈ range (N/q k+1), (v+1)^(Fintype.card ι-1)) := by
        rw [← mul_prod_erase univ q (mem_univ k)]
        ring
    _ ≤ (∏ j, q j)*(N/q k+2)^Fintype.card ι := Nat.mul_le_mul_left _ (sum_pow_le _ _)

/-- At least so many draws put `k` ahead, where no divisor reaches beyond the draws
before the quotient `V`. -/
theorem le_card_winning (hq : ∀ j, 0 < q j) (k : ι) {V : ℕ} (hV : 0 < V)
    (hN : ∀ j, q j*V ≤ N) :
    (∏ j, q j)*(q k*(V-1)^Fintype.card ι+
        Fintype.card ι*((N-q k*V)*V^(Fintype.card ι-1))) ≤
      q k*(Fintype.card ι*#(winning N q k)) := by
  have hn : 0 < Fintype.card ι := Fintype.card_pos_iff.mpr ⟨k⟩
  generalize hpower : Fintype.card ι-1 = e
  -- what a draw with the quotient `v` is worth: above `V` no more than at `V`
  let F (v : ℕ) : ℕ := if 0 < v then min v V^e else 0
  have hform : winning N q k = ({h | 0 < (h k : ℕ)/q k ∧ ∀ j, j ≠ k →
      h j ∈ ({y : Fin N | (y : ℕ)/q j < (h k : ℕ)/q k} : Finset (Fin N))} : Finset _) := by
    apply filter_congr
    intro h _
    refine and_congr_right fun _ => forall₂_congr fun j _ => ?_
    rw [mem_filter]
    exact (and_iff_right (mem_univ _)).symm
  have hcount : (∏ j ∈ univ.erase k, q j)*∑ x ∈ range N, F (x/q k) ≤ #(winning N q k) := by
    rw [hform, card_by_coordinate k (fun x : Fin N => 0 < (x : ℕ)/q k)
      (fun x j => ({y : Fin N | (y : ℕ)/q j < (x : ℕ)/q k} : Finset (Fin N))), sum_filter,
      ← Fin.sum_univ_eq_sum_range (fun x => F (x/q k)), mul_sum]
    apply sum_le_sum
    intro x _
    dsimp only [F]
    split
    · calc (∏ j ∈ univ.erase k, q j)*min ((x : ℕ)/q k) V^e
          = ∏ j ∈ univ.erase k, q j*min ((x : ℕ)/q k) V := by
            rw [prod_mul_distrib, prod_const, card_erase_of_mem (mem_univ k), card_univ, hpower]
        _ ≤ ∏ j ∈ univ.erase k, #({y : Fin N | (y : ℕ)/q j < (x : ℕ)/q k} : Finset (Fin N)) := by
          apply prod_le_prod' fun j _ => ?_
          rw [card_quotient_lt (hq j)]
          apply Nat.le_min.mpr
          exact ⟨(Nat.mul_le_mul_left _ (Nat.min_le_right _ _)).trans (hN j),
            Nat.mul_le_mul_left _ (Nat.min_le_left _ _)⟩
    · exact Nat.zero_le _
  obtain ⟨M, rfl⟩ : ∃ M, V = M+1 := ⟨V-1, by omega⟩
  -- the draws before the quotient `V` come in full blocks of `q k`
  have hbelow : q k*∑ u ∈ range M, (u+1)^e ≤ ∑ x ∈ range (q k*(M+1)), F (x/q k) := by
    rw [sum_div F (hq k), sum_range_succ']
    apply Nat.mul_le_mul_left
    refine le_trans (sum_le_sum fun u hu => ?_) (Nat.le_add_right _ _)
    have hu' : u < M := mem_range.mp hu
    dsimp only [F]
    rw [if_pos (Nat.succ_pos u), Nat.min_eq_left (by omega)]
  -- all draws from there on count as at `V`
  have habove : (N-q k*(M+1))*(M+1)^e ≤
      ∑ i ∈ range (N-q k*(M+1)), F ((q k*(M+1)+i)/q k) := by
    rw [← card_range (N-q k*(M+1)), ← smul_eq_mul, ← sum_const, card_range]
    apply sum_le_sum
    intro i _
    have hquot : M+1 ≤ (q k*(M+1)+i)/q k := by
      rw [Nat.mul_add_div (hq k)]
      exact Nat.le_add_right _ _
    dsimp only [F]
    rw [if_pos (by omega), Nat.min_eq_right hquot]
  have hsum : ∑ x ∈ range N, F (x/q k) = ∑ x ∈ range (q k*(M+1)), F (x/q k)+
      ∑ i ∈ range (N-q k*(M+1)), F ((q k*(M+1)+i)/q k) := by
    rw [← sum_range_add (fun x => F (x/q k)), Nat.add_sub_cancel' (hN k)]
  have hpow : M^Fintype.card ι ≤ Fintype.card ι*∑ u ∈ range M, (u+1)^e := by
    rw [← hpower]
    exact le_sum_pow hn M
  rw [Nat.add_sub_cancel, ← mul_prod_erase univ q (mem_univ k)]
  calc q k*(∏ j ∈ univ.erase k, q j)*(q k*M^Fintype.card ι+
          Fintype.card ι*((N-q k*(M+1))*(M+1)^e))
      ≤ q k*(∏ j ∈ univ.erase k, q j)*(q k*(Fintype.card ι*∑ u ∈ range M, (u+1)^e)+
          Fintype.card ι*((N-q k*(M+1))*(M+1)^e)) :=
        Nat.mul_le_mul_left _ (Nat.add_le_add_right (Nat.mul_le_mul_left _ hpow) _)
    _ = q k*(Fintype.card ι*((∏ j ∈ univ.erase k, q j)*(q k*(∑ u ∈ range M, (u+1)^e)+
          (N-q k*(M+1))*(M+1)^e))) := by ring
    _ ≤ q k*(Fintype.card ι*((∏ j ∈ univ.erase k, q j)*∑ x ∈ range N, F (x/q k))) := by
        apply Nat.mul_le_mul_left
        apply Nat.mul_le_mul_left
        apply Nat.mul_le_mul_left
        rw [hsum]
        exact Nat.add_le_add hbelow habove
    _ ≤ q k*(Fintype.card ι*#(winning N q k)) :=
        Nat.mul_le_mul_left _ (Nat.mul_le_mul_left _ hcount)

end Counting

end Contest
